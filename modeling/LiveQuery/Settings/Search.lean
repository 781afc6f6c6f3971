import LiveQuery.Settings.Basic
import LiveQuery.Text.Quoted

/-!
# Where settings come from

Settings are looked for in a list of files. The first file that can be read counts, and with it
alone: a file that is there but cannot be read is reported and passed over, and so is a file that
does not hold settings. In every case the environment has the last word. How a text is decoded is
left open here.
-/

namespace LiveQuery.Settings

/-- What there is at a path. -/
inductive Source where
  | absent
  | unreadable (cause : String)
  | text (content : String)
deriving DecidableEq, Repr

/-- Why a file gives no settings. -/
inductive SettingsError where
  | io (path cause : String)
  | parse (path cause : String)
deriving DecidableEq, Repr

def SettingsError.message : SettingsError → String
  | .io path cause => "Failed to read config file " ++ Text.quoted path ++ ": " ++ cause
  | .parse path cause => "Failed to parse config file " ++ Text.quoted path ++ ": " ++ cause

/-- The cause of the failure to read a file that is not there. -/
def noSuchFile : String := "No such file or directory (os error 2)"

/-- A way to decode a text: settings, or what is wrong with it. -/
abbrev Decoder := String → Except String Settings

def load (decode : Decoder) (path : String) : Source → Except SettingsError Settings
  | .absent => .error (.io path noSuchFile)
  | .unreadable cause => .error (.io path cause)
  | .text content => (decode content).mapError (.parse path)

/-- The settings of a file, with those of the environment in place of its own. -/
def loadWith (decode : Decoder) (o : Overrides) (path : String) (source : Source) :
    Except SettingsError Settings :=
  (load decode path source).map (override o)

/-- The user's own file. It is in the directory that the environment names for settings, if that is
an absolute path, and else below the home directory. -/
def userFile? (environment : String → Option String) : Option String :=
  let directory := (environment "XDG_CONFIG_HOME").filter (·.startsWith "/")
  let fallback := ((environment "HOME").filter (· ≠ "")).map (· ++ "/.config")
  (directory <|> fallback).map (· ++ "/rivulet/config.toml")

/-- The files in which settings are looked for, the first that counts first. -/
def usualFiles (environment : String → Option String) : List String :=
  (userFile? environment).toList ++ ["/etc/rivulet/config.toml", "./rivulet.toml"]

/-- The variables of the environment that matter. -/
def variableNames : List String :=
  ["XDG_CONFIG_HOME", "HOME", "RIVULET_UPSTREAM", "RIVULET_CACHE_KEY", "RIVULET_LOG_LEVEL",
    "RIVULET_LOG_FORMAT"]

/-- What a search finds. -/
structure Found where
  settings : Settings
  /-- The path of the file that counted, if there was one. -/
  path : Option String
  /-- The failures of the files before it. -/
  failures : List SettingsError
deriving DecidableEq, Repr

/-- Looks for settings in one file after the other. Without a file that counts there are the
standard settings. -/
def search (decode : Decoder) (o : Overrides) : List (String × Source) → Found
  | [] => ⟨override o {}, none, []⟩
  | (path, source) :: rest =>
    match source with
    | .absent => search decode o rest
    | source =>
      match loadWith decode o path source with
      | .ok settings => ⟨settings, some path, []⟩
      | .error e =>
        let found := search decode o rest
        { found with failures := e :: found.failures }

end LiveQuery.Settings
