import LiveQuery.Command.Arguments
import LiveQuery.Feed.State
import LiveQuery.Query.Results
import LiveQuery.Query.Statement
import LiveQuery.Settings.Document
import LiveQuery.Settings.Search
import LiveQuery.Text.Timestamp

/-!
# Carrying out a command

What a command line does, up to the point where a feed has to be followed. Everything that it needs
of the outside is in a `World`: the environment and the files.
-/

namespace LiveQuery.Command

open Settings (Source SettingsError Found)

/-- What a command line sees of the outside. -/
structure World where
  environment : String → Option String
  source : String → Source

/-- A failure: what went wrong, and why, from the outside inwards. -/
structure Failure where
  message : String
  causes : List String
deriving DecidableEq, Repr

namespace Failure

/-- The lines of a text behind the first, each with `margin` in front. -/
def indented (margin : String) (text : String) : String :=
  String.intercalate ("\n" ++ margin) (text.splitOn "\n")

/-- A cause with its number. -/
def numberedCause (cause : String) (n : Nat) : String :=
  let digits := Nat.repr n
  let room := String.ofList (List.replicate (5 - digits.length) ' ')
  room ++ digits ++ ": " ++ indented "       " cause ++ "\n"

/-- A failure in words. One cause stands alone, several are numbered. -/
def report (f : Failure) : String :=
  "Error: " ++ f.message ++ "\n" ++
    match f.causes with
    | [] => ""
    | [cause] => "\nCaused by:\n    " ++ indented "    " cause ++ "\n"
    | causes =>
      "\nCaused by:\n" ++ String.join (causes.zipIdx.map fun (cause, n) => numberedCause cause n)

end Failure

/-- The end of a program: its exit code and what it writes. -/
structure Finish where
  code : Nat
  output : String
  report : String
deriving DecidableEq, Repr

def Finish.success (output : String) : Finish := ⟨0, output, ""⟩

def Finish.failure (f : Failure) : Finish := ⟨1, "", f.report⟩

/-- A feed to follow, with the queries that its events go through. -/
structure Session where
  settings : Settings
  feed : String
  queries : List Expr

inductive Outcome where
  | finished (f : Finish)
  /-- The mistake is told, and the exit code is two. -/
  | misused (e : UsageError)
  | follow (s : Session)

def version : String := "rivulet 0.1.0\n"

def usage : String :=
"Live queries over streaming JSON feeds

Usage: rivulet [OPTIONS] <COMMAND>

Commands:
  query <FEED> <STATEMENTS>...  Evaluate statements against every event of a feed
  check <STATEMENT>             Parse a statement and print its display form
  functions                     List registered functions
  config                        Print the default config file

Options:
  -c, --config <CONFIG>      Config file (default: search the usual locations)
      --upstream <UPSTREAM>  Upstream feed server, overrides the config file
  -h, --help                 Print help
  -V, --version              Print version
"

def decodeSettings (text : String) : Except String Settings :=
  match Settings.parse text with
  | some settings => .ok settings
  | none => .error "not a TOML document with the settings of this program"

/-- The settings for a command. A file that is named has to hold them. -/
def findSettings (w : World) (config : Option String) : Except SettingsError Found :=
  let overrides := Settings.Overrides.ofEnvironment w.environment
  match config with
  | some path =>
    (Settings.loadWith decodeSettings overrides path (w.source path)).map fun settings =>
      ⟨settings, some path, []⟩
  | none =>
    let files := Settings.usualFiles w.environment
    .ok (Settings.search decodeSettings overrides (files.map fun path => (path, w.source path)))

def readStatement (statement : String) : Except Failure Expr :=
  match Expr.parse statement with
  | .ok e => .ok e
  | .error e => .error ⟨"Invalid statement " ++ Text.quoted statement, [e.message]⟩

def signatureLine (name : String) (arity : Nat) : String :=
  let room := String.ofList (List.replicate (14 - name.length) ' ')
  name ++ room ++ " " ++ Nat.repr arity ++ " argument" ++ (if arity = 1 then "" else "s") ++ "\n"

def perform (settings : Settings) : Task → Except Failure Outcome
  | .check statement => do
    let e ← readStatement statement
    pure (.finished (.success (e.display ++ "\n")))
  | .functions =>
    pure (.finished (.success
      (String.join (Registry.builtin.signatures.map fun (name, arity) =>
        signatureLine name arity))))
  | .config => pure (.finished (.success Settings.template))
  | .query feed statements => do
    let queries ← statements.mapM readStatement
    pure (.follow ⟨settings, feed, queries⟩)

/-- Carries out an invocation. The settings are looked for before anything else is done. -/
def invoke (w : World) : Invocation → Outcome
  | .version => .finished (.success version)
  | .help => .finished (.success usage)
  | .run task options =>
    match findSettings w options.config with
    | .error e => .finished (.failure ⟨e.message, []⟩)
    | .ok found =>
      let settings := { found.settings with
        server := { found.settings.server with
          address := options.server.getD found.settings.server.address } }
      match perform settings task with
      | .ok outcome => outcome
      | .error f => .finished (.failure f)

def run (w : World) (arguments : List String) : Outcome :=
  match parse arguments with
  | .ok invocation => invoke w invocation
  | .error e => .misused e

/-- The files that a command line may look at. -/
def consulted (environment : String → Option String) (arguments : List String) : List String :=
  match parse arguments with
  | .ok (.run _ options) => options.config.elim (Settings.usualFiles environment) ([·])
  | _ => []

/-- The end of a session whose feed cannot be followed. -/
def Session.unreachable (s : Session) (e : Feed.FeedError) : Finish :=
  .failure ⟨"Failed to subscribe to feed " ++ s.feed, e.message :: e.cause?.toList⟩

/-- The session after an event, and the results of its queries. -/
def Session.step (s : Session) (m : Moment) : Session × Json :=
  let (queries, results) := Results.evaluateAll m s.queries
  ({ s with queries := queries }, results)

/-- The line that tells of the results of an event, with the time of their evaluation. -/
def resultLine (results : Json) (time : Nat) : String :=
  Feed.encodeLine (.object [("results", results), ("timestamp", .str (Text.timestamp time))])

end LiveQuery.Command
