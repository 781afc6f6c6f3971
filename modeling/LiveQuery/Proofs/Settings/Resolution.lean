import LiveQuery.Settings.Search

/-!
# Which settings count

Of a list of files the first that holds settings counts, and if there is none the standard settings
do. `Resolves` says so without a search, along with the failures that are to be reported. The search
finds what it says and puts the values of the environment in place; the files that are passed over
have no say in the settings.
-/

namespace LiveQuery.Settings

/-! ### What a file gives on its own -/

def settings? (decode : Decoder) : String × Source → Option Settings
  | (_, .text content) => (decode content).toOption
  | _ => none

/-- Why a file that is there gives no settings. -/
def failure? (decode : Decoder) : String × Source → Option SettingsError
  | (_, .absent) => none
  | (path, .unreadable cause) => some (.io path cause)
  | (path, .text content) =>
    match decode content with
    | .ok _ => none
    | .error cause => some (.parse path cause)

/-- The settings that count before the environment is asked, the path of their file, and the
failures of the files before it. -/
inductive Resolves (decode : Decoder) :
    List (String × Source) → Settings → Option String → List SettingsError → Prop
  | file {before after : List (String × Source)} {file : String × Source} {base : Settings}
    (hbefore : ∀ earlier ∈ before, settings? decode earlier = none)
    (hfile : settings? decode file = some base) :
    Resolves decode (before ++ file :: after) base (some file.1)
      (before.filterMap (failure? decode))
  | standard {files : List (String × Source)} (h : ∀ file ∈ files, settings? decode file = none) :
    Resolves decode files {} none (files.filterMap (failure? decode))

section Search

variable (decode : Decoder) (o : Overrides)

/-! ### One file -/

theorem search_cons_of_settings {file : String × Source} {base : Settings}
    (h : settings? decode file = some base) (rest : List (String × Source)) :
    search decode o (file :: rest) = ⟨override o base, some file.1, []⟩ := by
  obtain ⟨path, source⟩ := file
  cases source with
  | absent => cases h
  | unreadable cause => cases h
  | text content =>
    cases hdecode : decode content with
    | error cause => simp [settings?, hdecode, Except.toOption] at h
    | ok settings =>
      obtain rfl : settings = base := by simpa [settings?, hdecode, Except.toOption] using h
      have hload : loadWith decode o path (.text content) = .ok (override o settings) := by
        rw [loadWith, load, hdecode]
        rfl
      simp only [search, hload]

/-- A file that does not count is passed over, and is reported if it is there. -/
theorem search_cons_of_none {file : String × Source} (h : settings? decode file = none)
    (rest : List (String × Source)) :
    search decode o (file :: rest) =
      { search decode o rest with
        failures := (failure? decode file).toList ++ (search decode o rest).failures } := by
  obtain ⟨path, source⟩ := file
  cases source with
  | absent => rfl
  | unreadable cause => rfl
  | text content =>
    cases hdecode : decode content with
    | ok settings => simp [settings?, hdecode, Except.toOption] at h
    | error cause =>
      have hload : loadWith decode o path (.text content) = .error (.parse path cause) := by
        rw [loadWith, load, hdecode]
        rfl
      simp [search, hload, failure?, hdecode]

variable {decode}

theorem Resolves.cons_of_settings {file : String × Source} {base : Settings}
    (h : settings? decode file = some base) (rest : List (String × Source)) :
    Resolves decode (file :: rest) base (some file.1) [] := by
  have hnone : ∀ earlier ∈ ([] : List (String × Source)), settings? decode earlier = none := nofun
  exact .file hnone h

theorem Resolves.cons_of_none {file : String × Source} {rest : List (String × Source)}
    {base : Settings} {path : Option String} {failures : List SettingsError}
    (h : settings? decode file = none) (hrest : Resolves decode rest base path failures) :
    Resolves decode (file :: rest) base path ((failure? decode file).toList ++ failures) := by
  have hfailures : ∀ files : List (String × Source), (file :: files).filterMap (failure? decode) =
      (failure? decode file).toList ++ files.filterMap (failure? decode) := by
    intro files
    cases hfailure : failure? decode file <;> simp [hfailure]
  cases hrest with
  | file hbefore hfile =>
    rw [← hfailures]
    exact .file (List.forall_mem_cons.2 ⟨h, hbefore⟩) hfile
  | standard hall =>
    rw [← hfailures]
    exact .standard (List.forall_mem_cons.2 ⟨h, hall⟩)

/-! ### All files -/

variable (decode)

theorem search_spec (files : List (String × Source)) :
    ∃ base,
      Resolves decode files base (search decode o files).path (search decode o files).failures ∧
        (search decode o files).settings = override o base := by
  induction files with
  | nil => exact ⟨{}, .standard nofun, rfl⟩
  | cons file rest ih =>
    cases hfile : settings? decode file with
    | some base =>
      rw [search_cons_of_settings decode o hfile]
      exact ⟨base, .cons_of_settings hfile rest, rfl⟩
    | none =>
      obtain ⟨base, hrest, hsettings⟩ := ih
      rw [search_cons_of_none decode o hfile]
      exact ⟨base, hrest.cons_of_none hfile, hsettings⟩

/-- Without the files that do not count the search finds the same, and nothing to report. -/
theorem search_filter (files : List (String × Source)) :
    search decode o (files.filter fun file => (settings? decode file).isSome) =
      { search decode o files with failures := [] } := by
  induction files with
  | nil => rfl
  | cons file rest ih =>
    cases hfile : settings? decode file with
    | some base =>
      rw [List.filter_cons_of_pos (by rw [hfile]; rfl), search_cons_of_settings decode o hfile,
        search_cons_of_settings decode o hfile]
    | none =>
      rw [List.filter_cons_of_neg (by rw [hfile]; exact Bool.false_ne_true), ih,
        search_cons_of_none decode o hfile]

end Search

/-! ### The environment -/

theorem override_override (o : Overrides) (s : Settings) :
    override o (override o s) = override o s := by
  obtain ⟨address, cacheKey, logLevel, logFormat⟩ := o
  cases address <;> cases cacheKey <;> cases logLevel <;> cases logFormat <;> rfl

/-- The first file with settings counts, or the standard settings do. The environment has the last
word on four of them and no say in the others. -/
theorem search_resolves (decode : Decoder) (environment : String → Option String)
    (files : List (String × Source)) :
    let o := Overrides.ofEnvironment environment
    let found := search decode o files
    (∃ base, Resolves decode files base found.path found.failures ∧
      found.settings = { base with
        server.address := (environment "RIVULET_UPSTREAM").getD base.server.address
        stream.cacheKey :=
          match environment "RIVULET_CACHE_KEY" with
          | none => base.stream.cacheKey
          | some key => if key = "" then none else some key
        logging.level := (environment "RIVULET_LOG_LEVEL").getD base.logging.level
        logging.format := (environment "RIVULET_LOG_FORMAT").getD base.logging.format }) ∧
    override o found.settings = found.settings ∧
    search decode o (files.filter fun file => (settings? decode file).isSome) =
      { found with failures := [] } := by
  intro o found
  obtain ⟨base, hresolves, hsettings⟩ := search_spec decode o files
  refine ⟨⟨base, hresolves, hsettings⟩, ?_, search_filter decode o files⟩
  change override o (search decode o files).settings = (search decode o files).settings
  rw [hsettings, override_override]

/-- A file that is not there, one that is not decoded, and one that is. -/
example :
    search (fun text => if text = "" then .ok {} else .error "no settings")
        ⟨none, some "", none, none⟩
        [("a", .absent), ("b", .text "?"), ("c", .text ""), ("d", .unreadable "denied")] =
      ⟨{}, some "c", [.parse "b" "no settings"]⟩ := by
  decide

end LiveQuery.Settings
