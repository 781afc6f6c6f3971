import Mathlib
import LiveQuery.Json.Path
import LiveQuery.Proofs.Decimal.Numerals

/-!
# Paths lead where their segments say

`Reaches` says what a path ought to mean: one descent after another, each by name into an object or
by position into an array. A segment spells a name as it stands and a position in decimal
(`Spells`); which of the two it is for depends on the value that it descends into. With this,
`at?` finds exactly what the segments of the text lead to, it leads on from what a first part of the
text finds, and every value below another one is found by a text that spells the way to it.
-/

namespace LiveQuery.Json

/-- One level down. A position fits into 64 bits. -/
inductive Step where
  | name (name : String)
  | position (i : UInt64)

/-- The usual text of a step: the name itself, and a position in decimal. -/
def Step.text : Step → String
  | .name s => s
  | .position i => toString i.toNat

/-- The second value is what the step leads to from the first. -/
inductive Below : Json → Step → Json → Prop
  | field {fields : List (String × Json)} {name : String} {v : Json}
    (h : Keyed.find? name fields = some v) : Below (.object fields) (.name name) v
  | item {items : List Json} {i : UInt64} {v : Json}
    (h : items[i.toNat]? = some v) : Below (.array items) (.position i) v

/-- The second value is what the steps lead to from the first. -/
inductive Reaches : Json → List Step → Json → Prop
  | here (j : Json) : Reaches j [] j
  | down {j k v : Json} {step : Step} {rest : List Step} (h : Below j step k)
    (hrest : Reaches k rest v) : Reaches j (step :: rest) v

/-- The segment can be read as the step. A position may have zeros and a plus sign in front. -/
inductive Spells : List Char → Step → Prop
  | name (name : String) : Spells name.toList (.name name)
  | position {sign digits : List Char} {i : UInt64} (hsign : sign = [] ∨ sign = ['+'])
    (hne : digits ≠ []) (hdigits : ∀ c ∈ digits, c.isDigit = true)
    (hvalue : Nat.ofDigitChars 10 digits 0 = i.toNat) : Spells (sign ++ digits) (.position i)

/-! ### Segments -/

theorem segments_eq_splitOn (cs : List Char) : segments cs = cs.splitOn '.' := by
  induction cs with
  | nil => rfl
  | cons c rest ih =>
    rw [List.splitOn_cons_eq_if_modifyHead, segments, ih]
    by_cases hc : c = '.'
    · rw [if_pos hc, if_pos (beq_iff_eq.2 hc)]
    · rw [if_neg hc, if_neg fun h => hc (beq_iff_eq.1 h)]
      -- There is always a first segment for the character to go in front of.
      obtain ⟨s, more, hsegments⟩ := List.exists_cons_of_ne_nil (List.splitOn_ne_nil '.' rest)
      rw [hsegments]
      rfl

theorem position?_eq_some_iff {segment : List Char} {n : Nat} :
    position? segment = some n ↔ ∃ i : UInt64, i.toNat = n ∧ Spells segment (.position i) := by
  rw [position?, Decimal.unsignedBelow?_eq_some_iff]
  constructor
  · rintro ⟨hlimit, sign, digits, rfl, hsign, hread⟩
    obtain ⟨hne, hdigits, hvalue⟩ := Decimal.unsigned?_eq_some_iff.1 hread
    have hword : (UInt64.ofNat n).toNat = n := UInt64.toNat_ofNat_of_lt' hlimit
    rw [Decimal.digitsValue_eq, ← hword] at hvalue
    exact ⟨.ofNat n, hword, .position hsign hne hdigits hvalue⟩
  · rintro ⟨i, rfl, hspells⟩
    cases hspells with
    | position hsign hne hdigits hvalue =>
      rw [← Decimal.digitsValue_eq] at hvalue
      exact ⟨i.toNat_lt, _, _, rfl, hsign, Decimal.unsigned?_eq_some_iff.2 ⟨hne, hdigits, hvalue⟩⟩

theorem spells_name_iff {segment : List Char} {name : String} :
    Spells segment (.name name) ↔ segment = name.toList := by
  constructor
  · rintro ⟨⟩
    rfl
  · rintro rfl
    exact .name name

theorem toList_text_position (i : UInt64) :
    (Step.position i).text.toList = Nat.toDigits 10 i.toNat := Nat.toList_repr

theorem spells_text (step : Step) : Spells step.text.toList step := by
  cases step with
  | name s => exact .name s
  | position i =>
    rw [toList_text_position]
    exact @Spells.position [] _ i (.inl rfl) Nat.toDigits_ne_nil
      (fun _ => Decimal.isDigit_of_mem_toDigits) Nat.ofDigitChars_ten_toDigits

theorem dot_not_mem_text {step : Step} (h : ∀ name, step = .name name → '.' ∉ name.toList) :
    '.' ∉ step.text.toList := by
  cases step with
  | name s => exact h s rfl
  | position i =>
    rw [toList_text_position]
    intro hdot
    exact absurd (Decimal.isDigit_of_mem_toDigits hdot) (by decide)

/-! ### Descents -/

/-- One level down is what some reading of the segment leads to. -/
theorem child?_eq_some_iff {j k : Json} {segment : List Char} :
    j.child? segment = some k ↔ ∃ step, Spells segment step ∧ Below j step k := by
  constructor
  · intro h
    cases j with
    | object fields =>
      exact ⟨.name (String.ofList segment), spells_name_iff.2 String.toList_ofList.symm, .field h⟩
    | array items =>
      obtain ⟨n, hn, hitem⟩ := Option.bind_eq_some_iff.1 h
      obtain ⟨i, rfl, hspells⟩ := position?_eq_some_iff.1 hn
      exact ⟨.position i, hspells, .item hitem⟩
    | null | bool | int | float | str => cases h
  · rintro ⟨step, hspells, hbelow⟩
    cases hbelow with
    | field h =>
      rw [spells_name_iff.1 hspells, child?, String.ofList_toList]
      exact h
    | item h =>
      rw [child?, position?_eq_some_iff.2 ⟨_, rfl, hspells⟩]
      exact h

theorem descend_eq_some_iff {j v : Json} {pieces : List (List Char)} :
    j.descend pieces = some v ↔ ∃ steps, List.Forall₂ Spells pieces steps ∧ Reaches j steps v := by
  induction pieces generalizing j with
  | nil =>
    constructor
    · rintro ⟨⟩
      exact ⟨[], .nil, .here _⟩
    · rintro ⟨steps, ⟨⟩, ⟨⟩⟩
      rfl
  | cons piece rest ih =>
    rw [descend, Option.bind_eq_some_iff]
    constructor
    · rintro ⟨k, hchild, hrest⟩
      obtain ⟨step, hspells, hbelow⟩ := child?_eq_some_iff.1 hchild
      obtain ⟨steps, hsteps, hreaches⟩ := ih.1 hrest
      exact ⟨step :: steps, .cons hspells hsteps, .down hbelow hreaches⟩
    · rintro ⟨steps, hsteps, hreaches⟩
      cases hsteps with
      | cons hspells hsteps =>
        cases hreaches with
        | down hbelow hreaches =>
          exact ⟨_, child?_eq_some_iff.2 ⟨_, hspells, hbelow⟩, ih.2 ⟨_, hsteps, hreaches⟩⟩

theorem descend_append (j : Json) (front back : List (List Char)) :
    j.descend (front ++ back) = (j.descend front).bind fun k => k.descend back := by
  induction front generalizing j with
  | nil => rfl
  | cons piece rest ih =>
    rw [List.cons_append, descend, descend, Option.bind_assoc]
    exact Option.bind_congr fun k _ => ih k

theorem at?_eq_some_iff {j v : Json} {path : String} :
    j.at? path = some v ↔
      ∃ steps, List.Forall₂ Spells (path.toList.splitOn '.') steps ∧ Reaches j steps v := by
  rw [at?, segments_eq_splitOn, descend_eq_some_iff]

theorem at?_append (j : Json) (front back : String) :
    j.at? (front ++ "." ++ back) = (j.at? front).bind fun k => k.at? back := by
  have hsplit : (front ++ "." ++ back).toList.splitOn '.' =
      front.toList.splitOn '.' ++ back.toList.splitOn '.' := by
    rw [String.toList_append, String.toList_append, List.append_assoc]
    exact List.splitOn_append_cons_self front.toList back.toList
  simp only [at?, segments_eq_splitOn, hsplit, descend_append]

theorem at?_of_reaches {j v : Json} {steps : List Step} (hne : steps ≠ [])
    (hnames : ∀ name, Step.name name ∈ steps → '.' ∉ name.toList) (h : Reaches j steps v) :
    j.at? (".".intercalate (steps.map Step.text)) = some v := by
  have hdots : ∀ piece ∈ (steps.map Step.text).map String.toList, '.' ∉ piece := by
    simp only [List.map_map, List.forall_mem_map]
    exact fun step hstep => dot_not_mem_text fun name hname => hnames name (hname ▸ hstep)
  have hsplit : (".".intercalate (steps.map Step.text)).toList.splitOn '.' =
      (steps.map Step.text).map String.toList := by
    rw [String.toList_intercalate]
    exact List.splitOn_intercalate '.' hdots (by simpa using hne)
  refine at?_eq_some_iff.2 ⟨steps, ?_, h⟩
  rw [hsplit, List.map_map, List.forall₂_map_left_iff, List.forall₂_same]
  exact fun step _ => spells_text step

/-- A path of two parts leads on from where the first part leads. A text that spells the steps to a
value finds this value, and what a text finds is reached by one step for each of its segments: by
the name that the segment is in an object, by the position that it denotes in an array. -/
theorem paths_compose_and_reach (d : Json) :
    (∀ p q, d.at? (p ++ "." ++ q) = (d.at? p).bind fun v => v.at? q) ∧
    (∀ steps v, steps ≠ [] → (∀ name, Step.name name ∈ steps → '.' ∉ name.toList) →
      Reaches d steps v → d.at? (".".intercalate (steps.map Step.text)) = some v) ∧
    (∀ p v, d.at? p = some v ↔
      ∃ steps, List.Forall₂ Spells (p.toList.splitOn '.') steps ∧ Reaches d steps v) :=
  ⟨at?_append d, fun _ _ hne hnames h => at?_of_reaches hne hnames h, fun _ _ => at?_eq_some_iff⟩

/-- The name `1` in an object, and the position `1` in an array, which can be written otherwise. -/
theorem paths_compose_and_reach_nested :
    let inner : Json := .object [("a", .int 5)]
    let d : Json := .object [("1", .array [.null, inner])]
    d.at? "1.1.a" = some (.int 5) ∧ d.at? "1.+01" = some inner ∧
      d.at? "1.+01.a" = some (.int 5) := by
  intro inner d
  have hinner : Reaches d [.name "1", .position 1] inner :=
    .down (.field rfl) (.down (.item rfl) (.here inner))
  have hsteps : Reaches d [.name "1", .position 1, .name "a"] (.int 5) :=
    .down (.field rfl) (.down (.item rfl) (.down (.field rfl) (.here (.int 5))))
  have hplus : Spells "+01".toList (.position 1) :=
    @Spells.position ['+'] ['0', '1'] 1 (.inr rfl) (by decide) (by simp) (by decide)
  have hfront : d.at? "1.+01" = some inner :=
    ((paths_compose_and_reach d).2.2 _ _).2
      ⟨_, .cons (.name "1") (.cons hplus .nil), hinner⟩
  refine ⟨(paths_compose_and_reach d).2.1 _ _ (by decide) (by simp) hsteps, hfront, ?_⟩
  rw [show "1.+01.a" = "1.+01" ++ "." ++ "a" from rfl, (paths_compose_and_reach d).1, hfront]
  rfl

end LiveQuery.Json
