import Mathlib.Data.List.Nodup
import LiveQuery.Query.Results
import LiveQuery.Proofs.Keyed
import LiveQuery.Proofs.Query.Places

/-!
# No result is lost

Queries that are evaluated together do not see each other: each of them goes through the events as
it would alone. Their results meet only in the names under which they are kept. So the evaluation
comes apart into what every query shows and gives (`outcome`) and the filing of these outcomes one
after the other (`file`). Whatever the texts are, each outcome gets a name that is still free, in
the way that `Named` says, and is found under it at the end.
-/

namespace LiveQuery

/-! ### A free name -/

namespace Results

theorem numbered_injective (text : String) {m n : Nat} (h : numbered text m = numbered text n) :
    m = n := by
  have hrepr : m.repr = n.repr := (String.append_right_inj _).1 h
  have hdigits : Nat.toDigits 10 m = Nat.toDigits 10 n := by
    rw [← Nat.toList_repr, ← Nat.toList_repr, hrepr]
  rw [← Nat.ofDigitChars_ten_toDigits (n := m), hdigits, Nat.ofDigitChars_ten_toDigits]

theorem numbered_ne (text : String) (n : Nat) : numbered text n ≠ text := by
  intro h
  have hlength := congrArg String.length h
  rw [numbered, String.length_append, String.length_append] at hlength
  have hmark : "#".length = 1 := rfl
  omega

/-- The name that a text gets while these are taken. -/
inductive Named (taken : List String) (text : String) : String → Prop
  /-- The text itself, if it is free. -/
  | own (free : text ∉ taken) : Named taken text text
  /-- Otherwise the text with the least number from two on that gives a free name. It is found among
  as many numbers as there are names. -/
  | withNumber {n : Nat} (clash : text ∈ taken) (two : 2 ≤ n) (free : numbered text n ∉ taken)
    (least : ∀ k, 2 ≤ k → k < n → numbered text k ∈ taken) (early : n ≤ taken.length + 1) :
    Named taken text (numbered text n)

theorem Named.free {taken : List String} {text name : String} (h : Named taken text name) :
    name ∉ taken := by
  cases h with
  | own free => exact free
  | withNumber _ _ free => exact free

theorem Named.perm {taken taken' : List String} {text name : String} (h : Named taken text name)
    (hperm : taken.Perm taken') : Named taken' text name := by
  cases h with
  | own free => exact .own fun hmem => free (hperm.mem_iff.2 hmem)
  | withNumber clash two free least early =>
    exact .withNumber (hperm.mem_iff.1 clash) two (fun hmem => free (hperm.mem_iff.2 hmem))
      (fun k hk hlt => hperm.mem_iff.1 (least k hk hlt)) (hperm.length_eq ▸ early)

/-- The names cannot all be the text and the text with a number. -/
theorem exists_numbered_not_mem {taken : List String} {text : String} (h : text ∈ taken) :
    ∃ n, 2 ≤ n ∧ n ≤ taken.length + 1 ∧ numbered text n ∉ taken := by
  by_contra hall
  push Not at hall
  let candidates := text :: (List.range taken.length).map fun k => numbered text (k + 2)
  have hnodup : candidates.Nodup := by
    refine List.nodup_cons.2 ⟨fun hmem => ?_, List.nodup_range.map fun j k heq => ?_⟩
    · obtain ⟨k, -, hk⟩ := List.mem_map.1 hmem
      exact numbered_ne text (k + 2) hk
    · exact Nat.add_right_cancel (numbered_injective text heq)
  have hsubset : candidates ⊆ taken := by
    refine List.cons_subset.2 ⟨h, fun name hname => ?_⟩
    obtain ⟨k, hk, rfl⟩ := List.mem_map.1 hname
    have hlt := List.mem_range.1 hk
    exact hall (k + 2) (Nat.le_add_left 2 k) (by omega)
  have hle := hnodup.length_le_of_subset hsubset
  rw [List.length_cons, List.length_map, List.length_range] at hle
  omega

/-- The search finds the least number, if there is one that it comes to. -/
theorem firstFree_eq (taken : String → Bool) (text : String) {fuel first last : Nat}
    (hfirst : first ≤ last) (hlast : last ≤ first + fuel)
    (hfree : taken (numbered text last) = false) :
    ∃ n, first ≤ n ∧ n ≤ last ∧ firstFree taken text fuel first = numbered text n ∧
      taken (numbered text n) = false ∧
      ∀ k, first ≤ k → k < n → taken (numbered text k) = true := by
  induction fuel generalizing first with
  | zero =>
    obtain rfl : last = first := by omega
    exact ⟨last, Nat.le_refl _, Nat.le_refl _, rfl, hfree, fun k _ _ => by omega⟩
  | succ fuel ih =>
    rw [firstFree]
    cases htaken : taken (numbered text first) with
    | false =>
      exact ⟨first, Nat.le_refl _, hfirst, rfl, htaken, fun k _ _ => by omega⟩
    | true =>
      have hne : first ≠ last := by
        rintro rfl
        exact Bool.false_ne_true (hfree.symm.trans htaken)
      have hfirst' : first + 1 ≤ last := Nat.lt_of_le_of_ne hfirst hne
      have hlast' : last ≤ first + 1 + fuel := by omega
      obtain ⟨n, hle, hn, hname, hn', hleast⟩ := ih hfirst' hlast'
      refine ⟨n, by omega, hn, by rw [if_pos rfl, hname], hn', fun k hk hlt => ?_⟩
      by_cases heq : k = first
      · rw [heq, htaken]
      · exact hleast k (by omega) hlt

theorem uniqueName_named (results : List (String × Json)) (text : String) :
    Named (Keyed.keys results) text (uniqueName results text) := by
  have hlength : (Keyed.keys results).length = results.length := List.length_map _
  have hmem {name : String} :
      (Keyed.find? name results).isSome = true ↔ name ∈ Keyed.keys results :=
    Keyed.mem_keys_iff.symm
  by_cases hclash : text ∈ Keyed.keys results
  · obtain ⟨last, htwo, hlast, hfree⟩ := exists_numbered_not_mem hclash
    rw [← hmem, Bool.not_eq_true] at hfree
    have hfuel : last ≤ 2 + results.length := by omega
    obtain ⟨n, hn, hle, hname, hfree', hleast⟩ :=
      firstFree_eq (fun name => (Keyed.find? name results).isSome) text htwo hfuel hfree
    rw [uniqueName, if_pos (hmem.2 hclash), hname]
    refine .withNumber hclash hn ?_ (fun k hk hlt => hmem.1 (hleast k hk hlt)) (by omega)
    rw [← hmem, hfree']
    exact Bool.false_ne_true
  · rw [uniqueName, if_neg fun hsome => hclash (hmem.1 hsome)]
    exact .own hclash

/-! ### Filing -/

/-- What a query shows and gives after its evaluation. -/
def outcome (given : Expr × QueryResult) : String × Json := (given.1.display, valueOf given.2)

/-- The results with an outcome. -/
def file (results : List (String × Json)) (given : String × Json) : List (String × Json) :=
  Keyed.insert (uniqueName results given.1) given.2 results

/-- Under these names the outcomes have come to the earlier results. -/
structure Filed (earlier : List (String × Json)) (outcomes : List (String × Json))
    (names : List String) (results : List (String × Json)) : Prop where
  length : names.length = outcomes.length
  keys : (Keyed.keys results).Perm (Keyed.keys earlier ++ names)
  kept (name : String) (h : name ∈ Keyed.keys earlier) :
    Keyed.find? name results = Keyed.find? name earlier
  found (i : Nat) (given : String × Json) (h : outcomes[i]? = some given) :
    ∃ name, names[i]? = some name ∧ Named (Keyed.keys earlier ++ names.take i) given.1 name ∧
      Keyed.find? name results = some given.2

theorem Filed.nil (earlier : List (String × Json)) : Filed earlier [] [] earlier where
  length := rfl
  keys := by rw [List.append_nil]
  kept _ _ := rfl
  found i given h := by simp at h

theorem Filed.cons {earlier outcomes results : List (String × Json)} {names : List String}
    (given : String × Json) (h : Filed (file earlier given) outcomes names results) :
    Filed earlier (given :: outcomes) (uniqueName earlier given.1 :: names) results := by
  have hnamed := uniqueName_named earlier given.1
  have hkeys := Keyed.keys_insert_perm hnamed.free given.2
  have hname : uniqueName earlier given.1 ∈ Keyed.keys (file earlier given) :=
    Keyed.mem_keys_insert.2 (.inl rfl)
  have hmiddle (rest : List String) : (Keyed.keys (file earlier given) ++ rest).Perm
      (Keyed.keys earlier ++ uniqueName earlier given.1 :: rest) :=
    (hkeys.append_right rest).trans List.perm_middle.symm
  refine ⟨congrArg (· + 1) h.length, h.keys.trans (hmiddle names), fun name hmem => ?_, ?_⟩
  · have hne : name ≠ uniqueName earlier given.1 := fun heq => hnamed.free (heq ▸ hmem)
    rw [h.kept name (Keyed.mem_keys_insert.2 (.inr hmem)), file, Keyed.find?_insert, if_neg hne]
  · intro i other hother
    cases i with
    | zero =>
      obtain rfl : given = other := by simpa using hother
      refine ⟨_, rfl, ?_, ?_⟩
      · rwa [List.take_zero, List.append_nil]
      · rw [h.kept _ hname, file, Keyed.find?_insert, if_pos rfl]
    | succ i =>
      obtain ⟨name, hget, hnamed', hfound⟩ := h.found i other (by simpa using hother)
      exact ⟨name, by simpa using hget, hnamed'.perm (hmiddle (names.take i)), hfound⟩

/-- The queries after a run of events. -/
def afterAll (history : List Occasion) (queries : List Expr) : List Expr :=
  history.foldl (fun queries o => (evaluateOn o queries).1) queries

/-- A label may look like a name with a number. -/
example : uniqueName [("x", .null), ("x#2", .null)] "x" = "x#3" := by decide

end Results

end LiveQuery
