import Mathlib
import LiveQuery.Proofs.Query.Tokens

/-!
# Strings survive a statement

Any string can be written as a literal: between the quotes that know escapes with a backslash in
front of what would end it (`quoted`), or as it is between backticks if it holds none
(`backticked`). The reader of literals gives back the string that was written. Wherever such
literals stand as the arguments of a call, with blanks around them or not, the scan finds exactly
these literals: it and the reader end a string at the same character.
-/

namespace LiveQuery.Literal

open Call

/-- A character of a string, written between the quotes `q`. -/
def protect (q c : Char) : List Char := if c = q ∨ c = '\x5c' then ['\x5c', c] else [c]

/-- The string between the quotes `q`, with a backslash before every backslash and every `q`. -/
def quoted (q : Char) (s : String) : List Char := q :: (s.toList.flatMap (protect q) ++ [q])

def backticked (s : String) : List Char := '\x60' :: (s.toList ++ ['\x60'])

/-- The piece is the token with nothing but blanks around it. -/
def Padded (token piece : List Char) : Prop :=
  ∃ before after, piece = before ++ token ++ after ∧
    (∀ c ∈ before, Text.isBlank c = true) ∧ ∀ c ∈ after, Text.isBlank c = true

/-! ### What is written -/

theorem spellsEscaped_protect {q : Char} (hq : q = '\x22' ∨ q = '\x27') (cs : List Char) :
    SpellsEscaped q (cs.flatMap (protect q)) cs := by
  induction cs with
  | nil => exact .nil
  | cons c rest ih =>
    rw [List.flatMap_cons]
    by_cases hc : c = q ∨ c = '\x5c'
    · have hescape : (c, c) ∈ escapes := by
        rcases hc with rfl | rfl
        · rcases hq with rfl | rfl <;> decide
        · decide
      have hprotect : protect q c = ['\x5c', c] := if_pos hc
      rw [hprotect]
      exact .escape hescape ih
    · have hprotect : protect q c = [c] := if_neg hc
      rw [hprotect]
      exact .plain (fun h => hc (.inl h)) (fun h => hc (.inr h)) ih

theorem string?_quoted {q : Char} (hq : q = '\x22' ∨ q = '\x27') (s : String) :
    string? (quoted q s) = some s := by
  have hspells := SpellsString.escaped hq (spellsEscaped_protect hq s.toList)
  rw [String.ofList_toList] at hspells
  exact string?_eq_some_iff.2 hspells

theorem string?_backticked {s : String} (h : '\x60' ∉ s.toList) :
    string? (backticked s) = some s := by
  have hspells := SpellsString.raw h
  rw [String.ofList_toList] at hspells
  exact string?_eq_some_iff.2 hspells

/-! ### Strings as literals -/

/-- A quote begins neither an integer nor a decimal number. -/
theorem parse_eq_str_iff {token : List Char} {s : String} :
    parse token = .ok (.str s) ↔ string? token = some s := by
  constructor
  · intro h
    unfold parse at h
    split at h
    · cases h
    split at h
    · cases h
    split at h
    · rename_i hstring
      cases h
      exact hstring
    · cases h
  · intro h
    obtain ⟨q, rest, rfl, hq, -⟩ := (string?_eq_some_iff.1 h).closes
    have hnumeral : ¬ ∀ c ∈ q :: rest, isOrdinary c = true := by
      intro hall
      have hfirst := hall q List.mem_cons_self
      simp [isOrdinary, hq] at hfirst
    have hinteger : integer? (q :: rest) = none :=
      Option.eq_none_iff_forall_ne_some.2 fun _ hn => hnumeral (isOrdinary_of_integer? hn).2
    have hdecimal : decimal? (q :: rest) = none :=
      Option.eq_none_iff_forall_ne_some.2 fun _ hx => hnumeral (isOrdinary_of_decimal? hx).2
    simp only [parse, hinteger, hdecimal, h]

/-- Up to its last character a string is open, and all of it is gathered. -/
theorem scan_prefix {front back : List Char} {s : String}
    (h : parse (front ++ back) = .ok (.str s)) (hne : front ≠ []) :
    ∃ t, front.foldlM Scan.step Scan.start = .ok t ∧ (t.quote = none ↔ back = []) := by
  obtain ⟨q, rest, hfront, hq, hcloses⟩ := (string?_eq_some_iff.1 (parse_eq_str_iff.1 h)).closes
  obtain ⟨c, inner, rfl⟩ := List.exists_cons_of_ne_nil hne
  obtain ⟨rfl, rfl⟩ := List.cons.inj hfront
  refine ⟨((Mode.inside c).run inner).scan [] (inner.reverse ++ [c]) 0, ?_, ?_⟩
  · rw [start_eq, List.foldlM_cons, step_quote [] [] 0 hq]
    exact hcloses.foldlM_prefix [] [c] 0
  · rw [← hcloses.run_eq_outside_iff]
    cases (Mode.inside c).run inner <;> simp [Mode.scan, Mode.quote?]

/-- No proper part of a string that begins where it begins is a string. -/
theorem eq_nil_of_parse_prefix {front back : List Char} {s s' : String}
    (h : parse (front ++ back) = .ok (.str s)) (hfront : parse front = .ok (.str s')) :
    back = [] := by
  obtain ⟨q, rest, rfl, -, hcloses⟩ := (string?_eq_some_iff.1 (parse_eq_str_iff.1 hfront)).closes
  obtain ⟨q', rest', hwhole, -, hcloses'⟩ := (string?_eq_some_iff.1 (parse_eq_str_iff.1 h)).closes
  obtain ⟨rfl, rfl⟩ := List.cons.inj hwhole
  exact hcloses'.run_eq_outside_iff.1 hcloses.run

theorem condense_padded {token piece : List Char} {v : Value} (h : parse token = .ok v)
    (hpadded : Padded token piece) : condense .outside piece = token := by
  obtain ⟨before, after, rfl, hbefore, hafter⟩ := hpadded
  obtain ⟨htoken, hpiece⟩ := piece_of_parse h
  have hrun : Mode.outside.run (before ++ token) = .outside := by
    rw [Mode.run_append, run_of_isBlank hbefore, hpiece.whole.run]
  rw [condense_append, hrun, condense_append, run_of_isBlank hbefore,
    condense_eq_nil_iff.2 hbefore, condense_eq_nil_iff.2 hafter, htoken, List.nil_append,
    List.append_nil]

theorem piece_of_padded {token piece : List Char} {v : Value} (h : parse token = .ok v)
    (hpadded : Padded token piece) : Piece piece := by
  obtain ⟨htoken, hpiece⟩ := piece_of_parse h
  exact hpiece.of_condense_eq (by rw [condense_padded h hpadded, htoken])

/-- Literals with commas between them and blanks around them are cut into these literals. -/
theorem splitArguments_of_padded {tokens pieces : List (List Char)}
    (h : ∀ token ∈ tokens, ∃ v, parse token = .ok v) (hpadded : List.Forall₂ Padded tokens pieces) :
    splitArguments ([','].intercalate pieces) = .ok tokens := by
  have hpieces : (∀ piece ∈ pieces, Piece piece) ∧ pieces.map (condense .outside) = tokens := by
    induction hpadded with
    | nil => exact ⟨nofun, rfl⟩
    | cons hfirst _ ih =>
      obtain ⟨⟨v, hv⟩, hrest⟩ := List.forall_mem_cons.1 h
      obtain ⟨hall, hmap⟩ := ih hrest
      exact ⟨List.forall_mem_cons.2 ⟨piece_of_padded hv hfirst, hall⟩,
        by rw [List.map_cons, condense_padded hv hfirst, hmap]⟩
  by_cases hne : pieces = []
  · obtain rfl := hne
    rw [← hpieces.2]
    rfl
  · rw [splitArguments_eq_of_pieces hne hpieces.1 rfl, hpieces.2]

/-- Every string can be written, and what is written is read as that string and found as it is
among the arguments of a call. The scan and the reader agree on where a string ends: both see it
end at the last character of the literal, and at none before. -/
theorem strings_survive :
    (∀ (s : String) (q : Char), q = '\x22' ∨ q = '\x27' → parse (quoted q s) = .ok (.str s)) ∧
    (∀ s : String, '\x60' ∉ s.toList → parse (backticked s) = .ok (.str s)) ∧
    (∀ tokens pieces : List (List Char),
      (∀ token ∈ tokens, ∃ s, parse token = .ok (.str s)) → List.Forall₂ Padded tokens pieces →
        splitArguments ([','].intercalate pieces) = .ok tokens) ∧
    (∀ (front back : List Char) (s : String), parse (front ++ back) = .ok (.str s) → front ≠ [] →
      ((∃ s', parse front = .ok (.str s')) ↔ back = []) ∧
      ∃ t, front.foldlM Scan.step Scan.start = .ok t ∧ (t.quote = none ↔ back = [])) := by
  refine ⟨fun s q hq => parse_eq_str_iff.2 (string?_quoted hq s),
    fun s hs => parse_eq_str_iff.2 (string?_backticked hs), fun tokens pieces htokens hpadded => ?_,
    fun front back s h hne => ⟨⟨?_, ?_⟩, scan_prefix h hne⟩⟩
  · refine splitArguments_of_padded (fun token htoken => ?_) hpadded
    obtain ⟨s, hs⟩ := htokens token htoken
    exact ⟨.str s, hs⟩
  · rintro ⟨s', hs'⟩
    exact eq_nil_of_parse_prefix h hs'
  · rintro rfl
    exact ⟨s, by rwa [List.append_nil] at h⟩

/-- Two strings full of what might end them, with blanks around the first. -/
theorem strings_survive_escapes :
    let told : String := "say \x22(a, b\x22, it\x27s \x5c"
    let raw : String := "c:\x5c, )\x22"
    parse (quoted '\x22' told) = .ok (.str told) ∧ parse (backticked raw) = .ok (.str raw) ∧
      splitArguments (' ' :: quoted '\x22' told ++ '\n' :: ',' :: backticked raw) =
        .ok [quoted '\x22' told, backticked raw] := by
  intro told raw
  have htold := strings_survive.1 told '\x22' (.inl rfl)
  have hraw := strings_survive.2.1 raw (by decide)
  refine ⟨htold, hraw, ?_⟩
  have hpieces := strings_survive.2.2.1 [quoted '\x22' told, backticked raw]
    [' ' :: quoted '\x22' told ++ ['\n'], backticked raw]
    (by
      simp only [List.forall_mem_cons, List.not_mem_nil, false_imp_iff, implies_true, and_true]
      exact ⟨⟨told, htold⟩, ⟨raw, hraw⟩⟩)
    (.cons ⟨[' '], ['\n'], rfl, List.forall_mem_singleton.2 rfl, List.forall_mem_singleton.2 rfl⟩
      (.cons ⟨[], [], by simp, nofun, nofun⟩ .nil))
  rw [← hpieces]
  simp

end LiveQuery.Literal
