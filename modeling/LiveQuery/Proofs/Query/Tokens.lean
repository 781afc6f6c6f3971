import Mathlib
import LiveQuery.Proofs.Query.Pieces
import LiveQuery.Proofs.Query.Spelling

/-!
# Literals stand whole

The reader of literals and the scan of a call's arguments agree on where a literal ends. A numeral
consists of characters that mean nothing to the scan, and a string closes at its last character
(`Closes`), so the scan gathers either as one piece, whatever the string holds.
-/

namespace LiveQuery

open Call

namespace Literal

theorem isOrdinary_of_isNameChar {c : Char} (h : isNameChar c = true) : isOrdinary c = true := by
  have hother : ∀ d : Char, isNameChar d = false → (c == d) = false := by
    intro d hd
    rw [beq_eq_false_iff_ne]
    rintro rfl
    rw [h] at hd
    cases hd
  have hblank : Text.isBlank c = false := by
    simp only [isNameChar, Char.isAlphanum, Char.isAlpha, Char.isUpper, Char.isLower, Char.isDigit,
      Bool.or_eq_true, Bool.and_eq_true, decide_eq_true_eq, ge_iff_le, UInt32.le_iff_toNat_le] at h
    change ((65 ≤ c.toNat ∧ c.toNat ≤ 90) ∨ (97 ≤ c.toNat ∧ c.toNat ≤ 122)) ∨
      (48 ≤ c.toNat ∧ c.toNat ≤ 57) at h
    simp [Text.isBlank]
    omega
  simp only [isOrdinary, Scan.isQuote, hblank, Bool.false_or, Bool.not_eq_true',
    Bool.or_eq_false_iff]
  refine ⟨⟨⟨?_, ?_⟩, ?_⟩, ⟨?_, ?_⟩, ?_⟩ <;> exact hother _ (by decide)

theorem isOrdinary_of_isDigit {c : Char} (h : c.isDigit = true) : isOrdinary c = true :=
  isOrdinary_of_isNameChar (by simp [isNameChar, Char.isAlphanum, h])

/-! ### Numerals -/

theorem isOrdinary_of_sign {cs : List Char} {negative : Bool} (h : Decimal.SpellsSign cs negative) :
    ∀ c ∈ cs, isOrdinary c = true := by
  cases h with
  | none => exact nofun
  | plus => exact List.forall_mem_singleton.2 rfl
  | minus => exact List.forall_mem_singleton.2 rfl

theorem isOrdinary_of_spellsInteger {cs : List Char} {n : Int} (h : Decimal.SpellsInteger cs n) :
    ∀ c ∈ cs, isOrdinary c = true := by
  obtain ⟨hsign, hdigits⟩ := h
  exact List.forall_mem_append.2
    ⟨isOrdinary_of_sign hsign, fun c hc => isOrdinary_of_isDigit (hdigits.isDigit c hc)⟩

theorem isOrdinary_of_spellsPlaces {text whole fraction : List Char}
    (h : Decimal.SpellsPlaces text whole fraction) : ∀ c ∈ text, isOrdinary c = true := by
  cases h with
  | whole hdigits => exact fun c hc => isOrdinary_of_isDigit (hdigits.isDigit c hc)
  | point hdigits =>
    obtain ⟨hwhole, hfraction⟩ := List.forall_mem_append.1 hdigits.isDigit
    exact List.forall_mem_append.2 ⟨fun c hc => isOrdinary_of_isDigit (hwhole c hc),
      List.forall_mem_cons.2 ⟨rfl, fun c hc => isOrdinary_of_isDigit (hfraction c hc)⟩⟩

theorem isOrdinary_of_spellsExponent {tail : List Char} {e : Int}
    (h : Decimal.SpellsExponent tail e) : ∀ c ∈ tail, isOrdinary c = true := by
  cases h with
  | none => exact nofun
  | some hmark htext =>
    refine List.forall_mem_cons.2 ⟨?_, isOrdinary_of_spellsInteger htext⟩
    rcases hmark with rfl | rfl <;> rfl

/-- A number consists of characters that mean nothing to the scan. -/
theorem isOrdinary_of_isDecimal {cs : List Char} (h : Decimal.IsDecimal cs) :
    cs ≠ [] ∧ ∀ c ∈ cs, isOrdinary c = true := by
  obtain ⟨c, hc, -⟩ := h.exists_isDigit
  obtain ⟨_, _, _, hsign, hplaces, hexponent⟩ := h
  refine ⟨List.ne_nil_of_mem hc, List.forall_mem_append.2 ⟨isOrdinary_of_sign hsign, ?_⟩⟩
  exact List.forall_mem_append.2
    ⟨isOrdinary_of_spellsPlaces hplaces, isOrdinary_of_spellsExponent hexponent⟩

theorem isOrdinary_of_integer? {cs : List Char} {n : Int} (h : integer? cs = some n) :
    cs ≠ [] ∧ ∀ c ∈ cs, isOrdinary c = true :=
  isOrdinary_of_isDecimal (integer?_eq_some_iff.1 h).1.isDecimal

theorem isOrdinary_of_decimal? {cs : List Char} {x : Float} (h : decimal? cs = some x) :
    cs ≠ [] ∧ ∀ c ∈ cs, isOrdinary c = true := by
  obtain ⟨negative, mantissa, exponent, hspells, -⟩ := decimal?_eq_some_iff.1 h
  exact isOrdinary_of_isDecimal ⟨negative, mantissa, exponent, hspells⟩

/-! ### Strings -/

theorem closes_of_spellsEscaped {q : Char} (hq : q ≠ '\x60') (hslash : q ≠ '\x5c')
    {body text : List Char} (h : SpellsEscaped q body text) :
    Closes (.inside q) (body ++ [q]) := by
  induction h with
  | nil =>
    refine ⟨Mode.noConfusion, ?_⟩
    simp [Closes, Mode.next, hslash]
  | @plain c body text hc hbackslash _ ih =>
    have hnext : (Mode.inside q).next c = .inside q := by simp [Mode.next, hc, hbackslash]
    refine ⟨Mode.noConfusion, ?_⟩
    rw [hnext]
    exact ih
  | escape _ _ ih =>
    have hnext : (Mode.inside q).next '\x5c' = .escaping q := by simp [Mode.next, hq]
    refine ⟨Mode.noConfusion, ?_⟩
    rw [hnext]
    exact ⟨Mode.noConfusion, ih⟩

theorem closes_of_not_mem {body : List Char} (h : '\x60' ∉ body) :
    Closes (.inside '\x60') (body ++ ['\x60']) := by
  induction body with
  | nil => exact ⟨Mode.noConfusion, rfl⟩
  | cons c rest ih =>
    obtain ⟨hc, hrest⟩ := List.ne_and_not_mem_of_not_mem_cons h
    have hnext : (Mode.inside '\x60').next c = .inside '\x60' := by simp [Mode.next, hc.symm]
    refine ⟨Mode.noConfusion, ?_⟩
    rw [hnext]
    exact ih hrest

/-- A text of which every character but the first is in the string that the first one opens. -/
theorem SpellsString.closes {cs : List Char} {s : String} (h : SpellsString cs s) :
    ∃ q rest, cs = q :: rest ∧ Scan.isQuote q = true ∧ Closes (.inside q) rest := by
  cases h with
  | escaped hq hbody =>
    rcases hq with rfl | rfl <;>
      exact ⟨_, _, rfl, rfl, closes_of_spellsEscaped (by decide) (by decide) hbody⟩
  | raw hmem => exact ⟨_, _, rfl, rfl, closes_of_not_mem hmem⟩

theorem whole_of_closes {q : Char} {rest : List Char} (hq : Scan.isQuote q = true)
    (h : Closes (.inside q) rest) :
    condense .outside (q :: rest) = q :: rest ∧ Whole 0 (q :: rest) := by
  have hblank : ¬ (Mode.outside = .outside ∧ Text.isBlank q = true) := by
    rintro ⟨-, hblank⟩
    rw [isQuote_eq_false_of_isBlank hblank] at hq
    cases hq
  have hnext : Mode.outside.next q = .inside q := by simp [Mode.next, hq]
  have hcondense : condense .outside (q :: rest) = q :: rest := by
    rw [condense_cons hblank, hnext, h.condense]
  refine ⟨hcondense, by rw [Mode.run_cons, hnext, h.run], fun done current depth _ => ?_⟩
  rw [List.foldlM_cons, step_quote done current depth hq, hcondense, List.reverse_cons,
    List.append_assoc]
  exact h.foldlM done (q :: current) depth

/-- A literal is a numeral, with nothing in it that means anything to the scan, or a string. -/
theorem shape_of_parse {token : List Char} {v : Value} (h : parse token = .ok v) :
    (token ≠ [] ∧ ∀ c ∈ token, isOrdinary c = true) ∨
      ∃ q rest, token = q :: rest ∧ Scan.isQuote q = true ∧ Closes (.inside q) rest := by
  unfold parse at h
  split at h
  · exact .inl (isOrdinary_of_integer? ‹_›)
  split at h
  · exact .inl (isOrdinary_of_decimal? ‹_›)
  split at h
  · exact .inr (string?_eq_some_iff.1 ‹_›).closes
  · cases h

/-- A literal is a piece, and it is the same with and without the blanks that do not count. -/
theorem piece_of_parse {token : List Char} {v : Value} (h : parse token = .ok v) :
    condense .outside token = token ∧ Piece token := by
  rcases shape_of_parse h with ⟨hne, hall⟩ | ⟨q, rest, rfl, hq, hcloses⟩
  · have hcondense := condense_of_isOrdinary hall
    exact ⟨hcondense, whole_of_isOrdinary hall, by rwa [hcondense]⟩
  · obtain ⟨hcondense, hwhole⟩ := whole_of_closes hq hcloses
    exact ⟨hcondense, hwhole, by rw [hcondense]; exact List.cons_ne_nil q rest⟩

/-- Nothing that begins with a name and a parenthesis is a literal. -/
theorem parse_call_ne_ok {name rest : List Char} (hne : name ≠ [])
    (hname : ∀ c ∈ name, isOrdinary c = true) (v : Value) :
    parse (name ++ '(' :: rest) ≠ .ok v := by
  intro h
  rcases shape_of_parse h with ⟨-, hall⟩ | ⟨q, more, htoken, hq, -⟩
  · have hparenthesis := hall '(' (List.mem_append_right name List.mem_cons_self)
    revert hparenthesis
    decide
  · obtain ⟨first, others, rfl⟩ := List.exists_cons_of_ne_nil hne
    obtain ⟨rfl, -⟩ := List.cons.inj htoken
    have hfirst := hname first List.mem_cons_self
    simp [isOrdinary, hq] at hfirst

end Literal

end LiveQuery
