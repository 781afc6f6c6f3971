import Mathlib
import LiveQuery.Decimal.Numeral

/-!
# Numerals and what they denote

The digits of a number denote it again. A text denotes a number if it is a run of digits from its
first character to its last; the reader of numbers below a limit lets a plus sign stand in front.
-/

namespace LiveQuery.Decimal

/-! ### Digits -/

theorem digitsValue_eq (ds : List Char) : digitsValue ds = Nat.ofDigitChars 10 ds 0 :=
  Nat.ofDigitChars_eq_foldl.symm

@[simp] theorem digitsValue_toDigits (n : Nat) : digitsValue (Nat.toDigits 10 n) = n := by
  rw [digitsValue_eq, Nat.ofDigitChars_ten_toDigits]

theorem digitsValue_append (ds es : List Char) :
    digitsValue (ds ++ es) = 10 ^ es.length * digitsValue ds + digitsValue es := by
  rw [digitsValue_eq, Nat.ofDigitChars_append, Nat.ofDigitChars_eq_ofDigitChars_zero,
    ← digitsValue_eq, ← digitsValue_eq]

theorem isDigit_of_mem_toDigits {n : Nat} {c : Char} (h : c ∈ Nat.toDigits 10 n) :
    c.isDigit = true :=
  Nat.isDigit_of_mem_toDigits (by decide) (by decide) h

/-- No sign begins a run of digits. -/
theorem exists_cons_toDigits (n : Nat) : ∃ c ds, Nat.toDigits 10 n = c :: ds ∧ c.isDigit = true := by
  obtain ⟨c, ds, hcons⟩ := List.exists_cons_of_ne_nil (Nat.toDigits_ne_nil (n := n) (b := 10))
  exact ⟨c, ds, hcons, isDigit_of_mem_toDigits (hcons ▸ List.mem_cons_self)⟩

theorem unsigned?_eq_some_iff {cs : List Char} {n : Nat} :
    unsigned? cs = some n ↔ cs ≠ [] ∧ (∀ c ∈ cs, c.isDigit = true) ∧ digitsValue cs = n := by
  simp [unsigned?, and_assoc]

/-- A text denotes a number below a limit if it is a run of digits that does, maybe behind a plus
sign. -/
theorem unsignedBelow?_eq_some_iff {limit n : Nat} {cs : List Char} :
    unsignedBelow? limit cs = some n ↔
      n < limit ∧ ∃ sign digits, cs = sign ++ digits ∧ (sign = [] ∨ sign = ['+']) ∧
        unsigned? digits = some n := by
  simp only [unsignedBelow?, Option.filter_eq_some_iff, decide_eq_true_eq]
  constructor
  · rintro ⟨hread, hlimit⟩
    split at hread
    · exact ⟨hlimit, ['+'], _, rfl, .inr rfl, hread⟩
    · exact ⟨hlimit, [], _, rfl, .inl rfl, hread⟩
  · rintro ⟨hlimit, sign, digits, rfl, rfl | rfl, hread⟩
    · refine ⟨?_, hlimit⟩
      split
      · rename_i hplus
        rw [List.nil_append] at hplus
        -- A run of digits does not begin with a sign.
        obtain ⟨-, hdigits, -⟩ := unsigned?_eq_some_iff.1 hread
        exact absurd (hdigits '+' (hplus ▸ List.mem_cons_self)) (by decide)
      · exact hread
    · exact ⟨hread, hlimit⟩

/-! ### Runs of digits in front of a text -/

theorem digitRun_append {ds rest : List Char} (hdigits : ∀ c ∈ ds, c.isDigit = true)
    (hrest : ∀ c cs, rest = c :: cs → c.isDigit = false) : digitRun (ds ++ rest) = (ds, rest) := by
  rw [digitRun, List.takeWhile_append_of_pos hdigits, List.dropWhile_append_of_pos hdigits]
  cases rest with
  | nil => rw [List.takeWhile_nil, List.dropWhile_nil, List.append_nil]
  | cons c cs =>
    have hc : ¬ c.isDigit = true := Bool.not_eq_true _ ▸ hrest c cs rfl
    rw [List.takeWhile_cons_of_neg hc, List.dropWhile_cons_of_neg hc, List.append_nil]

theorem append_digitRun (cs : List Char) : (digitRun cs).1 ++ (digitRun cs).2 = cs :=
  List.takeWhile_append_dropWhile

theorem isDigit_of_mem_digitRun {c : Char} {cs : List Char} (h : c ∈ (digitRun cs).1) :
    c.isDigit = true :=
  List.mem_takeWhile_imp h

/-! ### The texts of numbers -/

theorem toList_toString (n : Int) : (toString n).toList =
    if 0 ≤ n then Nat.toDigits 10 n.natAbs else '-' :: Nat.toDigits 10 n.natAbs := by
  cases n with
  | ofNat m => exact Nat.toList_repr
  | negSucc m =>
    have htext : toString (Int.negSucc m) = "-" ++ (m + 1).repr := rfl
    rw [if_neg (by omega), htext, String.toList_append, Nat.toList_repr]
    rfl

end LiveQuery.Decimal
