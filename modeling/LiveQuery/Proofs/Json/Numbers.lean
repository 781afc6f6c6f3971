import LiveQuery.Json.Reader
import LiveQuery.Json.Writer
import LiveQuery.Proofs.Decimal.Numerals
import LiveQuery.Proofs.Decimal.ReadBack

/-!
# Numbers are read as they were written

The text of an integer is read as this integer and the text of a finite double as this double,
whatever stands behind it that does not go on with a number. However the digits of a double are laid
out, what is read is a decimal with the same value.
-/

namespace LiveQuery.Json

open Decimal

/-! ### Digits and what follows them -/

/-- No digit stands in front. -/
def EndsDigits (rest : List Char) : Prop := ∀ c cs, rest = c :: cs → c.isDigit = false

/-- A number is over here. -/
def EndsNumber (rest : List Char) : Prop :=
  ∀ c cs, rest = c :: cs → c.isDigit = false ∧ c ≠ '.' ∧ c ≠ 'e' ∧ c ≠ 'E'

theorem EndsNumber.endsDigits {rest : List Char} (h : EndsNumber rest) : EndsDigits rest :=
  fun c cs hrest => (h c cs hrest).1

theorem endsDigits_cons {c : Char} (h : c.isDigit = false) (cs : List Char) :
    EndsDigits (c :: cs) := by
  intro d ds heq
  rwa [← (List.cons.inj heq).1]

theorem someDigits_append {ds rest : List Char} (hne : ds ≠ [])
    (hdigits : ∀ c ∈ ds, c.isDigit = true) (hrest : EndsDigits rest) :
    someDigits (ds ++ rest) = some (ds, rest) := by
  rw [someDigits, digitRun_append hdigits hrest]
  cases ds with
  | nil => exact (hne rfl).elim
  | cons d ds => rfl

/-- Digits that can stand before a point: a zero alone, or no zero in front. -/
inductive Whole : List Char → Prop where
  | zero : Whole ['0']
  | digits {c : Char} {cs : List Char} (head : c ≠ '0') (all : ∀ d ∈ c :: cs, d.isDigit = true) :
      Whole (c :: cs)

theorem Whole.wholeDigits {ds rest : List Char} (h : Whole ds) (hrest : EndsDigits rest) :
    wholeDigits (ds ++ rest) = some (ds, rest) := by
  cases h with
  | zero => rfl
  | @digits c cs head all =>
    have hsome := someDigits_append (List.cons_ne_nil c cs) all hrest
    unfold Json.wholeDigits
    split
    · rename_i heq
      exact (head (List.cons.inj heq).1).elim
    · exact hsome

theorem exists_head_toDigits {n : Nat} (h : n ≠ 0) :
    ∃ c cs, Nat.toDigits 10 n = c :: cs ∧ c ≠ '0' := by
  induction n using Nat.strongRecOn with
  | ind n ih =>
    by_cases hlt : n < 10
    · refine ⟨_, [], Nat.toDigits_of_lt_base hlt, ?_⟩
      interval_cases n <;> first | exact (h rfl).elim | decide
    · obtain ⟨c, cs, hcons, hc⟩ := ih (n / 10) (by omega) (by omega)
      refine ⟨c, cs ++ [(n % 10).digitChar], ?_, hc⟩
      rw [Nat.toDigits_of_base_le (by omega) (by omega), hcons, List.cons_append]

theorem isDigit_of_mem_zeros {k : Nat} {c : Char} (h : c ∈ List.replicate k '0') :
    c.isDigit = true := by
  rw [List.eq_of_mem_replicate h]
  rfl

/-- The first digits of a number can stand before a point, also with zeros behind them if the number
is not zero. -/
theorem whole_of_toDigits (n : Nat) {front back : List Char} (hne : front ≠ [])
    (hdigits : Nat.toDigits 10 n = front ++ back) {k : Nat} (hzeros : n = 0 → k = 0) :
    Whole (front ++ List.replicate k '0') := by
  have hfront : ∀ d ∈ front, d.isDigit = true := by
    intro d hd
    apply isDigit_of_mem_toDigits (n := n)
    rw [hdigits]
    exact List.mem_append_left back hd
  have hall : ∀ d ∈ front ++ List.replicate k '0', d.isDigit = true :=
    List.forall_mem_append.2 ⟨hfront, fun _ => isDigit_of_mem_zeros⟩
  by_cases hn : n = 0
  · subst hn
    rw [hzeros rfl, List.replicate_zero, List.append_nil]
    have hsingle : front = ['0'] := by
      have hzero : ['0'] = front ++ back := hdigits
      cases front with
      | nil => exact (hne rfl).elim
      | cons c cs =>
        obtain ⟨rfl, hrest⟩ := List.cons.inj hzero
        rw [(List.append_eq_nil_iff.1 hrest.symm).1]
    rw [hsingle]
    exact .zero
  · obtain ⟨c, cs, hcons, hc⟩ := exists_head_toDigits hn
    cases front with
    | nil => exact (hne rfl).elim
    | cons d ds =>
      rw [hcons] at hdigits
      obtain ⟨rfl, -⟩ := List.cons.inj hdigits
      exact .digits hc hall

theorem whole_front (n : Nat) {front back : List Char} (hne : front ≠ [])
    (hdigits : Nat.toDigits 10 n = front ++ back) : Whole front := by
  have hwhole := whole_of_toDigits n hne hdigits (k := 0) fun _ => rfl
  rwa [List.replicate_zero, List.append_nil] at hwhole

theorem whole_toDigits (n : Nat) : Whole (Nat.toDigits 10 n) :=
  whole_front n Nat.toDigits_ne_nil (List.append_nil _).symm

/-! ### The parts of a number -/

theorem fractionDigits_of_ne {rest : List Char} (h : ∀ c cs, rest = c :: cs → c ≠ '.') :
    fractionDigits rest = some (none, rest) := by
  unfold fractionDigits
  split
  · rename_i cs
    exact (h '.' cs rfl rfl).elim
  · rfl

theorem fractionDigits_point {places rest : List Char} (hne : places ≠ [])
    (hplaces : ∀ c ∈ places, c.isDigit = true) (hrest : EndsDigits rest) :
    fractionDigits ('.' :: (places ++ rest)) = some (some places, rest) := by
  rw [fractionDigits, someDigits_append hne hplaces hrest]
  rfl

theorem exponentPart_of_ne {rest : List Char}
    (h : ∀ c cs, rest = c :: cs → c ≠ 'e' ∧ c ≠ 'E') : exponentPart rest = some (none, rest) := by
  unfold exponentPart
  split
  · rename_i cs
    exact ((h 'e' cs rfl).1 rfl).elim
  · rename_i cs
    exact ((h 'E' cs rfl).2 rfl).elim
  · rfl

section Parts

variable (negative : Bool) {whole places rest : List Char}

theorem unsignedNumber_whole (hwhole : Whole whole) (hrest : EndsNumber rest) :
    unsignedNumber negative (whole ++ rest) =
      (wholeNumber negative (digitsValue whole)).map (·, rest) := by
  have hfraction : fractionDigits rest = some (none, rest) :=
    fractionDigits_of_ne fun c cs h => (hrest c cs h).2.1
  have hexponent : exponentPart rest = some (none, rest) :=
    exponentPart_of_ne fun c cs h => (hrest c cs h).2.2
  rw [unsignedNumber, hwhole.wholeDigits hrest.endsDigits]
  simp only [Option.bind_eq_bind, Option.bind_some, hfraction, hexponent]
  cases wholeNumber negative (digitsValue whole) <;> rfl

theorem unsignedNumber_places (hwhole : Whole whole) (hne : places ≠ [])
    (hplaces : ∀ c ∈ places, c.isDigit = true) (hrest : EndsNumber rest) :
    unsignedNumber negative (whole ++ '.' :: (places ++ rest)) =
      (finiteNumber negative (digitsValue (whole ++ places)) (-(places.length : Int))).map
        (·, rest) := by
  have hpoint : EndsDigits ('.' :: (places ++ rest)) := endsDigits_cons rfl _
  have hfraction := fractionDigits_point hne hplaces hrest.endsDigits
  have hexponent : exponentPart rest = some (none, rest) :=
    exponentPart_of_ne fun c cs h => (hrest c cs h).2.2
  rw [unsignedNumber, hwhole.wholeDigits hpoint]
  simp only [Option.bind_eq_bind, Option.bind_some, hfraction, hexponent, Option.getD_some,
    Option.getD_none, Int.zero_sub]
  cases finiteNumber negative (digitsValue (whole ++ places)) (-(places.length : Int)) <;> rfl

/-- An exponent with its sign. -/
def exponentText (e : Int) : List Char :=
  'e' :: (if e < 0 then '-' else '+') :: Nat.toDigits 10 e.natAbs

theorem exponentPart_exponentText (e : Int) (hrest : EndsDigits rest) :
    exponentPart (exponentText e ++ rest) = some (some e, rest) := by
  have hsome : someDigits (Nat.toDigits 10 e.natAbs ++ rest) =
      some (Nat.toDigits 10 e.natAbs, rest) :=
    someDigits_append Nat.toDigits_ne_nil (fun _ => isDigit_of_mem_toDigits) hrest
  unfold exponentText
  by_cases he : e < 0
  · rw [if_pos he]
    show ((someDigits (Nat.toDigits 10 e.natAbs ++ rest)).map _).map _ = _
    rw [hsome]
    show some (some (-(digitsValue (Nat.toDigits 10 e.natAbs) : Int)), rest) = _
    rw [digitsValue_toDigits, Int.ofNat_natAbs_of_nonpos (by omega), Int.neg_neg]
  · rw [if_neg he]
    show ((someDigits (Nat.toDigits 10 e.natAbs ++ rest)).map _).map _ = _
    rw [hsome]
    show some (some (digitsValue (Nat.toDigits 10 e.natAbs) : Int), rest) = _
    rw [digitsValue_toDigits, Int.natAbs_of_nonneg (by omega)]

theorem unsignedNumber_exponent (hwhole : Whole whole)
    (hplaces : ∀ c ∈ places, c.isDigit = true) (e : Int) (hrest : EndsNumber rest) :
    unsignedNumber negative
        (whole ++ ((if places = [] then [] else '.' :: places) ++ (exponentText e ++ rest))) =
      (finiteNumber negative (digitsValue (whole ++ places)) (e - places.length)).map
        (·, rest) := by
  have hexponent := exponentPart_exponentText e hrest.endsDigits
  have hletter : EndsDigits (exponentText e ++ rest) := endsDigits_cons rfl _
  by_cases hnil : places = []
  · subst hnil
    have hfraction : fractionDigits (exponentText e ++ rest) =
        some (none, exponentText e ++ rest) := rfl
    rw [if_pos rfl, List.nil_append, unsignedNumber, hwhole.wholeDigits hletter]
    simp only [Option.bind_eq_bind, Option.bind_some, hfraction, hexponent, Option.getD_some,
      Option.getD_none]
    cases finiteNumber negative (digitsValue (whole ++ [])) (e - ([] : List Char).length) <;> rfl
  · have hpoint : EndsDigits ('.' :: (places ++ (exponentText e ++ rest))) :=
      endsDigits_cons rfl _
    have hfraction := fractionDigits_point hnil hplaces hletter
    rw [if_neg hnil, List.cons_append, unsignedNumber, hwhole.wholeDigits hpoint]
    simp only [Option.bind_eq_bind, Option.bind_some, hfraction, hexponent, Option.getD_some]
    cases finiteNumber negative (digitsValue (whole ++ places)) (e - places.length) <;> rfl

end Parts

/-! ### Integers -/

theorem number_of_digit {c : Char} (h : c.isDigit = true) (cs : List Char) :
    number (c :: cs) = unsignedNumber false (c :: cs) := by
  unfold number
  split
  · rename_i heq
    obtain ⟨rfl, -⟩ := List.cons.inj heq
    cases h
  · rfl

/-- The text of an integer of 64 bits, with or without a sign, is read as this integer. -/
theorem number_int {n : Int} (hlow : -(wordLimit : Int) ≤ n) (hhigh : n < 2 * wordLimit)
    {rest : List Char} (hrest : EndsNumber rest) :
    number ((toString n).toList ++ rest) = some (.int n, rest) := by
  rw [toList_toString]
  have hread := fun negative => unsignedNumber_whole negative (whole_toDigits n.natAbs) hrest
  rw [digitsValue_toDigits] at hread
  by_cases hn : 0 ≤ n
  · obtain ⟨c, cs, hcons, hc⟩ := exists_cons_toDigits n.natAbs
    have hnumber : wholeNumber false n.natAbs = some (.int n) := by
      rw [wholeNumber, if_neg Bool.false_ne_true, if_pos (by omega), Int.natAbs_of_nonneg hn]
    rw [if_pos hn, hcons, List.cons_append, number_of_digit hc, ← List.cons_append, ← hcons,
      hread, hnumber]
    rfl
  · have hnumber : wholeNumber true n.natAbs = some (.int n) := by
      rw [wholeNumber, if_pos rfl, if_pos (by omega), Int.ofNat_natAbs_of_nonpos (by omega),
        Int.neg_neg]
    rw [if_neg hn]
    show unsignedNumber true (Nat.toDigits 10 n.natAbs ++ rest) = _
    rw [hread, hnumber]
    rfl

/-! ### Doubles -/

/-- The characters in the text of a number. -/
def isNumberChar (c : Char) : Bool := c.isDigit || c == '-' || c == '+' || c == '.' || c == 'e'

theorem isNumberChar_of_isDigit {c : Char} (h : c.isDigit = true) : isNumberChar c = true := by
  unfold isNumberChar
  rw [h]
  rfl

/-- The text starts with a digit, and what is read of it is as much as the decimal. -/
structure ReadsAs (text : List Char) (d : Digits) : Prop where
  start : ∃ c cs, text = c :: cs ∧ c.isDigit = true
  chars : ∀ c ∈ text, isNumberChar c = true
  read : ∃ read : Digits, read.units = d.units ∧ ∀ negative rest, EndsNumber rest →
    unsignedNumber negative (text ++ rest) =
      (finiteNumber negative read.digits read.exponent).map (·, rest)

theorem isNumberChar_of_mem_exponentText {e : Int} {c : Char} (h : c ∈ exponentText e) :
    isNumberChar c = true := by
  rcases List.mem_cons.1 h with rfl | h
  · rfl
  · rcases List.mem_cons.1 h with rfl | h
    · split <;> rfl
    · exact isNumberChar_of_isDigit (isDigit_of_mem_toDigits h)

theorem Whole.start {whole : List Char} (h : Whole whole) (rest : List Char) :
    ∃ c cs, whole ++ rest = c :: cs ∧ c.isDigit = true := by
  cases h with
  | zero => exact ⟨'0', rest, rfl, rfl⟩
  | @digits c cs head all => exact ⟨c, cs ++ rest, rfl, all c List.mem_cons_self⟩

theorem Whole.isDigit {whole : List Char} (h : Whole whole) {c : Char} (hc : c ∈ whole) :
    c.isDigit = true := by
  cases h with
  | zero =>
    rw [List.mem_singleton.1 hc]
    rfl
  | digits head all => exact all c hc

theorem readsAs_places {whole places : List Char} (hwhole : Whole whole) (hne : places ≠ [])
    (hplaces : ∀ c ∈ places, c.isDigit = true) {d : Digits}
    (hunits : Digits.units ⟨digitsValue (whole ++ places), -(places.length : Int)⟩ = d.units) :
    ReadsAs (whole ++ '.' :: places) d where
  start := hwhole.start _
  chars := List.forall_mem_append.2 ⟨fun _ hc => isNumberChar_of_isDigit (hwhole.isDigit hc),
    List.forall_mem_cons.2 ⟨rfl, fun c hc => isNumberChar_of_isDigit (hplaces c hc)⟩⟩
  read := by
    refine ⟨_, hunits, fun negative rest hrest => ?_⟩
    rw [List.append_assoc, List.cons_append]
    exact unsignedNumber_places negative hwhole hne hplaces hrest

theorem digitsValue_zeros (k : Nat) : digitsValue (List.replicate k '0') = 0 := by
  rw [digitsValue_eq, Nat.ofDigitChars_replicate_zero, Nat.mul_zero]

/-- Zeros behind the digits, and one of them behind the point. -/
theorem units_zeros (n : Nat) (e k : Nat) (h : n ≠ 0 → k = e) :
    Digits.units ⟨digitsValue (Nat.toDigits 10 n ++ List.replicate k '0' ++ ['0']), -1⟩ =
      Digits.units ⟨n, e⟩ := by
  have hvalue : digitsValue (Nat.toDigits 10 n ++ List.replicate k '0' ++ ['0']) =
      10 ^ (k + 1) * n := by
    rw [List.append_assoc, ← List.replicate_succ', digitsValue_append, digitsValue_toDigits,
      digitsValue_zeros, List.length_replicate, Nat.add_zero]
  rw [hvalue, Digits.units, Digits.units]
  by_cases hn : n = 0
  · rw [hn, Nat.mul_zero, Nat.cast_zero, zero_mul, zero_mul]
  · rw [h hn]
    push_cast
    rw [zpow_natCast, zpow_neg_one, pow_succ]
    ring

theorem toList_positional_ofNat (n e : Nat) : (Digits.positional ".0" ⟨n, .ofNat e⟩).toList =
    (Nat.toDigits 10 n ++ List.replicate (if n = 0 then 0 else e) '0') ++ '.' :: ['0'] := by
  simp only [Digits.positional, zeros, String.toList_append, String.toList_ofList, Nat.toList_repr]
  rfl

/-- All digits are behind the point. -/
theorem toList_positional_of_le {n e : Nat} (h : (Nat.toDigits 10 n).length ≤ e + 1) :
    (Digits.positional ".0" ⟨n, .negSucc e⟩).toList =
      ['0'] ++ '.' :: (List.replicate (e + 1 - (Nat.toDigits 10 n).length) '0' ++
        Nat.toDigits 10 n) := by
  simp only [Digits.positional, Nat.toList_repr, if_pos h, zeros, String.toList_append,
    String.toList_ofList]
  rfl

/-- The point is between the digits. -/
theorem toList_positional_of_lt {n e : Nat} (h : ¬(Nat.toDigits 10 n).length ≤ e + 1) :
    (Digits.positional ".0" ⟨n, .negSucc e⟩).toList =
      (Nat.toDigits 10 n).take ((Nat.toDigits 10 n).length - (e + 1)) ++
        '.' :: (Nat.toDigits 10 n).drop ((Nat.toDigits 10 n).length - (e + 1)) := by
  simp only [Digits.positional, Nat.toList_repr, if_neg h, String.toList_append,
    String.toList_ofList, List.append_assoc]
  rfl

theorem readsAs_positional (d : Digits) : ReadsAs (d.positional ".0").toList d := by
  obtain ⟨n, e⟩ := d
  cases e with
  | ofNat e =>
    have hwhole : Whole (Nat.toDigits 10 n ++ List.replicate (if n = 0 then 0 else e) '0') :=
      whole_of_toDigits n Nat.toDigits_ne_nil (List.append_nil _).symm fun h => if_pos h
    rw [toList_positional_ofNat]
    refine readsAs_places hwhole (List.cons_ne_nil _ _) (fun c hc => ?_) ?_
    · rw [List.mem_singleton.1 hc]
      rfl
    · exact units_zeros n e _ fun hn => if_neg hn
  | negSucc e =>
    by_cases hle : (Nat.toDigits 10 n).length ≤ e + 1
    · rw [toList_positional_of_le hle]
      refine readsAs_places .zero ?_ (fun c hc => ?_) ?_
      · exact List.append_ne_nil_of_right_ne_nil _ Nat.toDigits_ne_nil
      · exact (List.mem_append.1 hc).elim isDigit_of_mem_zeros isDigit_of_mem_toDigits
      · have hvalue : digitsValue (['0'] ++ (List.replicate (e + 1 -
            (Nat.toDigits 10 n).length) '0' ++ Nat.toDigits 10 n)) = n := by
          rw [← List.append_assoc, digitsValue_append, digitsValue_toDigits]
          show 10 ^ _ * digitsValue (List.replicate (_ + 1) '0') + n = n
          rw [digitsValue_zeros, Nat.mul_zero, Nat.zero_add]
        rw [hvalue, List.length_append, List.length_replicate, Nat.sub_add_cancel hle]
        rfl
    · have hwhole := (List.take_append_drop ((Nat.toDigits 10 n).length - (e + 1))
        (Nat.toDigits 10 n)).symm
      rw [toList_positional_of_lt hle]
      refine readsAs_places (whole_front n ?_ hwhole) ?_ (fun c hc => ?_) ?_
      · apply List.ne_nil_of_length_pos
        rw [List.length_take]
        omega
      · apply List.ne_nil_of_length_pos
        rw [List.length_drop]
        omega
      · exact isDigit_of_mem_toDigits (List.mem_of_mem_drop hc)
      · rw [List.take_append_drop, digitsValue_toDigits, List.length_drop, Nat.sub_sub_self (by omega)]
        rfl

theorem toList_scientific (n : Nat) (e : Int) : (Digits.scientific ⟨n, e⟩).toList =
    (Nat.toDigits 10 n).take 1 ++
      ((if (Nat.toDigits 10 n).drop 1 = [] then [] else '.' :: (Nat.toDigits 10 n).drop 1) ++
        exponentText (e + ((Nat.toDigits 10 n).length - 1 : Nat))) := by
  have hfraction : (if (Nat.toDigits 10 n).length ≤ 1 then ""
      else "." ++ String.ofList ((Nat.toDigits 10 n).drop 1)).toList =
      if (Nat.toDigits 10 n).drop 1 = [] then [] else '.' :: (Nat.toDigits 10 n).drop 1 := by
    by_cases hnil : (Nat.toDigits 10 n).drop 1 = []
    · rw [if_pos (List.drop_eq_nil_iff.1 hnil), if_pos hnil]
      rfl
    · rw [if_neg (mt List.drop_eq_nil_iff.2 hnil), if_neg hnil, String.toList_append]
      exact congrArg ('.' :: ·) String.toList_ofList
  have hsign : ∀ i : Int, (if i < 0 then "-" else "+").toList = [if i < 0 then '-' else '+'] := by
    intro i
    split <;> rfl
  simp only [Digits.scientific, Nat.toList_repr, String.toList_append, String.toList_ofList,
    hfraction, hsign, exponentText, List.append_assoc]
  rfl

theorem readsAs_scientific (d : Digits) : ReadsAs d.scientific.toList d := by
  obtain ⟨n, e⟩ := d
  have hlength : 0 < (Nat.toDigits 10 n).length := Nat.length_toDigits_pos
  have hwhole : Whole ((Nat.toDigits 10 n).take 1) := by
    refine whole_front n ?_ (List.take_append_drop 1 _).symm
    apply List.ne_nil_of_length_pos
    rw [List.length_take]
    omega
  have hplaces : ∀ c ∈ (Nat.toDigits 10 n).drop 1, c.isDigit = true :=
    fun c hc => isDigit_of_mem_toDigits (List.mem_of_mem_drop hc)
  rw [toList_scientific]
  refine ⟨hwhole.start _, fun c hc => ?_, ⟨n, e⟩, rfl, fun negative rest hrest => ?_⟩
  · rcases List.mem_append.1 hc with hc | hc
    · exact isNumberChar_of_isDigit (hwhole.isDigit hc)
    · rcases List.mem_append.1 hc with hc | hc
      · split at hc
        · exact (List.not_mem_nil hc).elim
        · rcases List.mem_cons.1 hc with rfl | hc
          · rfl
          · exact isNumberChar_of_isDigit (hplaces c hc)
      · exact isNumberChar_of_mem_exponentText hc
  have hread := unsignedNumber_exponent negative hwhole hplaces
    (e + ((Nat.toDigits 10 n).length - 1 : Nat)) hrest
  rw [List.take_append_drop, digitsValue_toDigits, List.length_drop, Int.add_sub_cancel] at hread
  rw [List.append_assoc, List.append_assoc]
  exact hread

theorem readsAs_size (size : Binary) :
    ReadsAs (Layout.jsonNumber.size size).toList (size.shortest .even) := by
  unfold Layout.size
  dsimp only
  split
  · exact readsAs_positional _
  · exact readsAs_scientific _

theorem text_of_decode {x : Float} {negative : Bool} {size : Binary}
    (h : decode x = .finite negative size) : (Layout.jsonNumber.text x).toList =
      (if negative then ['-'] else []) ++ (Layout.jsonNumber.size size).toList := by
  rw [Layout.text, h]
  cases negative with
  | true => exact String.toList_append
  | false => rfl

/-- The text of a finite double is read as the double. -/
theorem number_float {x : Float} (hx : x.isFinite = true) {rest : List Char}
    (hrest : EndsNumber rest) :
    number ((Layout.jsonNumber.text x).toList ++ rest) = some (.float x, rest) := by
  obtain ⟨negative, size, hsize⟩ := exists_decode_of_isFinite hx
  obtain ⟨⟨c, cs, hcons, hc⟩, -, ⟨read, hunits, hread⟩⟩ := readsAs_size size
  have hnumber : finiteNumber negative read.digits read.exponent = some (.float x) := by
    have hbits := nearestDecimalBits_of_units_eq hsize .even hunits
    have hfinite : size.bits ≠ infinityBits :=
      Nat.ne_of_lt (Decoded.bits_lt_infinityBits hsize)
    rw [finiteNumber, hbits, if_neg hfinite, ofSignedBits_bits hsize]
  rw [text_of_decode hsize]
  cases negative with
  | true =>
    show unsignedNumber true ((Layout.jsonNumber.size size).toList ++ rest) = _
    rw [hread true rest hrest, hnumber]
    rfl
  | false =>
    show number ((Layout.jsonNumber.size size).toList ++ rest) = _
    rw [hcons, List.cons_append, number_of_digit hc, ← List.cons_append, ← hcons,
      hread false rest hrest, hnumber]
    rfl

/-! ### What the texts look like -/

/-- A number starts with a minus sign or a digit. -/
structure NumberText (text : List Char) : Prop where
  start : ∃ c cs, text = c :: cs ∧ (c = '-' ∨ c.isDigit = true)
  chars : ∀ c ∈ text, isNumberChar c = true

theorem numberText_of_digits {text : List Char} (start : ∃ c cs, text = c :: cs ∧ c.isDigit = true)
    (chars : ∀ c ∈ text, isNumberChar c = true) (negative : Bool) :
    NumberText ((if negative then ['-'] else []) ++ text) := by
  cases negative with
  | true =>
    refine ⟨⟨'-', text, rfl, .inl rfl⟩, fun c hc => ?_⟩
    rcases List.mem_cons.1 hc with rfl | hc
    · rfl
    · exact chars c hc
  | false =>
    obtain ⟨c, cs, hcons, hc⟩ := start
    exact ⟨⟨c, cs, hcons, .inr hc⟩, chars⟩

theorem numberText_int (n : Int) : NumberText (toString n).toList := by
  have hdigits := numberText_of_digits (exists_cons_toDigits n.natAbs) fun c hc =>
    isNumberChar_of_isDigit (isDigit_of_mem_toDigits hc)
  rw [toList_toString]
  split
  · exact hdigits false
  · exact hdigits true

theorem numberText_float {x : Float} (hx : x.isFinite = true) :
    NumberText (Layout.jsonNumber.text x).toList := by
  obtain ⟨negative, size, hsize⟩ := exists_decode_of_isFinite hx
  obtain ⟨start, chars, -⟩ := readsAs_size size
  rw [text_of_decode hsize]
  exact numberText_of_digits start chars negative

end LiveQuery.Json
