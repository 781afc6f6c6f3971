import LiveQuery.Proofs.Decimal.Numerals

/-!
# How numbers are spelled

The texts of integers and of decimal numbers, by their form alone: which characters stand where, and
which number they spell. The readers of the parts of a numeral read a text to its end if it has the
form, and in no other case.
-/

namespace LiveQuery.Decimal

/-- Digits from the first character to the last, at least one. -/
structure IsDigits (cs : List Char) : Prop where
  ne_nil : cs ≠ []
  isDigit : ∀ c ∈ cs, c.isDigit = true

/-- A sign or none, and whether it is a minus. -/
inductive SpellsSign : List Char → Bool → Prop
  | none : SpellsSign [] false
  | plus : SpellsSign ['+'] false
  | minus : SpellsSign ['-'] true

def signed (negative : Bool) (n : Nat) : Int := if negative then -n else n

/-- A sign if one likes and digits. -/
inductive SpellsInteger : List Char → Int → Prop
  | mk {sign digits : List Char} {negative : Bool} (hsign : SpellsSign sign negative)
    (hdigits : IsDigits digits) :
    SpellsInteger (sign ++ digits) (signed negative (Nat.ofDigitChars 10 digits 0))

/-- Digits, at least one, with at most one point before, among or behind them: the digits before the
point and those behind it. -/
inductive SpellsPlaces : List Char → List Char → List Char → Prop
  | whole {digits : List Char} (h : IsDigits digits) : SpellsPlaces digits digits []
  | point {whole fraction : List Char} (h : IsDigits (whole ++ fraction)) :
    SpellsPlaces (whole ++ '.' :: fraction) whole fraction

/-- Nothing, or an `e` with an integer behind it. -/
inductive SpellsExponent : List Char → Int → Prop
  | none : SpellsExponent [] 0
  | some {mark : Char} {text : List Char} {e : Int} (hmark : mark = 'e' ∨ mark = 'E')
    (htext : SpellsInteger text e) : SpellsExponent (mark :: text) e

/-- A sign if one likes, digits with a point if one likes, and an exponent if one likes: the text of
`± mantissa · 10^exponent`. -/
inductive SpellsDecimal : List Char → Bool → Nat → Int → Prop
  | mk {sign text tail whole fraction : List Char} {negative : Bool} {e : Int}
    (hsign : SpellsSign sign negative) (hplaces : SpellsPlaces text whole fraction)
    (hexponent : SpellsExponent tail e) :
    SpellsDecimal (sign ++ (text ++ tail)) negative (Nat.ofDigitChars 10 (whole ++ fraction) 0)
      (e - fraction.length)

def IsDecimal (cs : List Char) : Prop :=
  ∃ negative mantissa exponent, SpellsDecimal cs negative mantissa exponent

/-! ### What stands in front -/

/-- The text does not begin with a sign. -/
def Unsigned (cs : List Char) : Prop := ∀ c rest, cs = c :: rest → c ≠ '-' ∧ c ≠ '+'

theorem unsigned_of_isDigit {c : Char} (h : c.isDigit = true) (rest : List Char) :
    Unsigned (c :: rest) := by
  intro d more heq
  obtain ⟨rfl, -⟩ := List.cons.inj heq
  constructor <;> rintro rfl <;> revert h <;> decide

theorem IsDigits.unsigned_append {cs : List Char} (h : IsDigits cs) (rest : List Char) :
    Unsigned (cs ++ rest) := by
  obtain ⟨c, more, rfl⟩ := List.exists_cons_of_ne_nil h.ne_nil
  exact unsigned_of_isDigit (h.isDigit c List.mem_cons_self) (more ++ rest)

theorem IsDigits.unsigned {cs : List Char} (h : IsDigits cs) : Unsigned cs := by
  simpa using h.unsigned_append []

theorem SpellsPlaces.unsigned_append {text whole fraction : List Char}
    (h : SpellsPlaces text whole fraction) (rest : List Char) : Unsigned (text ++ rest) := by
  cases h with
  | whole hdigits => exact hdigits.unsigned_append rest
  | point hdigits =>
    cases whole with
    | nil =>
      intro d more heq
      obtain ⟨rfl, -⟩ := List.cons.inj heq
      exact ⟨by decide, by decide⟩
    | cons c whole =>
      exact unsigned_of_isDigit (hdigits.isDigit c List.mem_cons_self) _

theorem SpellsPlaces.isDigits {text whole fraction : List Char}
    (h : SpellsPlaces text whole fraction) : IsDigits (whole ++ fraction) := by
  cases h with
  | whole hdigits => rwa [List.append_nil]
  | point hdigits => exact hdigits

/-- Behind the digits and the point there is neither a digit nor a point. -/
theorem SpellsExponent.head {tail : List Char} {e : Int} (h : SpellsExponent tail e) :
    ∀ c rest, tail = c :: rest → c.isDigit = false ∧ c ≠ '.' := by
  intro c rest heq
  cases h with
  | none => cases heq
  | some hmark _ =>
    obtain ⟨rfl, -⟩ := List.cons.inj heq
    rcases hmark with rfl | rfl <;> decide

/-! ### The readers of the parts -/

theorem someDigits_eq_some_iff {cs ds : List Char} :
    someDigits cs = some (ds, []) ↔ IsDigits cs ∧ ds = cs := by
  constructor
  · intro h
    have hwhole := append_digitRun cs
    have hdigits : ∀ c ∈ (digitRun cs).1, c.isDigit = true := fun _ => isDigit_of_mem_digitRun
    unfold someDigits at h
    split at h
    · cases h
    · rename_i hne
      rw [Option.some.inj h] at hwhole hdigits
      rw [List.append_nil] at hwhole
      subst hwhole
      refine ⟨⟨?_, hdigits⟩, rfl⟩
      rintro rfl
      exact hne [] (Option.some.inj h)
  · rintro ⟨hdigits, rfl⟩
    have hrun : digitRun (ds ++ []) = (ds, []) := digitRun_append hdigits.isDigit nofun
    rw [List.append_nil] at hrun
    obtain ⟨c, rest, rfl⟩ := List.exists_cons_of_ne_nil hdigits.ne_nil
    rw [someDigits, hrun]

theorem signedDigits_eq_some_iff {cs : List Char} {n : Int} :
    signedDigits cs = some (n, []) ↔ SpellsInteger cs n := by
  constructor
  · intro h
    unfold signedDigits at h
    split at h <;> obtain ⟨⟨ds, more⟩, hds, hn⟩ := Option.map_eq_some_iff.1 h <;>
      obtain ⟨rfl, rfl⟩ := Prod.mk.inj hn <;>
      obtain ⟨hdigits, rfl⟩ := someDigits_eq_some_iff.1 hds <;> rw [digitsValue_eq]
    · exact .mk .minus hdigits
    · exact .mk .plus hdigits
    · exact .mk .none hdigits
  · rintro ⟨hsign, hdigits⟩
    have hread := someDigits_eq_some_iff.2 ⟨hdigits, rfl⟩
    have hunsigned := hdigits.unsigned
    cases hsign with
    | minus => simp [signedDigits, hread, signed, digitsValue_eq]
    | plus => simp [signedDigits, hread, signed, digitsValue_eq]
    | none =>
      rw [List.nil_append]
      unfold signedDigits
      split
      · exact absurd rfl (hunsigned _ _ rfl).1
      · exact absurd rfl (hunsigned _ _ rfl).2
      · simp [hread, signed, digitsValue_eq]

theorem exponentPart_eq_some_iff {cs : List Char} {n : Int} :
    (∃ e, exponentPart cs = some (e, []) ∧ e.getD 0 = n) ↔ SpellsExponent cs n := by
  constructor
  · rintro ⟨e, h, rfl⟩
    unfold exponentPart at h
    split at h
    · obtain ⟨⟨n, more⟩, hn, he⟩ := Option.map_eq_some_iff.1 h
      obtain ⟨rfl, rfl⟩ := Prod.mk.inj he
      exact .some (.inl rfl) (signedDigits_eq_some_iff.1 hn)
    · obtain ⟨⟨n, more⟩, hn, he⟩ := Option.map_eq_some_iff.1 h
      obtain ⟨rfl, rfl⟩ := Prod.mk.inj he
      exact .some (.inr rfl) (signedDigits_eq_some_iff.1 hn)
    · obtain ⟨rfl, rfl⟩ := Prod.mk.inj (Option.some.inj h)
      exact .none
  · intro h
    cases h with
    | none => exact ⟨none, rfl, rfl⟩
    | @some mark text e hmark htext =>
      have hread := signedDigits_eq_some_iff.2 htext
      refine ⟨some n, ?_, rfl⟩
      rcases hmark with rfl | rfl <;> simp [exponentPart, hread]

/-! ### The characters of a decimal number -/

theorem SpellsPlaces.subset {text whole fraction : List Char}
    (h : SpellsPlaces text whole fraction) : whole ++ fraction ⊆ text := by
  cases h with
  | whole =>
    rw [List.append_nil]
    exact List.Subset.refl text
  | point => exact List.append_subset.2 ⟨List.subset_append_left _ _,
      List.subset_append_of_subset_right _ (List.subset_cons_self _ _)⟩

theorem IsDecimal.exists_isDigit {cs : List Char} (h : IsDecimal cs) :
    ∃ c ∈ cs, c.isDigit = true := by
  obtain ⟨_, _, _, hsign, hplaces, -⟩ := h
  obtain ⟨c, hc⟩ := List.exists_mem_of_ne_nil _ hplaces.isDigits.ne_nil
  refine ⟨c, ?_, hplaces.isDigits.isDigit c hc⟩
  exact List.mem_append_right _ (List.mem_append_left _ (hplaces.subset hc))

theorem count_point_of_isDigit {cs : List Char} (h : ∀ c ∈ cs, c.isDigit = true) :
    cs.count '.' = 0 :=
  List.count_eq_zero.2 fun hmem => absurd (h '.' hmem) (by decide)

theorem SpellsSign.count_point {cs : List Char} {negative : Bool} (h : SpellsSign cs negative) :
    cs.count '.' = 0 := by
  cases h <;> decide

theorem SpellsInteger.count_point {cs : List Char} {n : Int} (h : SpellsInteger cs n) :
    cs.count '.' = 0 := by
  obtain ⟨hsign, hdigits⟩ := h
  rw [List.count_append, hsign.count_point, count_point_of_isDigit hdigits.isDigit]

theorem SpellsPlaces.count_point_le {text whole fraction : List Char}
    (h : SpellsPlaces text whole fraction) : text.count '.' ≤ 1 := by
  cases h with
  | whole hdigits =>
    rw [count_point_of_isDigit hdigits.isDigit]
    exact Nat.zero_le 1
  | point hdigits =>
    obtain ⟨hwhole, hfraction⟩ := List.forall_mem_append.1 hdigits.isDigit
    rw [List.count_append, List.count_cons_self, count_point_of_isDigit hwhole,
      count_point_of_isDigit hfraction]

theorem SpellsExponent.count_point {tail : List Char} {e : Int} (h : SpellsExponent tail e) :
    tail.count '.' = 0 := by
  cases h with
  | none => rfl
  | some hmark htext =>
    rw [List.count_cons, htext.count_point]
    rcases hmark with rfl | rfl <;> decide

theorem IsDecimal.count_point_le {cs : List Char} (h : IsDecimal cs) : cs.count '.' ≤ 1 := by
  obtain ⟨_, _, _, hsign, hplaces, hexponent⟩ := h
  have hpoints := hplaces.count_point_le
  rw [List.count_append, List.count_append, hsign.count_point, hexponent.count_point]
  omega

/-! ### Integers among the decimal numbers -/

/-- The text of an integer is the text of a decimal number without a point and an exponent. -/
theorem SpellsInteger.isDecimal {cs : List Char} {n : Int} (h : SpellsInteger cs n) :
    IsDecimal cs := by
  obtain ⟨hsign, hdigits⟩ := h
  have hdecimal := SpellsDecimal.mk hsign (.whole hdigits) .none
  rw [List.append_nil] at hdecimal
  exact ⟨_, _, _, hdecimal⟩

/-- The text of an integer spells no other integer. -/
theorem SpellsInteger.unique {cs : List Char} {n m : Int} (hn : SpellsInteger cs n)
    (hm : SpellsInteger cs m) : n = m := by
  have heq := (signedDigits_eq_some_iff.2 hn).symm.trans (signedDigits_eq_some_iff.2 hm)
  exact (Prod.mk.inj (Option.some.inj heq)).1

/-- An integer is spelled by its own text. -/
theorem spellsInteger_toString (n : Int) : SpellsInteger (toString n).toList n := by
  have hdigits : IsDigits (Nat.toDigits 10 n.natAbs) :=
    ⟨Nat.toDigits_ne_nil, fun _ => isDigit_of_mem_toDigits⟩
  rw [toList_toString]
  split
  · rename_i hn
    have hspells := SpellsInteger.mk .none hdigits
    rw [Nat.ofDigitChars_ten_toDigits, signed, if_neg Bool.false_ne_true,
      Int.natAbs_of_nonneg hn] at hspells
    exact hspells
  · rename_i hn
    have hneg : -(n.natAbs : Int) = n := by omega
    have hspells := SpellsInteger.mk .minus hdigits
    rw [Nat.ofDigitChars_ten_toDigits, signed, if_pos rfl, hneg] at hspells
    exact hspells

end LiveQuery.Decimal
