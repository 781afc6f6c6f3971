import LiveQuery.Proofs.Decimal.Spelling
import LiveQuery.Query.Literal

/-!
# How literals are spelled

The readers of a token's integer, of its decimal number and of its string accept exactly the texts
that spell one, from the first character to the last. An integer has to fit into 64 bits, a decimal
number is read as the double nearest to it, and a string closes at the last character.
-/

namespace LiveQuery.Literal

open Decimal (digitRun SpellsSign SpellsInteger SpellsPlaces SpellsDecimal Unsigned)

/-! ### The sign -/

theorem exists_sign (cs : List Char) :
    ∃ sign, cs = sign ++ (splitSign cs).2 ∧ SpellsSign sign (splitSign cs).1 := by
  unfold splitSign
  split
  · exact ⟨['-'], rfl, .minus⟩
  · exact ⟨['+'], rfl, .plus⟩
  · exact ⟨[], rfl, .none⟩

theorem splitSign_append {sign rest : List Char} {negative : Bool}
    (hsign : SpellsSign sign negative) (hrest : Unsigned rest) :
    splitSign (sign ++ rest) = (negative, rest) := by
  cases hsign with
  | minus => rfl
  | plus => rfl
  | none =>
    rw [List.nil_append]
    unfold splitSign
    split
    · exact absurd rfl (hrest _ _ rfl).1
    · exact absurd rfl (hrest _ _ rfl).2
    · rfl

/-! ### Integers -/

theorem fitsWord_iff {n : Int} : Decimal.fitsWord n = true ↔ -2 ^ 63 ≤ n ∧ n ≤ 2 ^ 63 - 1 := by
  have hlimit : (Decimal.wordLimit : Int) = 2 ^ 63 := by decide
  rw [Decimal.fitsWord, hlimit, decide_eq_true_eq, Int.le_sub_one_iff]

theorem integer?_eq_some_iff {token : List Char} {n : Int} :
    integer? token = some n ↔ SpellsInteger token n ∧ -2 ^ 63 ≤ n ∧ n ≤ 2 ^ 63 - 1 := by
  rw [← fitsWord_iff]
  constructor
  · intro h
    unfold integer? at h
    obtain ⟨sign, htoken, hsign⟩ := exists_sign token
    cases hread : Decimal.unsigned? (splitSign token).2 with
    | none => simp [hread] at h
    | some m =>
      obtain ⟨hne, hdigits, hvalue⟩ := Decimal.unsigned?_eq_some_iff.1 hread
      rw [Decimal.digitsValue_eq] at hvalue
      simp only [hread, Option.ite_none_right_eq_some, Option.some.injEq] at h
      obtain ⟨hfits, rfl⟩ := h
      refine ⟨?_, hfits⟩
      have hspells := SpellsInteger.mk hsign ⟨hne, hdigits⟩
      rw [← htoken, hvalue] at hspells
      exact hspells
  · rintro ⟨⟨hsign, hdigits⟩, hfits⟩
    have hread := Decimal.unsigned?_eq_some_iff.2 ⟨hdigits.ne_nil, hdigits.isDigit, rfl⟩
    rw [Decimal.digitsValue_eq] at hread
    unfold integer?
    rw [splitSign_append hsign hdigits.unsigned]
    simp only [hread]
    exact if_pos hfits

/-! ### Decimal numbers -/

theorem places_cases (cs : List Char) :
    (∃ more, cs = '.' :: more ∧ places cs = digitRun more) ∨ places cs = ([], cs) := by
  unfold places
  split
  · exact .inl ⟨_, rfl, rfl⟩
  · exact .inr rfl

theorem exists_spellsPlaces {cs : List Char}
    (h : (digitRun cs).1 ++ (places (digitRun cs).2).1 ≠ []) :
    ∃ text, cs = text ++ (places (digitRun cs).2).2 ∧
      SpellsPlaces text (digitRun cs).1 (places (digitRun cs).2).1 := by
  have hcs := Decimal.append_digitRun cs
  have hwhole : ∀ c ∈ (digitRun cs).1, c.isDigit = true := fun _ => Decimal.isDigit_of_mem_digitRun
  generalize digitRun cs = run at h hcs hwhole ⊢
  obtain ⟨whole, rest⟩ := run
  subst hcs
  rcases places_cases rest with ⟨more, rfl, hplaces⟩ | hplaces
  · rw [hplaces] at h ⊢
    have hfraction : ∀ c ∈ (digitRun more).1, c.isDigit = true :=
      fun _ => Decimal.isDigit_of_mem_digitRun
    refine ⟨whole ++ '.' :: (digitRun more).1, ?_, .point ⟨h, ?_⟩⟩
    · rw [List.append_assoc, List.cons_append, Decimal.append_digitRun]
    · exact List.forall_mem_append.2 ⟨hwhole, hfraction⟩
  · rw [hplaces] at h ⊢
    rw [List.append_nil] at h
    exact ⟨whole, rfl, .whole ⟨h, hwhole⟩⟩

theorem places_of_spellsPlaces {text whole fraction tail : List Char}
    (h : SpellsPlaces text whole fraction)
    (htail : ∀ c rest, tail = c :: rest → c.isDigit = false ∧ c ≠ '.') :
    ∃ rest, digitRun (text ++ tail) = (whole, rest) ∧ places rest = (fraction, tail) := by
  have hends : ∀ c rest, tail = c :: rest → c.isDigit = false := fun c rest heq =>
    (htail c rest heq).1
  cases h with
  | whole hdigits =>
    refine ⟨tail, Decimal.digitRun_append hdigits.isDigit hends, ?_⟩
    rcases places_cases tail with ⟨more, rfl, -⟩ | hplaces
    · exact absurd rfl (htail '.' more rfl).2
    · exact hplaces
  | point hdigits =>
    obtain ⟨hwhole, hfraction⟩ := List.forall_mem_append.1 hdigits.isDigit
    refine ⟨'.' :: (fraction ++ tail), ?_, Decimal.digitRun_append hfraction hends⟩
    rw [List.append_assoc, List.cons_append]
    refine Decimal.digitRun_append hwhole fun c rest heq => ?_
    rw [← (List.cons.inj heq).1]
    rfl

/-- A decimal number is read to its end, and as the nearest double. -/
theorem decimal?_eq_some_iff {token : List Char} {x : Float} :
    decimal? token = some x ↔ ∃ negative mantissa exponent,
      SpellsDecimal token negative mantissa exponent ∧
        x = Decimal.nearest negative mantissa exponent := by
  constructor
  · intro h
    obtain ⟨sign, htoken, hsign⟩ := exists_sign token
    simp only [decimal?] at h
    split at h
    · cases h
    · rename_i hdigits
      obtain ⟨text, hrest, hplaces⟩ := exists_spellsPlaces hdigits
      split at h
      · rename_i e hexponent
        have htail := Decimal.exponentPart_eq_some_iff.1 ⟨e, hexponent, rfl⟩
        have hspells := SpellsDecimal.mk hsign hplaces htail
        rw [← hrest, ← htoken] at hspells
        refine ⟨_, _, _, hspells, ?_⟩
        rw [← Option.some.inj h, Decimal.digitsValue_eq]
      · cases h
  · rintro ⟨_, _, _, ⟨hsign, hplaces, hexponent⟩, rfl⟩
    obtain ⟨rest, hrun, hfraction⟩ := places_of_spellsPlaces hplaces hexponent.head
    obtain ⟨e, hread, rfl⟩ := Decimal.exponentPart_eq_some_iff.2 hexponent
    simp only [decimal?, splitSign_append hsign (hplaces.unsigned_append _), hrun, hfraction, hread,
      hplaces.isDigits.ne_nil, if_false, Decimal.digitsValue_eq]

/-! ### Strings -/

/-- The characters that may stand behind a backslash, with those that they stand for. -/
def escapes : List (Char × Char) :=
  [('\x5c', '\x5c'), ('\x22', '\x22'), ('\x27', '\x27'), ('\x60', '\x60'), ('n', '\n'), ('t', '\t'),
    ('r', '\r'), ('0', '\x00')]

/-- What stands between two quotes `q` that know escapes, and the characters that it stands for. -/
inductive SpellsEscaped (q : Char) : List Char → List Char → Prop
  | nil : SpellsEscaped q [] []
  | plain {c : Char} {body text : List Char} (hq : c ≠ q) (hslash : c ≠ '\x5c')
    (h : SpellsEscaped q body text) : SpellsEscaped q (c :: body) (c :: text)
  | escape {c e : Char} {body text : List Char} (hc : (c, e) ∈ escapes)
    (h : SpellsEscaped q body text) : SpellsEscaped q ('\x5c' :: c :: body) (e :: text)

/-- One complete quoted string. Between backticks every character stands for itself. -/
inductive SpellsString : List Char → String → Prop
  | escaped {q : Char} {body text : List Char} (hq : q = '\x22' ∨ q = '\x27')
    (h : SpellsEscaped q body text) : SpellsString (q :: (body ++ [q])) (String.ofList text)
  | raw {body : List Char} (h : '\x60' ∉ body) :
    SpellsString ('\x60' :: (body ++ ['\x60'])) (String.ofList body)

theorem escapeCode?_eq_some_iff {c e : Char} : escapeCode? c = some e ↔ (c, e) ∈ escapes := by
  constructor
  · intro h
    unfold escapeCode? at h
    split at h <;> cases h <;> decide
  · intro h
    simp only [escapes, List.mem_cons, Prod.mk.injEq, List.not_mem_nil, or_false] at h
    rcases h with ⟨rfl, rfl⟩ | ⟨rfl, rfl⟩ | ⟨rfl, rfl⟩ | ⟨rfl, rfl⟩ | ⟨rfl, rfl⟩ | ⟨rfl, rfl⟩ |
      ⟨rfl, rfl⟩ | ⟨rfl, rfl⟩ <;> rfl

theorem escapedBody?_cons {q c : Char} {cs : List Char} (hq : c ≠ q) (hslash : c ≠ '\x5c')
    (hne : cs ≠ []) : escapedBody? q (c :: cs) = (escapedBody? q cs).map (c :: ·) := by
  obtain ⟨d, rest, rfl⟩ := List.exists_cons_of_ne_nil hne
  simp only [escapedBody?, hq, hslash, if_false]

theorem escapedBody?_escape {q d e : Char} (hq : '\x5c' ≠ q) (he : escapeCode? d = some e)
    (rest : List Char) :
    escapedBody? q ('\x5c' :: d :: rest) = (escapedBody? q rest).map (e :: ·) := by
  simp only [escapedBody?, hq, he, if_false, if_true]

theorem spellsEscaped_of_escapedBody? {q : Char} (cs : List Char) {text : List Char}
    (h : escapedBody? q cs = some text) : ∃ body, cs = body ++ [q] ∧ SpellsEscaped q body text := by
  fun_induction escapedBody? q cs generalizing text with
  | case1 => cases h
  | case2 =>
    cases h
    exact ⟨[], rfl, .nil⟩
  | case3 => cases h
  | case4 => cases h
  | case5 => cases h
  | case6 d rest e he hclose ih =>
    obtain ⟨inner, hinner, rfl⟩ := Option.map_eq_some_iff.1 h
    obtain ⟨body, rfl, hbody⟩ := ih hinner
    exact ⟨'\x5c' :: d :: body, rfl, .escape (escapeCode?_eq_some_iff.1 he) hbody⟩
  | case7 c d rest hclose hslash ih =>
    obtain ⟨inner, hinner, rfl⟩ := Option.map_eq_some_iff.1 h
    obtain ⟨body, hrest, hbody⟩ := ih hinner
    exact ⟨c :: body, congrArg (c :: ·) hrest, .plain hclose hslash hbody⟩

theorem escapedBody?_of_spellsEscaped {q : Char} (hq : '\x5c' ≠ q) {body text : List Char}
    (h : SpellsEscaped q body text) : escapedBody? q (body ++ [q]) = some text := by
  induction h with
  | nil => simp [escapedBody?]
  | @plain c body text hc hslash _ ih =>
    rw [List.cons_append, escapedBody?_cons hc hslash (by simp), ih]
    rfl
  | @escape c e body text hc _ ih =>
    rw [List.cons_append, List.cons_append,
      escapedBody?_escape hq (escapeCode?_eq_some_iff.2 hc), ih]
    rfl

theorem rawBody?_cons {q c : Char} {cs : List Char} (hc : c ≠ q) (hne : cs ≠ []) :
    rawBody? q (c :: cs) = (rawBody? q cs).map (c :: ·) := by
  obtain ⟨d, rest, rfl⟩ := List.exists_cons_of_ne_nil hne
  simp only [rawBody?, hc, if_false]

theorem rawBody?_concat {q : Char} {cs : List Char} (h : q ∉ cs) :
    rawBody? q (cs ++ [q]) = some cs := by
  induction cs with
  | nil => simp [rawBody?]
  | cons c rest ih =>
    obtain ⟨hc, hrest⟩ := List.ne_and_not_mem_of_not_mem_cons h
    have hne : rest ++ [q] ≠ [] := by simp
    rw [List.cons_append, rawBody?_cons hc.symm hne, ih hrest]
    rfl

theorem exists_of_rawBody? {q : Char} {cs text : List Char} (h : rawBody? q cs = some text) :
    cs = text ++ [q] ∧ q ∉ text := by
  fun_induction rawBody? q cs generalizing text with
  | case1 => cases h
  | case2 =>
    cases h
    exact ⟨rfl, List.not_mem_nil⟩
  | case3 => cases h
  | case4 => cases h
  | case5 c d rest hc ih =>
    obtain ⟨inner, hinner, rfl⟩ := Option.map_eq_some_iff.1 h
    obtain ⟨hrest, hmem⟩ := ih hinner
    exact ⟨congrArg (c :: ·) hrest, List.not_mem_cons_of_ne_of_not_mem (Ne.symm hc) hmem⟩

theorem string?_eq_some_iff {token : List Char} {s : String} :
    string? token = some s ↔ SpellsString token s := by
  constructor
  · intro h
    unfold string? at h
    split at h
    · obtain ⟨text, htext, rfl⟩ := Option.map_eq_some_iff.1 h
      obtain ⟨body, rfl, hbody⟩ := spellsEscaped_of_escapedBody? _ htext
      exact .escaped (.inl rfl) hbody
    · obtain ⟨text, htext, rfl⟩ := Option.map_eq_some_iff.1 h
      obtain ⟨body, rfl, hbody⟩ := spellsEscaped_of_escapedBody? _ htext
      exact .escaped (.inr rfl) hbody
    · obtain ⟨text, htext, rfl⟩ := Option.map_eq_some_iff.1 h
      obtain ⟨rfl, hmem⟩ := exists_of_rawBody? htext
      exact .raw hmem
    · cases h
  · intro h
    cases h with
    | @escaped q body text hq hbody =>
      rcases hq with rfl | rfl <;>
        simp only [string?, escapedBody?_of_spellsEscaped (by decide) hbody, Option.map_some]
    | raw hmem => simp only [string?, rawBody?_concat hmem, Option.map_some]

end LiveQuery.Literal
