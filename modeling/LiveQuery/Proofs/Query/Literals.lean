import LiveQuery.Proofs.Query.Rendering
import LiveQuery.Proofs.Query.Strings

/-!
# The languages of literals

A token is a literal if it belongs to one of three languages: the integers of 64 bits, the other
decimal numbers, and the strings that end with the token. The languages are told by the form of the
token alone and have no token in common, so the order in which the reader tries them is of no
importance. All other tokens are left for paths.
-/

namespace LiveQuery.Literal

open Decimal (IsDigits SpellsInteger SpellsDecimal IsDecimal)
open Call (Scan isOrdinary)

/-! ### The three languages -/

/-- An integer of 64 bits, with exactly the value of its digits. -/
def DenotesInteger (token : List Char) (n : Int) : Prop :=
  SpellsInteger token n ∧ -2 ^ 63 ≤ n ∧ n ≤ 2 ^ 63 - 1

/-- A decimal number that is no integer of 64 bits, with the double nearest to it. -/
def DenotesDecimal (token : List Char) (x : Float) : Prop :=
  (∀ n, ¬ DenotesInteger token n) ∧ ∃ negative mantissa exponent,
    SpellsDecimal token negative mantissa exponent ∧ x = Decimal.nearest negative mantissa exponent

theorem parse_eq_int_iff {token : List Char} {n : Int} :
    parse token = .ok (.int n) ↔ DenotesInteger token n := by
  rw [DenotesInteger, ← integer?_eq_some_iff]
  unfold parse
  cases integer? token <;> cases decimal? token <;> cases string? token <;> simp

theorem parse_eq_float_iff {token : List Char} {x : Float} :
    parse token = .ok (.float x) ↔ DenotesDecimal token x := by
  simp only [DenotesDecimal, DenotesInteger, ← integer?_eq_some_iff, ← decimal?_eq_some_iff,
    ← Option.eq_none_iff_forall_ne_some]
  unfold parse
  cases integer? token <;> cases decimal? token <;> cases string? token <;> simp

theorem parse_eq_str_iff_spells {token : List Char} {s : String} :
    parse token = .ok (.str s) ↔ SpellsString token s :=
  parse_eq_str_iff.trans string?_eq_some_iff

/-- There are no other constants and no other failure. -/
theorem parse_cases (token : List Char) :
    (∃ n, parse token = .ok (.int n)) ∨ (∃ x, parse token = .ok (.float x)) ∨
      (∃ s, parse token = .ok (.str s)) ∨
        parse token = .error (.unparseableLiteral (String.ofList token)) := by
  unfold parse
  cases integer? token <;> cases decimal? token <;> cases string? token <;> simp

/-- The reader finds no constant in the token, and says so. -/
def Unparseable (token : List Char) : Prop :=
  parse token = .error (.unparseableLiteral (String.ofList token))

theorem unparseable_iff {token : List Char} :
    Unparseable token ↔ (∀ n, ¬ DenotesInteger token n) ∧ (∀ x, ¬ DenotesDecimal token x) ∧
      ∀ s, ¬ SpellsString token s := by
  simp only [← parse_eq_int_iff, ← parse_eq_float_iff, ← parse_eq_str_iff_spells, Unparseable]
  constructor
  · intro h
    simp [h]
  · rintro ⟨hint, hfloat, hstr⟩
    rcases parse_cases token with ⟨n, h⟩ | ⟨x, h⟩ | ⟨s, h⟩ | h
    · exact absurd h (hint n)
    · exact absurd h (hfloat x)
    · exact absurd h (hstr s)
    · exact h

/-! ### What the languages leave -/

theorem DenotesDecimal.isDecimal {token : List Char} {x : Float} (h : DenotesDecimal token x) :
    IsDecimal token := by
  obtain ⟨-, negative, mantissa, exponent, hspells, -⟩ := h
  exact ⟨negative, mantissa, exponent, hspells⟩

/-- No number begins with a quote. -/
theorem not_isDecimal_of_isQuote {q : Char} (hq : Scan.isQuote q = true) (rest : List Char) :
    ¬ IsDecimal (q :: rest) := by
  intro h
  have hordinary := (isOrdinary_of_isDecimal h).2 q List.mem_cons_self
  simp [isOrdinary, hq] at hordinary

theorem SpellsString.not_isDecimal {token : List Char} {s : String} (h : SpellsString token s) :
    ¬ IsDecimal token := by
  obtain ⟨q, rest, rfl, hq, -⟩ := h.closes
  exact not_isDecimal_of_isQuote hq rest

theorem unparseable_of_not_isDecimal {token : List Char} (hnumber : ¬ IsDecimal token)
    (hstring : ∀ s, ¬ SpellsString token s) : Unparseable token :=
  unparseable_iff.2
    ⟨fun _ h => hnumber h.1.isDecimal, fun _ h => hnumber h.isDecimal, hstring⟩

theorem not_spellsString_of_head {token : List Char}
    (hquote : ∀ q ∈ token.head?, Scan.isQuote q = false) (s : String) : ¬ SpellsString token s := by
  intro h
  obtain ⟨q, rest, rfl, hq, -⟩ := h.closes
  rw [hquote q rfl] at hq
  cases hq

/-- Words such as `nan`, a sign or a point alone. -/
theorem unparseable_of_no_digit {token : List Char}
    (hquote : ∀ q ∈ token.head?, Scan.isQuote q = false)
    (hdigit : ∀ c ∈ token, c.isDigit = false) : Unparseable token := by
  refine unparseable_of_not_isDecimal (fun h => ?_) (not_spellsString_of_head hquote)
  obtain ⟨c, hc, htrue⟩ := h.exists_isDigit
  rw [hdigit c hc] at htrue
  cases htrue

/-- Digits with points as in a version. -/
theorem unparseable_of_points {token : List Char}
    (hquote : ∀ q ∈ token.head?, Scan.isQuote q = false) (hpoints : 2 ≤ token.count '.') :
    Unparseable token := by
  refine unparseable_of_not_isDecimal (fun h => ?_) (not_spellsString_of_head hquote)
  have hcount := h.count_point_le
  omega

/-- A string with more behind its closing quote. -/
theorem unparseable_append {token more : List Char} {s : String} (h : SpellsString token s)
    (hmore : more ≠ []) : Unparseable (token ++ more) := by
  refine unparseable_of_not_isDecimal ?_ fun s' hs' => hmore ?_
  · obtain ⟨q, rest, rfl, hq, -⟩ := h.closes
    exact not_isDecimal_of_isQuote hq (rest ++ more)
  · exact eq_nil_of_parse_prefix (parse_eq_str_iff_spells.2 hs') (parse_eq_str_iff_spells.2 h)

/-- A bare path that is no literal is a statement, and looks the path up. -/
theorem Unparseable.parse_path {token : List Char} (h : Unparseable token)
    (hpath : Expr.isPath token = true) :
    Expr.parse (String.ofList token) = .ok (.lookup (.literal (.str (String.ofList token)))) := by
  have hrenders : Renders token (.lookup (.literal (.str (String.ofList token)))) :=
    .path hpath fun v hv => by rw [h] at hv; cases hv
  rw [Expr.parse, Registry.parse, String.toList_ofList]
  exact hrenders.read.2.2.1

/-- Every token is of one of three languages or of none, by its form alone; the reader gives the
constant of the language, and of a token of none it says so. -/
theorem parse_decides_language (token : List Char) :
    (∀ n, parse token = .ok (.int n) ↔ DenotesInteger token n) ∧
    (∀ x, parse token = .ok (.float x) ↔ DenotesDecimal token x) ∧
    (∀ s, parse token = .ok (.str s) ↔ SpellsString token s) ∧
    (parse token = .error (.unparseableLiteral (String.ofList token)) ↔
      (∀ n, ¬ DenotesInteger token n) ∧ (∀ x, ¬ DenotesDecimal token x) ∧
        ∀ s, ¬ SpellsString token s) ∧
    -- No token is of two languages.
    (∀ n x, ¬ (DenotesInteger token n ∧ DenotesDecimal token x)) ∧
    (∀ n s, ¬ (DenotesInteger token n ∧ SpellsString token s)) ∧
    (∀ x s, ¬ (DenotesDecimal token x ∧ SpellsString token s)) ∧
    -- Of none is what has no digit or two points and does not begin with a quote, and what goes on
    -- behind the closing quote.
    ((∀ q ∈ token.head?, Scan.isQuote q = false) →
      (∀ c ∈ token, c.isDigit = false) ∨ 2 ≤ token.count '.' → Unparseable token) ∧
    (∀ front more s, token = front ++ more → SpellsString front s → more ≠ [] →
      Unparseable token) ∧
    (Unparseable token → Expr.isPath token = true →
      Expr.parse (String.ofList token) =
        .ok (.lookup (.literal (.str (String.ofList token))))) := by
  refine ⟨fun n => parse_eq_int_iff, fun x => parse_eq_float_iff, fun s => parse_eq_str_iff_spells,
    unparseable_iff, fun n x h => h.2.1 n h.1, fun n s h => h.2.not_isDecimal h.1.1.isDecimal,
    fun x s h => h.2.not_isDecimal h.1.isDecimal, fun hquote h => ?_, ?_, Unparseable.parse_path⟩
  · rcases h with hdigit | hpoints
    · exact unparseable_of_no_digit hquote hdigit
    · exact unparseable_of_points hquote hpoints
  · rintro front more s rfl hs hmore
    exact unparseable_append hs hmore

/-- The least integer of 64 bits, the number one above the greatest, a version, which is a path, and
a string with more behind it. -/
theorem parse_decides_language_of_version :
    parse "-9223372036854775808".toList = .ok (.int (-2 ^ 63)) ∧
      parse "9223372036854775808".toList =
        .ok (.float (Decimal.nearest false 9223372036854775808 0)) ∧
      Expr.parse "1.2.3" = .ok (.lookup (.literal (.str "1.2.3"))) ∧
      parse "\x22a\x22b\x22".toList = .error (.unparseableLiteral "\x22a\x22b\x22") := by
  have hdigits : IsDigits "9223372036854775808".toList :=
    ⟨List.cons_ne_nil _ _, List.all_eq_true.1 rfl⟩
  refine ⟨?_, ?_, ?_, ?_⟩
  · exact ((parse_decides_language _).1 _).2 ⟨.mk .minus hdigits, by decide, by decide⟩
  · refine ((parse_decides_language _).2.1 _).2
      ⟨fun n hn => ?_, false, 9223372036854775808, 0, .mk .none (.whole hdigits) .none, rfl⟩
    have hvalue : n = 2 ^ 63 := hn.1.unique (.mk .none hdigits)
    have hle := hn.2.2
    omega
  · have hnone : Unparseable "1.2.3".toList := (parse_decides_language _).2.2.2.2.2.2.2.1
      (fun q hq => by cases hq; rfl) (.inr (by decide))
    exact (parse_decides_language _).2.2.2.2.2.2.2.2.2 hnone rfl
  · exact (parse_decides_language _).2.2.2.2.2.2.2.2.1 "\x22a\x22".toList "b\x22".toList "a" rfl
      (.escaped (.inl rfl) (.plain (by decide) (by decide) .nil)) (List.cons_ne_nil _ _)

end LiveQuery.Literal
