import LiveQuery.Proofs.Json.Numbers
import LiveQuery.Proofs.Keyed

/-!
# Values are read as they were written

`WellFormed` values are those that a text can denote. The text of one of them is read as this value
in front of everything that does not go on with a number, provided that the reader may go as deep as
the value is nested and has a step for each character.
-/

namespace LiveQuery.Json

open Decimal (wordLimit)

/-- What a text can denote: integers of 64 bits with or without a sign, finite numbers, and objects
with their fields in order. -/
inductive WellFormed : Json → Prop where
  | null : WellFormed .null
  | bool (b : Bool) : WellFormed (.bool b)
  | int {n : Int} (low : -(wordLimit : Int) ≤ n) (high : n < 2 * wordLimit) : WellFormed (.int n)
  | float {x : Float} (finite : x.isFinite = true) : WellFormed (.float x)
  | str (s : String) : WellFormed (.str s)
  | array {js : List Json} (items : ∀ j ∈ js, WellFormed j) : WellFormed (.array js)
  | object {fs : List (String × Json)} (ascending : Keyed.Ascending fs)
      (values : ∀ f ∈ fs, WellFormed f.2) : WellFormed (.object fs)

/-! ### Strings -/

theorem escaped_ne_nil (c : Char) : escaped c ≠ [] := by
  unfold escaped
  split
  all_goals try exact List.cons_ne_nil _ _
  split <;> exact List.cons_ne_nil _ _

/-- A control character is read from its number. -/
theorem escapeSequence_control {n : Nat} (h : n < 32) (rest : List Char) :
    escapeSequence ('u' :: '0' :: '0' :: hexDigit (n / 16) :: hexDigit (n % 16) :: rest) =
      some (Char.ofNat n, rest) := by
  interval_cases n <;> rfl

theorem stringChars_escaped (fuel : Nat) (c : Char) (rest : List Char) :
    stringChars (fuel + 1) (escaped c ++ rest) =
      (stringChars fuel rest).map fun (cs, rest) => (c :: cs, rest) := by
  have hescape : ∀ cs, escapeSequence cs = some (c, rest) →
      stringChars (fuel + 1) ('\x5c' :: cs) =
        (stringChars fuel rest).map fun (cs, rest) => (c :: cs, rest) := by
    intro cs hcs
    rw [stringChars]
    simp only [hcs, Option.bind_eq_bind, Option.bind_some]
    cases stringChars fuel rest <;> rfl
  unfold escaped
  split
  case h_8 hquote hbackslash _ _ _ _ _ =>
    split
    · rename_i hcontrol
      apply hescape
      have hnumber := escapeSequence_control hcontrol rest
      rwa [Char.ofNat_toNat] at hnumber
    · rename_i hplain
      show stringChars (fuel + 1) (c :: rest) = _
      rw [stringChars, if_neg hplain]
      · cases stringChars fuel rest <;> rfl
      · exact hquote
      · exact hbackslash
  all_goals exact hescape _ rfl

theorem length_lt_writeChars (cs rest : List Char) :
    cs.length + rest.length < (writeChars cs rest).length := by
  induction cs with
  | nil =>
    rw [writeChars, List.length_cons, List.length_nil]
    omega
  | cons c cs ih =>
    have hescaped := List.length_pos_of_ne_nil (escaped_ne_nil c)
    rw [writeChars, List.length_append, List.length_cons]
    omega

theorem stringChars_writeChars {fuel : Nat} {cs : List Char} (rest : List Char)
    (h : cs.length < fuel) : stringChars fuel (writeChars cs rest) = some (cs, rest) := by
  induction cs generalizing fuel with
  | nil =>
    obtain ⟨fuel, rfl⟩ := Nat.exists_eq_succ_of_ne_zero (Nat.ne_of_gt h)
    rfl
  | cons c cs ih =>
    obtain ⟨fuel, rfl⟩ := Nat.exists_eq_succ_of_ne_zero (Nat.ne_of_gt (Nat.zero_lt_of_lt h))
    rw [writeChars, stringChars_escaped, ih (Nat.lt_of_succ_lt_succ h)]
    rfl

theorem string_writeChars {fuel : Nat} {s : String} (rest : List Char)
    (h : s.toList.length < fuel) : string fuel (writeChars s.toList rest) = some (s, rest) := by
  rw [string, stringChars_writeChars rest h]
  exact congrArg (fun t => some (t, rest)) String.ofList_toList

/-! ### What the text of a value looks like -/

/-- A printed character other than the space. -/
def Solid (c : Char) : Prop := 32 < c.toNat ∧ c.toNat < 127

instance (c : Char) : Decidable (Solid c) := inferInstanceAs (Decidable (_ ∧ _))

theorem solid_of_isDigit {c : Char} (h : c.isDigit = true) : Solid c ∧ c ≠ ']' := by
  have hrange : 48 ≤ c.toNat ∧ c.toNat ≤ 57 := Char.isDigit_iff_toNat.1 h
  refine ⟨⟨by omega, by omega⟩, ?_⟩
  rintro rfl
  cases h

theorem solid_of_isNumberChar {c : Char} (h : isNumberChar c = true) : Solid c := by
  unfold isNumberChar at h
  simp only [Bool.or_eq_true, beq_iff_eq] at h
  rcases h with (((h | rfl) | rfl) | rfl) | rfl
  · exact (solid_of_isDigit h).1
  all_goals exact ⟨by decide, by decide⟩

theorem Solid.isBlank {c : Char} (h : Solid c) : isBlank c = false := by
  unfold Json.isBlank
  simp only [Bool.or_eq_false_iff, beq_eq_false_iff_ne]
  refine ⟨⟨⟨?_, ?_⟩, ?_⟩, ?_⟩
  all_goals
    rintro rfl
    exact absurd h.1 (by decide)

/-- A value has a text, whatever stands behind it, without control characters, and with a printed
character at either end. -/
structure HasText (j : Json) (text : List Char) : Prop where
  append : ∀ rest, j.write rest = text ++ rest
  first : ∃ c cs, text = c :: cs ∧ Solid c ∧ c ≠ ']'
  last : ∃ cs c, text = cs ++ [c] ∧ Solid c
  printed : ∀ c ∈ text, 32 ≤ c.toNat

theorem hasText_of_number {j : Json} {text : List Char} (append : ∀ rest, j.write rest = text ++ rest)
    (h : NumberText text) : HasText j text where
  append := append
  first := by
    obtain ⟨c, cs, hcons, hc⟩ := h.start
    refine ⟨c, cs, hcons, ?_⟩
    rcases hc with rfl | hc
    · exact ⟨⟨by decide, by decide⟩, by decide⟩
    · exact solid_of_isDigit hc
  last := by
    obtain ⟨c, cs, hcons, -⟩ := h.start
    have hne : text ≠ [] := hcons ▸ List.cons_ne_nil c cs
    exact ⟨_, _, (List.dropLast_append_getLast hne).symm,
      solid_of_isNumberChar (h.chars _ (List.getLast_mem hne))⟩
  printed c hc := Nat.le_of_lt (solid_of_isNumberChar (h.chars c hc)).1

/-- Something between two delimiters. -/
theorem hasText_of_delimited {j : Json} {inner : List Char} {left right : Char}
    (append : ∀ rest, j.write rest = left :: (inner ++ right :: rest))
    (printed : ∀ c ∈ inner, 32 ≤ c.toNat) (hleft : Solid left ∧ left ≠ ']') (hright : Solid right) :
    HasText j (left :: (inner ++ [right])) where
  append rest := by
    rw [append, List.cons_append, List.append_assoc]
    rfl
  first := ⟨left, _, rfl, hleft⟩
  last := ⟨left :: inner, right, rfl, hright⟩
  printed := List.forall_mem_cons.2 ⟨Nat.le_of_lt hleft.1.1,
    List.forall_mem_append.2 ⟨printed, List.forall_mem_singleton.2 (Nat.le_of_lt hright.1)⟩⟩

theorem writeChars_eq (cs rest : List Char) :
    writeChars cs rest = cs.flatMap escaped ++ '\x22' :: rest := by
  induction cs with
  | nil => rfl
  | cons c cs ih => rw [writeChars, ih, List.flatMap_cons, List.append_assoc]

theorem printed_escaped (c : Char) : ∀ d ∈ escaped c, 32 ≤ d.toNat := by
  have hdigit : ∀ n < 16, 32 ≤ (hexDigit n).toNat := by decide
  unfold escaped
  split
  case h_8 =>
    split
    · rename_i hcontrol
      have hhigh := hdigit (c.toNat / 16) (by omega)
      have hlow := hdigit (c.toNat % 16) (by omega)
      simpa using ⟨hhigh, hlow⟩
    · rename_i hplain
      simpa using hplain
  all_goals simp

theorem printed_flatMap_escaped (cs : List Char) : ∀ d ∈ cs.flatMap escaped, 32 ≤ d.toNat := by
  intro d hd
  obtain ⟨c, -, hc⟩ := List.mem_flatMap.1 hd
  exact printed_escaped c d hc

/-- The items of an array up to its closing bracket. -/
theorem exists_writeItems {js : List Json} (h : ∀ j ∈ js, ∃ text, HasText j text) :
    ∃ inner, (∀ rest, write.writeItems js rest = inner ++ ']' :: rest) ∧
      ∀ c ∈ inner, 32 ≤ c.toNat := by
  induction js with
  | nil => exact ⟨[], fun _ => rfl, fun _ hc => (List.not_mem_nil hc).elim⟩
  | cons j more ih =>
    obtain ⟨text, htext⟩ := h j List.mem_cons_self
    obtain ⟨inner, happend, hprinted⟩ := ih fun k hk => h k (List.mem_cons_of_mem j hk)
    cases more with
    | nil => exact ⟨text, fun rest => htext.append (']' :: rest), htext.printed⟩
    | cons k more =>
      refine ⟨text ++ ',' :: inner, fun rest => ?_,
        List.forall_mem_append.2 ⟨htext.printed, List.forall_mem_cons.2 ⟨by decide, hprinted⟩⟩⟩
      rw [write.writeItems, htext.append, happend, List.append_assoc]
      rfl

theorem exists_writeField (name : String) {j : Json} {text : List Char} (h : HasText j text) :
    ∃ field, (∀ rest, writeString name (':' :: j.write rest) = field ++ rest) ∧
      ∀ c ∈ field, 32 ≤ c.toNat := by
  refine ⟨'\x22' :: (name.toList.flatMap escaped ++ '\x22' :: ':' :: text), fun rest => ?_, ?_⟩
  · rw [writeString, writeChars_eq, h.append, List.cons_append, List.append_assoc]
    rfl
  · simp only [List.forall_mem_cons, List.forall_mem_append]
    exact ⟨by decide, printed_flatMap_escaped _, by decide, by decide, h.printed⟩

/-- The fields of an object up to its closing brace. -/
theorem exists_writeFields {fs : List (String × Json)} (h : ∀ f ∈ fs, ∃ text, HasText f.2 text) :
    ∃ inner, (∀ rest, write.writeFields fs rest = inner ++ '\x7d' :: rest) ∧
      ∀ c ∈ inner, 32 ≤ c.toNat := by
  induction fs with
  | nil => exact ⟨[], fun _ => rfl, fun _ hc => (List.not_mem_nil hc).elim⟩
  | cons f more ih =>
    obtain ⟨name, j⟩ := f
    obtain ⟨text, htext⟩ := h (name, j) List.mem_cons_self
    obtain ⟨inner, happend, hprinted⟩ := ih fun g hg => h g (List.mem_cons_of_mem _ hg)
    obtain ⟨field, hfield, hfieldPrinted⟩ := exists_writeField name htext
    cases more with
    | nil => exact ⟨field, fun rest => hfield ('\x7d' :: rest), hfieldPrinted⟩
    | cons g more =>
      refine ⟨field ++ ',' :: inner, fun rest => ?_,
        List.forall_mem_append.2 ⟨hfieldPrinted, List.forall_mem_cons.2 ⟨by decide, hprinted⟩⟩⟩
      rw [write.writeFields, hfield, happend, List.append_assoc]
      rfl

theorem WellFormed.exists_hasText {j : Json} (h : WellFormed j) : ∃ text, HasText j text := by
  induction h with
  | null =>
    exact ⟨['n', 'u', 'l', 'l'], fun _ => rfl, ⟨'n', _, rfl, by decide⟩,
      ⟨['n', 'u', 'l'], 'l', rfl, by decide⟩, by simp⟩
  | bool b =>
    cases b with
    | true =>
      exact ⟨['t', 'r', 'u', 'e'], fun _ => rfl, ⟨'t', _, rfl, by decide⟩,
        ⟨['t', 'r', 'u'], 'e', rfl, by decide⟩, by simp⟩
    | false =>
      exact ⟨['f', 'a', 'l', 's', 'e'], fun _ => rfl, ⟨'f', _, rfl, by decide⟩,
        ⟨['f', 'a', 'l', 's'], 'e', rfl, by decide⟩, by simp⟩
  | @int n low high => exact ⟨_, hasText_of_number (fun _ => rfl) (numberText_int n)⟩
  | float finite => exact ⟨_, hasText_of_number (fun _ => rfl) (numberText_float finite)⟩
  | str s =>
    have happend : ∀ rest, (Json.str s).write rest =
        '\x22' :: (s.toList.flatMap escaped ++ '\x22' :: rest) :=
      fun rest => congrArg ('\x22' :: ·) (writeChars_eq s.toList rest)
    exact ⟨_, hasText_of_delimited happend (printed_flatMap_escaped s.toList) (by decide)
      (by decide)⟩
  | array _ ih =>
    obtain ⟨inner, happend, hprinted⟩ := exists_writeItems ih
    have happend' : ∀ rest, (Json.array _).write rest = '[' :: (inner ++ ']' :: rest) :=
      fun rest => congrArg ('[' :: ·) (happend rest)
    exact ⟨_, hasText_of_delimited happend' hprinted (by decide) (by decide)⟩
  | object _ _ ih =>
    obtain ⟨inner, happend, hprinted⟩ := exists_writeFields ih
    have happend' : ∀ rest, (Json.object _).write rest = '\x7b' :: (inner ++ '\x7d' :: rest) :=
      fun rest => congrArg ('\x7b' :: ·) (happend rest)
    exact ⟨_, hasText_of_delimited happend' hprinted (by decide) (by decide)⟩

/-! ### Reading -/

theorem skipBlanks_cons {c : Char} (h : isBlank c = false) (cs : List Char) :
    skipBlanks (c :: cs) = c :: cs := by
  rw [skipBlanks, List.dropWhile_cons_of_neg]
  rw [h]
  exact Bool.false_ne_true

theorem endsNumber_cons {c : Char} (h : isNumberChar c = false ∧ c ≠ 'E') (cs : List Char) :
    EndsNumber (c :: cs) := by
  intro d ds heq
  obtain ⟨rfl, -⟩ := List.cons.inj heq
  obtain ⟨hchar, hletter⟩ := h
  simp only [isNumberChar, Bool.or_eq_false_iff, beq_eq_false_iff_ne] at hchar
  exact ⟨hchar.1.1.1.1, hchar.1.2, hchar.2, hletter⟩

theorem value_number (fuel depth : Nat) {c : Char} (h : c = '-' ∨ c.isDigit = true)
    (cs : List Char) : value (fuel + 1) depth (c :: cs) = number (c :: cs) := by
  have hsolid : Solid c := by
    rcases h with rfl | h
    · decide
    · exact (solid_of_isDigit h).1
  have hother : ∀ d, d ≠ '-' → d.isDigit = false → c ≠ d := by
    rintro d hd hdigit rfl
    rcases h with h | h
    · exact hd h
    · rw [hdigit] at h
      cases h
  rw [value, skipBlanks_cons hsolid.isBlank]
  split
  case h_7 => rfl
  all_goals
    rename_i heq
    exact (hother _ (by decide) (by decide) (List.cons.inj heq).1).elim

/-- A value is read in front of whatever does not go on with a number. -/
def ReadsBack (j : Json) : Prop := ∀ fuel depth rest, j.depth ≤ depth →
  (j.write rest).length ≤ fuel + rest.length → EndsNumber rest →
    value fuel depth (j.write rest) = some (j, rest)

theorem length_lt_of_hasText {j : Json} {text : List Char} (h : HasText j text)
    (rest : List Char) : rest.length < (j.write rest).length := by
  obtain ⟨c, cs, rfl, -⟩ := h.first
  rw [h.append, List.length_append, List.length_cons]
  omega

theorem items_value {j : Json} (h : ReadsBack j) {fuel depth : Nat} {behind : List Char}
    (hdepth : j.depth ≤ depth) (hfuel : (j.write behind).length ≤ fuel + behind.length)
    (hends : EndsNumber behind) :
    items (fuel + 1) depth (j.write behind) =
      match skipBlanks behind with
      | ',' :: rest => (items fuel depth rest).map fun (js, rest) => (j :: js, rest)
      | ']' :: rest => some ([j], rest)
      | _ => none := by
  rw [items, h fuel depth behind hdepth hfuel hends]
  show (match skipBlanks behind with
    | ',' :: rest => (items fuel depth rest).bind fun (js, rest) => some (j :: js, rest)
    | ']' :: rest => some ([j], rest)
    | _ => none) = _
  split
  · cases items fuel depth _ <;> rfl
  · rfl
  · rfl

theorem items_writeItems {js : List Json} (hne : js ≠ []) (text : ∀ j ∈ js, ∃ text, HasText j text)
    (reads : ∀ j ∈ js, ReadsBack j) {fuel depth : Nat} {rest : List Char}
    (hdepth : Json.depth.itemsDepth js ≤ depth)
    (hfuel : (write.writeItems js rest).length ≤ fuel + rest.length) :
    items fuel depth (write.writeItems js rest) = some (js, rest) := by
  induction js generalizing fuel with
  | nil => exact (hne rfl).elim
  | cons j more ih =>
    obtain ⟨htext, htexts⟩ := List.forall_mem_cons.1 text
    obtain ⟨hread, hreads⟩ := List.forall_mem_cons.1 reads
    obtain ⟨text, htext⟩ := htext
    have hfirst : j.depth ≤ depth := Nat.le_trans (Nat.le_max_left _ _) hdepth
    have hothers : Json.depth.itemsDepth more ≤ depth := Nat.le_trans (Nat.le_max_right _ _) hdepth
    cases more with
    | nil =>
      have hlonger := length_lt_of_hasText htext (']' :: rest)
      rw [List.length_cons] at hlonger
      rw [write.writeItems] at hfuel ⊢
      obtain ⟨fuel, rfl⟩ : ∃ k, fuel = k + 1 := ⟨fuel - 1, by omega⟩
      rw [items_value hread hfirst (by rw [List.length_cons]; omega)
        (endsNumber_cons (by decide) rest)]
      rfl
    | cons k more =>
      rw [write.writeItems] at hfuel ⊢
      obtain ⟨inner, happend, -⟩ := exists_writeItems htexts
      have hrest := congrArg List.length (happend rest)
      rw [List.length_append, List.length_cons] at hrest
      have hitems := fun fuel => @ih (List.cons_ne_nil k more) htexts hreads fuel hothers
      generalize write.writeItems (k :: more) rest = others at *
      have hlonger := length_lt_of_hasText htext (',' :: others)
      rw [List.length_cons] at hlonger
      obtain ⟨fuel, rfl⟩ : ∃ k, fuel = k + 1 := ⟨fuel - 1, by omega⟩
      rw [items_value hread hfirst (by rw [List.length_cons]; omega)
        (endsNumber_cons (by decide) others)]
      show (items fuel depth others).map _ = _
      rw [hitems fuel (by omega)]
      rfl

theorem length_lt_writeField (name : String) (text : List Char) :
    name.toList.length + text.length + 2 < (writeString name (':' :: text)).length := by
  have hchars := length_lt_writeChars name.toList (':' :: text)
  rw [List.length_cons] at hchars
  rw [writeString, List.length_cons]
  omega

theorem fields_value (name : String) {j : Json} (h : ReadsBack j) {text : List Char}
    (htext : HasText j text) {fuel depth : Nat} {behind : List Char} (hdepth : j.depth ≤ depth)
    (hfuel : (writeString name (':' :: j.write behind)).length ≤ fuel + 1 + behind.length)
    (hends : EndsNumber behind) :
    fields (fuel + 1) depth (writeString name (':' :: j.write behind)) =
      match skipBlanks behind with
      | ',' :: rest => (fields fuel depth rest).map fun (fs, rest) => ((name, j) :: fs, rest)
      | '\x7d' :: rest => some ([(name, j)], rest)
      | _ => none := by
  have hlonger := length_lt_of_hasText htext behind
  have hfield := length_lt_writeField name (j.write behind)
  rw [writeString, fields]
  show (string fuel (writeChars name.toList (':' :: j.write behind))).bind _ = _
  rw [string_writeChars _ (by omega)]
  show (value fuel depth (j.write behind)).bind _ = _
  rw [h fuel depth behind hdepth (by omega) hends]
  show (match skipBlanks behind with
    | ',' :: rest => (fields fuel depth rest).bind fun (fs, rest) => some ((name, j) :: fs, rest)
    | '\x7d' :: rest => some ([(name, j)], rest)
    | _ => none) = _
  split
  · cases fields fuel depth _ <;> rfl
  · rfl
  · rfl

theorem fields_writeFields {fs : List (String × Json)} (hne : fs ≠ [])
    (text : ∀ f ∈ fs, ∃ text, HasText f.2 text) (reads : ∀ f ∈ fs, ReadsBack f.2)
    {fuel depth : Nat} {rest : List Char} (hdepth : Json.depth.fieldsDepth fs ≤ depth)
    (hfuel : (write.writeFields fs rest).length ≤ fuel + rest.length) :
    fields fuel depth (write.writeFields fs rest) = some (fs, rest) := by
  induction fs generalizing fuel with
  | nil => exact (hne rfl).elim
  | cons f more ih =>
    obtain ⟨name, j⟩ := f
    obtain ⟨htext, htexts⟩ := List.forall_mem_cons.1 text
    obtain ⟨hread, hreads⟩ := List.forall_mem_cons.1 reads
    obtain ⟨text, htext⟩ : ∃ text, HasText j text := htext
    have hread : ReadsBack j := hread
    have hfirst : j.depth ≤ depth := Nat.le_trans (Nat.le_max_left _ _) hdepth
    have hothers : Json.depth.fieldsDepth more ≤ depth := Nat.le_trans (Nat.le_max_right _ _) hdepth
    cases more with
    | nil =>
      have hfield := length_lt_writeField name (j.write ('\x7d' :: rest))
      have hlonger := length_lt_of_hasText htext ('\x7d' :: rest)
      rw [List.length_cons] at hlonger
      rw [write.writeFields] at hfuel ⊢
      obtain ⟨fuel, rfl⟩ : ∃ k, fuel = k + 1 := ⟨fuel - 1, by omega⟩
      rw [fields_value name hread htext hfirst (by rw [List.length_cons]; omega)
        (endsNumber_cons (by decide) rest)]
      rfl
    | cons g more =>
      rw [write.writeFields] at hfuel ⊢
      obtain ⟨inner, happend, -⟩ := exists_writeFields htexts
      have hrest := congrArg List.length (happend rest)
      rw [List.length_append, List.length_cons] at hrest
      have hfields := fun fuel => @ih (List.cons_ne_nil g more) htexts hreads fuel hothers
      generalize write.writeFields (g :: more) rest = others at *
      have hfield := length_lt_writeField name (j.write (',' :: others))
      have hlonger := length_lt_of_hasText htext (',' :: others)
      rw [List.length_cons] at hlonger
      obtain ⟨fuel, rfl⟩ : ∃ k, fuel = k + 1 := ⟨fuel - 1, by omega⟩
      rw [fields_value name hread htext hfirst (by rw [List.length_cons]; omega)
        (endsNumber_cons (by decide) others)]
      show (fields fuel depth others).map _ = _
      rw [hfields fuel (by omega)]
      rfl

theorem value_array (fuel depth : Nat) {text : List Char}
    (start : ∃ c cs, text = c :: cs ∧ Solid c ∧ c ≠ ']') :
    value (fuel + 1) (depth + 1) ('[' :: text) =
      (items fuel depth text).map fun (js, rest) => (.array js, rest) := by
  obtain ⟨c, cs, rfl, hsolid, hne⟩ := start
  have hopen : skipBlanks ('[' :: c :: cs) = '[' :: c :: cs :=
    skipBlanks_cons (by decide) (c :: cs)
  simp only [value, hopen, skipBlanks_cons hsolid.isBlank]
  split
  · rename_i heq
    exact (hne (List.cons.inj heq).1).elim
  · rfl

theorem exists_head_writeItems {j : Json} {text : List Char} (h : HasText j text)
    (more : List Json) (rest : List Char) :
    ∃ c cs, write.writeItems (j :: more) rest = c :: cs ∧ Solid c ∧ c ≠ ']' := by
  obtain ⟨c, cs, rfl, hc⟩ := h.first
  cases more with
  | nil => exact ⟨c, _, h.append _, hc⟩
  | cons k more => exact ⟨c, _, h.append _, hc⟩

theorem value_object (fuel depth : Nat) (text : List Char) :
    value (fuel + 1) (depth + 1) ('\x7b' :: '\x22' :: text) =
      (fields fuel depth ('\x22' :: text)).map fun (fs, rest) => (.ofFields fs, rest) := rfl

theorem exists_cons_writeFields (name : String) (j : Json) (more : List (String × Json))
    (rest : List Char) : ∃ text, write.writeFields ((name, j) :: more) rest = '\x22' :: text := by
  cases more with
  | nil => exact ⟨_, rfl⟩
  | cons f more => exact ⟨_, rfl⟩

theorem readsBack_of_succ {j : Json} {text : List Char} (htext : HasText j text)
    (h : ∀ fuel depth rest, j.depth ≤ depth → (j.write rest).length ≤ fuel + 1 + rest.length →
      EndsNumber rest → value (fuel + 1) depth (j.write rest) = some (j, rest)) :
    ReadsBack j := by
  intro fuel depth rest hdepth hfuel hrest
  have hlonger := length_lt_of_hasText htext rest
  obtain ⟨fuel, rfl⟩ : ∃ k, fuel = k + 1 := ⟨fuel - 1, by omega⟩
  exact h fuel depth rest hdepth hfuel hrest

theorem readsBack_of_number {j : Json} {text : List Char} (h : NumberText text)
    (append : ∀ rest, j.write rest = text ++ rest)
    (read : ∀ rest, EndsNumber rest → number (text ++ rest) = some (j, rest)) : ReadsBack j := by
  apply readsBack_of_succ (hasText_of_number append h)
  intro fuel depth rest _ _ hrest
  obtain ⟨c, cs, hcons, hc⟩ := h.start
  have hnumber := read rest hrest
  rw [append]
  rw [hcons, List.cons_append] at hnumber ⊢
  rw [value_number fuel depth hc, hnumber]

/-- Every value that a text can denote is read as it was written. -/
theorem WellFormed.readsBack {j : Json} (h : WellFormed j) : ReadsBack j := by
  obtain ⟨text, htext⟩ := h.exists_hasText
  induction h generalizing text with
  | null => exact readsBack_of_succ htext fun _ _ _ _ _ _ => rfl
  | bool b => cases b <;> exact readsBack_of_succ htext fun _ _ _ _ _ _ => rfl
  | @int n low high =>
    exact readsBack_of_number (numberText_int n) (fun _ => rfl) fun _ => number_int low high
  | float finite =>
    exact readsBack_of_number (numberText_float finite) (fun _ => rfl) fun _ => number_float finite
  | str s =>
    apply readsBack_of_succ htext
    intro fuel depth rest _ hfuel _
    have hchars := length_lt_writeChars s.toList rest
    have hlength : ((Json.str s).write rest).length = (writeChars s.toList rest).length + 1 := rfl
    show (string fuel (writeChars s.toList rest)).map _ = _
    rw [string_writeChars rest (by omega)]
    rfl
  | @array js items ih =>
    have htexts : ∀ j ∈ js, ∃ text, HasText j text := fun j hj => (items j hj).exists_hasText
    apply readsBack_of_succ htext
    intro fuel depth rest hdepth hfuel _
    have hnested : 1 + Json.depth.itemsDepth js ≤ depth := hdepth
    obtain ⟨depth, rfl⟩ : ∃ k, depth = k + 1 := ⟨depth - 1, by omega⟩
    cases js with
    | nil => rfl
    | cons j more =>
      obtain ⟨text, htext⟩ := htexts j List.mem_cons_self
      have hlength : ((Json.array (j :: more)).write rest).length =
        (write.writeItems (j :: more) rest).length + 1 := rfl
      show value (fuel + 1) (depth + 1) ('[' :: write.writeItems (j :: more) rest) = _
      rw [value_array fuel depth (exists_head_writeItems htext more rest),
        items_writeItems (List.cons_ne_nil j more) htexts
          (fun k hk => (htexts k hk).elim fun text htext => ih k hk text htext) (by omega) (by omega)]
      rfl
  | @object fs ascending values ih =>
    have htexts : ∀ f ∈ fs, ∃ text, HasText f.2 text := fun f hf => (values f hf).exists_hasText
    apply readsBack_of_succ htext
    intro fuel depth rest hdepth hfuel _
    have hnested : 1 + Json.depth.fieldsDepth fs ≤ depth := hdepth
    obtain ⟨depth, rfl⟩ : ∃ k, depth = k + 1 := ⟨depth - 1, by omega⟩
    cases fs with
    | nil => rfl
    | cons f more =>
      obtain ⟨name, j⟩ := f
      have hlength : ((Json.object ((name, j) :: more)).write rest).length =
        (write.writeFields ((name, j) :: more) rest).length + 1 := rfl
      have hfields : fields fuel depth (write.writeFields ((name, j) :: more) rest) =
          some ((name, j) :: more, rest) :=
        fields_writeFields (List.cons_ne_nil _ more) htexts
          (fun f hf => (htexts f hf).elim fun text htext => ih f hf text htext) (by omega) (by omega)
      obtain ⟨text, hcons⟩ := exists_cons_writeFields name j more rest
      show value (fuel + 1) (depth + 1) ('\x7b' :: write.writeFields ((name, j) :: more) rest) = _
      rw [hcons, value_object, ← hcons, hfields]
      show some (Json.object (Keyed.ofList ((name, j) :: more)), rest) = _
      rw [Keyed.ofList_of_ascending ascending]

/-- The text of a value that is not nested too deep denotes this value. -/
theorem WellFormed.parse_render {j : Json} (h : WellFormed j) (hdepth : j.depth ≤ maxDepth) :
    parse j.render = some j := by
  have hends : EndsNumber [] := fun _ _ hnil => (List.cons_ne_nil _ _ hnil.symm).elim
  have hvalue := h.readsBack (2 * (j.write []).length + 2) maxDepth [] hdepth
    (by rw [List.length_nil]; omega) hends
  rw [parse, render, String.toList_ofList, read, hvalue]
  rfl

end LiveQuery.Json
