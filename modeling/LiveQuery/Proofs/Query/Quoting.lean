import LiveQuery.Query.Call

/-!
# Where the strings of a statement are

Whether a blank, a comma or a parenthesis of a statement counts depends on one thing alone: whether
it stands in a string. `Mode` is what has to be known of the text before it to tell. With modes,
`condense` leaves out the blanks that do not count and `Spaced` puts them in. The second half reads
the scan of a call's arguments in these terms: a scan is a mode and the pieces gathered so far
(`Mode.scan`), blanks that do not count have no effect on it (`foldlM_condense`), and what stands in
a string (`Closes`) or in parentheses is gathered as it is (`Whole`).
-/

namespace LiveQuery.Call

inductive Mode where
  | outside
  | inside (quote : Char)
  /-- In a string, behind a backslash that protects the next character. -/
  | escaping (quote : Char)
deriving DecidableEq

namespace Mode

def next : Mode → Char → Mode
  | .outside, c => if Scan.isQuote c then .inside c else .outside
  | .inside quote, c =>
    if c = '\x5c' ∧ quote ≠ '\x60' then .escaping quote
    else if c = quote then .outside
    else .inside quote
  | .escaping quote, _ => .inside quote

/-- The mode behind a text. -/
def run (m : Mode) (cs : List Char) : Mode := cs.foldl next m

@[simp] theorem run_nil (m : Mode) : m.run [] = m := rfl

@[simp] theorem run_cons (m : Mode) (c : Char) (cs : List Char) :
    m.run (c :: cs) = (m.next c).run cs := rfl

theorem run_append (m : Mode) (cs ds : List Char) : m.run (cs ++ ds) = (m.run cs).run ds :=
  List.foldl_append

end Mode

theorem isQuote_eq_false_of_isBlank {c : Char} (h : Text.isBlank c = true) :
    Scan.isQuote c = false := by
  cases hquote : Scan.isQuote c with
  | false => rfl
  | true =>
    simp only [Scan.isQuote, Bool.or_eq_true, beq_iff_eq] at hquote
    rcases hquote with (rfl | rfl) | rfl <;> revert h <;> decide

theorem next_of_isBlank {c : Char} (h : Text.isBlank c = true) :
    Mode.outside.next c = .outside := by
  simp [Mode.next, isQuote_eq_false_of_isBlank h]

/-! ### Blanks that do not count -/

/-- A text without the blanks that stand in no string. -/
def condense : Mode → List Char → List Char
  | _, [] => []
  | m, c :: rest =>
    if m = .outside ∧ Text.isBlank c then condense m rest else c :: condense (m.next c) rest

/-- The second text is the first one with blanks put in, none of them in a string. -/
inductive Spaced : Mode → List Char → List Char → Prop
  | nil (m : Mode) : Spaced m [] []
  | keep {m : Mode} {c : Char} {tight loose : List Char} (h : Spaced (m.next c) tight loose) :
    Spaced m (c :: tight) (c :: loose)
  | blank {c : Char} {tight loose : List Char} (hc : Text.isBlank c = true)
    (h : Spaced .outside tight loose) : Spaced .outside tight (c :: loose)

@[simp] theorem condense_nil (m : Mode) : condense m [] = [] := rfl

theorem condense_blank {c : Char} (h : Text.isBlank c = true) (rest : List Char) :
    condense .outside (c :: rest) = condense .outside rest := by
  simp [condense, h]

theorem condense_cons {m : Mode} {c : Char} (h : ¬ (m = .outside ∧ Text.isBlank c = true))
    (rest : List Char) : condense m (c :: rest) = c :: condense (m.next c) rest := by
  simp only [condense, h, if_false]

/-- A rule about condensing: a character is left out or kept. -/
theorem condense_cases {motive : Mode → List Char → List Char → Prop}
    (nil : ∀ m, motive m [] [])
    (blank : ∀ c rest, Text.isBlank c = true → motive .outside rest (condense .outside rest) →
      motive .outside (c :: rest) (condense .outside rest))
    (keep : ∀ m c rest, ¬ (m = .outside ∧ Text.isBlank c = true) →
      motive (m.next c) rest (condense (m.next c) rest) →
      motive m (c :: rest) (c :: condense (m.next c) rest))
    (m : Mode) (cs : List Char) : motive m cs (condense m cs) := by
  induction cs generalizing m with
  | nil => exact nil m
  | cons c rest ih =>
    by_cases h : m = .outside ∧ Text.isBlank c = true
    · obtain ⟨rfl, hc⟩ := h
      rw [condense_blank hc]
      exact blank c rest hc (ih .outside)
    · rw [condense_cons h]
      exact keep m c rest h (ih (m.next c))

theorem run_condense (m : Mode) (cs : List Char) : m.run (condense m cs) = m.run cs := by
  refine condense_cases (motive := fun m cs tight => m.run tight = m.run cs) ?_ ?_ ?_ m cs
  · exact fun _ => rfl
  · intro c rest hc ih
    rw [Mode.run_cons, next_of_isBlank hc]
    exact ih
  · intro m c rest _ ih
    exact ih

theorem condense_condense (m : Mode) (cs : List Char) :
    condense m (condense m cs) = condense m cs := by
  refine condense_cases (motive := fun m _ tight => condense m tight = tight) ?_ ?_ ?_ m cs
  · exact fun _ => rfl
  · exact fun _ _ _ ih => ih
  · intro m c rest h ih
    rw [condense_cons h, ih]

theorem condense_append (m : Mode) (cs ds : List Char) :
    condense m (cs ++ ds) = condense m cs ++ condense (m.run cs) ds := by
  refine condense_cases (motive := fun m cs tight =>
    condense m (cs ++ ds) = tight ++ condense (m.run cs) ds) ?_ ?_ ?_ m cs
  · exact fun _ => rfl
  · intro c rest hc ih
    rw [List.cons_append, condense_blank hc, Mode.run_cons, next_of_isBlank hc, ih]
  · intro m c rest h ih
    rw [List.cons_append, condense_cons h, ih, Mode.run_cons, List.cons_append]

theorem length_condense_le (m : Mode) (cs : List Char) : (condense m cs).length ≤ cs.length := by
  refine condense_cases (motive := fun _ cs tight => tight.length ≤ cs.length) ?_ ?_ ?_ m cs
  · exact fun _ => Nat.le_refl 0
  · exact fun _ _ _ ih => Nat.le_succ_of_le ih
  · exact fun _ _ _ _ ih => Nat.succ_le_succ ih

theorem spaced_condense (m : Mode) (cs : List Char) : Spaced m (condense m cs) cs :=
  condense_cases (motive := fun m cs tight => Spaced m tight cs) Spaced.nil
    (fun _ _ hc ih => .blank hc ih) (fun _ _ _ _ ih => .keep ih) m cs

theorem Spaced.refl (m : Mode) (cs : List Char) : Spaced m cs cs := by
  induction cs generalizing m with
  | nil => exact .nil m
  | cons c rest ih => exact .keep (ih (m.next c))

theorem Spaced.condense_eq {m : Mode} {tight loose : List Char} (h : Spaced m tight loose) :
    condense m tight = condense m loose := by
  induction h with
  | nil m => rfl
  | @keep m c _ _ _ ih =>
    by_cases hc : m = .outside ∧ Text.isBlank c = true
    · obtain ⟨rfl, hc⟩ := hc
      rw [next_of_isBlank hc] at ih
      rw [condense_blank hc, condense_blank hc, ih]
    · rw [condense_cons hc, condense_cons hc, ih]
  | blank hc _ ih => rw [condense_blank hc, ih]

theorem condense_eq_nil_iff {cs : List Char} :
    condense .outside cs = [] ↔ ∀ c ∈ cs, Text.isBlank c = true := by
  induction cs with
  | nil => simp
  | cons c rest ih =>
    rw [List.forall_mem_cons, ← ih]
    by_cases hc : Text.isBlank c = true
    · rw [condense_blank hc, and_iff_right hc]
    · rw [condense_cons fun h => hc h.2]
      simp [hc]

theorem run_of_isBlank {cs : List Char} (h : ∀ c ∈ cs, Text.isBlank c = true) :
    Mode.outside.run cs = .outside := by
  rw [← run_condense, condense_eq_nil_iff.2 h, Mode.run_nil]

/-! ### The scan of a call's arguments -/

namespace Mode

def quote? : Mode → Option Char
  | .outside => none
  | .inside quote | .escaping quote => some quote

def isEscaping : Mode → Bool
  | .escaping _ => true
  | _ => false

/-- The scan in a mode, with the pieces gathered so far. -/
def scan (m : Mode) (done : List (List Char)) (current : List Char) (depth : Nat) : Scan :=
  ⟨done, current, depth, m.quote?, m.isEscaping⟩

end Mode

section Steps

variable (done : List (List Char)) (current : List Char) (depth : Nat)

theorem start_eq : Scan.start = Mode.outside.scan [] [] 0 := rfl

/-- In a string every character is gathered. -/
theorem step_in_string {m : Mode} (h : m ≠ .outside) (c : Char) :
    (m.scan done current depth).step c = .ok ((m.next c).scan done (c :: current) depth) := by
  cases m with
  | outside => exact absurd rfl h
  | inside quote =>
    simp only [Scan.step, Mode.scan, Mode.quote?, Mode.isEscaping, Scan.quotedStep, Mode.next,
      Bool.false_eq_true, if_false]
    by_cases hbackslash : c = '\x5c' ∧ quote ≠ '\x60'
    · simp only [hbackslash, and_self, if_true, ne_eq, not_false_eq_true]
    · simp only [hbackslash, if_false]
      by_cases hclose : c = quote
      · simp only [hclose, if_true]
      · simp only [hclose, if_false]
  | escaping quote => rfl

theorem step_blank {c : Char} (h : Text.isBlank c = true) :
    (Mode.outside.scan done current depth).step c = .ok (Mode.outside.scan done current depth) := by
  have hother : c ≠ '(' ∧ c ≠ ')' ∧ c ≠ ',' := by
    refine ⟨?_, ?_, ?_⟩ <;> rintro rfl <;> revert h <;> decide
  simp [Scan.step, Mode.scan, Mode.quote?, Scan.plainStep, isQuote_eq_false_of_isBlank h, hother, h]

theorem step_quote {c : Char} (h : Scan.isQuote c = true) :
    (Mode.outside.scan done current depth).step c =
      .ok ((Mode.inside c).scan done (c :: current) depth) := by
  simp [Scan.step, Mode.scan, Mode.quote?, Scan.plainStep, h, Mode.isEscaping]

/-- Outside strings a comma may end a piece, a blank is left out, and all else is gathered. -/
theorem step_outside {c : Char} {t : Scan}
    (h : (Mode.outside.scan done current depth).step c = .ok t) :
    (c = ',' ∧ depth = 0 ∧ current ≠ [] ∧ t = Mode.outside.scan (current.reverse :: done) [] 0) ∨
      (Text.isBlank c = true ∧ t = Mode.outside.scan done current depth) ∨
      (¬ Text.isBlank c = true ∧
        ∃ depth', t = (Mode.outside.next c).scan done (c :: current) depth') := by
  by_cases hblank : Text.isBlank c = true
  · rw [step_blank done current depth hblank] at h
    exact .inr (.inl ⟨hblank, (Except.ok.inj h).symm⟩)
  · simp only [Scan.step, Mode.scan, Mode.quote?, Scan.plainStep, hblank] at h
    simp only [Mode.next]
    by_cases hquote : Scan.isQuote c = true
    · simp only [hquote, if_true] at h ⊢
      exact .inr (.inr ⟨hblank, depth, (Except.ok.inj h).symm⟩)
    · simp only [hquote] at h ⊢
      by_cases hopen : c = '('
      · simp only [hopen, if_true] at h
        exact .inr (.inr ⟨hblank, depth + 1, hopen ▸ (Except.ok.inj h).symm⟩)
      · simp only [hopen, if_false] at h
        by_cases hclose : c = ')'
        · simp only [hclose, if_true] at h
          by_cases hdepth : depth = 0
          · simp only [hdepth, if_true] at h
            cases h
          · simp only [hdepth, if_false] at h
            exact .inr (.inr ⟨hblank, depth - 1, hclose ▸ (Except.ok.inj h).symm⟩)
        · simp only [hclose, if_false] at h
          by_cases hcomma : c = ',' ∧ depth = 0
          · obtain ⟨rfl, rfl⟩ := hcomma
            by_cases hcurrent : current = []
            · simp only [hcurrent, and_self, if_true] at h
              cases h
            · simp only [hcurrent, and_self, if_true, if_false] at h
              exact .inl ⟨rfl, rfl, hcurrent, (Except.ok.inj h).symm⟩
          · simp only [hcomma, if_false] at h
            exact .inr (.inr ⟨hblank, depth, (Except.ok.inj h).symm⟩)

end Steps

theorem exists_scan_of_step {m : Mode} {done : List (List Char)} {current : List Char} {depth : Nat}
    {c : Char} {t : Scan} (h : (m.scan done current depth).step c = .ok t) :
    ∃ done' current' depth', t = (m.next c).scan done' current' depth' := by
  by_cases hm : m = .outside
  · subst hm
    rcases step_outside done current depth h with ⟨rfl, -, -, ht⟩ | ⟨hblank, ht⟩ | ⟨-, _, ht⟩
    · exact ⟨_, _, _, ht⟩
    · rw [next_of_isBlank hblank]
      exact ⟨_, _, _, ht⟩
    · exact ⟨_, _, _, ht⟩
  · rw [step_in_string done current depth hm] at h
    exact ⟨_, _, _, (Except.ok.inj h).symm⟩

/-- Blanks that do not count do not change what is gathered. -/
theorem foldlM_condense (m : Mode) (cs : List Char) (done : List (List Char)) (current : List Char)
    (depth : Nat) : (condense m cs).foldlM Scan.step (m.scan done current depth) =
      cs.foldlM Scan.step (m.scan done current depth) := by
  induction cs generalizing m done current depth with
  | nil => rfl
  | cons c rest ih =>
    by_cases h : m = .outside ∧ Text.isBlank c = true
    · obtain ⟨rfl, hc⟩ := h
      rw [condense_blank hc, List.foldlM_cons, step_blank done current depth hc, ih]
      rfl
    · rw [condense_cons h, List.foldlM_cons, List.foldlM_cons]
      cases hstep : (m.scan done current depth).step c with
      | error fault => rfl
      | ok t =>
        obtain ⟨done', current', depth', rfl⟩ := exists_scan_of_step hstep
        exact ih (m.next c) done' current' depth'

/-! ### Texts that are gathered whole -/

/-- The text goes to the end of the string that the mode is in, and not beyond. -/
def Closes : Mode → List Char → Prop
  | m, [] => m = .outside
  | m, c :: rest => m ≠ .outside ∧ Closes (m.next c) rest

theorem Closes.run {m : Mode} {cs : List Char} (h : Closes m cs) : m.run cs = .outside := by
  induction cs generalizing m with
  | nil => exact h
  | cons c rest ih => exact ih h.2

theorem Closes.condense {m : Mode} {cs : List Char} (h : Closes m cs) : condense m cs = cs := by
  induction cs generalizing m with
  | nil => rfl
  | cons c rest ih => rw [condense_cons fun hc => h.1 hc.1, ih h.2]

theorem Closes.run_eq_outside_iff {m : Mode} {front rest : List Char}
    (h : Closes m (front ++ rest)) : m.run front = .outside ↔ rest = [] := by
  induction front generalizing m with
  | nil =>
    cases rest with
    | nil => exact ⟨fun _ => rfl, fun _ => h⟩
    | cons c rest => exact ⟨fun hm => absurd hm h.1, nofun⟩
  | cons c front ih => exact ih h.2

/-- On its way through the string the scan gathers every character. -/
theorem Closes.foldlM_prefix {m : Mode} {front rest : List Char} (h : Closes m (front ++ rest))
    (done : List (List Char)) (current : List Char) (depth : Nat) :
    front.foldlM Scan.step (m.scan done current depth) =
      .ok ((m.run front).scan done (front.reverse ++ current) depth) := by
  induction front generalizing m current with
  | nil => rfl
  | cons c front ih =>
    rw [List.foldlM_cons, step_in_string done current depth h.1, List.reverse_cons,
      List.append_assoc]
    exact ih h.2 (c :: current)

theorem Closes.foldlM {m : Mode} {cs : List Char} (h : Closes m cs) (done : List (List Char))
    (current : List Char) (depth : Nat) : cs.foldlM Scan.step (m.scan done current depth) =
      .ok (Mode.outside.scan done (cs.reverse ++ current) depth) := by
  have hclosed := h.run
  rw [← List.append_nil cs] at h
  rw [h.foldlM_prefix done current depth, hclosed]

/-- A text that the scan of a call gathers as a piece or a part of one, wherever at least `least`
parentheses are open around it. -/
structure Whole (least : Nat) (cs : List Char) : Prop where
  run : Mode.outside.run cs = .outside
  foldlM (done : List (List Char)) (current : List Char) {depth : Nat} (h : least ≤ depth) :
    cs.foldlM Scan.step (Mode.outside.scan done current depth) =
      .ok (Mode.outside.scan done ((condense .outside cs).reverse ++ current) depth)

theorem Whole.mono {least most : Nat} {cs : List Char} (h : Whole least cs) (hle : least ≤ most) :
    Whole most cs :=
  ⟨h.run, fun done current _ hdepth => h.foldlM done current (Nat.le_trans hle hdepth)⟩

theorem Whole.nil (least : Nat) : Whole least [] := ⟨rfl, fun _ _ _ _ => rfl⟩

theorem Whole.append {least : Nat} {cs ds : List Char} (hcs : Whole least cs)
    (hds : Whole least ds) : Whole least (cs ++ ds) := by
  refine ⟨?_, fun done current depth hdepth => ?_⟩
  · rw [Mode.run_append, hcs.run, hds.run]
  · rw [List.foldlM_append, hcs.foldlM done current hdepth, condense_append, hcs.run,
      List.reverse_append, List.append_assoc]
    exact hds.foldlM done _ hdepth

/-- Whether a text is gathered does not depend on the blanks that do not count. -/
theorem Whole.of_condense_eq {least : Nat} {cs ds : List Char} (hcs : Whole least cs)
    (h : condense .outside ds = condense .outside cs) : Whole least ds := by
  refine ⟨?_, fun done current depth hdepth => ?_⟩
  · rw [← run_condense, h, run_condense, hcs.run]
  · rw [← foldlM_condense, h, foldlM_condense, hcs.foldlM done current hdepth]

/-- A character that means nothing to the scan. -/
def isOrdinary (c : Char) : Bool :=
  !(Text.isBlank c || c == '(' || c == ')' || c == ',' || Scan.isQuote c)

theorem next_of_isOrdinary {c : Char} (h : isOrdinary c = true) :
    Mode.outside.next c = .outside := by
  simp [isOrdinary] at h
  simp [Mode.next, h]

theorem condense_of_isOrdinary {cs : List Char} (h : ∀ c ∈ cs, isOrdinary c = true) :
    condense .outside cs = cs := by
  induction cs with
  | nil => rfl
  | cons c rest ih =>
    have hc := h c List.mem_cons_self
    have hblank : ¬ (Mode.outside = .outside ∧ Text.isBlank c = true) := by
      simp [isOrdinary] at hc
      simp [hc]
    rw [condense_cons hblank, next_of_isOrdinary hc,
      ih fun d hd => h d (List.mem_cons_of_mem c hd)]

/-- A character that the scan gathers is whole on its own. -/
theorem whole_singleton {least : Nat} {c : Char} (hquote : Scan.isQuote c = false)
    (hblank : Text.isBlank c = false)
    (hstep : ∀ done current depth, least ≤ depth →
      (Mode.outside.scan done current depth).step c =
        .ok (Mode.outside.scan done (c :: current) depth)) : Whole least [c] := by
  have hcondense : condense .outside [c] = [c] := by simp [condense, hblank]
  refine ⟨by simp [Mode.next, hquote], fun done current depth hdepth => ?_⟩
  rw [List.foldlM_cons, hstep done current depth hdepth, hcondense]
  rfl

theorem whole_of_isOrdinary {cs : List Char} (h : ∀ c ∈ cs, isOrdinary c = true) : Whole 0 cs := by
  induction cs with
  | nil => exact Whole.nil 0
  | cons c rest ih =>
    have hc := h c List.mem_cons_self
    simp [isOrdinary] at hc
    have hfirst : Whole 0 [c] := by
      refine whole_singleton hc.2 hc.1.1.1.1 fun done current depth _ => ?_
      simp [Scan.step, Mode.scan, Mode.quote?, Scan.plainStep, hc, Mode.isEscaping]
    exact hfirst.append (ih fun d hd => h d (List.mem_cons_of_mem c hd))

/-- In parentheses a comma ends nothing. -/
theorem whole_comma : Whole 1 [','] := by
  refine whole_singleton rfl rfl fun done current depth hdepth => ?_
  have hopen : depth ≠ 0 := Nat.ne_of_gt hdepth
  simp [Scan.step, Mode.scan, Mode.quote?, Scan.plainStep, Scan.isQuote, Text.isBlank, hopen,
    Mode.isEscaping]

theorem condense_parenthesized {body : List Char} (h : Mode.outside.run body = .outside) :
    condense .outside ('(' :: (body ++ [')'])) = '(' :: (condense .outside body ++ [')']) := by
  have hopen : ¬ (Mode.outside = .outside ∧ Text.isBlank '(' = true) := by decide
  rw [condense_cons hopen]
  have hnext : Mode.outside.next '(' = .outside := rfl
  rw [hnext, condense_append, h]
  rfl

/-- What is gathered in parentheses is gathered with the parentheses anywhere. -/
theorem Whole.parenthesized {body : List Char} (h : Whole 1 body) :
    Whole 0 ('(' :: (body ++ [')'])) := by
  refine ⟨?_, fun done current depth _ => ?_⟩
  · have hnext : Mode.outside.next '(' = .outside := rfl
    rw [Mode.run_cons, hnext, Mode.run_append, h.run]
    rfl
  · have hopen : (Mode.outside.scan done current depth).step '(' =
        .ok (Mode.outside.scan done ('(' :: current) (depth + 1)) := rfl
    have hclose : ∀ gathered, (Mode.outside.scan done gathered (depth + 1)).step ')' =
        .ok (Mode.outside.scan done (')' :: gathered) depth) := fun _ => rfl
    have hbody := h.foldlM done ('(' :: current) (Nat.le_add_left 1 depth)
    rw [condense_parenthesized h.run, List.foldlM_cons, hopen]
    simp only [bind, Except.bind, List.foldlM_append, hbody, List.foldlM_cons, hclose,
      List.foldlM_nil, pure, Except.pure, List.reverse_cons, List.reverse_append, List.reverse_nil,
      List.nil_append, List.cons_append, List.append_assoc]

end LiveQuery.Call
