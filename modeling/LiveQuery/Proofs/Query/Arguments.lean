import Mathlib.Data.List.Induction
import LiveQuery.Proofs.Query.Pieces

/-!
# Cutting a call's arguments undoes joining them

`splitArguments` is the inverse of joining with commas, up to the blanks that stand in no string: it
gives exactly those texts that are `WellFormed` and that, with commas between them, are the text
without these blanks. Why it fails can be told from the text alone (`Faulty`): because of the
leftmost character that offends against what stands in front of it, or else because of the way in
which the text ends. `Cut` describes the scan behind a text in which no character has offended. Of
the next character `Cut.step` says that either it offends and stops the scan, or the scan goes on
and is described again.
-/

namespace LiveQuery.Call

/-! ### Parentheses that count -/

/-- What a character adds to the number of open parentheses. -/
def weight : Mode → Char → Int
  | .outside, c => if c = '(' then 1 else if c = ')' then -1 else 0
  | _, _ => 0

theorem weight_in_string {m : Mode} {c : Char} (hm : m ≠ .outside) : weight m c = 0 := by
  cases m with
  | outside => exact absurd rfl hm
  | inside | escaping => rfl

/-- How many more parentheses a text opens than it closes, of those that stand in no string. -/
def balance : Mode → List Char → Int
  | _, [] => 0
  | m, c :: rest => weight m c + balance (m.next c) rest

theorem balance_append (m : Mode) (cs ds : List Char) :
    balance m (cs ++ ds) = balance m cs + balance (m.run cs) ds := by
  induction cs generalizing m with
  | nil => rw [List.nil_append, balance, Mode.run_nil, Int.zero_add]
  | cons c rest ih => rw [List.cons_append, balance, balance, ih, Mode.run_cons, Int.add_assoc]

theorem balance_concat (m : Mode) (cs : List Char) (c : Char) :
    balance m (cs ++ [c]) = balance m cs + weight (m.run cs) c := by
  rw [balance_append, balance, balance, Int.add_zero]

/-- What follows the text stands in no string and in no parentheses. -/
structure TopLevel (front : List Char) : Prop where
  run : Mode.outside.run front = .outside
  balance : balance .outside front = 0

/-- A text that can be an argument: there is something in it, no blank outside strings, every
string and every parenthesis is closed, none is closed that was not opened, and no comma stands
outside strings and parentheses. -/
structure WellFormed (cs : List Char) : Prop extends Tidy cs where
  nonneg (front : List Char) (h : front <+: cs) : 0 ≤ balance .outside front
  balanced : balance .outside cs = 0
  together (front rest : List Char) (h : cs = front ++ ',' :: rest) : ¬ TopLevel front

/-! ### Faults of a text -/

/-- The text ends with a comma between arguments, apart from blanks. -/
def EndsInComma (cs : List Char) : Prop :=
  ∃ front blanks, cs = front ++ ',' :: blanks ∧ (∀ c ∈ blanks, Text.isBlank c = true) ∧
    TopLevel front

/-- The text ends before anything of an argument has been given. -/
def Bare (cs : List Char) : Prop := (∀ c ∈ cs, Text.isBlank c = true) ∨ EndsInComma cs

/-- The character cannot stand behind this text. -/
inductive Offends (front : List Char) : Char → SplitFault → Prop
  /-- It closes a parenthesis that is not open. -/
  | closing (run : Mode.outside.run front = .outside) (depth : balance .outside front ≤ 0) :
    Offends front ')' .unbalanced
  /-- It ends an argument of which nothing has been given. -/
  | comma (top : TopLevel front) (bare : Bare front) : Offends front ',' .empty

/-- No character of the text offends. -/
def Inoffensive (cs : List Char) : Prop :=
  ∀ front c rest fault, cs = front ++ c :: rest → ¬ Offends front c fault

/-- Why a text cannot be cut into arguments. -/
inductive Faulty (body : List Char) : SplitFault → Prop
  /-- This is the leftmost character that offends. -/
  | offence {front rest : List Char} {c : Char} {fault : SplitFault}
    (place : body = front ++ c :: rest) (first : Inoffensive front) (offends : Offends front c fault) :
    Faulty body fault
  | unterminated (inoffensive : Inoffensive body) (run : Mode.outside.run body ≠ .outside) :
    Faulty body .unterminated
  | unbalanced (inoffensive : Inoffensive body) (run : Mode.outside.run body = .outside)
    (depth : balance .outside body ≠ 0) : Faulty body .unbalanced
  | empty (inoffensive : Inoffensive body) (top : TopLevel body) (comma : EndsInComma body) :
    Faulty body .empty

theorem inoffensive_nil : Inoffensive [] := by
  intro front c rest fault h
  simp at h

theorem inoffensive_concat_iff {cs : List Char} {c : Char} :
    Inoffensive (cs ++ [c]) ↔ Inoffensive cs ∧ ∀ fault, ¬ Offends cs c fault := by
  constructor
  · intro h
    refine ⟨fun front d rest fault hcs => ?_, fun fault => h cs c [] fault rfl⟩
    exact h front d (rest ++ [c]) fault (by rw [hcs, List.append_assoc, List.cons_append])
  · rintro ⟨hinit, hlast⟩ front d rest fault hcs
    rcases List.eq_nil_or_concat rest with rfl | ⟨more, last, rfl⟩
    · obtain ⟨rfl, hd⟩ := List.append_inj' hcs rfl
      obtain rfl : c = d := by simpa using hd
      exact hlast fault
    · rw [List.concat_eq_append, ← List.cons_append, ← List.append_assoc] at hcs
      exact hinit front d more fault (List.append_inj' hcs rfl).1

theorem exists_offence {body : List Char} (h : ¬ Inoffensive body) :
    ∃ front c rest fault, body = front ++ c :: rest ∧ Inoffensive front ∧
      Offends front c fault := by
  induction body using List.reverseRecOn with
  | nil => exact absurd inoffensive_nil h
  | append_singleton init c ih =>
    by_cases hinit : Inoffensive init
    · have hlast : ¬ ∀ fault, ¬ Offends init c fault := fun hlast =>
        h (inoffensive_concat_iff.2 ⟨hinit, hlast⟩)
      obtain ⟨fault, hfault⟩ := not_forall_not.1 hlast
      exact ⟨init, c, [], fault, rfl, hinit, hfault⟩
    · obtain ⟨front, d, rest, fault, rfl, hfront, hfault⟩ := ih hinit
      exact ⟨front, d, rest ++ [c], fault, by simp, hfront, hfault⟩

theorem not_offends_of_isBlank {front : List Char} {c : Char} (h : Text.isBlank c = true)
    (fault : SplitFault) : ¬ Offends front c fault := by
  rintro (_ | _) <;> revert h <;> decide

theorem EndsInComma.run {cs : List Char} (h : EndsInComma cs) :
    Mode.outside.run cs = .outside := by
  obtain ⟨front, blanks, rfl, hblanks, htop⟩ := h
  have hcomma : Mode.outside.next ',' = .outside := rfl
  rw [Mode.run_append, htop.run, Mode.run_cons, hcomma, run_of_isBlank hblanks]

theorem endsInComma_concat_iff {front : List Char} {c : Char} :
    EndsInComma (front ++ [c]) ↔
      (c = ',' ∧ TopLevel front) ∨ (Text.isBlank c = true ∧ EndsInComma front) := by
  constructor
  · rintro ⟨earlier, blanks, hfront, hblanks, htop⟩
    rcases List.eq_nil_or_concat blanks with rfl | ⟨more, last, rfl⟩
    · obtain ⟨rfl, hlast⟩ := List.append_inj' hfront rfl
      exact .inl ⟨by simpa using hlast, htop⟩
    · rw [List.concat_eq_append] at hfront hblanks
      rw [← List.cons_append, ← List.append_assoc] at hfront
      obtain ⟨rfl, hlast⟩ := List.append_inj' hfront rfl
      obtain rfl : c = last := by simpa using hlast
      exact .inr ⟨hblanks c (by simp), earlier, more, rfl,
        fun d hd => hblanks d (List.mem_append_left _ hd), htop⟩
  · rintro (⟨rfl, htop⟩ | ⟨hblank, earlier, blanks, rfl, hblanks, htop⟩)
    · exact ⟨front, [], rfl, fun d hd => absurd hd List.not_mem_nil, htop⟩
    · refine ⟨earlier, blanks ++ [c], by simp, fun d hd => ?_, htop⟩
      rcases List.mem_append.1 hd with hd | hd
      · exact hblanks d hd
      · exact List.mem_singleton.1 hd ▸ hblank

/-! ### The scan behind a text -/

/-- What is known of the scan behind a text in which no character has offended. -/
structure Cut (front : List Char) (done : List (List Char)) (current : List Char) (depth : Nat) :
    Prop where
  scanned : Scanned front (Mode.outside.run front) done current
  pieces : ∀ piece ∈ done, WellFormed piece
  level : balance .outside front = depth
  here : balance .outside current.reverse = depth
  nonneg (f : List Char) (h : f <+: current.reverse) : 0 ≤ balance .outside f
  together (f rest : List Char) (h : current.reverse = f ++ ',' :: rest) : ¬ TopLevel f
  comma : current = [] ∧ done ≠ [] ↔ EndsInComma front

theorem Cut.start : Cut [] [] [] 0 where
  scanned := .start
  pieces := fun _ hmem => absurd hmem List.not_mem_nil
  level := rfl
  here := rfl
  nonneg f h := by
    rw [List.reverse_nil, List.prefix_nil] at h
    subst h
    exact Int.le_refl 0
  together f rest h := by simp at h
  comma := by
    refine ⟨fun h => absurd rfl h.2, ?_⟩
    rintro ⟨front, blanks, h, -, -⟩
    simp at h

section Cut

variable {front : List Char} {done : List (List Char)} {current : List Char} {depth : Nat} {c : Char}

/-- A character that counts and ends no argument is gathered. -/
theorem Cut.keep (h : Cut front done current depth)
    (hc : ¬ (Mode.outside.run front = .outside ∧ Text.isBlank c = true))
    (hcomma : c = ',' → ¬ TopLevel front) {depth' : Nat}
    (hdepth : (depth : Int) + weight (Mode.outside.run front) c = depth') :
    Cut (front ++ [c]) done (c :: current) depth' where
  scanned := by
    rw [Mode.run_append]
    exact h.scanned.keep hc
  pieces := h.pieces
  level := by rw [balance_concat, h.level, hdepth]
  here := by rw [List.reverse_cons, balance_concat, h.here, h.scanned.runCurrent, hdepth]
  nonneg f hf := by
    rw [List.reverse_cons, List.prefix_concat_iff] at hf
    rcases hf with rfl | hf
    · rw [balance_concat, h.here, h.scanned.runCurrent, hdepth]
      exact Int.natCast_nonneg depth'
    · exact h.nonneg f hf
  together f rest hf := by
    rw [List.reverse_cons] at hf
    rcases List.eq_nil_or_concat rest with rfl | ⟨more, last, rfl⟩
    · obtain ⟨rfl, hlast⟩ := List.append_inj' hf rfl
      intro htop
      refine hcomma (by simpa using hlast) ⟨h.scanned.runCurrent.symm.trans htop.run, ?_⟩
      rw [h.level, ← h.here, htop.balance]
    · rw [List.concat_eq_append, ← List.cons_append, ← List.append_assoc] at hf
      exact h.together f more (List.append_inj' hf rfl).1
  comma := by
    refine ⟨fun hnil => absurd hnil.1 (List.cons_ne_nil c current), fun hends => ?_⟩
    rcases endsInComma_concat_iff.1 hends with ⟨heq, htop⟩ | ⟨hblank, hends⟩
    · exact absurd htop (hcomma heq)
    · exact absurd ⟨hends.run, hblank⟩ hc

theorem Cut.blank (h : Cut front done current depth) (hrun : Mode.outside.run front = .outside)
    (hc : Text.isBlank c = true) : Cut (front ++ [c]) done current depth where
  scanned := by
    have hscanned := h.scanned
    rw [Mode.run_append, hrun, Mode.run_cons, next_of_isBlank hc]
    rw [hrun] at hscanned
    exact hscanned.blank hc
  pieces := h.pieces
  level := by
    have hweight : weight .outside c = 0 := by
      have hother : c ≠ '(' ∧ c ≠ ')' := by
        refine ⟨?_, ?_⟩ <;> rintro rfl <;> revert hc <;> decide
      simp [weight, hother]
    rw [balance_concat, hrun, hweight, Int.add_zero, h.level]
  here := h.here
  nonneg := h.nonneg
  together := h.together
  comma := by
    rw [h.comma, endsInComma_concat_iff]
    refine ⟨fun hends => .inr ⟨hc, hends⟩, ?_⟩
    rintro (⟨rfl, -⟩ | ⟨-, hends⟩)
    · exact absurd hc (by decide)
    · exact hends

/-- A comma that ends an argument leaves it with those that are done. -/
theorem Cut.endArgument (h : Cut front done current depth) (htop : TopLevel front)
    (hcurrent : current ≠ []) : Cut (front ++ [',']) (current.reverse :: done) [] 0 where
  scanned := by
    have hscanned := h.scanned
    rw [htop.run] at hscanned
    rw [Mode.run_append, htop.run]
    exact hscanned.comma hcurrent
  pieces := by
    refine List.forall_mem_cons.2 ⟨?_, h.pieces⟩
    have hrun := h.scanned.runCurrent
    rw [htop.run] at hrun
    refine ⟨⟨?_, h.scanned.condense, hrun⟩, h.nonneg, ?_, h.together⟩
    · exact fun hnil => hcurrent (List.reverse_eq_nil_iff.1 hnil)
    · rw [h.here, ← h.level, htop.balance]
  level := by
    rw [balance_concat, htop.run, htop.balance]
    rfl
  here := rfl
  nonneg := Cut.start.nonneg
  together := Cut.start.together
  comma := ⟨fun _ => endsInComma_concat_iff.2 (.inl ⟨rfl, htop⟩),
    fun _ => ⟨rfl, List.cons_ne_nil _ _⟩⟩

theorem Cut.current_eq_nil_iff (h : Cut front done current depth) :
    current = [] ↔ Bare front := by
  have hgathered : done = [] ∧ current = [] ↔ ∀ c ∈ front, Text.isBlank c = true := by
    rw [← condense_eq_nil_iff, ← h.scanned.gathered, gathered, List.append_eq_nil_iff]
    cases done <;> simp
  rw [Bare, ← hgathered, ← h.comma]
  by_cases hdone : done = [] <;> simp [hdone]

end Cut

/-! ### One character -/

/-- A character is gathered if it stands in a string, and also if it is no blank, ends no argument
and closes no parenthesis that is not open. -/
theorem step_gathers (m : Mode) (done : List (List Char)) (current : List Char) {depth : Nat}
    {c : Char} (hblank : ¬ (m = .outside ∧ Text.isBlank c = true))
    (hclose : m = .outside → ¬ (c = ')' ∧ depth = 0))
    (hcomma : m = .outside → ¬ (c = ',' ∧ depth = 0)) :
    ∃ depth' : Nat, (depth : Int) + weight m c = depth' ∧
      (m.scan done current depth).step c = .ok ((m.next c).scan done (c :: current) depth') := by
  by_cases hm : m = .outside
  · subst hm
    replace hblank : ¬ Text.isBlank c = true := fun hc => hblank ⟨rfl, hc⟩
    replace hclose := hclose rfl
    replace hcomma := hcomma rfl
    simp only [Scan.step, Mode.scan, Mode.quote?, Mode.isEscaping, Scan.plainStep, Mode.next, weight]
    by_cases hquote : Scan.isQuote c = true
    · have hother : c ≠ '(' ∧ c ≠ ')' := by
        refine ⟨?_, ?_⟩ <;> rintro rfl <;> revert hquote <;> decide
      exact ⟨depth, by simp [hother], by simp [hquote]⟩
    by_cases hopen : c = '('
    · exact ⟨depth + 1, by simp [hopen], by simp [hopen, Scan.isQuote]⟩
    by_cases hclosing : c = ')'
    · have hdepth : depth ≠ 0 := fun hzero => hclose ⟨hclosing, hzero⟩
      exact ⟨depth - 1, by simp [hclosing]; omega, by simp [hclosing, Scan.isQuote, hdepth]⟩
    · exact ⟨depth, by simp [hopen, hclosing],
        by simp [hquote, hopen, hclosing, hcomma, hblank]⟩
  · exact ⟨depth, by rw [weight_in_string hm, Int.add_zero], step_in_string done current depth hm c⟩

/-- A character offends and stops the scan, or the scan goes on. -/
theorem Cut.step {front : List Char} {done : List (List Char)} {current : List Char} {depth : Nat}
    (h : Cut front done current depth) (c : Char) :
    (∃ fault, Offends front c fault ∧
        ((Mode.outside.run front).scan done current depth).step c = .error fault) ∨
      (∀ fault, ¬ Offends front c fault) ∧ ∃ done' current' depth',
        ((Mode.outside.run front).scan done current depth).step c =
          .ok ((Mode.outside.run (front ++ [c])).scan done' current' depth') ∧
        Cut (front ++ [c]) done' current' depth' := by
  have hnext : Mode.outside.run (front ++ [c]) = (Mode.outside.run front).next c := by
    rw [Mode.run_append]
    rfl
  have hzero (hle : balance .outside front ≤ 0) : depth = 0 := by
    have hlevel := h.level
    omega
  by_cases hblank : Mode.outside.run front = .outside ∧ Text.isBlank c = true
  · obtain ⟨hrun, hc⟩ := hblank
    refine .inr ⟨not_offends_of_isBlank hc, done, current, depth, ?_, h.blank hrun hc⟩
    rw [hnext, hrun, step_blank done current depth hc, next_of_isBlank hc]
  by_cases hclose : Mode.outside.run front = .outside ∧ c = ')' ∧ depth = 0
  · obtain ⟨hrun, rfl, rfl⟩ := hclose
    refine .inl ⟨.unbalanced, .closing hrun (Int.le_of_eq h.level), ?_⟩
    rw [hrun]
    rfl
  by_cases hcomma : Mode.outside.run front = .outside ∧ c = ',' ∧ depth = 0
  · obtain ⟨hrun, rfl, rfl⟩ := hcomma
    have htop : TopLevel front := ⟨hrun, h.level⟩
    by_cases hcurrent : current = []
    · refine .inl ⟨.empty, .comma htop (h.current_eq_nil_iff.1 hcurrent), ?_⟩
      rw [hrun, hcurrent]
      rfl
    · refine .inr ⟨?_, current.reverse :: done, [], 0, ?_, h.endArgument htop hcurrent⟩
      · rintro fault (_ | ⟨-, hbare⟩)
        exact hcurrent (h.current_eq_nil_iff.2 hbare)
      · rw [hnext, hrun]
        simp [Scan.step, Mode.scan, Mode.quote?, Scan.plainStep, Scan.isQuote, hcurrent,
          Mode.isEscaping, Mode.next]
  · have htop (heq : c = ',') (htop : TopLevel front) : False :=
      hcomma ⟨htop.run, heq, hzero (Int.le_of_eq htop.balance)⟩
    obtain ⟨depth', hdepth, hstep⟩ := step_gathers (Mode.outside.run front) done current hblank
      (fun hrun hc => hclose ⟨hrun, hc⟩) (fun hrun hc => hcomma ⟨hrun, hc⟩)
    refine .inr ⟨?_, done, c :: current, depth', by rw [hnext, hstep],
      h.keep hblank htop hdepth⟩
    rintro fault (⟨hrun, hbelow⟩ | ⟨top, -⟩)
    · exact hclose ⟨hrun, rfl, hzero hbelow⟩
    · exact htop rfl top

/-! ### Whole texts -/

theorem Inoffensive.cut {front : List Char} (h : Inoffensive front) :
    ∃ done current depth, front.foldlM Scan.step Scan.start =
        .ok ((Mode.outside.run front).scan done current depth) ∧
      Cut front done current depth := by
  induction front using List.reverseRecOn with
  | nil => exact ⟨[], [], 0, rfl, .start⟩
  | append_singleton init c ih =>
    obtain ⟨hinit, hlast⟩ := inoffensive_concat_iff.1 h
    obtain ⟨done, current, depth, hscan, hcut⟩ := ih hinit
    rcases hcut.step c with ⟨fault, hfault, -⟩ | ⟨-, done', current', depth', hstep, hcut'⟩
    · exact absurd hfault (hlast fault)
    · refine ⟨done', current', depth', ?_, hcut'⟩
      rw [List.foldlM_append, hscan]
      exact congrArg (· >>= pure) hstep

theorem Offends.unique {front : List Char} {c : Char} {fault fault' : SplitFault}
    (h : Offends front c fault) (h' : Offends front c fault') : fault = fault' := by
  cases h <;> cases h' <;> rfl

/-- The text is given back with the fault that it has. -/
theorem Faulty.splitArguments {body : List Char} {fault : SplitFault} (h : Faulty body fault) :
    splitArguments body = .error (fault.error body) := by
  suffices hscan : body.foldlM Scan.step Scan.start >>= Scan.finish = .error fault by
    rw [Call.splitArguments, hscan]
  cases h with
  | @offence front rest c _ place first offends =>
    obtain ⟨done, current, depth, hscan, hcut⟩ := first.cut
    rcases hcut.step c with ⟨fault', hfault', hstep⟩ | ⟨hnone, -⟩
    · rw [place, List.foldlM_append, hscan, offends.unique hfault']
      simp [bind, Except.bind, hstep]
    · exact absurd offends (hnone fault)
  | unterminated inoffensive run =>
    obtain ⟨done, current, depth, hscan, -⟩ := inoffensive.cut
    rw [hscan]
    cases hmode : Mode.outside.run body with
    | outside => exact absurd hmode run
    | inside | escaping => rfl
  | unbalanced inoffensive run depth =>
    obtain ⟨done, current, open', hscan, hcut⟩ := inoffensive.cut
    have hopen : open' ≠ 0 := by
      rintro rfl
      exact depth hcut.level
    rw [hscan, run]
    simp [bind, Except.bind, Scan.finish, Mode.scan, Mode.quote?, hopen]
  | empty inoffensive top comma =>
    obtain ⟨done, current, depth, hscan, hcut⟩ := inoffensive.cut
    obtain ⟨hcurrent, hdone⟩ := hcut.comma.2 comma
    obtain rfl : depth = 0 := Int.ofNat_eq_zero.1 (hcut.level.symm.trans top.balance)
    rw [hscan, top.run]
    simp [bind, Except.bind, Scan.finish, Mode.scan, Mode.quote?, hcurrent, hdone]

/-- A text without a fault is cut into well-formed arguments. -/
theorem exists_splitArguments_eq_ok {body : List Char} (h : ∀ fault, ¬ Faulty body fault) :
    ∃ args, splitArguments body = .ok args ∧ ∀ arg ∈ args, WellFormed arg := by
  have hinoffensive : Inoffensive body := by
    by_contra hnot
    obtain ⟨front, c, rest, fault, place, first, offends⟩ := exists_offence hnot
    exact h fault (.offence place first offends)
  have hrun : Mode.outside.run body = .outside := by
    by_contra hnot
    exact h .unterminated (.unterminated hinoffensive hnot)
  have hbalance : balance .outside body = 0 := by
    by_contra hnot
    exact h .unbalanced (.unbalanced hinoffensive hrun hnot)
  have hcomma : ¬ EndsInComma body := fun hends =>
    h .empty (.empty hinoffensive ⟨hrun, hbalance⟩ hends)
  obtain ⟨done, current, depth, hscan, hcut⟩ := hinoffensive.cut
  obtain rfl : depth = 0 := Int.ofNat_eq_zero.1 (hcut.level.symm.trans hbalance)
  rw [hrun] at hscan
  by_cases hcurrent : current = []
  · have hdone : done = [] := by
      by_contra hne
      exact hcomma (hcut.comma.1 ⟨hcurrent, hne⟩)
    refine ⟨[], ?_, fun _ hmem => absurd hmem List.not_mem_nil⟩
    simp [splitArguments, hscan, bind, Except.bind, Scan.finish, Mode.scan, Mode.quote?, hcurrent,
      hdone]
  · -- What is at hand at the end of the text is an argument as it is before a comma.
    refine ⟨(current.reverse :: done).reverse, ?_, fun arg harg => ?_⟩
    · simp [splitArguments, hscan, bind, Except.bind, Scan.finish, Mode.scan, Mode.quote?, hcurrent]
    · exact (hcut.endArgument ⟨hrun, hbalance⟩ hcurrent).pieces arg (List.mem_reverse.1 harg)

/-! ### Well-formed arguments are gathered whole -/

/-- A part of a well-formed argument from its start on is gathered, with its parentheses open. -/
theorem WellFormed.foldlM_prefix {cs front : List Char} (h : WellFormed cs) (hfront : front <+: cs)
    (done : List (List Char)) (current : List Char) (depth : Nat) :
    ∃ depth' : Nat, (depth : Int) + balance .outside front = depth' ∧
      front.foldlM Scan.step (Mode.outside.scan done current depth) =
        .ok ((Mode.outside.run front).scan done (front.reverse ++ current) depth') := by
  induction front using List.reverseRecOn with
  | nil => exact ⟨depth, Int.add_zero _, rfl⟩
  | append_singleton init c ih =>
    have hinit : init <+: cs := (List.prefix_append init [c]).trans hfront
    have hnonneg := h.nonneg init hinit
    have hnonneg' := h.nonneg (init ++ [c]) hfront
    obtain ⟨rest, hcs⟩ := hfront
    rw [List.append_assoc, List.singleton_append] at hcs
    obtain ⟨depth', hdepth, hscan⟩ := ih hinit
    rw [balance_concat] at hnonneg'
    have hclose : Mode.outside.run init = .outside → ¬ (c = ')' ∧ depth' = 0) := by
      rintro hrun ⟨rfl, rfl⟩
      have hweight : weight .outside ')' = -1 := rfl
      rw [hrun, hweight] at hnonneg'
      omega
    have hcomma : Mode.outside.run init = .outside → ¬ (c = ',' ∧ depth' = 0) := by
      rintro hrun ⟨rfl, rfl⟩
      exact h.together init rest hcs.symm ⟨hrun, by omega⟩
    have hblank := (hcs.symm ▸ h.toTidy : Tidy (init ++ c :: rest)).not_isBlank
    obtain ⟨depth'', hdepth', hstep⟩ := step_gathers (Mode.outside.run init) done
      (init.reverse ++ current) hblank hclose hcomma
    refine ⟨depth'', by rw [balance_concat, ← Int.add_assoc, hdepth, hdepth'], ?_⟩
    rw [List.foldlM_append, hscan, Mode.run_append, List.reverse_concat]
    exact congrArg (· >>= pure) hstep

theorem WellFormed.piece {cs : List Char} (h : WellFormed cs) : Piece cs where
  whole := by
    refine ⟨h.run, fun done current depth _ => ?_⟩
    obtain ⟨depth', hdepth, hscan⟩ := h.foldlM_prefix (List.prefix_refl cs) done current depth
    rw [h.balanced, Int.add_zero] at hdepth
    rw [hscan, h.run, h.condense, Int.ofNat_inj.1 hdepth]
  ne_nil := by
    rw [h.condense]
    exact h.ne_nil

theorem splitArguments_of_wellFormed {body : List Char} {args : List (List Char)}
    (h : ∀ arg ∈ args, WellFormed arg) (hbody : [','].intercalate args = condense .outside body) :
    splitArguments body = .ok args := by
  by_cases hargs : args = []
  · subst hargs
    have hscan : body.foldlM Scan.step Scan.start = .ok Scan.start := by
      rw [start_eq, ← foldlM_condense, ← hbody]
      rfl
    rw [splitArguments, hscan]
    rfl
  · have hpieces : ∀ arg ∈ args, Piece arg := fun arg harg => (h arg harg).piece
    have hsame : args.map (condense .outside) = args :=
      (List.map_congr_left fun arg harg => (h arg harg).condense).trans args.map_id
    have hcondense : condense .outside body = condense .outside ([','].intercalate args) := by
      rw [condense_intercalate hpieces, hsame, hbody]
    rw [splitArguments_eq_of_pieces hargs hpieces hcondense, hsame]

/-- Arguments are what is cut from a text if and only if they are well-formed and the text, without
the blanks that stand in no string, is the arguments with commas between them. The cutting fails if
and only if the text has a fault, and it gives that fault and the text. -/
theorem splitArguments_inverts_join (body : List Char) :
    (∀ args, splitArguments body = .ok args ↔
      (∀ arg ∈ args, WellFormed arg) ∧ [','].intercalate args = condense .outside body) ∧
    ∀ e, splitArguments body = .error e ↔ ∃ fault, Faulty body fault ∧ e = fault.error body := by
  refine ⟨fun args => ⟨fun hargs => ?_, fun ⟨hwell, hjoin⟩ =>
    splitArguments_of_wellFormed hwell hjoin⟩, fun e => ⟨fun he => ?_, ?_⟩⟩
  · have hsound : ∀ fault, ¬ Faulty body fault := fun fault hfault => by
      rw [hfault.splitArguments] at hargs
      cases hargs
    obtain ⟨args', hargs', hwell⟩ := exists_splitArguments_eq_ok hsound
    obtain rfl : args = args' := Except.ok.inj (hargs.symm.trans hargs')
    exact ⟨hwell, (pieces_of_splitArguments hargs).2⟩
  · by_contra hnot
    have hsound : ∀ fault, ¬ Faulty body fault := fun fault hfault =>
      hnot ⟨fault, hfault, Except.error.inj (he.symm.trans hfault.splitArguments)⟩
    obtain ⟨args, hargs, -⟩ := exists_splitArguments_eq_ok hsound
    rw [hargs] at he
    cases he
  · rintro ⟨fault, hfault, rfl⟩
    exact hfault.splitArguments

example : splitArguments "f( 'a,)' , x), 'b c'".toList =
    .ok ["f('a,)',x)".toList, "'b c'".toList] := rfl

end LiveQuery.Call
