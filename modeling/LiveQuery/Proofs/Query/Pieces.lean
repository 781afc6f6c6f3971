import LiveQuery.Proofs.Query.Quoting

/-!
# The arguments of a call as pieces of its text

What `splitArguments` gives for a text: pieces that, with commas between them, are the text without
the blanks that do not count. Each piece is tidy, it holds no such blank itself and ends in no
string, so it is read the same way on its own.
-/

namespace LiveQuery.Call

/-- A piece of a condensed text between two commas. -/
structure Tidy (cs : List Char) : Prop where
  ne_nil : cs ≠ []
  condense : condense .outside cs = cs
  run : Mode.outside.run cs = .outside

theorem isQuote_of_quote? {m : Mode} {cs : List Char} {quote : Char}
    (hm : ∀ q, m.quote? = some q → Scan.isQuote q = true) (h : (m.run cs).quote? = some quote) :
    Scan.isQuote quote = true := by
  induction cs generalizing m with
  | nil => exact hm quote h
  | cons c rest ih =>
    refine ih (fun q hq => ?_) h
    cases m with
    | outside =>
      simp only [Mode.next] at hq
      split at hq
      · rename_i hc
        exact Option.some.inj hq ▸ hc
      · cases hq
    | inside opening =>
      simp only [Mode.next] at hq
      split at hq
      · exact hm q hq
      · split at hq
        · cases hq
        · exact hm q hq
    | escaping opening => exact hm q hq

/-- Nothing is trimmed from a text between two characters that are no blanks. -/
theorem trim_eq_self {cs : List Char} (hhead : ∀ c ∈ cs.head?, Text.isBlank c = false)
    (hlast : ∀ c ∈ cs.getLast?, Text.isBlank c = false) : Text.trim cs = cs := by
  have hfront : ∀ ds : List Char, (∀ c ∈ ds.head?, Text.isBlank c = false) →
      ds.dropWhile Text.isBlank = ds := by
    intro ds hds
    cases ds with
    | nil => rfl
    | cons c rest => simp [hds c rfl]
  rw [Text.trim, hfront cs hhead, hfront cs.reverse (by rwa [List.head?_reverse]),
    List.reverse_reverse]

theorem Tidy.not_isBlank {front rest : List Char} {c : Char} (h : Tidy (front ++ c :: rest)) :
    ¬ (Mode.outside.run front = .outside ∧ Text.isBlank c = true) := by
  rintro ⟨hrun, hc⟩
  have hlong := congrArg List.length h.condense
  rw [condense_append, hrun, condense_blank hc, List.length_append, List.length_append,
    List.length_cons] at hlong
  have hfront := length_condense_le .outside front
  have hrest := length_condense_le .outside rest
  omega

theorem Tidy.trim {cs : List Char} (h : Tidy cs) : Text.trim cs = cs := by
  refine trim_eq_self (fun c hc => ?_) (fun c hc => ?_)
  · obtain ⟨rest, rfl⟩ := List.head?_eq_some_iff.1 hc
    rw [← Bool.not_eq_true]
    intro hblank
    have hsplit : Tidy ([] ++ c :: rest) := h
    exact hsplit.not_isBlank ⟨rfl, hblank⟩
  · obtain ⟨init, rfl⟩ := List.getLast?_eq_some_iff.1 hc
    rw [← Bool.not_eq_true]
    intro hblank
    have hrun := h.run
    rw [Mode.run_append, Mode.run_cons, Mode.run_nil] at hrun
    cases hmode : Mode.outside.run init with
    | outside => exact h.not_isBlank ⟨hmode, hblank⟩
    | inside quote =>
      have hquote : Scan.isQuote quote = true :=
        isQuote_of_quote? (m := .outside) nofun (congrArg Mode.quote? hmode)
      have hother : c ≠ quote := by
        rintro rfl
        rw [isQuote_eq_false_of_isBlank hblank] at hquote
        cases hquote
      rw [hmode, Mode.next, if_neg hother] at hrun
      split at hrun <;> cases hrun
    | escaping quote =>
      rw [hmode] at hrun
      cases hrun

/-- The pieces so far and the one at hand, with a comma behind each but the last. -/
def gathered (done : List (List Char)) (current : List Char) : List Char :=
  done.reverse.flatMap (· ++ [',']) ++ current.reverse

/-- What is known of a scan behind a text. -/
structure Scanned (cs : List Char) (m : Mode) (done : List (List Char)) (current : List Char) :
    Prop where
  gathered : gathered done current = condense .outside cs
  run : Mode.outside.run cs = m
  tidy : ∀ piece ∈ done, Tidy piece
  condense : condense .outside current.reverse = current.reverse
  runCurrent : Mode.outside.run current.reverse = m

theorem condense_concat_of_run {cs : List Char} {m : Mode} {c : Char}
    (hcs : condense .outside cs = cs) (hrun : Mode.outside.run cs = m)
    (hc : ¬ (m = .outside ∧ Text.isBlank c = true)) :
    condense .outside (cs ++ [c]) = cs ++ [c] := by
  rw [condense_append, hcs, hrun, condense_cons hc, condense_nil]

theorem Scanned.start : Scanned [] .outside [] [] :=
  ⟨rfl, rfl, fun _ hmem => (List.not_mem_nil hmem).elim, rfl, rfl⟩

variable {cs : List Char} {m : Mode} {done : List (List Char)} {current : List Char} {c : Char}

theorem Scanned.keep (h : Scanned cs m done current)
    (hc : ¬ (m = .outside ∧ Text.isBlank c = true)) :
    Scanned (cs ++ [c]) (m.next c) done (c :: current) where
  gathered := by
    rw [Call.gathered, List.reverse_cons, ← List.append_assoc, ← Call.gathered, h.gathered,
      condense_append, h.run, condense_cons hc, condense_nil]
  run := by
    rw [Mode.run_append, h.run]
    rfl
  tidy := h.tidy
  condense := by
    rw [List.reverse_cons]
    exact condense_concat_of_run h.condense h.runCurrent hc
  runCurrent := by
    rw [List.reverse_cons, Mode.run_append, h.runCurrent]
    rfl

theorem Scanned.blank (h : Scanned cs .outside done current) (hc : Text.isBlank c = true) :
    Scanned (cs ++ [c]) .outside done current where
  gathered := by rw [condense_append, h.run, condense_blank hc, condense_nil, List.append_nil,
    h.gathered]
  run := by
    rw [Mode.run_append, h.run]
    exact next_of_isBlank hc
  tidy := h.tidy
  condense := h.condense
  runCurrent := h.runCurrent

theorem Scanned.comma (h : Scanned cs .outside done current) (hcurrent : current ≠ []) :
    Scanned (cs ++ [',']) .outside (current.reverse :: done) [] where
  gathered := by
    have hc : ¬ (Mode.outside = .outside ∧ Text.isBlank ',' = true) := by decide
    rw [condense_append, h.run, condense_cons hc, condense_nil, ← h.gathered]
    simp only [Call.gathered, List.reverse_cons, List.flatMap_append, List.flatMap_cons,
      List.flatMap_nil, List.append_nil, List.reverse_nil, List.append_assoc]
  run := by
    rw [Mode.run_append, h.run]
    rfl
  tidy := by
    intro piece hpiece
    rcases List.mem_cons.1 hpiece with rfl | hpiece
    · exact ⟨fun hnil => hcurrent (List.reverse_eq_nil_iff.1 hnil), h.condense, h.runCurrent⟩
    · exact h.tidy piece hpiece
  condense := rfl
  runCurrent := rfl

theorem Scanned.foldlM {depth : Nat} {rest : List Char} {t : Scan} (h : Scanned cs m done current)
    (ht : rest.foldlM Scan.step (m.scan done current depth) = .ok t) :
    ∃ m' done' current' depth', t = m'.scan done' current' depth' ∧
      Scanned (cs ++ rest) m' done' current' := by
  induction rest generalizing cs m done current depth with
  | nil =>
    cases ht
    exact ⟨m, done, current, depth, rfl, by rwa [List.append_nil]⟩
  | cons c rest ih =>
    rw [List.foldlM_cons] at ht
    cases hstep : (m.scan done current depth).step c with
    | error fault =>
      rw [hstep] at ht
      cases ht
    | ok u =>
      rw [hstep] at ht
      rw [← List.singleton_append, ← List.append_assoc]
      by_cases hm : m = .outside
      · subst hm
        rcases step_outside done current depth hstep with
          ⟨rfl, -, hcurrent, rfl⟩ | ⟨hblank, rfl⟩ | ⟨hblank, _, rfl⟩
        · exact ih (h.comma hcurrent) ht
        · exact ih (h.blank hblank) ht
        · exact ih (h.keep fun hc => hblank hc.2) ht
      · rw [step_in_string done current depth hm] at hstep
        cases hstep
        exact ih (h.keep fun hc => hm hc.1) ht

theorem intercalate_concat (pieces : List (List Char)) (last : List Char) :
    [','].intercalate (pieces ++ [last]) = pieces.flatMap (· ++ [',']) ++ last := by
  induction pieces with
  | nil => simp
  | cons piece rest ih =>
    have hne : rest ++ [last] ≠ [] := by simp
    obtain ⟨next, more, hrest⟩ := List.exists_cons_of_ne_nil hne
    rw [List.cons_append, hrest, List.intercalate_cons_cons, ← hrest, ih]
    simp

/-- The arguments of a text are tidy, and with commas between them they are the text without the
blanks that do not count. -/
theorem pieces_of_splitArguments {body : List Char} {args : List (List Char)}
    (h : splitArguments body = .ok args) :
    (∀ arg ∈ args, Tidy arg) ∧ [','].intercalate args = condense .outside body := by
  simp only [splitArguments] at h
  cases hscan : body.foldlM Scan.step Scan.start with
  | error fault =>
    rw [hscan] at h
    cases h
  | ok t =>
    obtain ⟨m, done, current, depth, rfl, hscanned⟩ := Scanned.start.foldlM (start_eq ▸ hscan)
    rw [List.nil_append] at hscanned
    simp only [hscan, bind, Except.bind, Scan.finish, Mode.scan] at h
    cases m with
    | inside quote => simp [Mode.quote?] at h
    | escaping quote => simp [Mode.quote?] at h
    | outside =>
      by_cases hdepth : depth = 0
      · by_cases hcurrent : current = []
        · by_cases hdone : done = []
          · simp [Mode.quote?, hdepth, hcurrent, hdone] at h
            subst h hcurrent hdone
            exact ⟨fun _ hmem => (List.not_mem_nil hmem).elim, hscanned.gathered⟩
          · simp [Mode.quote?, hdepth, hcurrent, hdone] at h
        · simp [Mode.quote?, hdepth, hcurrent] at h
          subst h
          refine ⟨fun arg harg => ?_, ?_⟩
          · rcases List.mem_append.1 harg with hmem | hmem
            · exact hscanned.tidy arg (List.mem_reverse.1 hmem)
            · rw [List.mem_singleton.1 hmem]
              exact ⟨fun hnil => hcurrent (List.reverse_eq_nil_iff.1 hnil), hscanned.condense,
                hscanned.runCurrent⟩
          · rw [intercalate_concat]
            exact hscanned.gathered
      · simp [Mode.quote?, hdepth] at h

/-! ### From the pieces to the text -/

/-- A text that stands as a whole argument between two commas. -/
structure Piece (cs : List Char) : Prop where
  whole : Whole 0 cs
  ne_nil : condense .outside cs ≠ []

/-- Whether a text is a piece does not depend on the blanks that do not count. -/
theorem Piece.of_condense_eq {cs ds : List Char} (h : Piece cs)
    (heq : condense .outside ds = condense .outside cs) : Piece ds :=
  ⟨h.whole.of_condense_eq heq, heq ▸ h.ne_nil⟩

theorem Piece.foldlM_comma {cs : List Char} (h : Piece cs) (done : List (List Char)) :
    (condense .outside cs ++ [',']).foldlM Scan.step (Mode.outside.scan done [] 0) =
      .ok (Mode.outside.scan (condense .outside cs :: done) [] 0) := by
  have hcomma : (Mode.outside.scan done (condense .outside cs).reverse 0).step ',' =
      .ok (Mode.outside.scan (condense .outside cs :: done) [] 0) := by
    have hcurrent : (condense .outside cs).reverse ≠ [] := fun hnil =>
      h.ne_nil (List.reverse_eq_nil_iff.1 hnil)
    simp [Scan.step, Mode.scan, Mode.quote?, Scan.plainStep, Scan.isQuote, hcurrent,
      Mode.isEscaping]
  rw [List.foldlM_append, foldlM_condense, h.whole.foldlM done [] (Nat.le_refl 0), List.append_nil]
  exact congrArg (· >>= pure) hcomma

theorem foldlM_pieces {pieces : List (List Char)} (h : ∀ piece ∈ pieces, Piece piece)
    (done : List (List Char)) :
    ((pieces.map (condense .outside)).flatMap (· ++ [','])).foldlM Scan.step
        (Mode.outside.scan done [] 0) =
      .ok (Mode.outside.scan ((pieces.map (condense .outside)).reverse ++ done) [] 0) := by
  induction pieces generalizing done with
  | nil => rfl
  | cons piece rest ih =>
    have hrest : ∀ p ∈ rest, Piece p := fun p hp => h p (List.mem_cons_of_mem piece hp)
    rw [List.map_cons, List.flatMap_cons, List.foldlM_append,
      (h piece List.mem_cons_self).foldlM_comma, List.reverse_cons, List.append_assoc]
    exact ih hrest _

theorem whole_intercalate {pieces : List (List Char)} (h : ∀ piece ∈ pieces, Piece piece) :
    Whole 1 ([','].intercalate pieces) := by
  induction pieces with
  | nil => exact Whole.nil 1
  | cons piece rest ih =>
    have hpiece : Whole 1 piece := (h piece List.mem_cons_self).whole.mono (Nat.zero_le 1)
    have hrest := ih fun p hp => h p (List.mem_cons_of_mem piece hp)
    cases rest with
    | nil => simpa using hpiece
    | cons next more =>
      rw [List.intercalate_cons_cons]
      exact (hpiece.append whole_comma).append hrest

theorem condense_intercalate {pieces : List (List Char)} (h : ∀ piece ∈ pieces, Piece piece) :
    condense .outside ([','].intercalate pieces) =
      [','].intercalate (pieces.map (condense .outside)) := by
  induction pieces with
  | nil => rfl
  | cons piece rest ih =>
    have hpiece := (h piece List.mem_cons_self).whole.run
    have hrest := ih fun p hp => h p (List.mem_cons_of_mem piece hp)
    cases rest with
    | nil => simp
    | cons next more =>
      have hcomma : condense .outside [','] = [','] := rfl
      rw [List.intercalate_cons_cons, List.map_cons, List.map_cons, List.intercalate_cons_cons,
        condense_append, condense_append, hpiece, hcomma, Mode.run_append, hpiece, ← List.map_cons,
        ← hrest]
      rfl

/-- A text is cut into the pieces that it is put together from, each without the blanks that do not
count. -/
theorem splitArguments_eq_of_pieces {body : List Char} {pieces : List (List Char)}
    (hne : pieces ≠ []) (h : ∀ piece ∈ pieces, Piece piece)
    (hbody : condense .outside body = condense .outside ([','].intercalate pieces)) :
    splitArguments body = .ok (pieces.map (condense .outside)) := by
  obtain ⟨others, last, rfl⟩ := List.eq_nil_or_concat pieces |>.resolve_left hne
  have hothers : ∀ piece ∈ others, Piece piece := fun p hp => h p (by simp [hp])
  have hlast : Piece last := h last (by simp)
  have hscan : body.foldlM Scan.step Scan.start =
      .ok (Mode.outside.scan (others.map (condense .outside)).reverse
        (condense .outside last).reverse 0) := by
    have hgathered := hlast.whole.foldlM (others.map (condense .outside)).reverse [] (Nat.le_refl 0)
    rw [← foldlM_condense, List.append_nil] at hgathered
    rw [start_eq, ← foldlM_condense, hbody, condense_intercalate h, List.concat_eq_append,
      List.map_append, List.map_singleton, intercalate_concat, List.foldlM_append,
      foldlM_pieces hothers, List.append_nil]
    exact hgathered
  simp [splitArguments, hscan, bind, Except.bind, Scan.finish, Mode.scan, Mode.quote?,
    hlast.ne_nil]

/-! ### Names -/

theorem split_eq_some {text name : List Char} {args : List (List Char)}
    (h : split text = .ok (some (name, args))) :
    ∃ body, text = name ++ '(' :: (body ++ [')']) ∧ splitArguments body = .ok args := by
  have hwhole := List.takeWhile_append_dropWhile (p := isNameChar) (l := text)
  simp only [split] at h
  split at h
  · cases h
  · rename_i rest hrest _
    split at h
    · rename_i hlast
      obtain ⟨body, rfl⟩ := List.getLast?_eq_some_iff.1 hlast
      rw [List.dropLast_concat] at h
      cases hargs : splitArguments body with
      | error e =>
        rw [hargs] at h
        cases h
      | ok found =>
        rw [hargs] at h
        cases h
        exact ⟨body, by rw [← hrest, hwhole], hargs⟩
    · cases h
  · cases h

theorem split_of_name {name body : List Char} {args : List (List Char)} (hne : name ≠ [])
    (hname : ∀ c ∈ name, isNameChar c = true) (h : splitArguments body = .ok args) :
    split (name ++ '(' :: (body ++ [')'])) = .ok (some (name, args)) := by
  have hopen : isNameChar '(' = false := by decide
  have htake : (name ++ '(' :: (body ++ [')'])).takeWhile isNameChar = name := by
    rw [List.takeWhile_append_of_pos hname]
    simp [hopen]
  have hdrop : (name ++ '(' :: (body ++ [')'])).dropWhile isNameChar = '(' :: (body ++ [')']) := by
    rw [List.dropWhile_append_of_pos hname]
    simp [hopen]
  simp [split, htake, hdrop, h, Except.map]

theorem split_of_not_mem {text : List Char} (h : '(' ∉ text) : split text = .ok none := by
  have hdrop : '(' ∉ text.dropWhile isNameChar := fun hmem =>
    h ((List.dropWhile_sublist isNameChar).subset hmem)
  simp only [split]
  split
  · rfl
  · rename_i hrest _
    rw [hrest] at hdrop
    exact absurd List.mem_cons_self hdrop
  · rfl

end LiveQuery.Call
