import Mathlib.Algebra.Group.Nat.Defs
import Mathlib.Data.List.Basic
import LiveQuery.Feed.Lines

/-!
# Lines do not depend on chunks

The chunks in which a text comes say nothing about its lines. While a line is gathered, the buffer
is what its bytes so far determine (`LineBuffer.holding`), over however many chunks they came, and
so the line that is handed on is the next one of `linesOf` and the chunks that are left hold the
others. From there the calls of a reader are the `readings` of the text, one after the other.
-/

namespace LiveQuery.Feed

/-! ### Cutting a text -/

/-- A text is a line with its line feed and a text behind it, or it has no line feed. -/
theorem lines_induction {motive : List UInt8 → Prop}
    (rest : ∀ tail, lineFeed ∉ tail → motive tail)
    (line : ∀ body more, lineFeed ∉ body → motive more → motive (body ++ lineFeed :: more))
    (text : List UInt8) : motive text := by
  induction hlength : text.length using Nat.strongRecOn generalizing text with
  | ind length ih =>
    by_cases hmem : lineFeed ∈ text
    · obtain ⟨body, more, rfl, hbody⟩ := List.eq_append_cons_of_mem hmem
      refine line body more hbody (ih more.length ?_ more rfl)
      rw [← hlength, List.length_append, List.length_cons]
      omega
    · exact rest text hmem

theorem linesOf_of_not_mem {tail : List UInt8} (h : lineFeed ∉ tail) :
    linesOf tail = if tail = [] then [] else [tail] := by
  induction tail with
  | nil => rfl
  | cons b more ih =>
    have hb : b ≠ lineFeed := fun heq => h (heq ▸ List.mem_cons_self)
    have hmore : lineFeed ∉ more := fun hmem => h (List.mem_cons_of_mem b hmem)
    rw [linesOf, if_neg hb, ih hmore, if_neg (List.cons_ne_nil b more)]
    by_cases hnil : more = []
    · rw [hnil]
      rfl
    · rw [if_neg hnil]

theorem linesOf_line {body : List UInt8} (h : lineFeed ∉ body) (more : List UInt8) :
    linesOf (body ++ lineFeed :: more) = (body ++ [lineFeed]) :: linesOf more := by
  induction body with
  | nil => rw [List.nil_append, linesOf, if_pos rfl, List.nil_append]
  | cons b rest ih =>
    have hb : b ≠ lineFeed := fun heq => h (heq ▸ List.mem_cons_self)
    have hrest : lineFeed ∉ rest := fun hmem => h (List.mem_cons_of_mem b hmem)
    rw [List.cons_append, linesOf, if_neg hb, ih hrest, List.cons_append]

/-- The lines of a text are what stands between its line feeds, each with the line feed behind it,
and what stands behind the last one unless that is nothing. -/
theorem exists_lines (text : List UInt8) : ∃ (bodies : List (List UInt8)) (tail : List UInt8),
    (∀ body ∈ bodies, lineFeed ∉ body) ∧ lineFeed ∉ tail ∧
      text = bodies.flatMap (· ++ [lineFeed]) ++ tail ∧
      linesOf text = bodies.map (· ++ [lineFeed]) ++ if tail = [] then [] else [tail] := by
  induction text using lines_induction with
  | rest tail htail => exact ⟨[], tail, nofun, htail, rfl, linesOf_of_not_mem htail⟩
  | line body more hbody ih =>
    obtain ⟨bodies, tail, hbodies, htail, rfl, hlines⟩ := ih
    refine ⟨body :: bodies, tail, List.forall_mem_cons.2 ⟨hbody, hbodies⟩, htail, ?_, ?_⟩
    · simp
    · rw [linesOf_line hbody, hlines]
      rfl

theorem flatten_linesOf (text : List UInt8) : (linesOf text).flatten = text := by
  obtain ⟨bodies, tail, -, -, rfl, hlines⟩ := exists_lines text
  have htail : (if tail = [] then [] else [tail]).flatten = tail := by
    by_cases hnil : tail = [] <;> simp [hnil]
  rw [hlines, List.flatten_append, htail, List.flatMap_def]

/-- Behind a line feed a new line begins. -/
theorem linesOf_append (text more : List UInt8) :
    linesOf (text ++ [lineFeed] ++ more) = linesOf (text ++ [lineFeed]) ++ linesOf more := by
  induction text using lines_induction with
  | rest tail htail =>
    have hwhole := linesOf_line htail more
    have hline := linesOf_line htail []
    rw [List.append_assoc, List.singleton_append, hwhole, hline]
    rfl
  | line body rest hbody ih =>
    have hsplit : ∀ behind : List UInt8,
        body ++ lineFeed :: rest ++ [lineFeed] ++ behind =
          body ++ lineFeed :: (rest ++ [lineFeed] ++ behind) := by
      intro behind
      simp only [List.append_assoc, List.cons_append]
    have hline := hsplit []
    rw [List.append_nil, List.append_nil] at hline
    rw [hsplit, hline, linesOf_line hbody, linesOf_line hbody, ih, List.cons_append]

theorem length_le_of_mem_linesOf {text line : List UInt8} (h : line ∈ linesOf text) :
    line.length ≤ text.length := by
  have hle := (List.sublist_flatten_of_mem h).length_le
  rwa [flatten_linesOf] at hle

theorem all_ne_of_not_mem {bytes : List UInt8} (h : lineFeed ∉ bytes) :
    ∀ b ∈ bytes, (b != lineFeed) = true := by
  intro b hb
  rw [bne_iff_ne]
  rintro rfl
  exact h hb

theorem takeWhile_append {body : List UInt8} (h : lineFeed ∉ body) (more : List UInt8) :
    (body ++ more).takeWhile (· != lineFeed) = body ++ more.takeWhile (· != lineFeed) :=
  List.takeWhile_append_of_pos (all_ne_of_not_mem h)

theorem dropWhile_append {body : List UInt8} (h : lineFeed ∉ body) (more : List UInt8) :
    (body ++ more).dropWhile (· != lineFeed) = more.dropWhile (· != lineFeed) :=
  List.dropWhile_append_of_pos (all_ne_of_not_mem h)

theorem cutLine_of_not_mem {chunk : List UInt8} (h : lineFeed ∉ chunk) :
    cutLine chunk = (chunk, none) := by
  have htake := takeWhile_append h []
  have hdrop := dropWhile_append h []
  simp only [List.append_nil, List.takeWhile_nil, List.dropWhile_nil] at htake hdrop
  simp only [cutLine, hdrop, htake]

theorem cutLine_line {body : List UInt8} (h : lineFeed ∉ body) (more : List UInt8) :
    cutLine (body ++ lineFeed :: more) = (body ++ [lineFeed], some more) := by
  have htake := takeWhile_append h (lineFeed :: more)
  have hdrop := dropWhile_append h (lineFeed :: more)
  simp only [List.takeWhile_cons, List.dropWhile_cons, bne_self_eq_false, Bool.false_eq_true,
    if_false, List.append_nil] at htake hdrop
  simp only [cutLine, htake, hdrop]

/-! ### The buffer of a line -/

namespace LineBuffer

/-- The buffer behind these bytes of a line. -/
def holding (limit : Nat) (bytes : List UInt8) : LineBuffer :=
  ⟨if bytes.length ≤ limit then bytes.reverse else [], bytes.length⟩

theorem holding_nil (limit : Nat) : holding limit [] = empty := rfl

theorem append_holding (limit : Nat) (bytes piece : List UInt8) :
    (holding limit bytes).append limit piece = holding limit (bytes ++ piece) := by
  simp only [append, holding, List.length_append, List.reverse_append]
  by_cases hfits : bytes.length + piece.length ≤ limit
  · have hbefore : bytes.length ≤ limit := by omega
    simp only [hfits, hbefore, if_true]
  · simp only [hfits, if_false]

theorem length_held_le (limit : Nat) (bytes : List UInt8) :
    (holding limit bytes).held.length ≤ limit := by
  simp only [holding]
  split
  · rwa [List.length_reverse]
  · exact Nat.zero_le limit

theorem readLine_holding {α : Type} (decode : List UInt8 → Option α) (limit : Nat)
    (bytes : List UInt8) :
    readLine decode limit (holding limit bytes).length (holding limit bytes).held.reverse =
      readLine decode limit bytes.length bytes := by
  simp only [holding]
  by_cases hfits : bytes.length ≤ limit
  · simp only [hfits, if_true, List.reverse_reverse]
  · have hlong : limit < bytes.length := by omega
    simp only [readLine, hlong, if_true]

end LineBuffer

/-! ### Gathering a line -/

/-- What is gathered, and every state of the buffer on the way. -/
def gatherTraced (limit : Nat) (buffer : LineBuffer) :
    List (List UInt8) → Option (LineBuffer × List (List UInt8)) × List LineBuffer
  | [] => (if buffer.length = 0 then none else some (buffer, []), [buffer])
  | chunk :: more =>
    match cutLine chunk with
    | (piece, some rest) =>
      (some (buffer.append limit piece, rest :: more), [buffer, buffer.append limit piece])
    | (piece, none) =>
      let (gathered, states) := gatherTraced limit (buffer.append limit piece) more
      (gathered, buffer :: states)

theorem gatherTraced_fst (limit : Nat) (buffer : LineBuffer) (chunks : List (List UInt8)) :
    (gatherTraced limit buffer chunks).1 = gatherLine limit buffer chunks := by
  induction chunks generalizing buffer with
  | nil => rfl
  | cons chunk more ih =>
    rcases hcut : cutLine chunk with ⟨piece, rest⟩
    cases rest with
    | none =>
      simp only [gatherTraced, gatherLine, hcut]
      exact ih (buffer.append limit piece)
    | some rest => simp only [gatherTraced, gatherLine, hcut]

/-- Gathering finds the first line of the text that began with `bytes`, and leaves the others. On
the way the buffer is determined by the bytes of the line. -/
theorem gatherTraced_spec (limit : Nat) (chunks : List (List UInt8)) {bytes : List UInt8}
    (h : lineFeed ∉ bytes) :
    (match (gatherTraced limit (.holding limit bytes) chunks).1 with
      | none => bytes ++ chunks.flatten = []
      | some (buffer, rest) => ∃ line, buffer = .holding limit line ∧
          linesOf (bytes ++ chunks.flatten) = line :: linesOf rest.flatten) ∧
      ∀ buffer ∈ (gatherTraced limit (.holding limit bytes) chunks).2,
        ∃ part, buffer = .holding limit part := by
  induction chunks generalizing bytes with
  | nil =>
    simp only [gatherTraced, LineBuffer.holding, List.flatten_nil, List.append_nil,
      List.length_eq_zero_iff]
    refine ⟨?_, fun buffer hbuffer => ⟨bytes, List.mem_singleton.1 hbuffer⟩⟩
    by_cases hnil : bytes = []
    · simp only [hnil, if_true]
    · simp only [hnil, if_false]
      exact ⟨bytes, rfl, by rw [linesOf_of_not_mem h, if_neg hnil]; rfl⟩
  | cons chunk more ih =>
    by_cases hmem : lineFeed ∈ chunk
    · obtain ⟨body, rest, rfl, hbody⟩ := List.eq_append_cons_of_mem hmem
      simp only [gatherTraced, cutLine_line hbody, LineBuffer.append_holding]
      refine ⟨⟨_, rfl, ?_⟩, ?_⟩
      · have hline : lineFeed ∉ bytes ++ body := by simp [h, hbody]
        have hcut := linesOf_line hline (rest ++ more.flatten)
        simpa using hcut
      · intro buffer hbuffer
        rcases List.mem_cons.1 hbuffer with rfl | hbuffer
        · exact ⟨bytes, rfl⟩
        · exact ⟨_, List.mem_singleton.1 hbuffer⟩
    · have hlonger : lineFeed ∉ bytes ++ chunk := by simp [h, hmem]
      obtain ⟨hgathered, hstates⟩ := ih hlonger
      simp only [gatherTraced, cutLine_of_not_mem hmem, LineBuffer.append_holding,
        List.flatten_cons, ← List.append_assoc]
      refine ⟨hgathered, fun buffer hbuffer => ?_⟩
      rcases List.mem_cons.1 hbuffer with rfl | hbuffer
      · exact ⟨bytes, rfl⟩
      · exact hstates buffer hbuffer

/-! ### The calls of a reader -/

namespace LineReader

variable {α : Type} (decode : List UInt8 → Option α)

/-- The first line of a text is read, and then the others are. -/
theorem readings_of_linesOf (limit : Nat) {text line rest : List UInt8}
    (h : linesOf text = line :: linesOf rest) : readings decode limit text =
      (readLine decode limit line.length line).toList ++ readings decode limit rest := by
  rw [readings, readings, h, List.filterMap_cons]
  cases readLine decode limit line.length line <;> rfl

/-- The next thing that the reader finds, and every state of its buffer on the way. -/
def nextTraced (decode : List UInt8 → Option α) :
    LineReader → Option (Reading α × LineReader) × List LineBuffer
  | ⟨_, []⟩ => (none, [.empty])
  | ⟨limit, chunk :: more⟩ =>
    match _h : gatherTraced limit .empty (chunk :: more) with
    | (none, states) => (none, states)
    | (some (line, rest), states) =>
      match readLine decode limit line.length line.held.reverse with
      | some reading => (some (reading, ⟨limit, rest⟩), states)
      | none =>
        let (found, later) := nextTraced decode ⟨limit, rest⟩
        (found, states ++ later)
termination_by r => remaining r.chunks
decreasing_by
  have hgathered := gatherTraced_fst limit .empty (chunk :: more)
  rw [_h] at hgathered
  exact remaining_gatherLine hgathered.symm

theorem next_cons (limit : Nat) (chunk : List UInt8) (more : List (List UInt8)) :
    next decode ⟨limit, chunk :: more⟩ =
      match gatherLine limit .empty (chunk :: more) with
      | none => none
      | some (line, rest) =>
        match readLine decode limit line.length line.held.reverse with
        | some reading => some (reading, ⟨limit, rest⟩)
        | none => next decode ⟨limit, rest⟩ := by
  rw [next]
  cases gatherLine limit .empty (chunk :: more) <;> rfl

theorem nextTraced_fst (r : LineReader) : (r.nextTraced decode).1 = r.next decode := by
  fun_induction nextTraced decode r with
  | case1 limit => rw [next]
  | case2 limit chunk more states hgather =>
    rw [next_cons, ← gatherTraced_fst, hgather]
  | case3 limit chunk more line rest states hgather reading hread =>
    rw [next_cons, ← gatherTraced_fst, hgather]
    simp only [hread]
  | case4 limit chunk more line rest states hgather hread found later hlater ih =>
    rw [next_cons, ← gatherTraced_fst, hgather]
    simp only [hread]
    rw [← ih, hlater]

/-- The reader finds the first reading of its text, and the others are left. The buffer never holds
more than a part of a line that is within the limit. -/
theorem nextTraced_spec (r : LineReader) :
    (match (r.nextTraced decode).1 with
      | none => readings decode r.limit r.chunks.flatten = []
      | some (reading, after) => after.limit = r.limit ∧
          readings decode r.limit r.chunks.flatten =
            reading :: readings decode r.limit after.chunks.flatten) ∧
      ∀ buffer ∈ (r.nextTraced decode).2, ∃ part, buffer = .holding r.limit part := by
  fun_induction nextTraced decode r with
  | case1 limit =>
    exact ⟨rfl, fun buffer hbuffer => ⟨[], List.mem_singleton.1 hbuffer⟩⟩
  | case2 limit chunk more states hgather =>
    obtain ⟨hempty, hstates⟩ := gatherTraced_spec limit (chunk :: more) List.not_mem_nil
    rw [LineBuffer.holding_nil, hgather] at hempty hstates
    have htext : (chunk :: more).flatten = [] := hempty
    refine ⟨?_, hstates⟩
    simp only [htext]
    rfl
  | case3 limit chunk more line rest states hgather reading hread =>
    obtain ⟨hline, hstates⟩ := gatherTraced_spec limit (chunk :: more) List.not_mem_nil
    rw [LineBuffer.holding_nil, hgather] at hline hstates
    obtain ⟨bytes, rfl, hlines⟩ := hline
    rw [LineBuffer.readLine_holding] at hread
    have hreadings := readings_of_linesOf decode limit hlines
    rw [hread] at hreadings
    exact ⟨⟨rfl, hreadings⟩, hstates⟩
  | case4 limit chunk more line rest states hgather hread found later hlater ih =>
    obtain ⟨hline, hstates⟩ := gatherTraced_spec limit (chunk :: more) List.not_mem_nil
    rw [LineBuffer.holding_nil, hgather] at hline hstates
    obtain ⟨bytes, rfl, hlines⟩ := hline
    rw [LineBuffer.readLine_holding] at hread
    obtain ⟨hfound, hlaterStates⟩ := ih
    rw [hlater] at hfound hlaterStates
    have hskip : readings decode limit (chunk :: more).flatten =
        readings decode limit rest.flatten := by
      have hreadings := readings_of_linesOf decode limit hlines
      rwa [hread] at hreadings
    refine ⟨?_, fun buffer hbuffer => ?_⟩
    · rw [hskip]
      exact hfound
    · rcases List.mem_append.1 hbuffer with hbuffer | hbuffer
      · exact hstates buffer hbuffer
      · exact hlaterStates buffer hbuffer

/-- A call of the reader, and the reader behind it. Behind the end of the text nothing is left. -/
def read (r : LineReader) : Option (Reading α) × LineReader :=
  match r.next decode with
  | none => (none, ⟨r.limit, []⟩)
  | some (reading, after) => (some reading, after)

/-- The reader behind a number of calls. -/
def afterReads (r : LineReader) : Nat → LineReader
  | 0 => r
  | n + 1 => ((r.afterReads n).read decode).2

theorem read_spec (r : LineReader) : (r.read decode).2.limit = r.limit ∧
    (r.read decode).1 = (readings decode r.limit r.chunks.flatten).head? ∧
    readings decode r.limit (r.read decode).2.chunks.flatten =
      (readings decode r.limit r.chunks.flatten).tail := by
  have hspec := (nextTraced_spec decode r).1
  rw [nextTraced_fst] at hspec
  cases hnext : r.next decode with
  | none =>
    rw [hnext] at hspec
    have hnone : readings decode r.limit r.chunks.flatten = [] := hspec
    have hread : r.read decode = (none, ⟨r.limit, []⟩) := by simp only [read, hnext]
    rw [hread, hnone]
    exact ⟨rfl, rfl, rfl⟩
  | some found =>
    obtain ⟨reading, after⟩ := found
    rw [hnext] at hspec
    obtain ⟨hlimit, hreadings⟩ := hspec
    have hread : r.read decode = (some reading, after) := by simp only [read, hnext]
    rw [hread, hreadings]
    exact ⟨hlimit, rfl, rfl⟩

theorem afterReads_spec (r : LineReader) (n : Nat) : (r.afterReads decode n).limit = r.limit ∧
    readings decode r.limit (r.afterReads decode n).chunks.flatten =
      (readings decode r.limit r.chunks.flatten).drop n := by
  induction n with
  | zero => exact ⟨rfl, rfl⟩
  | succ n ih =>
    obtain ⟨hlimit, hreadings⟩ := ih
    obtain ⟨hlimit', -, htail⟩ := read_spec decode (r.afterReads decode n)
    rw [hlimit] at htail hlimit'
    refine ⟨hlimit', ?_⟩
    rw [afterReads, htail, hreadings, List.tail_drop]

theorem read_afterReads (r : LineReader) (n : Nat) :
    ((r.afterReads decode n).read decode).1 =
      (readings decode r.limit r.chunks.flatten)[n]? := by
  obtain ⟨hlimit, hreadings⟩ := afterReads_spec decode r n
  rw [(read_spec decode (r.afterReads decode n)).2.1, hlimit, hreadings, List.head?_drop]

theorem readAll_eq_readings (r : LineReader) :
    r.readAll decode = readings decode r.limit r.chunks.flatten := by
  fun_induction readAll decode r with
  | case1 r hnext =>
    have hspec := (nextTraced_spec decode r).1
    rw [nextTraced_fst, hnext] at hspec
    exact Eq.symm hspec
  | case2 r reading after hnext ih =>
    have hspec := (nextTraced_spec decode r).1
    rw [nextTraced_fst, hnext] at hspec
    obtain ⟨hlimit, hreadings⟩ := hspec
    rw [hreadings, ih, hlimit]

end LineReader

/-! ### Each line by itself -/

variable {α : Type} (decode : List UInt8 → Option α)

/-- What a line gives, whatever stands beside it. Without a limit no line is too long. -/
def lineResult (limit : Option Nat) (line : List UInt8) : Option (Reading α) :=
  match limit with
  | some max => if max < line.length then some (.tooLong line.length max) else contents
  | none => contents
where
  contents : Option (Reading α) :=
    if trimLine line = [] then none
    else match decode (trimLine line) with
      | some a => some (.value a)
      | none => some .undecodable

theorem readLine_eq (limit length : Nat) (line : List UInt8) :
    readLine decode limit length line =
      if limit < length then some (.tooLong length limit) else lineResult.contents decode line := by
  rw [readLine, lineResult.contents]
  cases trimLine line with
  | nil => rfl
  | cons b rest =>
    rw [if_neg (List.cons_ne_nil b rest)]
    cases hdecode : decode (b :: rest) <;> simp only [hdecode] <;> rfl

theorem readLine_eq_lineResult (limit : Option Nat) {line : List UInt8}
    (h : line.length < 2 ^ 64) :
    readLine decode (limit.getD unlimited) line.length line = lineResult decode limit line := by
  rw [readLine_eq]
  cases limit with
  | some max => rfl
  | none =>
    have hfits : ¬ unlimited < line.length := by
      have hunlimited : unlimited = 2 ^ 64 - 1 := rfl
      omega
    rw [Option.getD_none, if_neg hfits]
    rfl

/-- However a text shorter than `2⁶⁴` bytes comes in chunks, the calls of a reader give what its
lines give, each by itself and in their order, and nothing afterwards; and at no moment does the
buffer hold more than the limit. -/
theorem read_calls (limit : Option Nat) (chunks : List (List UInt8))
    (h : chunks.flatten.length < 2 ^ 64) :
    (∀ n, (((LineReader.ofChunks limit chunks).afterReads decode n).read decode).1 =
        ((linesOf chunks.flatten).filterMap (lineResult decode limit))[n]?) ∧
      (LineReader.ofChunks limit chunks).readAll decode =
        (linesOf chunks.flatten).filterMap (lineResult decode limit) ∧
      ∀ n,
        ∀ buffer ∈ (((LineReader.ofChunks limit chunks).afterReads decode n).nextTraced decode).2,
          ∀ max ∈ limit, buffer.held.length ≤ max := by
  have hreadings : readings decode (limit.getD unlimited) chunks.flatten =
      (linesOf chunks.flatten).filterMap (lineResult decode limit) := by
    apply List.filterMap_congr
    intro line hline
    apply readLine_eq_lineResult
    exact Nat.lt_of_le_of_lt (length_le_of_mem_linesOf hline) h
  refine ⟨fun n => ?_, ?_, fun n buffer hbuffer max hmax => ?_⟩
  · rw [LineReader.read_afterReads, ← hreadings]
    rfl
  · rw [LineReader.readAll_eq_readings, ← hreadings]
    rfl
  · obtain ⟨part, rfl⟩ := (LineReader.nextTraced_spec decode _).2 buffer hbuffer
    rw [(LineReader.afterReads_spec decode _ n).1]
    obtain rfl : limit = some max := hmax
    exact LineBuffer.length_held_le max part

theorem read_calls_of_long_line :
    let r := LineReader.ofChunks (some 4) [[49], [10, 50, 50], [50, 50, 50, 10, 32], [10], [51]]
    ((r.afterReads some 0).read some).1 = some (.value [49]) ∧
      ((r.afterReads some 1).read some).1 = some (.tooLong 6 4) ∧
      ((r.afterReads some 2).read some).1 = some (.value [51]) ∧
      ((r.afterReads some 3).read some).1 = none := by
  intro r
  have hcalls := (read_calls some (some 4) [[49], [10, 50, 50], [50, 50, 50, 10, 32], [10], [51]]
    (by decide)).1
  exact ⟨hcalls 0, hcalls 1, hcalls 2, hcalls 3⟩

end LiveQuery.Feed
