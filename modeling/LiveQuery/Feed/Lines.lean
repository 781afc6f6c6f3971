/-!
# Lines of bytes

A feed is a sequence of lines, each with one value. The bytes come in chunks that know nothing of
lines, so a `LineReader` gathers a line over as many chunks as it takes. A line that exceeds the
limit is skipped, and while it is being skipped nothing of it is kept. Beside the reader stands
`linesOf`, which cuts the whole text at once: `readings` says what any reader has to find in it.
-/

namespace LiveQuery.Feed

def lineFeed : UInt8 := 10

/-- The limit of a reader that was given none: the largest 64-bit number. -/
def unlimited : Nat := Nat.pow 2 64 - 1

/-- What a reader finds in a line that is not blank. -/
inductive Reading (α : Type) where
  | value (a : α)
  /-- The line does not denote a value. -/
  | undecodable
  /-- The line, with its end, is longer than the limit. -/
  | tooLong (length limit : Nat)
deriving Repr

def tooLongMessage (length limit : Nat) : String :=
  "Line of " ++ Nat.repr length ++ " bytes exceeds limit of " ++ Nat.repr limit

/-- The bytes that mean nothing at the ends of a line: space, tab, line feed, form feed and carriage
return. -/
def isBlankByte (b : UInt8) : Bool := b == 32 || b == 9 || b == 10 || b == 12 || b == 13

/-- A line without the blanks at its ends. -/
def trimLine (line : List UInt8) : List UInt8 :=
  ((line.dropWhile isBlankByte).reverse.dropWhile isBlankByte).reverse

/-- What a line of the given length holds. The bytes count only if the length is within the limit;
blank lines hold nothing. -/
def readLine {α : Type} (decode : List UInt8 → Option α) (limit length : Nat) (line : List UInt8) :
    Option (Reading α) :=
  if limit < length then some (.tooLong length limit)
  else match trimLine line with
    | [] => none
    | bytes => some ((decode bytes).elim .undecodable .value)

/-! ## The whole text at once -/

/-- The lines of a text, each with its line feed. A rest without one is a line too. -/
def linesOf : List UInt8 → List (List UInt8)
  | [] => []
  | b :: rest =>
    if b = lineFeed then [b] :: linesOf rest
    else match linesOf rest with
      | [] => [[b]]
      | line :: more => (b :: line) :: more

/-- What the lines of a text hold, in order. -/
def readings {α : Type} (decode : List UInt8 → Option α) (limit : Nat) (text : List UInt8) :
    List (Reading α) :=
  (linesOf text).filterMap fun line => readLine decode limit line.length line

/-! ## Chunk by chunk -/

/-- The part of a line that has come so far. -/
structure LineBuffer where
  /-- The bytes, the last one first; nothing once the line has exceeded the limit. -/
  held : List UInt8
  /-- How many bytes have come. -/
  length : Nat
deriving Repr

namespace LineBuffer

def empty : LineBuffer := ⟨[], 0⟩

/-- Takes a piece of the line in. -/
def append (limit : Nat) (buffer : LineBuffer) (piece : List UInt8) : LineBuffer :=
  let length := buffer.length + piece.length
  ⟨if length ≤ limit then piece.reverse ++ buffer.held else [], length⟩

end LineBuffer

/-- Cuts a chunk behind its first line feed, if it has one. -/
def cutLine (chunk : List UInt8) : List UInt8 × Option (List UInt8) :=
  let body := chunk.takeWhile (· != lineFeed)
  match chunk.dropWhile (· != lineFeed) with
  | [] => (body, none)
  | b :: rest => (body ++ [b], some rest)

theorem length_cutLine {chunk piece rest : List UInt8} (h : cutLine chunk = (piece, some rest)) :
    rest.length < chunk.length := by
  have whole := congrArg List.length
    (List.takeWhile_append_dropWhile (p := (· != lineFeed)) (l := chunk))
  simp only [cutLine] at h
  split at h
  · cases h
  · rename_i hd
    cases h
    rw [hd] at whole
    simp at whole
    omega

/-- Gathers the next line from the chunks that are left. There is none at the end of the text. -/
def gatherLine (limit : Nat) (buffer : LineBuffer) :
    List (List UInt8) → Option (LineBuffer × List (List UInt8))
  | [] => if buffer.length = 0 then none else some (buffer, [])
  | chunk :: more =>
    match cutLine chunk with
    | (piece, some rest) => some (buffer.append limit piece, rest :: more)
    | (piece, none) => gatherLine limit (buffer.append limit piece) more

/-- Takes a whole chunk in. Gives what the lines that end in it hold, and the part of a line behind
the last line feed. -/
def LineBuffer.feed {α : Type} (decode : List UInt8 → Option α) (limit : Nat) (buffer : LineBuffer)
    (chunk : List UInt8) : LineBuffer × List (Reading α) :=
  match _h : cutLine chunk with
  | (piece, none) => (buffer.append limit piece, [])
  | (piece, some rest) =>
    let line := buffer.append limit piece
    let (last, more) := LineBuffer.empty.feed decode limit rest
    (last, (readLine decode limit line.length line.held.reverse).toList ++ more)
termination_by chunk.length
decreasing_by exact length_cutLine ‹_›

/-- The bytes and chunks that are left, together. -/
def remaining : List (List UInt8) → Nat
  | [] => 0
  | chunk :: more => chunk.length + 1 + remaining more

/-- Gathering a line from at least one chunk uses something up. -/
theorem remaining_gatherLine {limit : Nat} {more : List (List UInt8)} {chunk : List UInt8}
    {buffer line : LineBuffer} {rest : List (List UInt8)}
    (h : gatherLine limit buffer (chunk :: more) = some (line, rest)) :
    remaining rest < remaining (chunk :: more) := by
  induction more generalizing chunk buffer with
  | nil =>
    simp only [gatherLine] at h
    split at h
    · rename_i hc
      cases h
      have := length_cutLine hc
      simp only [remaining]
      omega
    · split at h
      · cases h
      · cases h
        simp only [remaining]
        omega
  | cons next more ih =>
    rw [gatherLine] at h
    split at h
    · rename_i hc
      cases h
      have := length_cutLine hc
      simp only [remaining]
      omega
    · have := ih h
      rw [remaining]
      omega

/-- A reader at some point of its text. -/
structure LineReader where
  limit : Nat
  /-- The bytes that are left, as the chunks in which they come. -/
  chunks : List (List UInt8)
deriving Repr

namespace LineReader

def ofChunks (limit : Option Nat) (chunks : List (List UInt8)) : LineReader :=
  ⟨limit.getD unlimited, chunks⟩

/-- The next thing that the reader finds, and the reader behind it. There is nothing at the end of
the text. -/
def next {α : Type} (decode : List UInt8 → Option α) : LineReader → Option (Reading α × LineReader)
  | ⟨_, []⟩ => none
  | ⟨limit, chunk :: more⟩ =>
    match _h : gatherLine limit .empty (chunk :: more) with
    | none => none
    | some (line, rest) =>
      match readLine decode limit line.length line.held.reverse with
      | some reading => some (reading, ⟨limit, rest⟩)
      | none => next decode ⟨limit, rest⟩
termination_by r => remaining r.chunks
decreasing_by exact remaining_gatherLine ‹_›

theorem remaining_next {α : Type} {decode : List UInt8 → Option α} {r after : LineReader}
    {reading : Reading α}
    (h : r.next decode = some (reading, after)) : remaining after.chunks < remaining r.chunks := by
  fun_induction next decode r with
  | case1 => cases h
  | case2 => cases h
  | case3 limit chunk more line rest hg found _ =>
    cases h
    exact remaining_gatherLine hg
  | case4 limit chunk more line rest hg _ ih => exact Nat.lt_trans (ih h) (remaining_gatherLine hg)

/-- Everything that the reader finds up to the end of its text. -/
def readAll {α : Type} (decode : List UInt8 → Option α) (r : LineReader) : List (Reading α) :=
  match _h : r.next decode with
  | none => []
  | some (reading, after) => reading :: readAll decode after
termination_by remaining r.chunks
decreasing_by exact remaining_next ‹_›

end LineReader

end LiveQuery.Feed
