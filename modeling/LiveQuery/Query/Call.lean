import LiveQuery.Text.Blank
import LiveQuery.Query.Error

/-!
# Calls in a statement

A call is a name, an opening parenthesis, arguments separated by commas, and a closing parenthesis
at the very end. `splitArguments` cuts the text between the parentheses at the commas that stand
neither in an inner pair of parentheses nor in quotes, and leaves out the blanks that are not in
quotes. Any of the three quotes opens a string that the same quote closes; inside the two that know
escapes, a backslash protects the next character.
-/

namespace LiveQuery.Call

/-- Why a text cannot be cut into arguments. -/
inductive SplitFault where
  | unbalanced
  | unterminated
  | empty
deriving DecidableEq, Repr

/-- The failure of a statement in which this text stands. -/
def SplitFault.error (text : List Char) : SplitFault → QueryError
  | .unbalanced => .unbalancedParentheses (String.ofList text)
  | .unterminated => .unterminatedQuote (String.ofList text)
  | .empty => .emptyArgument (String.ofList text)

/-- Where the cutting stands after a part of the text. -/
structure Scan where
  /-- The finished arguments, the last one first. -/
  done : List (List Char)
  /-- The characters of the argument at hand, the last one first. -/
  current : List Char
  /-- How many parentheses are open. -/
  depth : Nat
  quote : Option Char
  /-- Whether a backslash protects the next character. -/
  escaped : Bool
deriving DecidableEq, Repr

namespace Scan

def start : Scan := ⟨[], [], 0, none, false⟩

def isQuote (c : Char) : Bool := c == '\x22' || c == '\x27' || c == '\x60'

/-- A character inside the quote `opening`. -/
def quotedStep (s : Scan) (opening c : Char) : Scan :=
  let s := { s with current := c :: s.current }
  if s.escaped then { s with escaped := false }
  else if c = '\x5c' ∧ opening ≠ '\x60' then { s with escaped := true }
  else if c = opening then { s with quote := none }
  else s

def plainStep (s : Scan) (c : Char) : Except SplitFault Scan :=
  if isQuote c then .ok { s with current := c :: s.current, quote := some c }
  else if c = '(' then .ok { s with current := c :: s.current, depth := s.depth + 1 }
  else if c = ')' then
    if s.depth = 0 then .error .unbalanced
    else .ok { s with current := c :: s.current, depth := s.depth - 1 }
  else if c = ',' ∧ s.depth = 0 then
    if s.current = [] then .error .empty
    else .ok { s with done := s.current.reverse :: s.done, current := [] }
  else if Text.isBlank c then .ok s
  else .ok { s with current := c :: s.current }

def step (s : Scan) (c : Char) : Except SplitFault Scan :=
  match s.quote with
  | some opening => .ok (s.quotedStep opening c)
  | none => s.plainStep c

/-- The arguments at the end of the text. No text at all holds no arguments; a comma has to be
followed by one. -/
def finish (s : Scan) : Except SplitFault (List (List Char)) :=
  if s.quote.isSome then .error .unterminated
  else if s.depth ≠ 0 then .error .unbalanced
  else if s.current = [] then
    if s.done = [] then .ok [] else .error .empty
  else .ok (s.current.reverse :: s.done).reverse

/-- How many characters were kept. -/
def kept (s : Scan) : Nat := s.done.flatten.length + s.current.length

theorem kept_quotedStep (s : Scan) (opening c : Char) :
    (s.quotedStep opening c).kept = s.kept + 1 := by
  simp only [quotedStep]
  split
  · simp [kept]; omega
  · split
    · simp [kept]; omega
    · split <;> simp [kept] <;> omega

/-- A character adds at most itself. -/
theorem kept_step {s t : Scan} {c : Char} (h : s.step c = .ok t) : t.kept ≤ s.kept + 1 := by
  simp only [step] at h
  split at h
  · cases h
    exact Nat.le_of_eq (kept_quotedStep ..)
  · simp only [plainStep] at h
    repeat' split at h
    all_goals cases h
    all_goals simp [kept]
    all_goals omega

theorem kept_foldlM {cs : List Char} {s t : Scan} (h : cs.foldlM step s = .ok t) :
    t.kept ≤ s.kept + cs.length := by
  induction cs generalizing s with
  | nil => cases h; simp
  | cons c rest ih =>
    rw [List.foldlM_cons] at h
    cases hs : s.step c with
    | error e => rw [hs] at h; cases h
    | ok u =>
      rw [hs] at h
      have := ih h
      have := kept_step hs
      simp only [List.length_cons]
      omega

theorem length_le_of_mem_finish {s : Scan} {args : List (List Char)} (h : s.finish = .ok args)
    {a : List Char} (ha : a ∈ args) : a.length ≤ s.kept := by
  simp only [finish] at h
  repeat' split at h
  all_goals cases h
  · cases ha
  · rcases List.mem_cons.1 (List.mem_reverse.1 ha) with rfl | ha
    · simp [kept]
    · have := (List.sublist_flatten_of_mem ha).length_le
      simp only [kept]
      omega

end Scan

/-- The arguments in the text between the parentheses of a call. -/
def splitArguments (body : List Char) : Except QueryError (List (List Char)) :=
  match body.foldlM Scan.step Scan.start >>= Scan.finish with
  | .ok args => .ok args
  | .error fault => .error (fault.error body)

theorem length_le_of_mem_splitArguments {body : List Char} {args : List (List Char)}
    (h : splitArguments body = .ok args) {a : List Char} (ha : a ∈ args) :
    a.length ≤ body.length := by
  simp only [splitArguments] at h
  cases hs : body.foldlM Scan.step Scan.start with
  | error e => rw [hs] at h; cases h
  | ok s =>
    rw [hs] at h
    have kept := Scan.kept_foldlM hs
    cases hf : s.finish with
    | error e => simp [bind, Except.bind, hf] at h
    | ok found =>
      simp only [bind, Except.bind, hf, Except.ok.injEq] at h
      subst h
      have none_kept : Scan.start.kept = 0 := rfl
      have := Scan.length_le_of_mem_finish hf ha
      omega

/-- Whether a character may stand in the name of a function. -/
def isNameChar (c : Char) : Bool := c.isAlphanum

/-- A call's name and its arguments. A text without a name and an opening parenthesis in front is no
call; one that is has to end with the closing parenthesis. -/
def split (statement : List Char) : Except QueryError (Option (List Char × List (List Char))) :=
  match statement.takeWhile isNameChar, statement.dropWhile isNameChar with
  | [], _ => .ok none
  | name, '(' :: rest =>
    if rest.getLast? = some ')' then
      (splitArguments rest.dropLast).map fun args => some (name, args)
    else .error (.unbalancedParentheses (String.ofList statement))
  | _, _ => .ok none

/-- An argument is shorter than the call that it stands in. -/
theorem length_lt_of_mem_split {statement name : List Char} {args : List (List Char)}
    (h : split statement = .ok (some (name, args))) {a : List Char} (ha : a ∈ args) :
    a.length < statement.length := by
  have whole := congrArg List.length
    (List.takeWhile_append_dropWhile (p := isNameChar) (l := statement))
  simp only [split] at h
  split at h
  · cases h
  · rename_i rest hrest _
    split at h
    · cases hs : splitArguments rest.dropLast with
      | error e => rw [hs] at h; cases h
      | ok found =>
        rw [hs] at h
        simp only [Except.map, Except.ok.injEq, Option.some.injEq, Prod.mk.injEq] at h
        obtain ⟨rfl, rfl⟩ := h
        have := length_le_of_mem_splitArguments hs ha
        rw [hrest] at whole
        simp at whole this
        omega
    · cases h
  · cases h

end LiveQuery.Call
