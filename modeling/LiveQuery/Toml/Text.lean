import LiveQuery.Text.Hexadecimal

/-!
# Characters, strings and keys of TOML

Every function takes the characters that are left and gives back what it read and what is left then,
or `none` if the text is not TOML. Those that call themselves take a bound on their steps first.
-/

namespace LiveQuery.Toml

/-- The blanks within a line. -/
def isBlank (c : Char) : Bool := c == ' ' || c == '\t'

def skipBlanks (cs : List Char) : List Char := cs.dropWhile isBlank

/-- The characters that may stand in a comment and, apart from quotes and backslashes, in a string:
all but the control characters, of which only the tab is among them. -/
def isTextChar (c : Char) : Bool := c == '\t' || (0x20 ≤ c.toNat && c.toNat ≠ 0x7f)

/-- What follows a line break, if there is one. -/
def lineBreak? (cs : List Char) : Option (List Char) :=
  match cs with
  | '\n' :: rest => some rest
  | '\r' :: '\n' :: rest => some rest
  | _ => none

/-- Drops a comment up to the end of its line. -/
def skipComment (cs : List Char) : List Char :=
  match cs with
  | '#' :: rest => rest.dropWhile isTextChar
  | cs => cs

/-- What follows the end of a line: blanks and a comment may come first, and a line break or the end
of the text has to come. -/
def lineEnd? (cs : List Char) : Option (List Char) :=
  match skipComment (skipBlanks cs) with
  | [] => some []
  | cs => lineBreak? cs

/-- Drops blanks, line breaks and comments. -/
def skipLines : Nat → List Char → Option (List Char)
  | 0, _ => none
  | fuel + 1, cs =>
    match skipBlanks cs with
    | '#' :: rest => (lineBreak? (rest.dropWhile isTextChar)).bind fun rest => skipLines fuel rest
    | cs =>
      match lineBreak? cs with
      | some rest => skipLines fuel rest
      | none => some cs

/-! ## Strings -/

/-- The character of a code point written with a fixed number of hexadecimal digits. -/
def codePoint (width : Nat) (cs : List Char) : Option (Char × List Char) := do
  let n ← Text.hexNumber? (cs.take width)
  if cs.length < width ∨ ¬ n.isValidChar then none else pure (Char.ofNat n, cs.drop width)

/-- The character that an escape stands for, read behind its backslash. -/
def escapeSequence (cs : List Char) : Option (Char × List Char) :=
  match cs with
  | '\x22' :: rest => some ('\x22', rest)
  | '\x5c' :: rest => some ('\x5c', rest)
  | 'b' :: rest => some ('\x08', rest)
  | 'f' :: rest => some ('\x0c', rest)
  | 'n' :: rest => some ('\n', rest)
  | 'r' :: rest => some ('\r', rest)
  | 't' :: rest => some ('\t', rest)
  | 'u' :: rest => codePoint 4 rest
  | 'U' :: rest => codePoint 8 rest
  | _ => none

/-- A string in one line, read behind its opening double quote. -/
def basicString : Nat → List Char → Option (List Char × List Char)
  | 0, _ => none
  | fuel + 1, cs =>
    match cs with
    | [] => none
    | '\x22' :: rest => some ([], rest)
    | '\x5c' :: rest => do
      let (c, rest) ← escapeSequence rest
      let (cs, rest) ← basicString fuel rest
      pure (c :: cs, rest)
    | c :: rest =>
      if isTextChar c then do
        let (cs, rest) ← basicString fuel rest
        pure (c :: cs, rest)
      else none

/-- A string in one line without escapes, read behind its opening single quote. -/
def literalString (cs : List Char) : Option (List Char × List Char) :=
  match cs.dropWhile fun c => isTextChar c && c != '\x27' with
  | '\x27' :: rest => some (cs.takeWhile fun c => isTextChar c && c != '\x27', rest)
  | _ => none

/-- The end of a string over several lines: three quotes, and in front of them up to two that belong
to the string. Gives these and what follows. -/
def closing? (quote : Char) (cs : List Char) : Option (List Char × List Char) :=
  let run := (cs.takeWhile (· == quote)).length
  if run < 3 then none
  else
    let own := min (run - 3) 2
    some (List.replicate own quote, cs.drop (own + 3))

/-- Drops blanks and line breaks. A carriage return is dropped only as the first half of a line
break. -/
def skipGap : List Char → List Char
  | '\r' :: '\n' :: rest => skipGap rest
  | c :: rest => if isBlank c || c == '\n' then skipGap rest else c :: rest
  | [] => []

/-- Drops the blanks and line breaks behind a backslash at the end of a line. -/
def skipFold (cs : List Char) : Option (List Char) := (lineBreak? (skipBlanks cs)).map skipGap

/-- A string over several lines, read behind its opening quotes and the line break that may follow
these. Line breaks become line feeds. Escapes count if `escapes` is set, and then a backslash at the
end of a line joins it to the next text. -/
def longString (escapes : Bool) (quote : Char) : Nat → List Char → Option (List Char × List Char)
  | 0, _ => none
  | fuel + 1, cs =>
    match closing? quote cs with
    | some found => some found
    | none =>
      match lineBreak? cs with
      | some rest => do
        let (cs, rest) ← longString escapes quote fuel rest
        pure ('\n' :: cs, rest)
      | none =>
        match cs with
        | [] => none
        | c :: rest =>
          if escapes && c == '\x5c' then
            match skipFold rest with
            | some rest => longString escapes quote fuel rest
            | none => do
              let (c, rest) ← escapeSequence rest
              let (cs, rest) ← longString escapes quote fuel rest
              pure (c :: cs, rest)
          else if isTextChar c then do
            let (cs, rest) ← longString escapes quote fuel rest
            pure (c :: cs, rest)
          else none

/-- A string of any kind. -/
def anyString (cs : List Char) : Option (String × List Char) :=
  let fuel := cs.length + 1
  let long (escapes : Bool) (quote : Char) (rest : List Char) :=
    longString escapes quote fuel ((lineBreak? rest).getD rest)
  let found := match cs with
    | '\x22' :: '\x22' :: '\x22' :: rest => long true '\x22' rest
    | '\x22' :: rest => basicString fuel rest
    | '\x27' :: '\x27' :: '\x27' :: rest => long false '\x27' rest
    | '\x27' :: rest => literalString rest
    | _ => none
  found.map fun (cs, rest) => (String.ofList cs, rest)

/-! ## Keys -/

/-- The characters of a key without quotes. -/
def isBareKeyChar (c : Char) : Bool := c.isAlphanum || c == '-' || c == '_'

/-- A key: a string in one line, or a run of plain characters. -/
def simpleKey (cs : List Char) : Option (String × List Char) :=
  match cs with
  | '\x22' :: rest =>
    (basicString (rest.length + 1) rest).map fun (cs, rest) => (String.ofList cs, rest)
  | '\x27' :: rest => (literalString rest).map fun (cs, rest) => (String.ofList cs, rest)
  | cs =>
    match cs.takeWhile isBareKeyChar with
    | [] => none
    | key => some (String.ofList key, cs.dropWhile isBareKeyChar)

/-- Keys with points between them, with blanks around each. -/
def keyParts : Nat → List Char → Option (List String × List Char)
  | 0, _ => none
  | fuel + 1, cs => do
    let (key, rest) ← simpleKey (skipBlanks cs)
    match skipBlanks rest with
    | '.' :: rest =>
      let (keys, rest) ← keyParts fuel rest
      pure (key :: keys, rest)
    | rest => pure ([key], rest)

/-- How deep keys and values nest at most. -/
def maxDepth : Nat := 79

/-- A key, as the keys on the way and the last one. -/
def dottedKey (cs : List Char) : Option (List String × String × List Char) := do
  let (keys, rest) ← keyParts (cs.length + 1) cs
  if maxDepth < keys.length then none
  else
    let last ← keys.getLast?
    pure (keys.dropLast, last, rest)

end LiveQuery.Toml
