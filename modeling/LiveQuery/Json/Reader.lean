import LiveQuery.Json.Basic
import LiveQuery.Decimal.Nearest
import LiveQuery.Decimal.Numeral
import LiveQuery.Text.Hexadecimal

/-!
# Reading JSON

A strict reader. Every function takes the characters that are left and gives back what it read and
what is left then, or `none` if the text is not JSON. Arrays and objects nest at most
`Json.maxDepth` deep. The readers that call themselves take a bound on their steps first;
`Json.read` sets it from the length of the text, where it cannot run out.
-/

namespace LiveQuery.Json

open Decimal (someDigits digitsValue exponentPart)

/-- The blanks of JSON. -/
def isBlank (c : Char) : Bool := c == ' ' || c == '\t' || c == '\n' || c == '\r'

def skipBlanks (cs : List Char) : List Char := cs.dropWhile isBlank

/-- The digits before the point: a zero alone, or a run that does not start with one. -/
def wholeDigits (cs : List Char) : Option (List Char × List Char) :=
  match cs with
  | '0' :: rest => some (['0'], rest)
  | cs => someDigits cs

/-- The digits behind the point, if there is one. -/
def fractionDigits (cs : List Char) : Option (Option (List Char) × List Char) :=
  match cs with
  | '.' :: rest => (someDigits rest).map fun (ds, rest) => (some ds, rest)
  | cs => some (none, cs)

/-- The double nearest to a numeral; there is none if it is too large. That a double comes back from
its text rests on this, and it is an assumption about the JSON library: a reader that rounds on the
way may be one unit in the last place off for some numerals of seventeen digits. -/
def finiteNumber (negative : Bool) (mantissa : Nat) (exponent : Int) : Option Json :=
  let pattern := Decimal.nearestDecimalBits mantissa exponent
  if pattern = Decimal.infinityBits then none
  else some (.float (Decimal.ofSignedBits negative pattern))

/-- A numeral without fraction and exponent is an integer if it fits into 64 bits. The integer zero
has no sign, so minus zero is not one. -/
def wholeNumber (negative : Bool) (n : Nat) : Option Json :=
  if negative then
    if 0 < n ∧ n ≤ Decimal.wordLimit then some (.int (-n)) else finiteNumber true n 0
  else if n < 2 * Decimal.wordLimit then some (.int n) else finiteNumber false n 0

/-- A number behind its sign. -/
def unsignedNumber (negative : Bool) (cs : List Char) : Option (Json × List Char) := do
  let (whole, rest) ← wholeDigits cs
  let (fraction, rest) ← fractionDigits rest
  let (exponent, rest) ← exponentPart rest
  let number ← match fraction, exponent with
    | none, none => wholeNumber negative (digitsValue whole)
    | _, _ =>
      let places := fraction.getD []
      finiteNumber negative (digitsValue (whole ++ places)) (exponent.getD 0 - places.length)
  pure (number, rest)

def number (cs : List Char) : Option (Json × List Char) :=
  match cs with
  | '-' :: rest => unsignedNumber true rest
  | cs => unsignedNumber false cs

/-- Four hexadecimal digits. -/
def hexQuad (cs : List Char) : Option (Nat × List Char) :=
  (Text.hexNumber? (cs.take 4)).bind fun n => if cs.length < 4 then none else some (n, cs.drop 4)

/-- A code unit, or two that form a surrogate pair. A surrogate without its partner is no character.
-/
def unicodeEscape (cs : List Char) : Option (Char × List Char) := do
  let (unit, rest) ← hexQuad cs
  if unit < 0xd800 ∨ 0xdfff < unit then pure (Char.ofNat unit, rest)
  else if unit < 0xdc00 then
    match rest with
    | '\x5c' :: 'u' :: rest =>
      let (low, rest) ← hexQuad rest
      if 0xdc00 ≤ low ∧ low ≤ 0xdfff then
        pure (Char.ofNat (0x10000 + (unit - 0xd800) * 0x400 + (low - 0xdc00)), rest)
      else none
    | _ => none
  else none

/-- The character that an escape stands for, read behind its backslash. -/
def escapeSequence (cs : List Char) : Option (Char × List Char) :=
  match cs with
  | '\x22' :: rest => some ('\x22', rest)
  | '\x5c' :: rest => some ('\x5c', rest)
  | '/' :: rest => some ('/', rest)
  | 'b' :: rest => some ('\x08', rest)
  | 'f' :: rest => some ('\x0c', rest)
  | 'n' :: rest => some ('\n', rest)
  | 'r' :: rest => some ('\r', rest)
  | 't' :: rest => some ('\t', rest)
  | 'u' :: rest => unicodeEscape rest
  | _ => none

/-- The characters of a string up to its closing quote, read behind the opening one. -/
def stringChars : Nat → List Char → Option (List Char × List Char)
  | 0, _ => none
  | fuel + 1, cs =>
    match cs with
    | [] => none
    | '\x22' :: rest => some ([], rest)
    | '\x5c' :: rest => do
      let (c, rest) ← escapeSequence rest
      let (cs, rest) ← stringChars fuel rest
      pure (c :: cs, rest)
    | c :: rest =>
      if c.toNat < 0x20 then none
      else do
        let (cs, rest) ← stringChars fuel rest
        pure (c :: cs, rest)

def string (fuel : Nat) (cs : List Char) : Option (String × List Char) :=
  (stringChars fuel cs).map fun (cs, rest) => (String.ofList cs, rest)

def word (w : List Char) (j : Json) (cs : List Char) : Option (Json × List Char) :=
  if w.isPrefixOf cs then some (j, cs.drop w.length) else none

mutual

/-- A value, with at most `depth` arrays and objects nested in it. -/
def value : Nat → Nat → List Char → Option (Json × List Char)
  | 0, _, _ => none
  | fuel + 1, depth, cs =>
    match skipBlanks cs with
    | '\x22' :: rest => (string fuel rest).map fun (s, rest) => (.str s, rest)
    | '[' :: rest =>
      match depth with
      | 0 => none
      | depth + 1 =>
        match skipBlanks rest with
        | ']' :: rest => some (.array [], rest)
        | rest => (items fuel depth rest).map fun (js, rest) => (.array js, rest)
    | '\x7b' :: rest =>
      match depth with
      | 0 => none
      | depth + 1 =>
        match skipBlanks rest with
        | '\x7d' :: rest => some (.object [], rest)
        | rest => (fields fuel depth rest).map fun (fs, rest) => (.ofFields fs, rest)
    | 'n' :: rest => word "ull".toList .null rest
    | 't' :: rest => word "rue".toList (.bool true) rest
    | 'f' :: rest => word "alse".toList (.bool false) rest
    | cs => number cs

/-- The items of an array that has some, and its closing bracket. -/
def items : Nat → Nat → List Char → Option (List Json × List Char)
  | 0, _, _ => none
  | fuel + 1, depth, cs => do
    let (j, rest) ← value fuel depth cs
    match skipBlanks rest with
    | ',' :: rest =>
      let (js, rest) ← items fuel depth rest
      pure (j :: js, rest)
    | ']' :: rest => pure ([j], rest)
    | _ => none

/-- The fields of an object that has some, and its closing brace. -/
def fields : Nat → Nat → List Char → Option (List (String × Json) × List Char)
  | 0, _, _ => none
  | fuel + 1, depth, cs =>
    match skipBlanks cs with
    | '\x22' :: rest => do
      let (name, rest) ← string fuel rest
      match skipBlanks rest with
      | ':' :: rest =>
        let (j, rest) ← value fuel depth rest
        match skipBlanks rest with
        | ',' :: rest =>
          let (fs, rest) ← fields fuel depth rest
          pure ((name, j) :: fs, rest)
        | '\x7d' :: rest => pure ([(name, j)], rest)
        | _ => none
      | _ => none
    | _ => none

end

/-- The value that a text denotes, if it is JSON and nothing but blanks surrounds it. -/
def read (cs : List Char) : Option Json :=
  match value (2 * cs.length + 2) maxDepth cs with
  | some (j, rest) => if skipBlanks rest = [] then some j else none
  | none => none

def parse (s : String) : Option Json := read s.toList

/-- The value that bytes denote: they have to be UTF-8. -/
def parseBytes (bytes : ByteArray) : Option Json := (String.fromUTF8? bytes).bind parse

end LiveQuery.Json
