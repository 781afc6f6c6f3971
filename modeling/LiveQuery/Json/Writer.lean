import LiveQuery.Json.Basic
import LiveQuery.Decimal.Layout

/-!
# Writing JSON

The compact text of a value: no blanks, and in strings only the quote, the backslash and the control
characters are escaped. Each writer takes the text that follows and puts its own in front of it, so
writing takes time in proportion to the text and a reader's law can speak of what follows.
-/

namespace LiveQuery.Json

/-- A digit in hexadecimal, in lower case. -/
def hexDigit (n : Nat) : Char := Nat.digitChar n

/-- How one character is written inside a string. -/
def escaped (c : Char) : List Char :=
  match c with
  | '\x22' => ['\x5c', '\x22']
  | '\x5c' => ['\x5c', '\x5c']
  | '\x08' => ['\x5c', 'b']
  | '\t' => ['\x5c', 't']
  | '\n' => ['\x5c', 'n']
  | '\x0c' => ['\x5c', 'f']
  | '\r' => ['\x5c', 'r']
  | c =>
    if c.toNat < 0x20 then
      ['\x5c', 'u', '0', '0', hexDigit (c.toNat / 16), hexDigit (c.toNat % 16)]
    else [c]

/-- The inside of a string and its closing quote, in front of `rest`. -/
def writeChars : List Char → List Char → List Char
  | [], rest => '\x22' :: rest
  | c :: cs, rest => escaped c ++ writeChars cs rest

def writeString (s : String) (rest : List Char) : List Char := '\x22' :: writeChars s.toList rest

/-- The text of a value in front of `rest`. -/
def write : Json → List Char → List Char
  | .null, rest => "null".toList ++ rest
  | .bool true, rest => "true".toList ++ rest
  | .bool false, rest => "false".toList ++ rest
  | .int n, rest => (toString n).toList ++ rest
  | .float x, rest => (Decimal.Layout.jsonNumber.text x).toList ++ rest
  | .str s, rest => writeString s rest
  | .array items, rest => '[' :: writeItems items rest
  | .object fields, rest => '\x7b' :: writeFields fields rest
where
  writeItems : List Json → List Char → List Char
    | [], rest => ']' :: rest
    | [j], rest => write j (']' :: rest)
    | j :: k :: more, rest => write j (',' :: writeItems (k :: more) rest)
  writeFields : List (String × Json) → List Char → List Char
    | [], rest => '\x7d' :: rest
    | [(name, j)], rest => writeString name (':' :: write j ('\x7d' :: rest))
    | (name, j) :: next :: more, rest =>
      writeString name (':' :: write j (',' :: writeFields (next :: more) rest))

def render (j : Json) : String := String.ofList (j.write [])

end LiveQuery.Json
