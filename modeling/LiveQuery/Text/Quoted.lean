import LiveQuery.Text.Hexadecimal
import LiveQuery.Text.Visible

/-!
# Quoted text

A text in messages is put between double quotes. The quote itself and the backslash get a backslash,
tab, carriage return, line feed and the null character have their letters, and any other character
that a reader could not see is written as its number in hexadecimal.
-/

namespace LiveQuery.Text

/-- How one character is written between the quotes. -/
def quotedChar (c : Char) : List Char :=
  match c with
  | '\x00' => ['\x5c', '0']
  | '\t' => ['\x5c', 't']
  | '\r' => ['\x5c', 'r']
  | '\n' => ['\x5c', 'n']
  | '\x22' => ['\x5c', '\x22']
  | '\x5c' => ['\x5c', '\x5c']
  | c => if isVisible c then [c] else ['\x5c', 'u', '\x7b'] ++ hexadecimal c.toNat ++ ['\x7d']

/-- A text between double quotes. -/
def quoted (s : String) : String :=
  String.ofList ('\x22' :: s.toList.flatMap quotedChar ++ ['\x22'])

end LiveQuery.Text
