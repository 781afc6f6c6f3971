/-!
# Hexadecimal numerals

The digits of base sixteen, which serve the smaller bases too.
-/

namespace LiveQuery.Text

def hexValue (c : Char) : Option Nat :=
  if '0' ≤ c ∧ c ≤ '9' then some (c.toNat - 48)
  else if 'a' ≤ c ∧ c ≤ 'f' then some (c.toNat - 87)
  else if 'A' ≤ c ∧ c ≤ 'F' then some (c.toNat - 55)
  else none

/-- The number that a text of digits denotes in a base up to sixteen. There has to be at least one
digit. -/
def numberIn? (base : Nat) (cs : List Char) : Option Nat :=
  if cs = [] then none
  else cs.foldlM (fun n c => ((hexValue c).filter (· < base)).map fun d => base * n + d) 0

def hexNumber? (cs : List Char) : Option Nat := numberIn? 16 cs

/-- A number in lower case and without leading zeros. -/
def hexadecimal (n : Nat) : List Char := Nat.toDigits 16 n

end LiveQuery.Text
