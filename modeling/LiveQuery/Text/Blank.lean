/-!
# Blank characters

The characters with the Unicode property `White_Space`. Around a statement and between its parts
they mean nothing, and a path holds none of them.
-/

namespace LiveQuery.Text

/-- Whether a character is white space in the sense of Unicode. -/
def isBlank (c : Char) : Bool :=
  let n := c.toNat
  (9 ≤ n && n ≤ 13) || n == 0x20 || n == 0x85 || n == 0xa0 || n == 0x1680
    || (0x2000 ≤ n && n ≤ 0x200a) || n == 0x2028 || n == 0x2029 || n == 0x202f
    || n == 0x205f || n == 0x3000

/-- A text without the blanks at its ends. -/
def trim (cs : List Char) : List Char :=
  ((cs.dropWhile isBlank).reverse.dropWhile isBlank).reverse

theorem length_trim_le (cs : List Char) : (trim cs).length ≤ cs.length := by
  simp only [trim, List.length_reverse]
  exact Nat.le_trans (List.dropWhile_sublist _).length_le
    (by rw [List.length_reverse]; exact (List.dropWhile_sublist _).length_le)

end LiveQuery.Text
