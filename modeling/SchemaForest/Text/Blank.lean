/-!
# Blank characters and trimming

The blank characters are those with the Unicode property `White_Space`, twenty-five in all.
`trim` removes them on both sides of a text and nowhere else.
-/

namespace SchemaForest.Text

/-- A character with the property `White_Space`: the control blanks, the space, the two blanks of
    Latin-1, and the blanks of the punctuation blocks. -/
def isBlank (c : Char) : Bool :=
  let n := c.toNat
  (9 ≤ n && n ≤ 13) || n == 0x20 || n == 0x85 || n == 0xA0 || n == 0x1680 ||
    (0x2000 ≤ n && n ≤ 0x200A) || n == 0x2028 || n == 0x2029 || n == 0x202F || n == 0x205F ||
    n == 0x3000

/-- The text without its leading blanks. -/
def trimStart (s : List Char) : List Char := s.dropWhile isBlank

/-- The text without its trailing blanks. -/
def trimEnd (s : List Char) : List Char := (s.reverse.dropWhile isBlank).reverse

/-- The text without the blanks around it. -/
def trim (s : List Char) : List Char := trimEnd (trimStart s)

end SchemaForest.Text
