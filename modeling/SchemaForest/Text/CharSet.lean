import SchemaForest.Text.Blank
import SchemaForest.Text.Word

/-!
# Sets of characters

Sets as texts describe them: ranges, the digits, word characters and blanks of all scripts, and what
can be made of these.  `CharSet.has` decides membership.
-/

namespace SchemaForest.Text

/-- The zeros of all scripts that count with ten digits; the other nine follow each. -/
def digitZeros : List Nat :=
  [0x30, 0x660, 0x6F0, 0x7C0, 0x966, 0x9E6, 0xA66, 0xAE6, 0xB66, 0xBE6, 0xC66, 0xCE6, 0xD66, 0xDE6,
    0xE50, 0xED0, 0xF20, 0x1040, 0x1090, 0x17E0, 0x1810, 0x1946, 0x19D0, 0x1A80, 0x1A90, 0x1B50,
    0x1BB0, 0x1C40, 0x1C50, 0xA620, 0xA8D0, 0xA900, 0xA9D0, 0xA9F0, 0xAA50, 0xABF0, 0xFF10,
    0x104A0, 0x10D30, 0x10D40, 0x11066, 0x110F0, 0x11136, 0x111D0, 0x112F0, 0x11450, 0x114D0,
    0x11650, 0x116C0, 0x116D0, 0x116DA, 0x11730, 0x118E0, 0x11950, 0x11BF0, 0x11C50, 0x11D50,
    0x11DA0, 0x11F50, 0x16130, 0x16A60, 0x16AC0, 0x16B50, 0x16D70, 0x1CCF0, 0x1D7CE, 0x1D7D8,
    0x1D7E2, 0x1D7EC, 0x1D7F6, 0x1E140, 0x1E2F0, 0x1E4F0, 0x1E5F1, 0x1E950, 0x1FBF0]

/-- A decimal digit of any script. -/
def isDecimalDigit (c : Char) : Bool :=
  digitZeros.any fun z => z ≤ c.toNat && c.toNat < z + 10

/-- The letter of the other case, for the letters of ASCII. -/
def otherCase (c : Char) : Char :=
  if c.isUpper then c.toLower else if c.isLower then c.toUpper else c

/-- A set of characters. -/
inductive CharSet where
  | none
  | range (first last : Char)
  | digit
  | wordChar
  | blank
  | union (a b : CharSet)
  | inter (a b : CharSet)
  | compl (a : CharSet)
  /-- With the letters of the other case. -/
  | anyCase (a : CharSet)
deriving DecidableEq

namespace CharSet

/-- Whether a set has a character. -/
def has : CharSet → Char → Bool
  | none, _ => false
  | range first last, c => first ≤ c && c ≤ last
  | digit, c => isDecimalDigit c
  | wordChar, c => isWord c
  | blank, c => isBlank c
  | union a b, c => a.has c || b.has c
  | inter a b, c => a.has c && b.has c
  | compl a, c => !a.has c
  | anyCase a, c => a.has c || a.has (otherCase c)

/-- The set of one character. -/
def single (c : Char) : CharSet := range c c

/-- The set of some characters. -/
def ofList (cs : List Char) : CharSet := cs.foldr (fun c s => union (single c) s) none

/-- All characters. -/
def all : CharSet := compl none

/-- The sets of ASCII characters that have names. -/
def named? (name : String) : Option CharSet :=
  let lower := range 'a' 'z'
  let upper := range 'A' 'Z'
  let digits := range '0' '9'
  let letters := union lower upper
  match name with
  | "lower" => some lower
  | "upper" => some upper
  | "digit" => some digits
  | "alpha" => some letters
  | "alnum" => some (union letters digits)
  | "word" => some (union (single '_') (union letters digits))
  | "xdigit" => some (union digits (union (range 'a' 'f') (range 'A' 'F')))
  | "blank" => some (ofList [' ', '\t'])
  | "space" => some (union (single ' ') (range '\t' '\r'))
  | "cntrl" => some (union (range '\x00' '\x1f') (single '\x7f'))
  | "graph" => some (range '!' '~')
  | "print" => some (range ' ' '~')
  | "punct" => some (inter (range '!' '~') (compl (union letters digits)))
  | "ascii" => some (range '\x00' '\x7f')
  | _ => Option.none

end CharSet

end SchemaForest.Text
