import SchemaForest.Number.Decimal
import SchemaForest.Text.Blank

/-!
# The number that a text stands for

The reading of numbers in annotation values: blanks around the text do not count, the empty text is
zero, `Infinity` may have a sign, an integer may be written in base sixteen, eight or two behind its
mark, and all else is a decimal literal.  A text of no such form stands for no number.
-/

namespace SchemaForest.NumberText

/-- The base that a mark in front of the digits announces, and the digits. -/
def radix? : List Char → Option (Nat × List Char)
  | '0' :: c :: r =>
    if c = 'x' ∨ c = 'X' then some (16, r)
    else if c = 'o' ∨ c = 'O' then some (8, r)
    else if c = 'b' ∨ c = 'B' then some (2, r)
    else none
  | _ => none

/-- The integers that a marked literal may denote lie below this bound. -/
def integerBound : Nat := 1 <<< 128

/-- A natural in a base: an optional plus sign, then digits and nothing else, below the bound. -/
def natural? (base : Nat) (s : List Char) : Option Nat :=
  let ds := match s with
    | '+' :: r => r
    | s => s
  if ds ≠ [] ∧ ds.all (Decimal.isDigitOf base) then
    let n := Decimal.ofDigits base ds
    if n < integerBound then some n else none
  else none

/-- The number that a word stands for, in letters of either case. -/
def named? (negative : Bool) (s : List Char) : Option Double :=
  let word := s.map Char.toLower
  if word = "inf".toList ∨ word = "infinity".toList then some (.signed negative (Fin.last _))
  else if word = "nan".toList then some .nan
  else none

/-- A number in any of its usual spellings: a decimal literal, or a word with an optional sign. -/
def spelled? (s : List Char) : Option Double :=
  match Decimal.ofLiteral? s with
  | some (negative, d) => some (d.toDouble negative)
  | none =>
    let (negative, word) := Decimal.takeSign s
    named? negative word

/-- The characters of decimal literals. -/
def isDecimalChar (c : Char) : Bool :=
  c.isDigit || c == '.' || c == 'e' || c == 'E' || c == '+' || c == '-'

/-- The number of a text that has no blanks around it.  Of all words it takes `Infinity`, as it is
    written here; the others have characters that no decimal literal has. -/
def ofTrimmed (t : List Char) : Double :=
  if t = [] then .zero
  else if t = "Infinity".toList ∨ t = "+Infinity".toList then .infinity
  else if t = "-Infinity".toList then .negInfinity
  else match radix? t with
    | some (base, digits) => ((natural? base digits).map Double.ofNat).getD .nan
    | none => if t.all isDecimalChar then (spelled? t).getD .nan else .nan

/-- The number of a text. -/
def value (s : String) : Double := ofTrimmed (Text.trim s.toList)

end SchemaForest.NumberText
