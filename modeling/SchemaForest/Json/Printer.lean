import SchemaForest.Json.Basic
import SchemaForest.Number.Decimal

/-!
# JSON texts

`compact` writes a value without blanks, `pretty` with one item to a line and two spaces for each
level.  Both write numbers and strings alike: a floating point number by its shortest digits, and
`null` for one that JSON has no text for.
-/

namespace SchemaForest.Json

/-- The two hexadecimal digits of a control character. -/
def hexPair (n : Nat) : List Char :=
  let digit (d : Nat) : Char := Char.ofNat (if d < 10 then 48 + d else 87 + d)
  [digit (n / 16), digit (n % 16)]

/-- One character of a string.  Quotes, backslashes and controls are escaped, all else stands for
    itself. -/
def escapeChar (c : Char) : List Char :=
  match c with
  | '"' => ['\\', '"']
  | '\\' => ['\\', '\\']
  | '\n' => ['\\', 'n']
  | '\r' => ['\\', 'r']
  | '\t' => ['\\', 't']
  | '\x08' => ['\\', 'b']
  | '\x0c' => ['\\', 'f']
  | c => if c.toNat < 32 then ['\\', 'u', '0', '0'] ++ hexPair c.toNat else [c]

/-- A string between quotes. -/
def stringText (s : String) : List Char := '"' :: s.toList.flatMap escapeChar ++ ['"']

/-- An integer in decimal digits. -/
def integerText (i : Int) : List Char :=
  if i < 0 then '-' :: Nat.toDigits 10 i.natAbs else Nat.toDigits 10 i.natAbs

/-- A floating point number; `null` unless it is finite. -/
def floatText (x : Double) : List Char :=
  if x.isFinite then Decimal.withExponent.write x else ['n', 'u', 'l', 'l']

/-- A truth value. -/
def boolText (b : Bool) : List Char := if b then ['t', 'r', 'u', 'e'] else ['f', 'a', 'l', 's', 'e']

def openBrace : Char := Char.ofNat 123
def closeBrace : Char := Char.ofNat 125

mutual
/-- The text without blanks. -/
def compactChars : Json → List Char
  | .null => ['n', 'u', 'l', 'l']
  | .bool b => boolText b
  | .integer i => integerText i
  | .float x => floatText x
  | .string s => stringText s
  | .array items => '[' :: compactItems true items ++ [']']
  | .object fields => openBrace :: compactFields true fields ++ [closeBrace]

/-- The items with commas before all but the first. -/
def compactItems (first : Bool) : List Json → List Char
  | [] => []
  | v :: rest => (if first then [] else [',']) ++ compactChars v ++ compactItems false rest

def compactFields (first : Bool) : List (String × Json) → List Char
  | [] => []
  | (k, v) :: rest =>
    (if first then [] else [',']) ++ stringText k ++ ':' :: compactChars v ++
      compactFields false rest
end

/-- A new line at a level. -/
def lineBreak (level : Nat) : List Char := '\n' :: List.replicate (2 * level) ' '

mutual
/-- The text with one item to a line, at a level. -/
def prettyChars (level : Nat) : Json → List Char
  | .null => ['n', 'u', 'l', 'l']
  | .bool b => boolText b
  | .integer i => integerText i
  | .float x => floatText x
  | .string s => stringText s
  | .array [] => ['[', ']']
  | .array (v :: rest) =>
    '[' :: prettyItems level true (v :: rest) ++ lineBreak level ++ [']']
  | .object [] => [openBrace, closeBrace]
  | .object (f :: rest) =>
    openBrace :: prettyFields level true (f :: rest) ++ lineBreak level ++ [closeBrace]

def prettyItems (level : Nat) (first : Bool) : List Json → List Char
  | [] => []
  | v :: rest =>
    (if first then [] else [',']) ++ lineBreak (level + 1) ++ prettyChars (level + 1) v ++
      prettyItems level false rest

def prettyFields (level : Nat) (first : Bool) : List (String × Json) → List Char
  | [] => []
  | (k, v) :: rest =>
    (if first then [] else [',']) ++ lineBreak (level + 1) ++ stringText k ++ ':' :: ' ' ::
      prettyChars (level + 1) v ++ prettyFields level false rest
end

/-- The text of a value without blanks. -/
def compact (v : Json) : String := String.ofList (compactChars v)

/-- The text of a value over several lines. -/
def pretty (v : Json) : String := String.ofList (prettyChars 0 v)

end SchemaForest.Json
