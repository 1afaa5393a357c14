import SchemaForest.Json.Printer

/-!
# Values under filters

Filters work on values of their own, which tell three kinds of numbers apart.  A **word** is an
integer of sixty-four bits, and calculation with words wraps around.  A **double** is the result of
any other calculation.  A **numeral** is a number as it was written: it keeps its text as long as
nobody calculates with it.

1. `Value` and its numbers; `Value.ofJson` takes a document over.
2. `Value.text` writes a value as JSON.
3. `Value.order` orders all values: null, truth values, numbers, strings, arrays, objects.
-/

namespace SchemaForest.Filter

/-- A value under filters. -/
inductive Value where
  | null
  | bool (b : Bool)
  | word (i : Int64)
  | double (x : Double)
  | numeral (text : String)
  | string (s : String)
  | array (items : List Value)
  | object (fields : List (String × Value))
deriving Inhabited

/-- A number under calculation. -/
inductive Number where
  | word (i : Int64)
  | double (x : Double)

/-- The floating point number nearest to a number. -/
def Number.toDouble : Number → Double
  | word i => .ofInt i.toInt
  | double x => x

namespace Value

/-! ## Numbers -/

/-- The word of an integer, if it has one. -/
def word? (i : Int) : Option Int64 :=
  let w := Int64.ofInt i
  if w.toInt = i then some w else none

/-- The value of a natural that counts something. -/
def ofNat (n : Nat) : Value := .word (.ofNat n)

/-- The value of an integer: a word, or else a numeral. -/
def ofInt (i : Int) : Value :=
  match word? i with
  | some w => .word w
  | none => .numeral (String.ofList (Json.integerText i))

/-- The value of the digits of a number in the text of a filter. -/
def ofDigits (digits : List Char) : Value :=
  if digits.all Char.isDigit then
    match word? (Decimal.ofDigits 10 digits) with
    | some w => .word w
    | none => .numeral (String.ofList digits)
  else .numeral (String.ofList digits)

/-- The number that a value is for calculation. -/
def number? : Value → Option Number
  | .word i => some (.word i)
  | .double x => some (.double x)
  | .numeral text =>
    some (.double (match Decimal.ofLiteral? text.toList with
      | some (negative, d) => d.toDouble negative
      | none => .nan))
  | _ => none

mutual
/-- The value of a document. -/
def ofJson : Json → Value
  | .null => .null
  | .bool b => .bool b
  | .integer i => ofInt i
  | .float x => .numeral (String.ofList (Json.floatText x))
  | .string s => .string s
  | .array items => .array (ofItems items)
  | .object fields => .object (ofFields fields)

def ofItems : List Json → List Value
  | [] => []
  | v :: rest => ofJson v :: ofItems rest

def ofFields : List (String × Json) → List (String × Value)
  | [] => []
  | (k, v) :: rest => (k, ofJson v) :: ofFields rest
end

/-! ## Truth -/

/-- Everything but null and false counts as true. -/
def isTrue : Value → Bool
  | .null => false
  | .bool b => b
  | _ => true

/-! ## Texts -/

/-- One character of a string.  Only line feeds, returns and tabs have a short escape of their own
    among the controls. -/
def escapeChar (c : Char) : List Char :=
  match c with
  | '"' => ['\\', '"']
  | '\\' => ['\\', '\\']
  | '\n' => ['\\', 'n']
  | '\r' => ['\\', 'r']
  | '\t' => ['\\', 't']
  | c => if c.toNat < 32 then ['\\', 'u', '0', '0'] ++ Json.hexPair c.toNat else [c]

/-- A string between quotes. -/
def quoted (s : String) : List Char := '"' :: s.toList.flatMap escapeChar ++ ['"']

mutual
/-- The text of a value as JSON, without blanks. -/
def chars : Value → List Char
  | .null => ['n', 'u', 'l', 'l']
  | .bool b => Json.boolText b
  | .word i => Json.integerText i.toInt
  | .double x => if x.isFinite then Decimal.unsignedExponent.write x else ['n', 'u', 'l', 'l']
  | .numeral text => text.toList
  | .string s => quoted s
  | .array items => '[' :: itemChars true items ++ [']']
  | .object fields => Json.openBrace :: fieldChars true fields ++ [Json.closeBrace]

/-- The items with commas before all but the first. -/
def itemChars (first : Bool) : List Value → List Char
  | [] => []
  | v :: rest => (if first then [] else [',']) ++ chars v ++ itemChars false rest

def fieldChars (first : Bool) : List (String × Value) → List Char
  | [] => []
  | (k, v) :: rest =>
    (if first then [] else [',']) ++ quoted k ++ ':' :: chars v ++ fieldChars false rest
end

/-- The text of a value as JSON. -/
def text (v : Value) : String := String.ofList (chars v)

/-- The text that a value stands for inside a text: a string itself, anything else as JSON. -/
def plainText : Value → String
  | .string s => s
  | v => v.text

/-! ## Order -/

/-- The place of a value's type in the order of values. -/
def typeRank : Value → Nat
  | .null => 0
  | .bool _ => 1
  | .word _ => 2
  | .double _ => 2
  | .numeral _ => 2
  | .string _ => 3
  | .array _ => 4
  | .object _ => 5

/-- The order of floating point numbers; what is not a number stands in front, also of itself. -/
def compareDoubles (x y : Double) : Ordering :=
  if x.isNan then .lt
  else if y.isNan then .gt
  else if x.lt y then .lt
  else if y.lt x then .gt
  else .eq

/-- Words compare exactly, all other numbers as floating point numbers. -/
def compareNumbers : Number → Number → Ordering
  | .word i, .word j => compare i.toInt j.toInt
  | x, y => compareDoubles x.toDouble y.toDouble

mutual
/-- A value with the fields of all its objects in the order of their names. -/
def sortFields : Value → Value
  | .array items => .array (sortFieldsOfItems items)
  | .object fields => .object ((sortFieldsOfFields fields).mergeSort fun a b => a.1 ≤ b.1)
  | v => v

def sortFieldsOfItems : List Value → List Value
  | [] => []
  | v :: rest => sortFields v :: sortFieldsOfItems rest

def sortFieldsOfFields : List (String × Value) → List (String × Value)
  | [] => []
  | (k, v) :: rest => (k, sortFields v) :: sortFieldsOfFields rest
end

mutual
/-- The order of values whose fields are sorted.  Objects compare by their names first. -/
def compareSorted : Value → Value → Ordering
  | .bool a, .bool b => compare a b
  | .string a, .string b => compare a b
  | .array a, .array b => compareItems a b
  | .object a, .object b =>
    (List.compareLex compare (a.map Prod.fst) (b.map Prod.fst)).then (compareFields a b)
  | a, b =>
    match number? a, number? b with
    | some x, some y => compareNumbers x y
    | _, _ => compare (typeRank a) (typeRank b)

def compareItems : List Value → List Value → Ordering
  | [], [] => .eq
  | [], _ :: _ => .lt
  | _ :: _, [] => .gt
  | a :: as, b :: bs => (compareSorted a b).then (compareItems as bs)

def compareFields : List (String × Value) → List (String × Value) → Ordering
  | (_, a) :: as, (_, b) :: bs => (compareSorted a b).then (compareFields as bs)
  | _, _ => .eq
end

/-- The order of values. -/
def order (a b : Value) : Ordering := compareSorted (sortFields a) (sortFields b)

/-- Whether two values count as equal. -/
def same (a b : Value) : Bool := order a b == .eq

/-- Whether a value stands in front of another. -/
def isBefore (a b : Value) : Bool := order a b == .lt

end Value

/-- The comparisons of two values. -/
inductive Relation where
  | eq | ne | lt | le | gt | ge
deriving DecidableEq

/-- Whether a comparison holds. -/
def Relation.holds (r : Relation) (a b : Value) : Bool :=
  match r, a.order b with
  | eq, o => o == .eq
  | ne, o => o != .eq
  | lt, o => o == .lt
  | le, o => o != .gt
  | gt, o => o == .gt
  | ge, o => o != .lt

end SchemaForest.Filter
