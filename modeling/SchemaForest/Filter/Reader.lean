import SchemaForest.Filter.Value
import SchemaForest.Json.Lexeme

/-!
# Values from texts

Values are read as JSON, where numbers keep their text unless they are integers that fit a word.
Every call of a reader takes one step, and between two calls at least one character goes; twice the
length of a text is enough.
-/

namespace SchemaForest.Filter.Value

open SchemaForest.Json (skipGaps stringBody stepUnsigned)

/-- The value of a number as written. -/
def ofNumberText (s : List Char) : Value :=
  let integer? : Option Int :=
    match s with
    | '-' :: r => if r.all Char.isDigit then some (-(Decimal.ofDigits 10 r : Int)) else none
    | s => if s.all Char.isDigit then some (Decimal.ofDigits 10 s : Int) else none
  match integer?.bind word? with
  | some w => .word w
  | none => .numeral (String.ofList s)

/-- A number and the text behind it, where it stands behind `sign`. -/
def readNumber? (sign s : List Char) : Option (Value × List Char) :=
  match stepUnsigned s with
  | .ok rest => some (ofNumberText (sign ++ s.take (s.length - rest.val.length)), rest.val)
  | .error _ => none

/-- A word that begins with `c`, and the text behind it. -/
def readWord? (c : Char) (r : List Char) : Option (Value × List Char) :=
  let behind (v : Value) (w : List Char) : Option (Value × List Char) :=
    match Json.word w r with
    | .ok rest => some (v, rest.val)
    | .error _ => none
  match c with
  | 'n' => behind .null ['u', 'l', 'l']
  | 't' => behind (.bool true) ['r', 'u', 'e']
  | 'f' => behind (.bool false) ['a', 'l', 's', 'e']
  | _ => none

/-- A string behind its opening quote, and the text behind it. -/
def readString? (s : List Char) : Option (String × List Char) :=
  match stringBody s with
  | .ok (cs, rest) => some (String.ofList cs, rest.val)
  | .error _ => none

mutual
/-- A value and the text behind it. -/
def read? (steps : Nat) (s : List Char) : Option (Value × List Char) :=
  match steps with
  | 0 => none
  | n + 1 =>
    match skipGaps s with
    | [] => none
    | '[' :: r =>
      match skipGaps r with
      | ']' :: r => some (.array [], r)
      | r => (readItems? n r).map fun (items, r) => (.array items, r)
    | '"' :: r => (readString? r).map fun (t, r) => (.string t, r)
    | '-' :: r => readNumber? ['-'] r
    | c :: r =>
      if c = '\x7b' then
        match skipGaps r with
        | '\x7d' :: r => some (.object [], r)
        | r => (readFields? n r).map fun (fields, r) => (.object (Entries.ofPairs fields), r)
      else if c.isDigit then readNumber? [] (c :: r)
      else readWord? c r

/-- At least one item of an array, and the text behind the closing bracket. -/
def readItems? (steps : Nat) (s : List Char) : Option (List Value × List Char) :=
  match steps with
  | 0 => none
  | n + 1 => do
    let (v, r) ← read? n s
    match skipGaps r with
    | ']' :: r => some ([v], r)
    | ',' :: r => do
      let (vs, r) ← readItems? n r
      some (v :: vs, r)
    | _ => none

/-- At least one field of an object, and the text behind the closing brace. -/
def readFields? (steps : Nat) (s : List Char) : Option (List (String × Value) × List Char) :=
  match steps with
  | 0 => none
  | n + 1 =>
    match skipGaps s with
    | '"' :: r => do
      let (k, r) ← readString? r
      match skipGaps r with
      | ':' :: r => do
        let (v, r) ← read? n r
        match skipGaps r with
        | '\x7d' :: r => some ([(k, v)], r)
        | ',' :: r => do
          let (fs, r) ← readFields? n r
          some ((k, v) :: fs, r)
        | _ => none
      | _ => none
    | _ => none
end

/-- The value of a text that holds one and nothing else but blanks. -/
def ofText? (s : String) : Option Value :=
  match read? (2 * s.length + 2) s.toList with
  | some (v, rest) => if rest.all Json.isGap then some v else none
  | none => none

end SchemaForest.Filter.Value
