import SchemaForest.Filter.Value

/-!
# Calculation with values

Operations that do not fit their operands raise an error, which is itself a value.
-/

namespace SchemaForest.Filter

/-- Why there is no value. -/
inductive Failure where
  /-- An error with its value. -/
  | raised (value : Value)
  /-- A way out to a label. -/
  | broken (label : Nat)

namespace Failure

/-- An error with a text. -/
def ofText (s : String) : Failure := .raised (.string s)

/-- The error of a value that cannot serve as something. -/
def misuse (v : Value) (what : String) : Failure :=
  .ofText ("cannot use " ++ v.text ++ " as " ++ what)

/-- The error of an index that does not fit. -/
def misfit (v index : Value) : Failure :=
  .ofText ("cannot index " ++ v.text ++ " with " ++ index.text)

end Failure

/-- The calculations on two values. -/
inductive Operation where
  | add | sub | mul | div | rem
deriving DecidableEq

namespace Operation

/-- The sign of a calculation. -/
def sign : Operation → String
  | add => "+"
  | sub => "-"
  | mul => "*"
  | div => "/"
  | rem => "%"

/-- A calculation with numbers.  Words stay words and wrap around, only their quotient is a floating
    point number.  The remainder takes the sign of the first operand; that of words needs a second
    one that is not zero. -/
def onNumbers? (op : Operation) : Number → Number → Option Value
  | .word i, .word j =>
    match op with
    | .add => some (.word (i + j))
    | .sub => some (.word (i - j))
    | .mul => some (.word (i * j))
    | .div => some (.double ((Double.ofInt i.toInt).div (Double.ofInt j.toInt)))
    | .rem => if j = 0 then none else some (.word (i % j))
  | x, y =>
    let x := x.toDouble
    let y := y.toDouble
    some (.double (match op with
      | .add => x.add y
      | .sub => x.sub y
      | .mul => x.mul y
      | .div => x.div y
      | .rem => x.rem y))

end Operation

mutual
/-- The fields of two objects; objects under one name are merged in turn. -/
def mergeFields (old : List (String × Value)) : List (String × Value) → List (String × Value)
  | [] => old
  | (k, v) :: rest => mergeFields (Entries.set k (mergeValue (Entries.get? old k) v) old) rest

/-- What stands under a name after a merge. -/
def mergeValue (old : Option Value) : Value → Value
  | .object fields =>
    match old with
    | some (.object g) => .object (mergeFields g fields)
    | _ => .object fields
  | v => v
end

/-- The pieces of a text between the places of a separator; without a separator its characters. -/
def splitText (text separator : String) : List String :=
  if text = "" then []
  else if separator = "" then text.toList.map (String.ofList [·])
  else text.splitOn separator

/-- A text so many times; not even once there is none. -/
def repeatText (s : String) (i : Int64) : Value :=
  if i.toInt ≤ 0 then .null
  else if s = "" then .string ""
  else .string (String.join (List.replicate i.toInt.toNat s))

/-- The error of operands that cannot be calculated with. -/
def Operation.unfit (op : Operation) (a b : Value) : Failure :=
  .ofText ("cannot calculate " ++ a.text ++ " " ++ op.sign ++ " " ++ b.text)

/-- The calculation of two values.  Null adds nothing to anything. -/
def calculate (op : Operation) (a b : Value) : Except Failure Value :=
  match op, a, b with
  | .add, .null, v => .ok v
  | .add, v, .null => .ok v
  | .add, .string s, .string t => .ok (.string (s ++ t))
  | .add, .array xs, .array ys => .ok (.array (xs ++ ys))
  | .add, .object f, .object g => .ok (.object (Entries.setAll f g))
  | .sub, .array xs, .array ys => .ok (.array (xs.filter fun x => !ys.any x.same))
  | .mul, .string s, .word i => .ok (repeatText s i)
  | .mul, .word i, .string s => .ok (repeatText s i)
  | .mul, .object f, .object g => .ok (.object (mergeFields f g))
  | .div, .string s, .string t => .ok (.array ((splitText s t).map .string))
  | op, a, b =>
    match a.number?, b.number? with
    | some x, some y =>
      match op.onNumbers? x y with
      | some v => .ok v
      | none => .error (op.unfit a b)
    | _, _ => .error (op.unfit a b)

/-- The value with the other sign. -/
def negate (v : Value) : Except Failure Value :=
  match v.number? with
  | some (.word i) => .ok (.word (-i))
  | some (.double x) => .ok (.double x.neg)
  | none => .error (.misuse v "number")

end SchemaForest.Filter
