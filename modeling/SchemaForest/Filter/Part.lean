import SchemaForest.Filter.Stream

/-!
# Parts of values

1. A `Part` names what hangs below a value: the item or field under an index, a stretch of items, or
   all items and fields.  A `Step` of a path is a part that may be guarded: a guarded step has no
   result where it does not fit.
2. `Value.follow` gives what stands at the end of some steps.
3. `Value.change` gives the value with something else at the end of some steps.  There a guarded step
   that does not fit leaves the value as it is.
-/

namespace SchemaForest.Filter

/-- What hangs below a value, where `α` stands for indices and bounds.  A bound that is missing
    leaves its side open. -/
inductive Part (α : Type) where
  | index (key : α)
  | stretch (start stop : Option α)
  | all

/-- A step of a path; a guarded step does not fail. -/
structure Step (α : Type) where
  part : Part α
  guarded : Bool

namespace Value

/-! ## Places -/

/-- The place that an index means in a list: negative ones count from the end. -/
def place? (length : Nat) (i : Int64) : Option Nat :=
  let j := if i < 0 then i.toInt + length else i.toInt
  if 0 ≤ j && j < length then some j.toNat else none

/-- The place that a bound means, moved inside the list. -/
def boundIn (length free : Nat) : Option Value → Except Failure Nat
  | none => .ok free
  | some (.word i) => .ok (min (if i < 0 then i.toInt + length else i.toInt).toNat length)
  | some v => .error (.misuse v "integer")

/-- The first place of a stretch and the number of places. -/
def stretchIn (length : Nat) (start stop : Option Value) : Except Failure (Nat × Nat) := do
  let i ← boundIn length 0 start
  let j ← boundIn length length stop
  .ok (i, j - i)

/-! ## Getting -/

/-- The items of an array and the values of an object. -/
def parts : Value → Except Failure (List Value)
  | .array items => .ok items
  | .object fields => .ok (fields.map Prod.snd)
  | v => .error (.misuse v "iterable (array or object)")

/-- The part of a value under an index.  What is not there is null, but null has no parts. -/
def at? (v index : Value) : Except Failure Value :=
  match v, index with
  | .array items, .word i => .ok (((place? items.length i).bind (items[·]?)).getD .null)
  | .object fields, .string k => .ok ((Entries.get? fields k).getD .null)
  | .array items, index => .error (.misfit (.array items) index)
  | .object fields, index => .error (.misfit (.object fields) index)
  | v, _ => .error (.misuse v "iterable (array or object)")

/-- A stretch of an array or of the characters of a string. -/
def stretch (v : Value) (start stop : Option Value) : Except Failure Value :=
  match v with
  | .array items => do
    let (i, n) ← stretchIn items.length start stop
    .ok (.array ((items.drop i).take n))
  | .string s => do
    let (i, n) ← stretchIn s.length start stop
    .ok (.string (String.ofList ((s.toList.drop i).take n)))
  | v => .error (.misuse v "rangeable (array or string)")

/-- What a part of a value is. -/
def get (v : Value) : Part Value → Stream Value
  | .index key => .ofResult (v.at? key)
  | .stretch start stop => .ofResult (v.stretch start stop)
  | .all =>
    match v.parts with
    | .ok vs => .ofList vs
    | .error e => .fail e

/-- What stands at the end of some steps. -/
def follow : List (Step Value) → Value → Stream Value
  | [], v => .one v
  | s :: rest, v =>
    let found := v.get s.part
    (if s.guarded then ⟨found.results.filter fun r => r.isOk, found.finished⟩ else found).andThen
      (follow rest)

/-! ## Changing -/

/-- The answer where a step does not fit a value. -/
def unfit (guarded : Bool) (v : Value) (e : Failure) : Stream Value :=
  if guarded then .one v else .fail e

/-- Goes on with the first result of a stream, or without one. -/
def withFirst (s : Stream Value) (next : Option Value → Stream Value) : Stream Value :=
  match s.results with
  | .ok v :: _ => next (some v)
  | .error e :: _ => .fail e
  | [] => if s.finished then next none else .cut

/-- The fields without one, whose place the last field takes. -/
def eraseField (key : String) (fields : List (String × Value)) : List (String × Value) :=
  let front := fields.takeWhile fun f => f.1 != key
  match fields.dropWhile fun f => f.1 != key with
  | _ :: rest => front ++ rest.getLast?.toList ++ rest.dropLast
  | [] => front

/-- The value with another value under an index, or without any where the function gives none. -/
def changeAt (guarded : Bool) (f : Value → Stream Value) (v index : Value) : Stream Value :=
  match v, index with
  | .array items, .word i =>
    match place? items.length i with
    | some n =>
      withFirst (f ((items[n]?).getD .null)) fun w =>
        .one (.array (match w with
          | some w => items.set n w
          | none => items.eraseIdx n))
    | none => unfit guarded v (.ofText ("index " ++ index.text ++ " out of bounds"))
  | .array _, _ => unfit guarded v (.misuse index "integer")
  | .object fields, .string k =>
    withFirst (f ((Entries.get? fields k).getD .null)) fun w =>
      .one (.object (match w with
        | some w => Entries.set k w fields
        | none => eraseField k fields))
  | .object _, _ => unfit guarded v (.misfit v index)
  | v, _ => unfit guarded v (.misuse v "iterable (array or object)")

/-- The array with the items of another array in place of a stretch. -/
def changeStretch (guarded : Bool) (f : Value → Stream Value) (v : Value)
    (start stop : Option Value) : Stream Value :=
  match v with
  | .array items =>
    match stretchIn items.length start stop with
    | .ok (i, n) =>
      withFirst (f (.array ((items.drop i).take n))) fun w =>
        match w with
        | some (.array new) => .one (.array (items.take i ++ new ++ items.drop (i + n)))
        | some w => .fail (.misuse w "array")
        | none => .one (.array (items.take i ++ items.drop (i + n)))
    | .error e => unfit guarded v e
  | v => unfit guarded v (.misuse v "array")

/-- The fields with the first result of a function in place of each value; a field without a result
    goes. -/
def changeFields (f : Value → Stream Value) :
    List (String × Value) → List (String × Value) → Stream Value
  | [], behind => .one (.object behind.reverse)
  | (k, v) :: rest, behind =>
    withFirst (f v) fun w =>
      changeFields f rest (w.toList.map (k, ·) ++ behind)

/-- The value with all results of a function in place of each item of an array, or the first one in
    place of each value of an object. -/
def changeAll (guarded : Bool) (f : Value → Stream Value) (v : Value) : Stream Value :=
  match v with
  | .array items => ((Stream.ofList items).andThen f).collect .array
  | .object fields => changeFields f fields []
  | v => unfit guarded v (.misuse v "iterable (array or object)")

/-- The value with what a function gives in place of a part. -/
def changePart (s : Step Value) (f : Value → Stream Value) (v : Value) : Stream Value :=
  match s.part with
  | .index key => changeAt s.guarded f v key
  | .stretch start stop => changeStretch s.guarded f v start stop
  | .all => changeAll s.guarded f v

/-- The value with what a function gives in place of what stands at the end of some steps. -/
def change (f : Value → Stream Value) : List (Step Value) → Value → Stream Value
  | [], v => f v
  | s :: rest, v => changePart s (change f rest) v

end Value

end SchemaForest.Filter
