import SchemaForest.Filter.Run
import SchemaForest.Json.Reader

/-!
# Filters on documents

1. An `Interpreter` is whatever gives the outputs of a filter for a document.  `evaluate` is the one
   of this library: a filter is read, checked for unknown names and evaluated, in this order.
2. Outputs become documents through their texts (`reread`), so numbers come out as their texts read.
   `Interpreter.select` asks for one output.  Nothing here depends on how a filter is evaluated.
-/

namespace SchemaForest

/-- Why a filter gives no documents. -/
inductive FilterError where
  /-- The text is no filter. -/
  | malformed
  /-- The text names a filter or a variable that is not known. -/
  | undefined
  | failed (failure : Filter.Failure)
  /-- The filter calls deeper than evaluation goes. -/
  | unfinished
  /-- An output whose text is no JSON. -/
  | unreadable (fault : SyntaxError)
  /-- Not exactly one output. -/
  | count (filter : String) (outputs : Nat)

namespace FilterError

/-- The error in words, where it has any of its own. -/
def message? : FilterError → Option String
  | count filter outputs =>
    some ("jq expression `" ++ filter ++ "` produced " ++ toString outputs ++
      " documents, expected 1")
  | _ => none

end FilterError

namespace Filter

/-- The document that the text of a value gives. -/
def reread (v : Value) : Except FilterError Json :=
  match Json.ofText v.text with
  | .ok w => .ok w
  | .error e => .error (.unreadable e)

/-- A result as a document. -/
def document (r : Except Failure Value) : Except FilterError Json :=
  match r with
  | .ok v => reread v
  | .error e => .error (.failed e)

/-- The documents of a stream, if it has an end. -/
def documents (s : Stream Value) : Except FilterError (List Json) := do
  let ds ← s.results.mapM document
  if s.finished then .ok ds else .error .unfinished

/-- What gives the outputs of a filter for a document. -/
abbrev Interpreter := String → Json → Except FilterError (Stream Value)

namespace Interpreter

/-- The documents that a filter gives for a document. -/
def run (interpret : Interpreter) (text : String) (input : Json) : Except FilterError (List Json) :=
  match interpret text input with
  | .error e => .error e
  | .ok s => documents s

/-- The one document that a filter gives for a document. -/
def select (interpret : Interpreter) (text : String) (input : Json) : Except FilterError Json :=
  match interpret.run text input with
  | .error e => .error e
  | .ok [v] => .ok v
  | .ok outputs => .error (.count text outputs.length)

end Interpreter

/-- The outputs of a filter by evaluation. -/
def evaluate : Interpreter := fun text input =>
  match Term.ofText? text with
  | none => .error .malformed
  | some t =>
    if t.isClosed known then .ok (eval (fuelBound + text.length) [] t (.ofJson input))
    else .error .undefined

/-- The documents that evaluation gives. -/
def run (text : String) (input : Json) : Except FilterError (List Json) := evaluate.run text input

/-- The one document that evaluation gives. -/
def select (text : String) (input : Json) : Except FilterError Json := evaluate.select text input

end Filter

end SchemaForest
