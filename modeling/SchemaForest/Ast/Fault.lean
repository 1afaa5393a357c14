import SchemaForest.Json.Draft
import SchemaForest.Json.Printer
import SchemaForest.Text.Quoted

/-!
# Faults of documents

A document is refused for an error of syntax or for an error of shape.  A `ShapeError` says what was
found and what was expected; `DecodeError` adds where.
-/

namespace SchemaForest

/-- What stands where something else was expected. -/
inductive Found where
  | null
  | boolean (b : Bool)
  | integer (i : Int)
  | float (x : Double)
  | string (s : String)
  | sequence
  | map
deriving DecidableEq

namespace Found

/-- The finding as it stands in messages. -/
def text : Found → String
  | .null => "null"
  | .boolean b => "boolean `" ++ (if b then "true" else "false") ++ "`"
  | .integer i => "integer `" ++ String.ofList (Json.integerText i) ++ "`"
  | .float x => "floating point `" ++ String.ofList (Json.floatText x) ++ "`"
  | .string s => "string " ++ Text.quoted s
  | .sequence => "sequence"
  | .map => "map"

/-- What a value is found to be. -/
def ofJson : Json → Found
  | .null => .null
  | .bool b => .boolean b
  | .integer i => .integer i
  | .float x => .float x
  | .string s => .string s
  | .array _ => .sequence
  | .object _ => .map

end Found

/-- Why a value does not have the shape it should have. -/
inductive ShapeError where
  | wrongType (found : Found) (expected : String)
  | wrongValue (found : Found) (expected : String)
  | wrongLength (length : Nat) (expected : String)
  | unknownVariant (name : String) (known : List String)
  | missingField (name : String)
  | duplicateField (name : String)
deriving DecidableEq

namespace ShapeError

/-- A name between back quotes. -/
def marked (name : String) : String := "`" ++ name ++ "`"

/-- The names to choose from: two are joined by a word, more are listed. -/
def choice : List String → String
  | [a] => marked a
  | [a, b] => marked a ++ " or " ++ marked b
  | names => "one of " ++ ", ".intercalate (names.map marked)

/-- The message of an error of shape. -/
def message : ShapeError → String
  | .wrongType found expected => "invalid type: " ++ found.text ++ ", expected " ++ expected
  | .wrongValue found expected => "invalid value: " ++ found.text ++ ", expected " ++ expected
  | .wrongLength n expected => "invalid length " ++ toString n ++ ", expected " ++ expected
  | .unknownVariant name known =>
    "unknown variant " ++ marked name ++ ", expected " ++ choice known
  | .missingField name => "missing field " ++ marked name
  | .duplicateField name => "duplicate field " ++ marked name

/-- A count with its noun. -/
def counted (n : Nat) (noun : String) : String :=
  toString n ++ " " ++ noun ++ (if n = 1 then "" else "s")

end ShapeError

/-- Why a document is refused. -/
inductive Fault where
  | ofSyntax (e : SyntaxError)
  | ofShape (e : ShapeError)
deriving DecidableEq

/-- The message of a fault. -/
def Fault.message : Fault → String
  | .ofSyntax e => e.message
  | .ofShape e => e.message

/-- A fault and its place in the document. -/
abbrev DecodeError := Located Fault

namespace DecodeError

/-- The message of a fault without its place. -/
def message (e : DecodeError) : String := e.cause.message

/-- The message of a fault with its place. -/
def text (e : DecodeError) : String := "at JSON path " ++ e.path.text ++ " → " ++ e.cause.message

end DecodeError

end SchemaForest
