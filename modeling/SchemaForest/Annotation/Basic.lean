import SchemaForest.Annotation.Tag
import SchemaForest.Json.Basic
import SchemaForest.Number.Literal

/-!
# Annotations

The value of a tag depends on what the tag means: a bound is a number, a marker is true, examples
are lines, a default is a truth value or a number if it reads as one.  `Annotations.ofText` decodes
a whole comment; a tag that comes twice keeps its first place and its last value.
-/

namespace SchemaForest

/-- The decoded value of a tag. -/
inductive Annotation where
  | string (s : String)
  | number (x : Double)
  | boolean (b : Bool)
  | list (lines : List String)
deriving DecidableEq

namespace Annotation

/-- The value as one line of text. -/
def text : Annotation → String
  | .string s => s
  | .number x => String.ofList (Decimal.plain.write x)
  | .boolean b => if b then "true" else "false"
  | .list lines => ",".intercalate lines

/-- The value as JSON; a number that is not finite has no JSON text and shows as null there. -/
def toJson : Annotation → Json
  | .string s => .string s
  | .number x => if x.isFinite then .float x else .null
  | .boolean b => .bool b
  | .list lines => .array (lines.map .string)

/-- The number, if the value is one. -/
def asNumber? : Annotation → Option Double
  | .number x => some x
  | _ => none

/-- The tags whose values are numbers. -/
def numericTags : List String :=
  ["maximum", "exclusiveMaximum", "minimum", "exclusiveMinimum", "maxLength", "minLength",
    "multipleOf", "maxItems", "minItems", "maxProperties", "minProperties"]

/-- The lines of a text: the pieces between its line feeds. -/
def lines (s : List Char) : List (List Char) :=
  match s with
  | [] => [[]]
  | c :: r =>
    if c = '\n' then [] :: lines r
    else match lines r with
      | [] => [[c]]
      | l :: ls => (c :: l) :: ls

/-- The value of a default: a truth value or a number if it reads as one, else the text itself. -/
def ofDefault (s : String) : Annotation :=
  if s = "true" then .boolean true
  else if s = "false" then .boolean false
  else
    let x := NumberText.value s
    if x.isNan then .string s else .number x

/-- The value of a tag by what the tag means. -/
def ofTag (tag : String) (raw : RawTag) : Annotation :=
  if tag = "examples" then
    .list ((lines raw.asText.toList).map fun l => String.ofList (Text.trim l))
  else if tag ∈ numericTags then .number (NumberText.value raw.asText)
  else if tag = "readOnly" ∨ tag = "writeOnly" ∨ tag = "ignore" then .boolean true
  else if tag = "deprecated" ∨ tag = "uniqueItems" then .boolean (raw.asText != "")
  else if tag = "default" then ofDefault raw.asText
  else match raw with
    | .flag => .boolean true
    | .text t => .string t

end Annotation

/-- Decoded tags by name, in the order in which they first came. -/
abbrev Annotations := Entries Annotation

namespace Annotations

/-- The annotations of a comment. -/
def ofText (text : String) : Annotations :=
  Entries.ofPairs ((Tag.ofText text).map fun (tag, raw) => (tag, Annotation.ofTag tag raw))

/-- The annotations as one JSON object. -/
def toJson (a : Annotations) : Json := .object (a.map fun (tag, value) => (tag, value.toJson))

end Annotations

end SchemaForest
