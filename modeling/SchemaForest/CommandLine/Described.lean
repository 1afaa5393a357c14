import SchemaForest.CommandLine.Arguments
import SchemaForest.Json.Printer
import SchemaForest.Text.Quoted

/-!
# Arguments as a text

For a run that does nothing the arguments are written out, one field to a line, with everything that
is not empty on lines of its own.
-/

namespace SchemaForest.CommandLine

/-- A value in the form in which it is written out. -/
inductive Described where
  | plain (text : String)
  | list (items : List Described)
  /-- A name with one value in parentheses. -/
  | wrapped (name : String) (value : Described)
  | record (name : String) (fields : List (String × Described))

namespace Described

/-- The blanks in front of a line. -/
def indent (level : Nat) : String := String.ofList (List.replicate (4 * level) ' ')

mutual
/-- The text of a value that starts on a line of some level. -/
def text (level : Nat) : Described → String
  | plain t => t
  | list [] => "[]"
  | list items => "[\n" ++ itemLines (level + 1) items ++ indent level ++ "]"
  | wrapped name value =>
    name ++ "(\n" ++ indent (level + 1) ++ text (level + 1) value ++ ",\n" ++ indent level ++ ")"
  | record name fields =>
    name ++ " " ++ Json.openBrace.toString ++ "\n" ++ fieldLines (level + 1) fields ++
      indent level ++ Json.closeBrace.toString

def itemLines (level : Nat) : List Described → String
  | [] => ""
  | v :: rest => indent level ++ text level v ++ ",\n" ++ itemLines level rest

def fieldLines (level : Nat) : List (String × Described) → String
  | [] => ""
  | (name, v) :: rest =>
    indent level ++ name ++ ": " ++ text level v ++ ",\n" ++ fieldLines level rest
end

def ofBool (b : Bool) : Described := plain (if b then "true" else "false")

def ofString (s : String) : Described := plain (Text.quoted s)

def ofOption : Option String → Described
  | none => plain "None"
  | some s => wrapped "Some" (ofString s)

def ofInput (input : InputSettings) : Described :=
  record "InputSettings"
    [("jq_expr", ofOption input.filter), ("input", list (input.inputs.map ofString))]

def ofCommand : Command → Described
  | .schema input out ranges noOp =>
    wrapped "Schema" (record "SchemaOut"
      [("input_settings", ofInput input), ("out", ofOption out), ("with_ranges", ofBool ranges),
        ("no_op", ofBool noOp)])
  | .tree input noColour =>
    wrapped "Tree" (record "TreeOut"
      [("input_settings", ofInput input), ("no_color", ofBool noColour)])

def ofArguments (a : Arguments) : Described :=
  record "CommandLineInterface"
    [("cmd", ofCommand a.command), ("verbose", plain (toString a.verbosity))]

end Described

end SchemaForest.CommandLine
