import SchemaForest.Schema.Table

/-!
# The tree view

One line for every node, indented by its depth, with a line for each annotation above it.  A
reference shows the name of its declaration and nothing below it.  Every declaration ends with an
empty line.
-/

namespace SchemaForest

/-- Letters in a colour or a weight, as a terminal understands them. -/
inductive Style where
  | bold
  | blue
  | green
deriving DecidableEq

namespace Style

/-- The code that ends every style. -/
def reset : List Char := ['\x1b', '[', '0', 'm']

/-- The code that starts a style. -/
def start : Style → List Char
  | bold => ['\x1b', '[', '1', 'm']
  | blue => ['\x1b', '[', '3', '4', 'm']
  | green => ['\x1b', '[', '3', '2', 'm']

/-- Starts a style again behind every code in a text that ends it. -/
def resume (start : List Char) : List Char → List Char
  | '\x1b' :: '[' :: '0' :: 'm' :: rest => reset ++ start ++ resume start rest
  | c :: rest => c :: resume start rest
  | [] => []

/-- A text in a style, if styles are wanted. -/
def paint (style : Style) (coloured : Bool) (text : String) : String :=
  if coloured then
    String.ofList (style.start ++ resume style.start text.toList ++ reset)
  else text

end Style

namespace Table

/-- The blanks in front of a node at a depth. -/
def indentation (depth : Nat) : String := String.ofList (List.replicate (4 * depth) ' ')

/-- The lines of a node alone: its annotations and itself. -/
def nodeLines (t : Table) (coloured : Bool) (depth : Nat) (n : Node) : List String :=
  let indent := indentation depth
  ((n.label.annotations.getD []).map fun (tag, value) =>
    indent ++ Style.blue.paint coloured tag ++ ": " ++ Style.green.paint coloured value.text) ++
  [indent ++ n.label.name ++ ": " ++ n.label.kind.name ++
    match t.referenced? n with
    | some d => " -> " ++ d.label.name
    | none => ""]

mutual
/-- The lines of a node and of all that hangs below it. -/
def treeLines (t : Table) (coloured : Bool) (depth : Nat) : Node → List String
  | .node a cs => t.nodeLines coloured depth (.node a cs) ++ t.forestLines coloured (depth + 1) cs

def forestLines (t : Table) (coloured : Bool) (depth : Nat) : List Node → List String
  | [] => []
  | n :: rest => t.treeLines coloured depth n ++ t.forestLines coloured depth rest
end

/-- The tree view of a table. -/
def toTreeText (t : Table) (coloured : Bool) : String :=
  String.join (t.declarations.map fun d =>
    String.join ((t.treeLines coloured 0 d ++ [""]).map (· ++ "\n")))

end Table

end SchemaForest
