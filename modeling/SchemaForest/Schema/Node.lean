import SchemaForest.Annotation.Basic
import SchemaForest.Ast.Basic
import SchemaForest.Forest

/-!
# Schema nodes

A schema is a forest of labelled nodes with one tree for each declaration.  A reference holds the
handle of its declaration instead of a copy, so a declaration may refer to itself; in the forest a
reference is a leaf.
-/

namespace SchemaForest

/-- The place of a declaration in its table. -/
structure Handle where
  index : Nat
deriving DecidableEq

/-- What a node stands for. -/
inductive Kind where
  | string
  | number
  | boolean
  | null
  | array
  | object
  | union
  | intersection
  | stringLiteral (value : String)
  | numberLiteral (value : Double)
  | booleanLiteral (value : Bool)
  /-- A reference to a declaration of the table. -/
  | reference (target : Handle)
  /-- A reference to a name that was not declared yet. -/
  | unresolved (name : String)
  | declaration
deriving DecidableEq, Inhabited

namespace Kind

/-- The name of a kind in both views. -/
def name : Kind → String
  | string => "string"
  | number => "number"
  | boolean => "boolean"
  | null => "null"
  | array => "array"
  | object => "object"
  | union => "union"
  | intersection => "intersection"
  | stringLiteral _ => "stringLiteral"
  | numberLiteral _ => "numberLiteral"
  | booleanLiteral _ => "booleanLiteral"
  | reference _ => "reference"
  | unresolved _ => "unresolvedReference"
  | declaration => "declaration"

/-- The kinds that hold nothing but their name. -/
def plain : List Kind :=
  [string, number, boolean, null, array, object, union, intersection, declaration]

/-- The value of a literal; a number that is not finite shows as null. -/
def literal? : Kind → Option Json
  | stringLiteral s => some (.string s)
  | numberLiteral x => some (if x.isFinite then .float x else .null)
  | booleanLiteral b => some (.bool b)
  | _ => none

/-- The handle that a resolved reference holds. -/
def target? : Kind → Option Handle
  | reference h => some h
  | _ => none

end Kind

/-- What a node says about itself. -/
structure Label where
  name : String
  kind : Kind
  range : Span
  comment : Option String := none
  annotations : Option Annotations := none
deriving Inhabited

/-- A node with all that hangs below it. -/
abbrev Node := Tree Label

namespace Node

/-- A node without a comment. -/
def of (name : String) (kind : Kind) (range : Span) (children : Forest Label) : Node :=
  .node ⟨name, kind, range, none, none⟩ children

/-- The first child of a name. -/
def child? (n : Node) (name : String) : Option Node :=
  n.children.find? fun c => c.label.name == name

/-- The value of a tag of the node. -/
def tagValue? (n : Node) (tag : String) : Option Annotation :=
  n.label.annotations.bind (Entries.get? · tag)

end Node

end SchemaForest
