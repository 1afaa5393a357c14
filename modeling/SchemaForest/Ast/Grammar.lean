import SchemaForest.Ast.Basic
import SchemaForest.Ast.Fault

/-!
# The grammar of documents

The nodes of a document fall into six families.  Each family is a choice of variants told apart by a
tag, and each variant has named fields in a fixed order, some of which may be left out.  The grammar
is a table: `Family.variants` lists for every variant its fields and how a node is built from their
values.  Reading and writing of documents both follow this table.

`Values fs` holds a value for every field of `fs`, `Slots fs` the values that were read so far.
-/

namespace SchemaForest

/-- The families of nodes. -/
inductive Family where
  | declaration
  | typeNode
  | typeMember
  | propertyKey
  | literal
  | typeName
deriving DecidableEq

namespace Family

/-- The type of a family's nodes. -/
abbrev Carrier : Family → Type
  | .declaration => Declaration
  | .typeNode => TypeNode
  | .typeMember => TypeMember
  | .propertyKey => PropertyKey
  | .literal => Literal
  | .typeName => TypeName

/-- The name of a family in messages. -/
def name : Family → String
  | .declaration => "Declaration"
  | .typeNode => "TypeNode"
  | .typeMember => "TypeMember"
  | .propertyKey => "PropertyKey"
  | .literal => "Literal"
  | .typeName => "TypeName"

end Family

/-- What a field holds. -/
inductive FieldSort where
  | span
  | text
  | number
  | truth
  | keyword
  | node (family : Family)
  | nodes (family : Family)
  | optionalNode (family : Family)
  | optionalJson
deriving DecidableEq

/-- The type of what a field holds. -/
abbrev FieldSort.Carrier : FieldSort → Type
  | .span => Span
  | .text => String
  | .number => Double
  | .truth => Bool
  | .keyword => Keyword
  | .node f => f.Carrier
  | .nodes f => List f.Carrier
  | .optionalNode f => Option f.Carrier
  | .optionalJson => Option Json

/-- A field of a variant; one with a default may be left out. -/
structure Field where
  name : String
  sort : FieldSort
  default? : Option sort.Carrier

/-- A field that has to be there. -/
abbrev Field.required (name : String) (sort : FieldSort) : Field := ⟨name, sort, none⟩

/-- Values for all fields of a list. -/
abbrev Values : List Field → Type
  | [] => Unit
  | f :: fs => f.sort.Carrier × Values fs

/-- The values of some fields of a list. -/
abbrev Slots : List Field → Type
  | [] => Unit
  | f :: fs => Option f.sort.Carrier × Slots fs

namespace Slots

/-- No value yet. -/
def empty : (fs : List Field) → Slots fs
  | [] => ()
  | _ :: fs => (none, empty fs)

/-- Offers a named value, which `read` shows as any sort of field.  A name that is no field is passed
    over, and a field that has a value takes no other. -/
def offer (read : (s : FieldSort) → Except ShapeError s.Carrier) (name : String) :
    (fs : List Field) → Slots fs → Except ShapeError (Slots fs)
  | [], () => .ok ()
  | f :: fs, (slot, rest) =>
    if f.name = name then
      match slot with
      | some _ => .error (.duplicateField name)
      | none => (read f.sort).map fun x => (some x, rest)
    else (offer read name fs rest).map (slot, ·)

/-- Fills the slots left open with defaults.  The first field that has none is missing; `missing`
    gives the error from its place and name. -/
def complete (missing : Nat → String → ShapeError) :
    (place : Nat) → (fs : List Field) → Slots fs → Except ShapeError (Values fs)
  | _, [], () => .ok ()
  | i, f :: fs, (slot, rest) =>
    match slot.or f.default? with
    | none => .error (missing i f.name)
    | some x => (complete missing (i + 1) fs rest).map (x, ·)

end Slots

/-- A variant of a family: its tag, its fields, and the node that their values make. -/
structure Variant (α : Type) where
  name : String
  fields : List Field
  build : Values fields → α

namespace Family

/-- The span of a node. -/
abbrev spanField : Field := .required "span" .span

/-- The value of a literal or name. -/
abbrev valueField (sort : FieldSort) : Field := .required "value" sort

/-- The types of a union or an intersection. -/
abbrev typesField : Field := .required "types" (.nodes .typeNode)

/-- The variants of a family, in order. -/
def variants : (f : Family) → List (Variant f.Carrier)
  | .declaration =>
    [⟨"TsInterfaceDeclaration",
        [spanField, .required "id" .text, ⟨"body", .nodes .typeMember, some []⟩],
        fun (s, n, ms, ()) => .interface s n ms⟩,
      ⟨"TsTypeAliasDeclaration",
        [spanField, .required "id" .text, .required "typeAnnotation" (.node .typeNode)],
        fun (s, n, t, ()) => .alias s n t⟩,
      ⟨"ExportDeclaration",
        [⟨"span", .span, some ⟨0, 0⟩⟩, .required "declaration" (.node .declaration)],
        fun (s, d, ()) => .exported s d⟩]
  | .typeNode =>
    [⟨"TsKeywordType", [spanField, .required "kind" .keyword], fun (s, k, ()) => .keyword s k⟩,
      ⟨"TsArrayType", [spanField, .required "elemType" (.node .typeNode)],
        fun (s, t, ()) => .array s t⟩,
      ⟨"TsTypeLiteral", [spanField, ⟨"members", .nodes .typeMember, some []⟩],
        fun (s, ms, ()) => .object s ms⟩,
      ⟨"TsUnionType", [spanField, typesField], fun (s, ts, ()) => .union s ts⟩,
      ⟨"TsIntersectionType", [spanField, typesField], fun (s, ts, ()) => .intersection s ts⟩,
      ⟨"TsParenthesizedType", [spanField, .required "typeAnnotation" (.node .typeNode)],
        fun (s, t, ()) => .parenthesized s t⟩,
      ⟨"TsLiteralType", [spanField, .required "literal" (.node .literal)],
        fun (s, l, ()) => .literal s l⟩,
      ⟨"TsTypeReference",
        [spanField, .required "typeName" (.node .typeName),
          ⟨"typeParams", .optionalJson, some none⟩],
        fun (s, n, p, ()) => .reference s n p⟩] ++
      ForeignType.all.map fun kind =>
        ⟨kind.kindName, [spanField], fun (s, ()) => .foreign s kind⟩
  | .typeMember =>
    ⟨"TsPropertySignature",
        [spanField, .required "key" (.node .propertyKey),
          ⟨"typeAnnotation", .optionalNode .typeNode, some none⟩],
        fun (s, k, t, ()) => .property s k t⟩ ::
      ForeignMember.all.map fun kind =>
        ⟨kind.kindName, [spanField], fun (s, ()) => .foreign s kind⟩
  | .propertyKey =>
    [⟨"Identifier", [valueField .text], fun (n, ()) => .identifier n⟩,
      ⟨"StringLiteral", [valueField .text], fun (v, ()) => .string v⟩,
      ⟨"NumericLiteral", [valueField .number], fun (x, ()) => .number x⟩,
      ⟨"Computed", [], fun () => .computed⟩]
  | .literal =>
    [⟨"StringLiteral", [valueField .text], fun (v, ()) => .string v⟩,
      ⟨"NumericLiteral", [valueField .number], fun (x, ()) => .number x⟩,
      ⟨"BooleanLiteral", [valueField .truth], fun (b, ()) => .boolean b⟩,
      ⟨"BigIntLiteral", [valueField .text], fun (v, ()) => .bigint v⟩,
      ⟨"TemplateLiteral", [], fun () => .template⟩]
  | .typeName =>
    [⟨"Identifier", [valueField .text], fun (n, ()) => .identifier n⟩,
      ⟨"TsQualifiedName", [.required "left" (.node .typeName), .required "right" .text],
        fun (l, r, ()) => .qualified l r⟩]

/-- The tags of a family, in order. -/
def tags (f : Family) : List String := f.variants.map Variant.name

end Family

end SchemaForest
