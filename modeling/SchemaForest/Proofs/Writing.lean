import Mathlib.Data.List.Forall2
import SchemaForest.Ast.Basic
import SchemaForest.Proofs.DistinctNames

/-!
# Documents that write a source

What a document has to look like so that it stands for a given source, told from the source alone and
without the table that the reader follows.

1. Everything but a list, a text, a number and a truth value is written as an object.  Its fields come
   in any order, and a name that is no field of what is written may stand among them with any value
   (`Json.WritesFields`).
2. The object of a node has its kind under `type` besides its fields (`Json.WritesNode`).
3. A field that holds its default may be left out.  Nothing is then written, or the default itself.
4. `null` writes that there is nothing.  Type parameters that are `null` are therefore not written by
   any document, and neither are type parameters that repeat a name, which no map can hold.
-/

namespace SchemaForest

/-- A field of an object: the values that write what it holds, and when it may be left out. -/
structure WrittenField where
  name : String
  writes : Json → Prop
  omitted : Prop

/-- A field that has to be there. -/
abbrev WrittenField.required (name : String) (writes : Json → Prop) : WrittenField :=
  ⟨name, writes, False⟩

/-- The field stands among the entries of an object, or it may be left out and is. -/
def WrittenField.In (f : WrittenField) (entries : Entries Json) : Prop :=
  (∃ w, Entries.get? entries f.name = some w ∧ f.writes w) ∨
    (f.omitted ∧ Entries.get? entries f.name = none)

namespace Json

/-- An object with the given fields, in any order and among any others. -/
def WritesFields (fs : List WrittenField) (v : Json) : Prop :=
  ∃ entries, v = .object entries ∧ (Entries.keys entries).Nodup ∧ ∀ f ∈ fs, f.In entries

/-- An object with a kind and the given fields. -/
def WritesNode (kind : String) (fs : List WrittenField) : Json → Prop :=
  WritesFields (.required "type" (· = .string kind) :: fs)

/-- An array with the given items. -/
def WritesItems (writes : List Json → Prop) (v : Json) : Prop :=
  ∃ items, v = .array items ∧ writes items

/-- A number: as it is, or an integer that it is nearest to. -/
def WritesNumber (x : Double) (v : Json) : Prop :=
  v = .float x ∨ ∃ i : Int, v = .integer i ∧ Double.ofInt i = x

/-- A value itself, or `null` for none. -/
def WritesOptional : Option Json → Json → Prop
  | none, v => v = .null
  | some p, v => v = p ∧ p ≠ .null ∧ p.Distinct

end Json

/-! ## Spans and comments -/

/-- What writes a span. -/
def Span.Written (s : Span) : Json → Prop :=
  Json.WritesFields
    [.required "start" (· = .integer s.start), .required "end" (· = .integer s.stop)]

/-- What writes the text of a comment. -/
def Comment.TextWritten : Option String → Json → Prop
  | none, v => v = .null
  | some text, v => v = .string text

/-- What writes a comment. -/
def Comment.Written (c : Comment) : Json → Prop :=
  Json.WritesFields
    [⟨"text", Comment.TextWritten c.text, c.text = none⟩, .required "span" c.span.Written]

/-! ## Names and literals -/

def Literal.Written : Literal → Json → Prop
  | .string s => Json.WritesNode "StringLiteral" [.required "value" (· = .string s)]
  | .number x => Json.WritesNode "NumericLiteral" [.required "value" (Json.WritesNumber x)]
  | .boolean b => Json.WritesNode "BooleanLiteral" [.required "value" (· = .bool b)]
  | .bigint s => Json.WritesNode "BigIntLiteral" [.required "value" (· = .string s)]
  | .template => Json.WritesNode "TemplateLiteral" []

def TypeName.Written : TypeName → Json → Prop
  | .identifier n => Json.WritesNode "Identifier" [.required "value" (· = .string n)]
  | .qualified left right => Json.WritesNode "TsQualifiedName"
      [.required "left" left.Written, .required "right" (· = .string right)]

def PropertyKey.Written : PropertyKey → Json → Prop
  | .identifier n => Json.WritesNode "Identifier" [.required "value" (· = .string n)]
  | .string s => Json.WritesNode "StringLiteral" [.required "value" (· = .string s)]
  | .number x => Json.WritesNode "NumericLiteral" [.required "value" (Json.WritesNumber x)]
  | .computed => Json.WritesNode "Computed" []

/-! ## Types and members -/

/-- The span of a node as a field. -/
abbrev Span.field (s : Span) : WrittenField := .required "span" s.Written

mutual
/-- What writes a type. -/
def TypeNode.Written : TypeNode → Json → Prop
  | .keyword s k => Json.WritesNode "TsKeywordType"
      [s.field, .required "kind" (· = .string k.name)]
  | .array s element => Json.WritesNode "TsArrayType"
      [s.field, .required "elemType" element.Written]
  | .object s members => Json.WritesNode "TsTypeLiteral"
      [s.field, ⟨"members", Json.WritesItems (TypeMember.AllWritten members), members = []⟩]
  | .union s arms => Json.WritesNode "TsUnionType"
      [s.field, .required "types" (Json.WritesItems (TypeNode.AllWritten arms))]
  | .intersection s parts => Json.WritesNode "TsIntersectionType"
      [s.field, .required "types" (Json.WritesItems (TypeNode.AllWritten parts))]
  | .parenthesized s inner => Json.WritesNode "TsParenthesizedType"
      [s.field, .required "typeAnnotation" inner.Written]
  | .literal s l => Json.WritesNode "TsLiteralType" [s.field, .required "literal" l.Written]
  | .reference s n parameters => Json.WritesNode "TsTypeReference"
      [s.field, .required "typeName" n.Written,
        ⟨"typeParams", Json.WritesOptional parameters, parameters = none⟩]
  | .foreign s kind => Json.WritesNode kind.kindName [s.field]

def TypeNode.AllWritten : List TypeNode → List Json → Prop
  | [], [] => True
  | t :: ts, v :: vs => t.Written v ∧ TypeNode.AllWritten ts vs
  | _, _ => False

/-- What writes a member. -/
def TypeMember.Written : TypeMember → Json → Prop
  | .property s key none => Json.WritesNode "TsPropertySignature"
      [s.field, .required "key" key.Written, ⟨"typeAnnotation", (· = .null), True⟩]
  | .property s key (some t) => Json.WritesNode "TsPropertySignature"
      [s.field, .required "key" key.Written, .required "typeAnnotation" t.Written]
  | .foreign s kind => Json.WritesNode kind.kindName [s.field]

def TypeMember.AllWritten : List TypeMember → List Json → Prop
  | [], [] => True
  | m :: ms, v :: vs => m.Written v ∧ TypeMember.AllWritten ms vs
  | _, _ => False
end

/-! ## Declarations and sources -/

/-- What writes a declaration. -/
def Declaration.Written : Declaration → Json → Prop
  | .interface s n members => Json.WritesNode "TsInterfaceDeclaration"
      [s.field, .required "id" (· = .string n),
        ⟨"body", Json.WritesItems (TypeMember.AllWritten members), members = []⟩]
  | .alias s n t => Json.WritesNode "TsTypeAliasDeclaration"
      [s.field, .required "id" (· = .string n), .required "typeAnnotation" t.Written]
  | .exported s inner => Json.WritesNode "ExportDeclaration"
      [⟨"span", s.Written, s = ⟨0, 0⟩⟩, .required "declaration" inner.Written]

/-- What writes a source. -/
def SourceFile.Written (f : SourceFile) : Json → Prop :=
  Json.WritesFields
    [.required "declarations"
        (Json.WritesItems (List.Forall₂ Declaration.Written f.declarations)),
      ⟨"comments", Json.WritesItems (List.Forall₂ Comment.Written f.comments), f.comments = []⟩]

end SchemaForest
