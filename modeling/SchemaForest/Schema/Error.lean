import SchemaForest.Ast.Basic
import SchemaForest.Text.Blank
import SchemaForest.Text.Quoted

/-!
# Errors of an extraction

Each error is a cause with the place where it stands; `ExtractError.message` puts it into words.
The first error ends an extraction.
-/

namespace SchemaForest

/-- What has no schema. -/
inductive Construct where
  | keyword (k : Keyword)
  /-- An array whose elements are of the named kind. -/
  | arrayOf (kindName : String)
  | type (kind : ForeignType)
  | member (kind : ForeignMember)
  | bigint
  | template
  | qualifiedName
  /-- A reference with type parameters. -/
  | generic (name : String)
  | key (key : PropertyKey)
deriving DecidableEq

namespace Construct

/-- The construct in words. -/
def text : Construct → String
  | keyword k => "keyword `" ++ k.name ++ "`"
  | arrayOf kindName => "array of " ++ kindName
  | type kind => kind.kindName
  | member kind => kind.kindName
  | bigint => "BigIntLiteral"
  | template => "TemplateLiteral"
  | qualifiedName => "TsQualifiedName"
  | generic name => "generic reference `" ++ name ++ "<..>`"
  | key k => k.kindName ++ " property key"

end Construct

/-- What a declaration or one of its properties lacks. -/
inductive Defect where
  | namelessDeclaration
  | namelessProperty
  | untypedProperty (name : String)
deriving DecidableEq

namespace Defect

/-- The name by which a message calls the defective part. -/
def owner : Defect → String
  | namelessDeclaration => "<anonymous>"
  | namelessProperty => "<member>"
  | untypedProperty name => name

/-- What is wrong with it. -/
def reason : Defect → String
  | namelessDeclaration => "declaration has no name"
  | namelessProperty => "property has an empty name"
  | untypedProperty _ => "property has no type annotation"

end Defect

/-- Why an extraction fails. -/
inductive ExtractError where
  | unsupported (construct : Construct) (range : Span)
  | unresolved (name : String) (range : Span)
  /-- A comment behind which nothing starts. -/
  | orphan (text : String) (range : Span)
  | malformed (defect : Defect) (range : Span)
  | duplicate (name : String) (first second : Span)
deriving DecidableEq

namespace ExtractError

/-- The most characters of a comment that a message shows. -/
def previewLength : Nat := 40

/-- The start of a comment without the blanks around, with an ellipsis where it was cut. -/
def preview (text : String) : String :=
  let t := Text.trim text.toList
  if previewLength < t.length then String.ofList (t.take previewLength ++ ['…'])
  else String.ofList t

/-- The error in words. -/
def message : ExtractError → String
  | unsupported construct range =>
    "unsupported construct `" ++ construct.text ++ "` at " ++ range.text
  | unresolved name range =>
    "reference to undeclared type `" ++ name ++ "` at " ++ range.text
  | orphan text range =>
    "comment at " ++ range.text ++ " has no declaration after it: " ++ Text.quoted (preview text)
  | malformed defect range =>
    "malformed declaration `" ++ defect.owner ++ "` at " ++ range.text ++ ": " ++ defect.reason
  | duplicate name first second =>
    "type `" ++ name ++ "` declared twice (at " ++ first.text ++ " and " ++ second.text ++ ")"

end ExtractError

end SchemaForest
