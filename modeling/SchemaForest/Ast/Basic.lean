import SchemaForest.Json.Basic

/-!
# Type declarations

The tree that a parser of type declarations hands over: declarations with their types and members,
and the comments of the source.  Every node knows its span.  Kinds of types and members that have no
schema are kept by name, so that a message can name them.
-/

namespace SchemaForest

/-- A range of the source, from `start` up to but not including `stop`. -/
structure Span where
  start : Nat
  stop : Nat
deriving DecidableEq, Inhabited

/-- The span as it stands in messages. -/
def Span.text (s : Span) : String := toString s.start ++ ".." ++ toString s.stop

/-- A comment of the source, without its delimiters. -/
structure Comment where
  text : Option String
  span : Span
deriving DecidableEq

/-- The text of a comment, if it has any. -/
def Comment.body (c : Comment) : Option String := c.text.filter (· != "")

/-- The keywords that stand for types. -/
inductive Keyword where
  | string | number | boolean | null | undefined | any | unknown | never | void | object | symbol
  | bigint | intrinsic
deriving DecidableEq

namespace Keyword

/-- All keywords. -/
def all : List Keyword :=
  [.string, .number, .boolean, .null, .undefined, .any, .unknown, .never, .void, .object, .symbol,
    .bigint, .intrinsic]

/-- The keyword as written. -/
def name : Keyword → String
  | .string => "string"
  | .number => "number"
  | .boolean => "boolean"
  | .null => "null"
  | .undefined => "undefined"
  | .any => "any"
  | .unknown => "unknown"
  | .never => "never"
  | .void => "void"
  | .object => "object"
  | .symbol => "symbol"
  | .bigint => "bigint"
  | .intrinsic => "intrinsic"

end Keyword

/-- A literal that stands for the type of itself. -/
inductive Literal where
  | string (value : String)
  | number (value : Double)
  | boolean (value : Bool)
  | bigint (value : String)
  | template
deriving DecidableEq

/-- The name of a referenced type. -/
inductive TypeName where
  | identifier (name : String)
  | qualified (left : TypeName) (right : String)
deriving DecidableEq

/-- The key of a property. -/
inductive PropertyKey where
  | identifier (name : String)
  | string (value : String)
  | number (value : Double)
  | computed
deriving DecidableEq

/-- The kind of a property key. -/
def PropertyKey.kindName : PropertyKey → String
  | .identifier _ => "Identifier"
  | .string _ => "StringLiteral"
  | .number _ => "NumericLiteral"
  | .computed => "Computed"

/-- The kinds of types that have no schema. -/
inductive ForeignType where
  | function | constructor | tuple | optional | rest | conditional | mapped | operator
  | indexedAccess | query | infer | this | imported | predicate
deriving DecidableEq

namespace ForeignType

/-- All kinds of types that have no schema. -/
def all : List ForeignType :=
  [.function, .constructor, .tuple, .optional, .rest, .conditional, .mapped, .operator,
    .indexedAccess, .query, .infer, .this, .imported, .predicate]

/-- The name of the kind. -/
def kindName : ForeignType → String
  | .function => "TsFunctionType"
  | .constructor => "TsConstructorType"
  | .tuple => "TsTupleType"
  | .optional => "TsOptionalType"
  | .rest => "TsRestType"
  | .conditional => "TsConditionalType"
  | .mapped => "TsMappedType"
  | .operator => "TsTypeOperator"
  | .indexedAccess => "TsIndexedAccessType"
  | .query => "TsTypeQuery"
  | .infer => "TsInferType"
  | .this => "TsThisType"
  | .imported => "TsImportType"
  | .predicate => "TsTypePredicate"

end ForeignType

/-- The kinds of members other than properties. -/
inductive ForeignMember where
  | method | index | call | construct | getter | setter
deriving DecidableEq

namespace ForeignMember

/-- All kinds of members other than properties. -/
def all : List ForeignMember := [.method, .index, .call, .construct, .getter, .setter]

/-- The name of the kind. -/
def kindName : ForeignMember → String
  | .method => "TsMethodSignature"
  | .index => "TsIndexSignature"
  | .call => "TsCallSignatureDeclaration"
  | .construct => "TsConstructSignatureDeclaration"
  | .getter => "TsGetterSignature"
  | .setter => "TsSetterSignature"

end ForeignMember

mutual
/-- A type as written. -/
inductive TypeNode where
  | keyword (span : Span) (keyword : Keyword)
  | array (span : Span) (element : TypeNode)
  | object (span : Span) (members : List TypeMember)
  | union (span : Span) (arms : List TypeNode)
  | intersection (span : Span) (parts : List TypeNode)
  | parenthesized (span : Span) (inner : TypeNode)
  | literal (span : Span) (value : Literal)
  | reference (span : Span) (name : TypeName) (parameters : Option Json)
  | foreign (span : Span) (kind : ForeignType)

/-- A member of an interface or an object type. -/
inductive TypeMember where
  | property (span : Span) (key : PropertyKey) (type : Option TypeNode)
  | foreign (span : Span) (kind : ForeignMember)
end

namespace TypeNode

def span : TypeNode → Span
  | .keyword s _ | .array s _ | .object s _ | .union s _ | .intersection s _
  | .parenthesized s _ | .literal s _ | .reference s _ _ | .foreign s _ => s

/-- The kind of a type as the document names it. -/
def kindName : TypeNode → String
  | .keyword .. => "TsKeywordType"
  | .array .. => "TsArrayType"
  | .object .. => "TsTypeLiteral"
  | .union .. => "TsUnionType"
  | .intersection .. => "TsIntersectionType"
  | .parenthesized .. => "TsParenthesizedType"
  | .literal .. => "TsLiteralType"
  | .reference .. => "TsTypeReference"
  | .foreign _ kind => kind.kindName

end TypeNode

namespace TypeMember

def span : TypeMember → Span
  | .property s _ _ | .foreign s _ => s

/-- The kind of a member as the document names it. -/
def kindName : TypeMember → String
  | .property .. => "TsPropertySignature"
  | .foreign _ kind => kind.kindName

end TypeMember

/-- A declaration at the top of a source. -/
inductive Declaration where
  | interface (span : Span) (name : String) (members : List TypeMember)
  | alias (span : Span) (name : String) (type : TypeNode)
  /-- The export of a declaration; what counts is the declaration inside. -/
  | exported (span : Span) (inner : Declaration)

namespace Declaration

/-- The declared name. -/
def name : Declaration → String
  | .interface _ n _ | .alias _ n _ => n
  | .exported _ d => d.name

/-- The span of the declaration inside all exports. -/
def span : Declaration → Span
  | .interface s _ _ | .alias s _ _ => s
  | .exported _ d => d.span

end Declaration

/-- A source: its declarations and all of its comments. -/
structure SourceFile where
  declarations : List Declaration
  comments : List Comment

end SchemaForest
