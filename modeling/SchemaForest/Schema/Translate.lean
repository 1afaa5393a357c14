import SchemaForest.Schema.Error
import SchemaForest.Schema.Node

/-!
# Types as schemas

A type becomes a node with the name of the place where it stands.  Which span a node shows depends
on the type: literals, references and intersections show their own, everything else the range of
the place, which the arms of a union and the parts of an intersection inherit together with the
name.  Parentheses leave no trace.

Names are looked up through a function, so the same rules hold for a table that is still growing
and for a finished one; a name that is not found stays as it is.
-/

namespace SchemaForest

/-- The name of the one child of an array. -/
def elementName : String := "ofString"

/-- The kind of a keyword. -/
def Keyword.kind? : Keyword → Option Kind
  | .string => some .string
  | .number => some .number
  | .boolean => some .boolean
  | .null => some .null
  | _ => none

/-- The kind of a keyword at a span; most keywords have none. -/
def keywordKind (k : Keyword) (span : Span) : Except ExtractError Kind :=
  match k.kind? with
  | some kind => .ok kind
  | none => .error (.unsupported (.keyword k) span)

/-- The kind of a literal type. -/
def literalKind (v : Literal) (span : Span) : Except ExtractError Kind :=
  match v with
  | .string s => .ok (.stringLiteral s)
  | .number x => .ok (.numberLiteral x)
  | .boolean b => .ok (.booleanLiteral b)
  | .bigint _ => .error (.unsupported .bigint span)
  | .template => .error (.unsupported .template span)

/-- The kind of a reference; only a plain name without parameters can refer to a declaration. -/
def referenceKind (lookup : String → Option Handle) (name : TypeName) (parameters : Option Json)
    (span : Span) : Except ExtractError Kind :=
  match name, parameters with
  | .qualified _ _, _ => .error (.unsupported .qualifiedName span)
  | .identifier n, some _ => .error (.unsupported (.generic n) span)
  | .identifier n, none =>
    match lookup n with
    | some h => .ok (.reference h)
    | none => .ok (.unresolved n)

/-- The name of a property. -/
def propertyName (key : PropertyKey) (span : Span) : Except ExtractError String :=
  match key with
  | .identifier n => if n = "" then .error (.malformed .namelessProperty span) else .ok n
  | key => .error (.unsupported (.key key) span)

/-- The element of an array has to be a keyword. -/
def translateElement (element : TypeNode) : Except ExtractError Node :=
  match element with
  | .keyword span k =>
    (keywordKind k span).map fun kind => Node.of elementName kind span []
  | other => .error (.unsupported (.arrayOf other.kindName) other.span)

variable (lookup : String → Option Handle)

mutual
/-- The node of a type at a place of the given name and range. -/
def translateType (name : String) (range : Span) : TypeNode → Except ExtractError Node
  | .keyword span k => (keywordKind k span).map fun kind => Node.of name kind range []
  | .array _ element => (translateElement element).map fun e => Node.of name .array range [e]
  | .object _ members => (translateMembers members).map (Node.of name .object range)
  | .union _ arms => (translateTypes name range arms).map (Node.of name .union range)
  | .intersection span parts =>
    (translateTypes name range parts).map (Node.of name .intersection span)
  | .parenthesized _ inner => translateType name range inner
  | .literal span v => (literalKind v span).map fun kind => Node.of name kind span []
  | .reference span target parameters =>
    (referenceKind lookup target parameters span).map fun kind => Node.of name kind span []
  | .foreign span kind => .error (.unsupported (.type kind) span)

/-- The nodes of several types at one place. -/
def translateTypes (name : String) (range : Span) :
    List TypeNode → Except ExtractError (Forest Label)
  | [] => .ok []
  | t :: rest => do
    let n ← translateType name range t
    let ns ← translateTypes name range rest
    .ok (n :: ns)

/-- The node of a member, which has to be a named property with a type. -/
def translateMember : TypeMember → Except ExtractError Node
  | .foreign span kind => .error (.unsupported (.member kind) span)
  | .property span key type => do
    let name ← propertyName key span
    match type with
    | none => .error (.malformed (.untypedProperty name) span)
    | some t => translateType name span t

def translateMembers : List TypeMember → Except ExtractError (Forest Label)
  | [] => .ok []
  | m :: rest => do
    let n ← translateMember m
    let ns ← translateMembers rest
    .ok (n :: ns)
end

/-- The node of a declaration, which has to have a name.  Members hang directly below it, also those
    of an alias of an object type; any other alias has its type as the only child.  An export is the
    declaration inside. -/
def translateDeclaration (d : Declaration) : Except ExtractError Node :=
  if d.name = "" then .error (.malformed .namelessDeclaration d.span)
  else match d with
    | .interface _ _ members =>
      (translateMembers lookup members).map (Node.of d.name .declaration d.span)
    | .alias _ _ type =>
      match type with
      | .object _ members =>
        (translateMembers lookup members).map (Node.of d.name .declaration d.span)
      | other =>
        (translateType lookup d.name d.span other).map fun n =>
          Node.of d.name .declaration d.span [n]
    | .exported _ inner => translateDeclaration inner

end SchemaForest
