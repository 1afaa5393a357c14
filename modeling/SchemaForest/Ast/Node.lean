import SchemaForest.Ast.Grammar
import SchemaForest.Ast.Record

/-!
# Reading nodes

A node is read from a finished value by the grammar.  It is an object with a `type` tag and the
fields of that variant, or an array with the tag first and the fields in order.  Fields are read in
the order in which they stand; fields that the variant does not have are passed over.
-/

namespace SchemaForest

/-- A value where something else was expected. -/
def refuse {α : Type} (expected : String) (v : Json) : Except ShapeError α :=
  .error (.wrongType (Found.ofJson v) expected)

/-! ## Plain fields -/

/-- The keyword of a name. -/
def readKeywordName (name : String) : Except ShapeError Keyword :=
  match Keyword.all.find? (·.name == name) with
  | some k => .ok k
  | none => .error (.unknownVariant name (Keyword.all.map Keyword.name))

/-- A keyword: its name, or an object with the name as its only field and nothing in it. -/
def readKeyword : Json → Except ShapeError Keyword
  | .string name => readKeywordName name
  | .object [(name, content)] => do
    let k ← readKeywordName name
    match content with
    | .null | .object [] => .ok k
    | v => refuse "unit" v
  | .object _ => .error (.wrongValue .map "map with a single key")
  | v => refuse "string or map" v

/-- The span of a node; where in the span a fault lies is not told. -/
def readNodeSpan (v : Json) : Except ShapeError Span :=
  match readSpan .node (Draft.ofJson v) with
  | .ok s => .ok s
  | .error ⟨_, .ofShape e⟩ => .error e
  | .error ⟨_, .ofSyntax _⟩ => refuse "struct Span" v

/-- A field that is not made of nodes. -/
def readPlain (v : Json) : (s : FieldSort) → Except ShapeError s.Carrier
  | .span => readNodeSpan v
  | .text => match v with
    | .string s => .ok s
    | v => refuse "a string" v
  | .number => match v with
    | .float x => .ok x
    | .integer i => .ok (Double.ofInt i)
    | v => refuse "f64" v
  | .truth => match v with
    | .bool b => .ok b
    | v => refuse "a boolean" v
  | .keyword => readKeyword v
  | .node f => refuse ("internally tagged enum " ++ f.name) v
  | .nodes _ => refuse "a sequence" v
  | .optionalNode f => match v with
    | .null => .ok none
    | v => refuse ("internally tagged enum " ++ f.name) v
  | .optionalJson => match v with
    | .null => .ok none
    | v => .ok (some v.collapse)

/-! ## Tags -/

/-- The variant of a tag name. -/
def Family.variantOf (f : Family) (name : String) : Except ShapeError (Variant f.Carrier) :=
  match f.variants.find? (·.name == name) with
  | some v => .ok v
  | none => .error (.unknownVariant name f.tags)

/-- The variant of a tag inside a document: its name, or its place in the list of variants. -/
def Family.variantOfJson (f : Family) : Json → Except ShapeError (Variant f.Carrier)
  | .string name => f.variantOf name
  | .integer i =>
    if 0 ≤ i then
      match f.variants[i.toNat]? with
      | some v => .ok v
      | none => .error (.wrongValue (.integer i)
          ("variant index 0 <= i < " ++ toString f.variants.length))
    else refuse "variant identifier" (.integer i)
  | v => refuse "variant identifier" v

/-- The variant of an object: its only tag. -/
def Family.variantOfFields (f : Family) (fields : List (String × Json)) :
    Except ShapeError (Variant f.Carrier) :=
  match fields.filter (·.1 == "type") with
  | [] => .error (.missingField "type")
  | [(_, tag)] => f.variantOfJson tag
  | (_, tag) :: _ => do
    let _ ← f.variantOfJson tag
    .error (.duplicateField "type")

/-- The node of a variant whose fields were read by name. -/
def Variant.ofNamed {α : Type} (v : Variant α) (slots : Except ShapeError (Slots v.fields)) :
    Except ShapeError α := do
  let slots ← slots
  let values ← slots.complete (fun _ name => .missingField name) 0 v.fields
  return v.build values

/-- The node of a variant whose fields were read in order; the second part counts the items that are
    too many. -/
def Variant.ofOrdered {α : Type} (family : Family) (v : Variant α)
    (read : Except ShapeError (Slots v.fields × Nat)) : Except ShapeError α := do
  let (slots, extra) ← read
  let n := v.fields.length
  let expected := "struct variant " ++ family.name ++ "::" ++ v.name ++ " with " ++
    ShapeError.counted n "element"
  let values ← slots.complete (fun i _ => .wrongLength i expected) 0 v.fields
  if extra ≠ 0 then
    .error (.wrongLength (n + extra) (ShapeError.counted n "element" ++ " in sequence"))
  else return v.build values

/-! ## Nodes -/

mutual
/-- A value as a field of any sort. -/
def readSort : Json → (s : FieldSort) → Except ShapeError s.Carrier
  | .object fields, .node f => do
    let v ← f.variantOfFields fields
    v.ofNamed (readNamed fields v.fields (Slots.empty v.fields))
  | .object fields, .optionalNode f => do
    let v ← f.variantOfFields fields
    (v.ofNamed (readNamed fields v.fields (Slots.empty v.fields))).map some
  | .array (tag :: items), .node f => do
    let v ← f.variantOfJson tag
    v.ofOrdered f (readOrdered items v.fields)
  | .array (tag :: items), .optionalNode f => do
    let v ← f.variantOfJson tag
    (v.ofOrdered f (readOrdered items v.fields)).map some
  | .array [], .node _ | .array [], .optionalNode _ => .error (.missingField "type")
  | .array items, .nodes f => readAll items f
  | v, s => readPlain v s

/-- The fields of an object, in the order in which they stand. -/
def readNamed : List (String × Json) → (fs : List Field) → Slots fs → Except ShapeError (Slots fs)
  | [], _, slots => .ok slots
  | (name, v) :: rest, fs, slots => do
    let slots ← Slots.offer (fun s => readSort v s) name fs slots
    readNamed rest fs slots

/-- The items of an array as the fields in order, and how many items are too many. -/
def readOrdered : List Json → (fs : List Field) → Except ShapeError (Slots fs × Nat)
  | items, [] => .ok ((), items.length)
  | [], fs => .ok (Slots.empty fs, 0)
  | v :: rest, f :: fs => do
    let x ← readSort v f.sort
    let (slots, extra) ← readOrdered rest fs
    return ((some x, slots), extra)

/-- The items of an array as nodes of one family. -/
def readAll : List Json → (f : Family) → Except ShapeError (List f.Carrier)
  | [], _ => .ok []
  | v :: rest, f => do
    let x ← readSort v (.node f)
    let xs ← readAll rest f
    return x :: xs
end

/-! ## Nodes at the root -/

/-- The tag of a node at the root, which has to be a name. -/
def readRootTag (f : Family) : Draft → Except DecodeError (Variant f.Carrier)
  | .string name => match f.variantOf name with
    | .ok v => .ok v
    | .error e => misshapen e
  | d => d.refuse "variant identifier"

/-- The tag and the other fields of an object; the tag is looked at where it stands. -/
def readTagged (f : Family) (tag : Option (Variant f.Carrier)) :
    DraftFields → Except DecodeError (Option (Variant f.Carrier) × List (String × Json))
  | .done => .ok (tag, [])
  | .failed e => .error ⟨[.unread], .ofSyntax e⟩
  | .unvalued name e =>
    if name = "type" ∧ tag.isSome then misshapen (.duplicateField name) else illegible e
  | .field name v _ rest =>
    if name = "type" then
      if tag.isSome then misshapen (.duplicateField name)
      else do
        let t ← Located.within (.key name) (readRootTag f v)
        readTagged f (some t) rest
    else do
      let x ← Located.within (.key name) (liftSyntax v.content)
      let (tag, fields) ← readTagged f tag rest
      return (tag, (name, x) :: fields)
where
  /-- An error of syntax as a fault of the document. -/
  liftSyntax {α : Type} : Except (Located SyntaxError) α → Except DecodeError α
    | .ok a => .ok a
    | .error e => .error ⟨e.path, .ofSyntax e.cause⟩

/-- A fault of shape inside a node counts for the node as a whole. -/
def ofShape {α : Type} : Except ShapeError α → Except DecodeError α
  | .ok a => .ok a
  | .error e => misshapen e

/-- A node at the root of a draft.  The whole node is taken in before any field is looked at. -/
def readNode (f : Family) : Draft → Except DecodeError f.Carrier
  | .object fields => do
    let (tag, fields) ← readTagged f none fields
    match tag with
    | none => misshapen (.missingField "type")
    | some v => ofShape (v.ofNamed (readNamed fields v.fields (Slots.empty v.fields)))
  | .array .done => misshapen (.missingField "type")
  | .array (.failed e) => illegible e
  | .array (.item tag rest) => do
    let v ← Located.within (.index 0) (readRootTag f tag)
    let items ← readTagged.liftSyntax (Draft.contentItems 1 rest)
    ofShape (v.ofOrdered f (readOrdered items v.fields))
  | d => d.refuse ("internally tagged enum " ++ f.name)

end SchemaForest
