import SchemaForest.Ast.Basic
import SchemaForest.Ast.Fault

/-!
# Records in documents

A span, a comment and a source are records of two fields.  A record is written as an object with
named fields, of which others are passed over, or as an array with the fields in order.  The fields
are read in the order in which they stand, so the first fault in the text is the one reported.
-/

namespace SchemaForest

/-- Where a record stands, which decides how items too many are reported. -/
inductive Origin where
  /-- In a text that is being read. -/
  | text
  /-- In a value. -/
  | value
  /-- Inside a node. -/
  | node
deriving DecidableEq

/-- A field of a record. -/
structure Component (α : Type) where
  name : String
  read : Draft → Except DecodeError α
  default? : Option α

/-- A fault of shape at the root. -/
def misshapen {α : Type} (e : ShapeError) : Except DecodeError α := Located.here (.ofShape e)

/-- A fault of syntax at the root. -/
def illegible {α : Type} (e : SyntaxError) : Except DecodeError α := Located.here (.ofSyntax e)

/-- What a draft is found to be where another type of value is expected. -/
def Draft.refuse {α : Type} (expected : String) : Draft → Except DecodeError α
  | .null => misshapen (.wrongType .null expected)
  | .bool b => misshapen (.wrongType (.boolean b) expected)
  | .integer i => misshapen (.wrongType (.integer i) expected)
  | .float x => misshapen (.wrongType (.float x) expected)
  | .string s => misshapen (.wrongType (.string s) expected)
  | .array _ => misshapen (.wrongType .sequence expected)
  | .object _ => misshapen (.wrongType .map expected)
  | .broken e => illegible e

/-- The number of items that could be read. -/
def DraftItems.count : DraftItems → Nat
  | .done | .failed _ => 0
  | .item _ rest => rest.count + 1

/-- What is wrong with items behind the last field of a record. -/
def surplus? (origin : Origin) (rest : DraftItems) : Option Fault :=
  match origin, rest with
  | _, .done => none
  | .text, .item _ _ => some (.ofSyntax .trailingText)
  | .text, .failed e =>
    some (.ofSyntax (if e = .endInList ∨ e = .trailingComma then e else .trailingText))
  | .value, rest => some (.ofShape (.wrongLength (2 + rest.count) "fewer elements in array"))
  | .node, rest =>
    some (.ofShape (.wrongLength (2 + rest.count) "2 elements in sequence"))

section Pair

variable {α β : Type} (a : Component α) (b : Component β)

/-- Reads the fields of an object in their order. -/
def pairFields (x : Option α) (y : Option β) :
    DraftFields → Except DecodeError (Option α × Option β)
  | .done => .ok (x, y)
  | .failed e => .error ⟨[.unread], .ofSyntax e⟩
  | .unvalued name e =>
    if (name = a.name ∧ x.isSome) ∨ (name = b.name ∧ y.isSome) then
      misshapen (.duplicateField name)
    else illegible e
  | .field name v stepped rest =>
    if name = a.name then
      if x.isSome then misshapen (.duplicateField name)
      else do
        let x' ← Located.within (.key name) (a.read v)
        pairFields (some x') y rest
    else if name = b.name then
      if y.isSome then misshapen (.duplicateField name)
      else do
        let y' ← Located.within (.key name) (b.read v)
        pairFields x (some y') rest
    else match stepped with
      | some e => .error ⟨[.key name], .ofSyntax e⟩
      | none => pairFields x y rest

/-- The value of a field that may have been left out. -/
def orDefault {γ : Type} (c : Component γ) (missing : ShapeError) (z : Option γ) :
    Except DecodeError γ :=
  match z.or c.default? with
  | some z => .ok z
  | none => misshapen missing

/-- Reads the items of an array as the fields in order. -/
def pairItems (origin : Origin) (expected : String) (items : DraftItems) :
    Except DecodeError (α × β) := do
  match items with
  | .failed e => illegible e
  | .done =>
    let x ← orDefault a (.wrongLength 0 expected) none
    let y ← orDefault b (.wrongLength 1 expected) none
    return (x, y)
  | .item v rest =>
    let x ← Located.within (.index 0) (a.read v)
    match rest with
    | .failed e => illegible e
    | .done =>
      let y ← orDefault b (.wrongLength 1 expected) none
      return (x, y)
    | .item w rest =>
      let y ← Located.within (.index 1) (b.read w)
      match surplus? origin rest with
      | some fault => Located.here fault
      | none => return (x, y)

/-- Reads a record of two fields. -/
def readPair (origin : Origin) (typeName : String) : Draft → Except DecodeError (α × β)
  | .object fields => do
    let (x, y) ← pairFields a b none none fields
    let x ← orDefault a (.missingField a.name) x
    let y ← orDefault b (.missingField b.name) y
    return (x, y)
  | .array items => pairItems a b origin ("struct " ++ typeName ++ " with 2 elements") items
  | d => d.refuse ("struct " ++ typeName)

end Pair

/-! ## Plain values -/

/-- A natural number. -/
def readNatural : Draft → Except DecodeError Nat
  | .integer i =>
    if 0 ≤ i then .ok i.toNat else misshapen (.wrongValue (.integer i) "usize")
  | d => d.refuse "usize"

/-- A string. -/
def readString : Draft → Except DecodeError String
  | .string s => .ok s
  | d => d.refuse "a string"

/-- A string or nothing. -/
def readOptionalString : Draft → Except DecodeError (Option String)
  | .null => .ok none
  | d => (readString d).map some

/-- The items of an array, each read alike, from the `i`-th on. -/
def readItemsWith {α : Type} (read : Draft → Except DecodeError α) (i : Nat) :
    DraftItems → Except DecodeError (List α)
  | .done => .ok []
  | .failed e => illegible e
  | .item v rest => do
    let x ← Located.within (.index i) (read v)
    let xs ← readItemsWith read (i + 1) rest
    return x :: xs

/-- An array whose items are read alike. -/
def readList {α : Type} (read : Draft → Except DecodeError α) :
    Draft → Except DecodeError (List α)
  | .array items => readItemsWith read 0 items
  | d => d.refuse "a sequence"

/-! ## Spans and comments -/

/-- A span. -/
def readSpan (origin : Origin) (d : Draft) : Except DecodeError Span :=
  (readPair ⟨"start", readNatural, none⟩ ⟨"end", readNatural, none⟩ origin "Span" d).map
    fun (start, stop) => ⟨start, stop⟩

/-- A comment; its text may be left out. -/
def readComment (origin : Origin) (d : Draft) : Except DecodeError Comment :=
  (readPair ⟨"text", readOptionalString, some none⟩ ⟨"span", readSpan origin, none⟩ origin
    "Comment" d).map fun (text, span) => ⟨text, span⟩

end SchemaForest
