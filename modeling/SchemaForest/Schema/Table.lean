import SchemaForest.Schema.Node

/-!
# Tables of declarations

A table holds the declarations of one run in the order of the source.  Handles count from the front
and stay valid, because nothing is ever taken out.  Tables are written as registries.
-/

namespace SchemaForest

/-- Declarations in the order of the source. -/
structure Table where
  declarations : Forest Label := []

namespace Table

/-- The table of no declarations. -/
def empty : Table := ⟨[]⟩

/-- The declared names in order. -/
def names (t : Table) : List String := t.declarations.map fun d => d.label.name

def size (t : Table) : Nat := t.declarations.length

/-- The place of a name among the declared names. -/
def handleIn (names : List String) (name : String) : Option Handle :=
  (names.findIdx? (· == name)).map Handle.mk

/-- The handle of a declared name. -/
def handle? (t : Table) (name : String) : Option Handle := handleIn t.names name

/-- The declaration at a handle. -/
def get? (t : Table) (h : Handle) : Option Node := t.declarations[h.index]?

/-- The declaration of a name. -/
def find? (t : Table) (name : String) : Option Node := (t.handle? name).bind t.get?

/-- All handles of a table in order. -/
def handles (t : Table) : List Handle := (List.range t.size).map Handle.mk

/-- The handles with their declarations. -/
def entries (t : Table) : List (Handle × Node) :=
  t.handles.filterMap fun h => (t.get? h).map fun d => (h, d)

/-- All nodes in flat order, which is the order of `Forest.unstack`. -/
def nodes (t : Table) : List Node := Forest.flatten t.declarations

/-- The declaration that a node refers to. -/
def referenced? (t : Table) (n : Node) : Option Node := n.label.kind.target?.bind t.get?

end Table

end SchemaForest
