import SchemaForest.Entries
import SchemaForest.Schema.Error
import SchemaForest.Schema.Table

/-!
# Registries

A registry is a table while it is written: an arena with the declarations in the order of the source,
and an index from their names to their handles.  Writing changes it in place, so a step that fails
leaves a registry too.  `insert` refuses a name that is in the index, so a name leads to one
declaration.

A table is opened as a registry, written, and closed again (`Table.write`).
-/

namespace SchemaForest

/-- The declarations of a table with the index of their names. -/
structure Registry where
  arena : Forest Label := []
  index : Entries Handle := []

namespace Registry

/-- The registry of no declarations. -/
def empty : Registry := {}

/-- The registry of a table: each name leads to the place of its declaration. -/
def ofTable (t : Table) : Registry := ⟨t.declarations, t.names.zip t.handles⟩

/-- The table of the declarations. -/
def toTable (r : Registry) : Table := ⟨r.arena⟩

def size (r : Registry) : Nat := r.arena.length

/-- The handle that the index holds for a name. -/
def lookup (r : Registry) (name : String) : Option Handle := r.index.get? name

/-- The declaration at a handle. -/
def get? (r : Registry) (h : Handle) : Option Node := r.arena[h.index]?

/-- The range of the declaration at a handle. -/
def rangeAt (r : Registry) (h : Handle) : Span :=
  ((r.get? h).map fun d => d.label.range).getD default

/-- Adds a declaration and gives its handle.  A name that is there is refused with the ranges of
    both declarations. -/
def insert (d : Node) : EStateM ExtractError Registry Handle := do
  let r ← get
  match r.lookup d.label.name with
  | some first => throw (.duplicate d.label.name (r.rangeAt first) d.label.range)
  | none =>
    let h : Handle := ⟨r.size⟩
    set { r with arena := r.arena ++ [d], index := r.index ++ [(d.label.name, h)] }
    return h

end Registry

namespace Table

/-- Writes a table.  If that fails, nothing is left of it. -/
def write {α : Type} (t : Table) (m : EStateM ExtractError Registry α) :
    Except ExtractError (Table × α) :=
  match m.run (.ofTable t) with
  | .ok a r => .ok (r.toTable, a)
  | .error e _ => .error e

/-- Adds a declaration and gives its handle. -/
def insert (t : Table) (d : Node) : Except ExtractError (Table × Handle) :=
  t.write (Registry.insert d)

end Table

end SchemaForest
