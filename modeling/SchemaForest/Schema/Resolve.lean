import SchemaForest.Schema.Registry
import SchemaForest.Schema.Translate

/-!
# Resolving references

Declarations are translated one after the other, so a reference finds its declaration at once only
if that stands further up.  `Registry.declareAll` leaves the others by name, and `Registry.resolve`
puts the handles in when all declarations are known.
-/

namespace SchemaForest

/-- Resolves one label.  Only a name that is not declared fails. -/
def Table.resolveLabel (lookup : String → Option Handle) (a : Label) :
    Outcome Label Unit ExtractError :=
  match a.kind with
  | .unresolved name =>
    match lookup name with
    | some h => ⟨{ a with kind := .reference h }, (), none⟩
    | none => ⟨a, (), some (.unresolved name a.range)⟩
  | _ => ⟨a, (), none⟩

namespace Registry

/-- Translates a declaration against a registry and adds it. -/
def declare (d : Declaration) : EStateM ExtractError Registry Handle := do
  let r ← get
  let n ← ofExcept (translateDeclaration r.lookup d)
  insert n

/-- Adds declarations in order. -/
def declareAll : List Declaration → EStateM ExtractError Registry Unit
  | [] => return ()
  | d :: rest => do
    let _ ← declare d
    declareAll rest

/-- Resolves all references in flat order up to the first whose name is not declared.  What was
    resolved until then stays resolved. -/
def resolve : EStateM ExtractError Registry Unit := do
  let r ← get
  let (arena, _, fault) :=
    Forest.tryVisit (fun _ n _ => Table.resolveLabel r.lookup n.label) () r.arena
  set { r with arena := arena }
  match fault with
  | some e => throw e
  | none => return ()

end Registry

namespace Table

/-- Translates a declaration against a table and adds it. -/
def declare (t : Table) (d : Declaration) : Except ExtractError (Table × Handle) :=
  t.write (Registry.declare d)

/-- Adds declarations in order. -/
def declareAll (t : Table) (ds : List Declaration) : Except ExtractError Table :=
  (t.write (Registry.declareAll ds)).map Prod.fst

/-- The table of some declarations; what is declared further down than it is used stays
    unresolved. -/
def ofDeclarations (ds : List Declaration) : Except ExtractError Table := empty.declareAll ds

/-- Resolves the references of a table.  The table that comes back holds what was resolved until an
    error. -/
def resolve (t : Table) : Table × Option ExtractError :=
  match Registry.resolve.run (.ofTable t) with
  | .ok _ r => (r.toTable, none)
  | .error e r => (r.toTable, some e)

end Table

end SchemaForest
