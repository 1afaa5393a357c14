import SchemaForest.Json.Basic
import SchemaForest.Schema.Table

/-!
# The JSON view

A table shows as one object with an entry for each declaration.  A reference shows its declaration
in full as its only child, unless that declaration is being shown around it: then it has no
children, and only the name of the declaration is left.

The view walks with the handles that are still closed.  Showing a declaration takes its handle out,
so there is an end, whatever the declarations refer to.
-/

namespace SchemaForest

/-- Whether the view shows where the nodes stand. -/
structure ViewOptions where
  ranges : Bool := false

namespace Label

/-- What a label shows in front of its children. -/
def head (a : Label) (target : Option String) : List (String × Json) :=
  [("name", .string a.name), ("kind", .string a.kind.name)] ++
    target.toList.map fun n => ("referenceName", .string n)

/-- What a label shows behind its children. -/
def tail (options : ViewOptions) (a : Label) : List (String × Json) :=
  (a.kind.literal?.toList.map fun v => ("literalValue", v)) ++
  (match a.kind with
    | .unresolved n => [("referenceName", .string n)]
    | _ => []) ++
  (a.comment.toList.map fun text => ("rawComment", .string text)) ++
  (a.annotations.toList.map fun m => ("annotations", m.toJson)) ++
  (if options.ranges then
    [("sourceRange", .array [.integer a.range.start, .integer a.range.stop])]
  else [])

end Label

namespace Table

/-- The name of the declaration at a handle. -/
def nameAt (t : Table) (h : Handle) : String := ((t.get? h).map fun d => d.label.name).getD ""

mutual
/-- The view of a node, given how the declarations at closed handles show. -/
def nodeJson (t : Table) (options : ViewOptions) (closed : List Handle)
    (expand : (h : Handle) → h ∈ closed → Json) : Node → Json
  | .node a cs =>
    match a.kind with
    | .reference h =>
      let shown := if m : h ∈ closed then [expand h m] else []
      .object (a.head (some (t.nameAt h)) ++ [("children", .array shown)] ++ a.tail options)
    | _ =>
      .object (a.head none ++ [("children", .array (nodesJson t options closed expand cs))] ++
        a.tail options)

def nodesJson (t : Table) (options : ViewOptions) (closed : List Handle)
    (expand : (h : Handle) → h ∈ closed → Json) : List Node → List Json
  | [] => []
  | n :: rest => nodeJson t options closed expand n :: nodesJson t options closed expand rest
end

/-- The view of the declaration at a handle; the declarations at closed handles may show inside. -/
def declarationJson (t : Table) (options : ViewOptions) (closed : List Handle) (h : Handle) :
    Json :=
  match t.get? h with
  | some d =>
    nodeJson t options closed (fun k _ => declarationJson t options (closed.erase k) k) d
  | none => .null
termination_by closed.length
decreasing_by
  rename_i m
  rw [List.length_erase_of_mem m]
  exact Nat.sub_lt (List.length_pos_of_mem m) Nat.one_pos

/-- The view of a table. -/
def toJson (t : Table) (options : ViewOptions) : Json :=
  .object (t.handles.map fun h =>
    (t.nameAt h, declarationJson t options (t.handles.erase h) h))

end Table

end SchemaForest
