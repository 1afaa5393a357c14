import SchemaForest.Proofs.Resolution
import SchemaForest.Schema.JsonView

/-!
# The objects of the view

Every node shows as one object: its label around the list of its children (`Label.object`).  What the
children are depends on whether the node is a reference (`Table.nodeView_reference`) or not
(`Table.nodeView_inner`), and these two equations are all that is needed of how the view walks.  The
view of a table is the list of the views of its declarations under their names (`Table.toJson_eq`).

Behind the equations stand the readers of an object.  What a field of an object holds is computed from
the label once, and the theorems about views only read fields.
-/

namespace SchemaForest

/-! ## Reading objects -/

namespace Json

/-- The fields of an object in order. -/
def fields : Json → List (String × Json)
  | .object fields => fields
  | _ => []

/-- The items of an array in order. -/
def items : Json → List Json
  | .array items => items
  | _ => []

def text? : Json → Option String
  | .string s => some s
  | _ => none

/-- The text under a name of an object. -/
def textAt? (v : Json) (name : String) : Option String := (v.field? name).bind text?

/-- The objects in the list of children of an object. -/
def children (v : Json) : List Json := ((v.field? "children").map items).getD []

/-- The name of a declaration that an object shows. -/
def declared? (v : Json) : Option String :=
  if v.textAt? "kind" = some Kind.declaration.name then v.textAt? "name" else none

end Json

/-! ## Objects of labels -/

/-- The name that an unresolved reference holds. -/
def Kind.unresolved? : Kind → Option String
  | .unresolved name => some name
  | _ => none

namespace Label

/-- The range of a label, if the view shows ranges. -/
def shownRange? (options : ViewOptions) (a : Label) : Option Span :=
  if options.ranges then some a.range else none

/-- The object of a label around the objects of its children. -/
def object (options : ViewOptions) (a : Label) (target : Option String) (children : List Json) :
    Json :=
  .object (a.head target ++ [("children", .array children)] ++ a.tail options)

variable (options : ViewOptions) (a : Label) (target : Option String) (cs : List Json)

@[simp] theorem name_object : (a.object options target cs).textAt? "name" = some a.name := rfl

@[simp] theorem kind_object : (a.object options target cs).textAt? "kind" = some a.kind.name := rfl

@[simp] theorem children_object : (a.object options target cs).children = cs := by
  cases target <;> rfl

@[simp] theorem target_object (n : String) :
    (a.object options (some n) cs).textAt? "referenceName" = some n := rfl

/-- Only the object of a declaration is one that shows a declaration. -/
theorem declared?_object :
    (a.object options target cs).declared? =
      if a.kind = .declaration then some a.name else none := by
  have hname : a.kind.name = Kind.declaration.name ↔ a.kind = .declaration := by
    cases a.kind <;> simp [Kind.name]
  rw [Json.declared?, kind_object, name_object]
  exact if_congr (Option.some_inj.trans hname) rfl rfl

/-- Behind the children an object holds what may be there or not. -/
theorem tail_eq :
    a.tail options =
      (a.kind.literal?.toList.map fun v => ("literalValue", v)) ++
      (a.kind.unresolved?.toList.map fun n => ("referenceName", .string n)) ++
      (a.comment.toList.map fun text => ("rawComment", .string text)) ++
      (a.annotations.toList.map fun m => ("annotations", m.toJson)) ++
      ((a.shownRange? options).toList.map fun s =>
        ("sourceRange", .array [.integer s.start, .integer s.stop])) := by
  obtain ⟨name, kind, range, comment, annotations⟩ := a
  obtain ⟨ranges⟩ := options
  cases kind <;> cases ranges <;> rfl

/-- What is not in front of the children is behind them. -/
theorem field?_object {key : String} (hhead : Entries.get? (a.head target) key = none)
    (hkey : key ≠ "children") :
    (a.object options target cs).field? key = Entries.get? (a.tail options) key := by
  have hchildren : Entries.get? [("children", Json.array cs)] key = none := by
    rw [Entries.get?, List.lookup_cons, beq_false_of_ne hkey]
    rfl
  rw [object, Json.field?, Entries.get?_append, Entries.get?_append, hhead, hchildren]
  rfl

theorem literal_object :
    (a.object options target cs).field? "literalValue" = a.kind.literal? := by
  rw [field?_object _ _ _ _ (by cases target <;> rfl) (by decide), tail_eq]
  simp [Entries.get?_append, Entries.get?_optional, Entries.get?_optional_self]

theorem comment_object : (a.object options target cs).textAt? "rawComment" = a.comment := by
  rw [Json.textAt?, field?_object _ _ _ _ (by cases target <;> rfl) (by decide), tail_eq]
  simp only [Entries.get?_append, Entries.get?_optional, Entries.get?_optional_self]
  cases a.comment <;> rfl

theorem range_object :
    (a.object options target cs).field? "sourceRange" =
      (a.shownRange? options).map fun s => .array [.integer s.start, .integer s.stop] := by
  rw [field?_object _ _ _ _ (by cases target <;> rfl) (by decide), tail_eq]
  simp [Entries.get?_append, Entries.get?_optional, Entries.get?_optional_self]

theorem unresolved_object :
    (a.object options none cs).textAt? "referenceName" = a.kind.unresolved? := by
  rw [Json.textAt?, field?_object _ _ _ _ rfl (by decide), tail_eq]
  simp only [Entries.get?_append, Entries.get?_optional, Entries.get?_optional_self]
  cases a.kind.unresolved? <;> rfl

end Label

/-- The name of the kind says whether a label is a reference. -/
theorem Kind.name_eq_reference_iff {kind : Kind} :
    kind.name = "reference" ↔ ∃ h, kind = .reference h := by
  cases kind <;> simp [Kind.name]

namespace Table

variable {t : Table} {options : ViewOptions} {closed : List Handle}

/-! ## Handles and declarations -/

theorem mem_handles_iff {h : Handle} : h ∈ t.handles ↔ ∃ d, t.get? h = some d := by
  rw [handles, List.mem_map]
  constructor
  · rintro ⟨i, hi, rfl⟩
    exact ⟨_, List.getElem?_eq_getElem (List.mem_range.1 hi)⟩
  · rintro ⟨d, hd⟩
    obtain ⟨hlt, -⟩ := List.getElem?_eq_some_iff.1 hd
    exact ⟨h.index, List.mem_range.2 hlt, rfl⟩

theorem nodup_handles (t : Table) : t.handles.Nodup :=
  List.nodup_range.map fun _ _ h => congrArg Handle.index h

theorem mem_entries_iff {h : Handle} {d : Node} : (h, d) ∈ t.entries ↔ t.get? h = some d := by
  rw [entries, List.mem_filterMap]
  constructor
  · rintro ⟨k, -, hk⟩
    obtain ⟨e, he, heq⟩ := Option.map_eq_some_iff.1 hk
    cases heq
    exact he
  · exact fun hd => ⟨h, mem_handles_iff.2 ⟨d, hd⟩, by rw [hd]; rfl⟩

/-- The entries hold the declarations in order. -/
theorem map_snd_entries (t : Table) : t.entries.map Prod.snd = t.declarations := by
  have hrange : t.handles = (List.finRange t.declarations.length).map fun i => ⟨i.val⟩ := by
    rw [handles, size, ← List.map_coe_finRange_eq_range, List.map_map]
    rfl
  have hget : ∀ i : Fin t.declarations.length,
      ((t.get? ⟨i.val⟩).map fun d => ((⟨i.val⟩ : Handle), d)) =
        some (⟨i.val⟩, t.declarations.get i) := by
    intro i
    rw [get?, List.getElem?_eq_getElem i.isLt]
    rfl
  rw [entries, hrange, List.filterMap_map]
  simp only [Function.comp_def, hget]
  rw [List.filterMap_eq_map', List.map_map]
  exact List.map_get_finRange t.declarations

theorem map_name_entries (t : Table) : (t.entries.map fun e => e.2.label.name) = t.names := by
  rw [names, ← map_snd_entries, List.map_map]
  rfl

/-- The nodes of a declaration are nodes of the table. -/
theorem mem_nodes_of_get? {h : Handle} {d n : Node} (hd : t.get? h = some d) (hn : n ∈ d.flatten) :
    n ∈ t.nodes := Forest.mem_flatten.2 ⟨d, List.mem_of_getElem? hd, hn⟩

theorem nameAt_of_get? {h : Handle} {d : Node} (hd : t.get? h = some d) :
    t.nameAt h = d.label.name := by
  rw [nameAt, hd]
  rfl

/-- Where names differ, a name and its handle belong together. -/
theorem handle?_eq_some_iff (hnodup : t.names.Nodup) {h : Handle} {name : String} :
    t.handle? name = some h ↔ ∃ d, t.get? h = some d ∧ d.label.name = name := by
  rw [handle?, handleIn_eq_some_iff hnodup, names, List.getElem?_map, Option.map_eq_some_iff]
  rfl

/-- Where names differ, no two handles have one name. -/
theorem nameAt_injOn (hnodup : t.names.Nodup) {h k : Handle} (hh : h ∈ t.handles)
    (hk : k ∈ t.handles) (heq : t.nameAt h = t.nameAt k) : h = k := by
  obtain ⟨d, hd⟩ := mem_handles_iff.1 hh
  obtain ⟨e, he⟩ := mem_handles_iff.1 hk
  rw [nameAt_of_get? hd, nameAt_of_get? he] at heq
  have hfound := (handle?_eq_some_iff hnodup).2 ⟨d, hd, heq⟩
  exact Option.some.inj (hfound.symm.trans ((handle?_eq_some_iff hnodup).2 ⟨e, he, rfl⟩))

/-! ## How nodes show -/

theorem nodesJson_eq_map (expand : (h : Handle) → h ∈ closed → Json) (ns : List Node) :
    t.nodesJson options closed expand ns = ns.map (t.nodeJson options closed expand) := by
  induction ns with
  | nil => rfl
  | cons n rest ih => rw [nodesJson, ih, List.map_cons]

/-- The view of a node while the declarations at closed handles may show inside. -/
def nodeView (t : Table) (options : ViewOptions) (closed : List Handle) (n : Node) : Json :=
  t.nodeJson options closed (fun h _ => t.declarationJson options (closed.erase h) h) n

theorem declarationJson_eq {h : Handle} {d : Node} (hd : t.get? h = some d) :
    t.declarationJson options closed h = t.nodeView options closed d := by
  rw [declarationJson, hd]
  rfl

/-- A reference shows its declaration if that is closed, and then it opens it. -/
theorem nodeView_reference {n : Node} {h : Handle} {d : Node} (hkind : n.label.kind = .reference h)
    (hd : t.get? h = some d) :
    t.nodeView options closed n = n.label.object options (some d.label.name)
      (if h ∈ closed then [t.nodeView options (closed.erase h) d] else []) := by
  obtain ⟨a, cs⟩ := n
  have hkind : a.kind = .reference h := hkind
  rw [nodeView, nodeJson]
  split
  · rename_i h' hkind'
    obtain rfl : h = h' := Kind.reference.inj (hkind.symm.trans hkind')
    rw [nameAt_of_get? hd, declarationJson_eq hd]
    by_cases hclosed : h ∈ closed
    · rw [dif_pos hclosed, if_pos hclosed]
      rfl
    · rw [dif_neg hclosed, if_neg hclosed]
      rfl
  · rename_i hne
    exact absurd hkind (hne h)

/-- What is no reference shows its own children. -/
theorem nodeView_inner {n : Node} (hkind : ∀ h, n.label.kind ≠ .reference h) :
    t.nodeView options closed n =
      n.label.object options none (n.children.map (t.nodeView options closed)) := by
  obtain ⟨a, cs⟩ := n
  rw [nodeView, nodeJson]
  split
  · rename_i h hkind'
    exact absurd hkind' (hkind h)
  · rw [nodesJson_eq_map]
    rfl

/-- Every node shows as the object of its label. -/
theorem exists_nodeView_eq_object (t : Table) (options : ViewOptions) (closed : List Handle)
    (n : Node) :
    ∃ target cs, t.nodeView options closed n = n.label.object options target cs := by
  obtain ⟨a, cs⟩ := n
  rw [nodeView, nodeJson]
  split
  · exact ⟨_, _, rfl⟩
  · exact ⟨_, _, rfl⟩

theorem kind_nodeView (n : Node) :
    (t.nodeView options closed n).textAt? "kind" = some n.label.kind.name := by
  obtain ⟨target, cs, hview⟩ := exists_nodeView_eq_object t options closed n
  rw [hview, Label.kind_object]

/-- A node shows a declaration if it is one. -/
theorem declared?_nodeView (n : Node) :
    (t.nodeView options closed n).declared? =
      if n.label.kind = .declaration then some n.label.name else none := by
  obtain ⟨target, cs, hview⟩ := exists_nodeView_eq_object t options closed n
  rw [hview, Label.declared?_object]

/-- What a table shows are its declarations, each under its name and with all others closed. -/
theorem toJson_eq (t : Table) (options : ViewOptions) :
    t.toJson options = .object (t.entries.map fun e =>
      (e.2.label.name, t.nodeView options (t.handles.erase e.1) e.2)) := by
  rw [toJson, entries, List.map_filterMap, ← List.filterMap_eq_map]
  refine congrArg Json.object (List.filterMap_congr fun h hh => ?_)
  obtain ⟨d, hd⟩ := mem_handles_iff.1 hh
  rw [Function.comp, nameAt_of_get? hd, declarationJson_eq hd, hd]
  rfl

end Table

end SchemaForest
