import Mathlib.Logic.Relation
import SchemaForest.Proofs.Attachment
import SchemaForest.Proofs.OpenStack

/-!
# The declarations around an object

Where an object stands in a view is told by the objects around it (`Json.StandsIn`), and which
declarations are open there is told by their names (`Json.declared`).  So what holds along all paths of
a view can be said of the view alone.

The crux is one invariant, `Table.Showing`: an object that stands inside of others is the view of some
node, with the declarations around it open and each of them only once.  It holds of the entries, and it
passes from an object to its children in one of two ways (`Table.exists_showing`):

1. The child of a reference is a declaration that was closed, and now it is open.
2. The children of any other node are no declarations, so nothing is opened.

The invariant also says that a chain of references leads from each open declaration to the innermost
one.  That is not needed to come to an end, but it is what bounds the declarations that can be missed
in an inlined copy.
-/

namespace SchemaForest

namespace Json

/-- Where objects stand in a view: an entry inside of nothing, a child inside of its parent and of
    what the parent is inside of, the innermost first. -/
inductive StandsIn (view : Json) : Json → List Json → Prop
  | entry {name : String} {o : Json} (h : (name, o) ∈ view.fields) : StandsIn view o []
  | child {o c : Json} {around : List Json} (h : StandsIn view o around) (hc : c ∈ o.children) :
    StandsIn view c (o :: around)

/-- The names of the declarations that some objects show. -/
def declared (os : List Json) : List String := os.filterMap declared?

theorem declared_cons_of_some {o : Json} {name : String} (h : o.declared? = some name)
    (os : List Json) : declared (o :: os) = name :: declared os := List.filterMap_cons_some h

theorem declared_cons_of_none {o : Json} (h : o.declared? = none) (os : List Json) :
    declared (o :: os) = declared os := List.filterMap_cons_none h

end Json

namespace Table

variable {t : Table} {options : ViewOptions}

/-- A declaration refers to another if a reference to that one stands in it. -/
def Refers (t : Table) (h k : Handle) : Prop :=
  ∃ d, t.get? h = some d ∧ ∃ n ∈ d.flatten, n.label.kind = .reference k

/-- The object shows the node while some declarations are open, and around it are the objects of
    these. -/
structure Showing (t : Table) (options : ViewOptions) (o : Json) (around : List Json)
    (opened : List Handle) (n : Node) : Prop where
  nodup : opened.Nodup
  valid : ∀ h ∈ opened, h ∈ t.handles
  names : Json.declared (o :: around) = opened.map t.nameAt
  view : ∃ closed, t.Closes opened closed ∧ o = t.nodeView options closed n
  /-- The node is in the innermost declaration, to which references lead from all others. -/
  inside : ∃ h d, t.get? h = some d ∧ n ∈ d.flatten ∧ h ∈ opened ∧
    ∀ k ∈ opened, Relation.ReflTransGen t.Refers k h

theorem Showing.mem_nodes {o : Json} {around : List Json} {opened : List Handle} {n : Node}
    (h : t.Showing options o around opened n) : n ∈ t.nodes := by
  obtain ⟨k, d, hd, hn, -, -⟩ := h.inside
  exact mem_nodes_of_get? hd hn

/-- Every declaration stands in the view of its table. -/
theorem standsIn_entry (options : ViewOptions) {h : Handle} {d : Node} (hd : t.get? h = some d) :
    Json.StandsIn (t.toJson options) (t.nodeView options (t.handles.erase h) d) [] := by
  have hentry : (d.label.name, t.nodeView options (t.handles.erase h) d) ∈
      (t.toJson options).fields := by
    rw [toJson_eq]
    exact List.mem_map.2 ⟨(h, d), mem_entries_iff.2 hd, rfl⟩
  exact .entry hentry

/-- A child of a node that is no reference stands in the object of the node. -/
theorem standsIn_child {view : Json} {closed : List Handle} {n m : Node} {around : List Json}
    (h : Json.StandsIn view (t.nodeView options closed n) around)
    (hkind : ∀ k, n.label.kind ≠ .reference k) (hm : m ∈ n.children) :
    Json.StandsIn view (t.nodeView options closed m) (t.nodeView options closed n :: around) := by
  refine .child h ?_
  rw [nodeView_inner hkind, Label.children_object]
  exact List.mem_map_of_mem hm

/-- An entry shows a declaration that is open alone. -/
theorem showing_entry (ht : t.Shaped) {h : Handle} {d : Node} (hd : t.get? h = some d) :
    t.Showing options (t.nodeView options (t.handles.erase h) d) [] [h] d := by
  have hdeclared : (t.nodeView options (t.handles.erase h) d).declared? = some (t.nameAt h) := by
    rw [declared?_nodeView, if_pos (ht.roots d (List.mem_of_getElem? hd)), nameAt_of_get? hd]
  refine ⟨List.nodup_singleton h, fun k hk => ?_, Json.declared_cons_of_some hdeclared [],
    ⟨_, (closes_nil t).push h, rfl⟩, h, d, hd, d.mem_flatten_self, List.mem_singleton_self h,
    fun k hk => ?_⟩
  · rw [List.mem_singleton.1 hk]
    exact mem_handles_iff.2 ⟨d, hd⟩
  · rw [List.mem_singleton.1 hk]

/-- The child of a reference shows its declaration, which was closed and is opened now. -/
theorem Showing.expand (ht : t.Shaped) {o c : Json} {around : List Json} {opened : List Handle}
    {n : Node} (hs : t.Showing options o around opened n) {h : Handle}
    (hkind : n.label.kind = .reference h) (hc : c ∈ o.children) :
    ∃ d, t.get? h = some d ∧ t.Showing options c (o :: around) (h :: opened) d := by
  obtain ⟨closed, hcloses, rfl⟩ := hs.view
  obtain ⟨d, hd⟩ := ht.linked n hs.mem_nodes h hkind
  have hc : c ∈ if h ∈ closed then [t.nodeView options (closed.erase h) d] else [] := by
    rwa [nodeView_reference hkind hd, Label.children_object] at hc
  have hclosed : h ∈ closed := by
    by_contra hopen
    rw [if_neg hopen] at hc
    cases hc
  rw [if_pos hclosed, List.mem_singleton] at hc
  subst hc
  have hdeclared : (t.nodeView options (closed.erase h) d).declared? = some (t.nameAt h) := by
    rw [declared?_nodeView, if_pos (ht.roots d (List.mem_of_getElem? hd)), nameAt_of_get? hd]
  obtain ⟨hvalid, hnew⟩ := (hcloses.mem_iff h).1 hclosed
  refine ⟨d, hd, List.nodup_cons.2 ⟨hnew, hs.nodup⟩, List.forall_mem_cons.2 ⟨hvalid, hs.valid⟩, ?_,
    ⟨_, hcloses.push h, rfl⟩, h, d, hd, d.mem_flatten_self, List.mem_cons_self, ?_⟩
  · rw [Json.declared_cons_of_some hdeclared, hs.names, List.map_cons]
  · obtain ⟨k, e, he, hn, -, hchain⟩ := hs.inside
    exact List.forall_mem_cons.2 ⟨.refl, fun j hj => (hchain j hj).tail ⟨e, he, n, hn, hkind⟩⟩

/-- A child of any other node shows a child of it and opens nothing. -/
theorem Showing.inner (ht : t.Shaped) {o c : Json} {around : List Json} {opened : List Handle}
    {n : Node} (hs : t.Showing options o around opened n)
    (hkind : ∀ h, n.label.kind ≠ .reference h) (hc : c ∈ o.children) :
    ∃ m ∈ n.children, t.Showing options c (o :: around) opened m := by
  obtain ⟨closed, hcloses, rfl⟩ := hs.view
  have hc : c ∈ n.children.map (t.nodeView options closed) := by
    rwa [nodeView_inner hkind, Label.children_object] at hc
  obtain ⟨m, hm, rfl⟩ := List.mem_map.1 hc
  obtain ⟨k, e, he, hn, hk, hchain⟩ := hs.inside
  have hbelow : m ∈ Forest.flatten e.children := Tree.mem_flatten_of_mem_children hn hm
  have hdeclared : (t.nodeView options closed m).declared? = none := by
    rw [declared?_nodeView, if_neg (ht.below e (List.mem_of_getElem? he) m hbelow)]
  refine ⟨m, hm, hs.nodup, hs.valid, ?_, ⟨closed, hcloses, rfl⟩, k, e, he, ?_, hk, hchain⟩
  · rw [Json.declared_cons_of_none hdeclared, hs.names]
  · exact Tree.mem_flatten.2 (Or.inr hbelow)

/-- Whatever stands in the view of a table shows a node, with the declarations around it open. -/
theorem exists_showing (ht : t.Shaped) {o : Json} {around : List Json}
    (h : Json.StandsIn (t.toJson options) o around) :
    ∃ opened n, t.Showing options o around opened n := by
  induction h with
  | entry h =>
    rw [toJson_eq, Json.fields, List.mem_map] at h
    obtain ⟨⟨k, d⟩, he, heq⟩ := h
    cases heq
    exact ⟨[k], d, showing_entry ht (mem_entries_iff.1 he)⟩
  | child _ hc ih =>
    obtain ⟨opened, n, hs⟩ := ih
    by_cases href : ∃ k, n.label.kind = .reference k
    · obtain ⟨k, hkind⟩ := href
      obtain ⟨d, -, hd⟩ := hs.expand ht hkind hc
      exact ⟨k :: opened, d, hd⟩
    · obtain ⟨m, -, hm⟩ := hs.inner ht (not_exists.1 href) hc
      exact ⟨opened, m, hm⟩

/-- The declarations around an object and its own are all different. -/
theorem Showing.nodup_declared (ht : t.Shaped) {o : Json} {around : List Json}
    {opened : List Handle} {n : Node} (hs : t.Showing options o around opened n) :
    (Json.declared (o :: around)).Nodup := by
  rw [hs.names]
  exact hs.nodup.map_on fun h hh k hk heq => nameAt_injOn ht.nodup (hs.valid h hh) (hs.valid k hk) heq

/-- What the object of a reference holds: the name of a declaration, and for its children the view of
    that declaration, unless it is open already. -/
theorem Showing.reference (ht : t.Shaped) {o : Json} {around : List Json} {opened : List Handle}
    {n : Node} (hs : t.Showing options o around opened n)
    (hkind : o.textAt? "kind" = some "reference") :
    ∃ h d closed, n.label.kind = .reference h ∧ t.get? h = some d ∧ t.Closes opened closed ∧
      o.textAt? "referenceName" = some d.label.name ∧
      Json.declared around = opened.map t.nameAt ∧
      (d.label.name ∈ Json.declared around ↔ h ∈ opened) ∧
      o.children = if h ∈ opened then [] else [t.nodeView options (closed.erase h) d] := by
  obtain ⟨closed, hcloses, rfl⟩ := hs.view
  rw [kind_nodeView, Option.some_inj] at hkind
  obtain ⟨h, hkind⟩ := Kind.name_eq_reference_iff.1 hkind
  obtain ⟨d, hd⟩ := ht.linked n hs.mem_nodes h hkind
  have hvalid : h ∈ t.handles := mem_handles_iff.2 ⟨d, hd⟩
  -- A reference is no declaration itself, so the open ones are those around it.
  have hnames : Json.declared around = opened.map t.nameAt := by
    rw [← hs.names, Json.declared_cons_of_none]
    rw [declared?_nodeView, hkind, if_neg fun heq => nomatch heq]
  refine ⟨h, d, closed, hkind, hd, hcloses, ?_, hnames, ?_, ?_⟩
  · rw [nodeView_reference hkind hd, Label.target_object]
  · rw [hnames, List.mem_map, ← nameAt_of_get? hd]
    constructor
    · rintro ⟨k, hk, heq⟩
      exact nameAt_injOn ht.nodup (hs.valid k hk) hvalid heq ▸ hk
    · exact fun hopen => ⟨h, hopen, rfl⟩
  · rw [nodeView_reference hkind hd, Label.children_object]
    by_cases hopen : h ∈ opened
    · rw [if_pos hopen, if_neg fun hclosed => ((hcloses.mem_iff h).1 hclosed).2 hopen]
    · rw [if_neg hopen, if_pos ((hcloses.mem_iff h).2 ⟨hvalid, hopen⟩)]

end Table

/-- The view comes to its end, and no declaration is shown inside of itself.  The walk with the stack
    of open declarations has one run over an extracted table, which gives the view and leaves the stack
    empty.  Along every path of the view all declarations differ.  A reference has no children if its
    declaration is one of those around it; otherwise its only child is the object of the declaration,
    as the walk shows it while the declarations around are open. -/
theorem view_opens_each_once {ds : List Declaration} {cs : List Comment} {t : Table}
    (h : extract ds cs = .ok t) (options : ViewOptions) :
    (∃ out, t.toJson options = .object out ∧
      ∀ out' left, t.ShowsEntries options t.entries [] [] out' left ↔ out' = out ∧ left = []) ∧
    ∀ o around, Json.StandsIn (t.toJson options) o around →
      (Json.declared (o :: around)).Nodup ∧
      (o.textAt? "kind" = some "reference" →
        ∃ target h d, o.textAt? "referenceName" = some target ∧ t.handle? target = some h ∧
          t.get? h = some d ∧ (o.children = [] ↔ target ∈ Json.declared around) ∧
          (target ∉ Json.declared around →
            ∃ c opened, o.children = [c] ∧ c.declared? = some target ∧
              opened.map t.nameAt = Json.declared around ∧
              t.Shows options (h :: opened) [d] [c] (h :: opened))) := by
  have ht := shaped_of_extract h
  refine ⟨?_, fun o around ho => ?_⟩
  · obtain ⟨out, hout⟩ : ∃ out, t.toJson options = .object out := ⟨_, t.toJson_eq options⟩
    refine ⟨out, hout, fun out' left => ?_⟩
    rw [Table.showsEntries_entries_iff ht, hout, Json.object.injEq, eq_comm]
  · obtain ⟨opened, n, hs⟩ := Table.exists_showing ht ho
    refine ⟨hs.nodup_declared ht, fun hkind => ?_⟩
    obtain ⟨h, d, closed, -, hd, hcloses, htarget, hnames, hmem, hchildren⟩ := hs.reference ht hkind
    refine ⟨d.label.name, h, d, htarget, (Table.handle?_eq_some_iff ht.nodup).2 ⟨d, hd, rfl⟩, hd,
      ?_, fun hclosed => ?_⟩
    · rw [hmem, hchildren]
      by_cases hopen : h ∈ opened
      · simp [hopen]
      · simp [hopen]
    · have hopen : h ∉ opened := fun hopen => hclosed (hmem.2 hopen)
      have hshown : (t.nodeView options (closed.erase h) d).declared? = some d.label.name := by
        rw [Table.declared?_nodeView, if_pos (ht.roots d (List.mem_of_getElem? hd))]
      rw [if_neg hopen] at hchildren
      refine ⟨_, opened, hchildren, hshown, hnames.symm, ?_⟩
      exact Table.shows_view ht [d] (hcloses.push h) (Table.forall_mem_nodes_of_get? hd)

/-- The table of the knot. -/
def knotTable : Table :=
  ⟨[Node.of "A" .declaration ⟨0, 40⟩ [Node.of "A" .union ⟨0, 40⟩
      [Node.of "A" .object ⟨0, 40⟩ [Node.of "b" (.reference ⟨1⟩) ⟨13, 14⟩ []],
        Node.of "A" (.reference ⟨0⟩) ⟨33, 34⟩ []]],
    Node.of "B" .declaration ⟨57, 99⟩ [Node.of "c" .intersection ⟨64, 89⟩
      [Node.of "c" (.reference ⟨0⟩) ⟨64, 65⟩ [], Node.of "c" (.reference ⟨1⟩) ⟨70, 71⟩ []]]]⟩

theorem extract_knot : extract knot [] = .ok knotTable :=
  extract_eq_ok_iff.2 ⟨_, _, [], rfl, rfl, rfl, rfl⟩

theorem view_opens_each_once_knot :
    ∃ o around, Json.StandsIn (knotTable.toJson {}) o around ∧ Json.declared around = ["A"] ∧
      o.textAt? "referenceName" = some "A" ∧ o.children = [] := by
  obtain ⟨-, hall⟩ := view_opens_each_once extract_knot {}
  -- The second arm of the union is the reference of the first declaration to itself.
  have hroot := @Table.standsIn_entry knotTable {} ⟨0⟩ _ rfl
  have hunion := Table.standsIn_child hroot (fun _ heq => nomatch heq) List.mem_cons_self
  have harm := Table.standsIn_child hunion (fun _ heq => nomatch heq)
    (List.mem_cons_of_mem _ List.mem_cons_self)
  have hview := @Table.nodeView_reference knotTable {} (knotTable.handles.erase ⟨0⟩)
    (Node.of "A" (.reference ⟨0⟩) ⟨33, 34⟩ []) _ _ rfl rfl
  obtain ⟨-, href⟩ := hall _ _ harm
  obtain ⟨target, -, -, htarget, -, -, hnil, -⟩ := href (congrArg (Json.textAt? · "kind") hview)
  have hname : some target = some "A" :=
    htarget.symm.trans (congrArg (Json.textAt? · "referenceName") hview)
  obtain rfl : target = "A" := Option.some.inj hname
  refine ⟨_, _, harm, ?_, htarget, hnil.2 ?_⟩ <;>
    simp only [Json.declared, List.filterMap_cons, Table.declared?_nodeView]
  · rfl
  · exact List.mem_cons_self

end SchemaForest
