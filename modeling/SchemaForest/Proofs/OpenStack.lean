import SchemaForest.Proofs.Shape
import SchemaForest.Proofs.View

/-!
# The view by a stack of open declarations

Told with a stack, the view is a walk that pushes a declaration when it starts to show it and pops it
when it is done.  A reference to a declaration in the stack is cut off; any other shows its declaration
in full.  `Table.Shows` is a run of this walk to its end, so that a run exists at all is the termination
of the walk: nothing in the rules makes the tables smaller.

1. The handles that `Table.nodeView` keeps as closed are those of the table that are not in the stack,
   each of them once (`Table.Closes`).
2. **What a run does** is by induction on the run: it gives the views of its nodes, and it leaves the
   stack that it found (`Table.Shows.eq_view`).
3. **That there is a run** (`Table.shows_view`) is by induction on a pair: a push leaves fewer closed
   handles, and every other step leaves fewer nodes.  This needs references that lead to declarations.
-/

namespace SchemaForest

namespace Table

variable {t : Table} {options : ViewOptions}

/-! ## Runs -/

/-- A run of the walk over some nodes: the stack that it starts with, the nodes, the objects that it
    gives and the stack that it leaves. -/
inductive Shows (t : Table) (options : ViewOptions) :
    List Handle → List Node → List Json → List Handle → Prop
  | nil (opened : List Handle) : Shows t options opened [] [] opened
  /-- A declaration that is open is not shown once more. -/
  | cut {opened : List Handle} {n : Node} {rest : List Node} {vs : List Json} {left : List Handle}
    {h : Handle} {d : Node} (hkind : n.label.kind = .reference h) (hd : t.get? h = some d)
    (hopen : h ∈ opened) (hrest : Shows t options opened rest vs left) :
    Shows t options opened (n :: rest) (n.label.object options (some d.label.name) [] :: vs) left
  /-- Any other is pushed, shown and popped. -/
  | expand {opened : List Handle} {n : Node} {rest : List Node} {v : Json} {vs : List Json}
    {inner left : List Handle} {h : Handle} {d : Node} (hkind : n.label.kind = .reference h)
    (hd : t.get? h = some d) (hopen : h ∉ opened) (hshow : Shows t options (h :: opened) [d] [v] inner)
    (hrest : Shows t options inner.tail rest vs left) :
    Shows t options opened (n :: rest) (n.label.object options (some d.label.name) [v] :: vs) left
  | inner {opened : List Handle} {n : Node} {rest : List Node} {cs vs : List Json}
    {middle left : List Handle} (hkind : ∀ h, n.label.kind ≠ .reference h)
    (hshow : Shows t options opened n.children cs middle)
    (hrest : Shows t options middle rest vs left) :
    Shows t options opened (n :: rest) (n.label.object options none cs :: vs) left

/-- A run over the declarations of a table: what is left to show, the entries so far and the stack,
    and with which entries and stack it ends. -/
inductive ShowsEntries (t : Table) (options : ViewOptions) :
    List (Handle × Node) → Entries Json → List Handle → Entries Json → List Handle → Prop
  | nil (out : Entries Json) (opened : List Handle) :
    ShowsEntries t options [] out opened out opened
  | cons {h : Handle} {d : Node} {rest : List (Handle × Node)} {out out' : Entries Json} {v : Json}
    {opened inner left : List Handle} (hshow : Shows t options (h :: opened) [d] [v] inner)
    (hrest : ShowsEntries t options rest (Entries.set d.label.name v out) inner.tail out' left) :
    ShowsEntries t options ((h, d) :: rest) out opened out' left

/-! ## Open and closed -/

/-- The closed handles are those of the table that are not open, each once. -/
structure Closes (t : Table) (opened closed : List Handle) : Prop where
  nodup : closed.Nodup
  mem_iff : ∀ h, h ∈ closed ↔ h ∈ t.handles ∧ h ∉ opened

theorem closes_nil (t : Table) : t.Closes [] t.handles :=
  ⟨t.nodup_handles, fun _ => ⟨fun h => ⟨h, List.not_mem_nil⟩, And.left⟩⟩

/-- To open a declaration is to take its handle out of the closed ones. -/
theorem Closes.push {opened closed : List Handle} (h : t.Closes opened closed) (k : Handle) :
    t.Closes (k :: opened) (closed.erase k) := by
  refine ⟨h.nodup.erase k, fun j => ?_⟩
  rw [h.nodup.mem_erase_iff, h.mem_iff, List.mem_cons, not_or]
  exact and_left_comm

/-! ## Runs give the view -/

/-- A run gives the views of its nodes and leaves the stack as it was. -/
theorem Shows.eq_view {opened left : List Handle} {ns : List Node} {vs : List Json}
    (h : t.Shows options opened ns vs left) {closed : List Handle} (hcloses : t.Closes opened closed) :
    vs = ns.map (t.nodeView options closed) ∧ left = opened := by
  induction h generalizing closed with
  | nil => exact ⟨rfl, rfl⟩
  | @cut opened n rest vs left k d hkind hd hopen _ ih =>
    obtain ⟨rfl, rfl⟩ := ih hcloses
    have hclosed : k ∉ closed := fun hk => ((hcloses.mem_iff k).1 hk).2 hopen
    rw [List.map_cons, nodeView_reference hkind hd, if_neg hclosed]
    exact ⟨rfl, rfl⟩
  | @expand opened n rest v vs inner left k d hkind hd hopen _ _ ihshow ihrest =>
    have hclosed : k ∈ closed := (hcloses.mem_iff k).2 ⟨mem_handles_iff.2 ⟨d, hd⟩, hopen⟩
    -- The push is undone behind the declaration, so the rest starts with the stack of the beginning.
    obtain ⟨hv, rfl⟩ := ihshow (hcloses.push k)
    obtain ⟨rfl, rfl⟩ := ihrest hcloses
    rw [List.map_cons, nodeView_reference hkind hd, if_pos hclosed, hv]
    exact ⟨rfl, rfl⟩
  | inner hkind _ _ ihshow ihrest =>
    obtain ⟨rfl, rfl⟩ := ihshow hcloses
    obtain ⟨rfl, rfl⟩ := ihrest hcloses
    rw [List.map_cons, nodeView_inner hkind]
    exact ⟨rfl, rfl⟩

theorem forall_mem_nodes_of_get? {h : Handle} {d : Node} (hd : t.get? h = some d) :
    ∀ n ∈ Forest.flatten [d], n ∈ t.nodes := by
  intro n hn
  rw [Forest.flatten_cons, Forest.flatten_nil, List.append_nil] at hn
  exact mem_nodes_of_get? hd hn

/-- Where references lead to declarations, every walk over nodes of the table comes to its end. -/
theorem shows_view (ht : t.Shaped) : ∀ (ns : List Node) {opened closed : List Handle},
    t.Closes opened closed → (∀ n ∈ Forest.flatten ns, n ∈ t.nodes) →
    t.Shows options opened ns (ns.map (t.nodeView options closed)) opened
  | [], opened, _, _, _ => .nil opened
  | n :: rest, opened, closed, hcloses, hin => by
    have hnode : n ∈ t.nodes := hin n (List.mem_append_left _ n.mem_flatten_self)
    have hrest := shows_view ht rest hcloses fun m hm => hin m (List.mem_append_right _ hm)
    rw [List.map_cons]
    by_cases href : ∃ h, n.label.kind = .reference h
    · obtain ⟨h, hkind⟩ := href
      obtain ⟨d, hd⟩ := ht.linked n hnode h hkind
      rw [nodeView_reference hkind hd]
      by_cases hclosed : h ∈ closed
      · have hshow := shows_view ht [d] (hcloses.push h) (forall_mem_nodes_of_get? hd)
        rw [if_pos hclosed]
        exact .expand hkind hd ((hcloses.mem_iff h).1 hclosed).2 hshow hrest
      · have hopen : h ∈ opened := by
          by_contra hopen
          exact hclosed ((hcloses.mem_iff h).2 ⟨mem_handles_iff.2 ⟨d, hd⟩, hopen⟩)
        rw [if_neg hclosed]
        exact .cut hkind hd hopen hrest
    · have hkind : ∀ h, n.label.kind ≠ .reference h := not_exists.1 href
      have hshow := shows_view ht n.children hcloses fun m hm =>
        hin m (List.mem_append_left _ (Tree.mem_flatten.2 (Or.inr hm)))
      rw [nodeView_inner hkind]
      exact .inner hkind hshow hrest
termination_by ns _ closed => (closed.length, (Forest.flatten ns).length)
decreasing_by
  · refine Prod.Lex.right _ ?_
    rw [Forest.flatten_cons, Tree.flatten_eq, List.length_append, List.length_cons]
    omega
  · refine Prod.Lex.left _ _ ?_
    rw [List.length_erase_of_mem hclosed]
    exact Nat.sub_lt (List.length_pos_of_mem hclosed) Nat.one_pos
  · refine Prod.Lex.right _ ?_
    rw [Forest.flatten_cons, Tree.flatten_eq, List.length_append, List.length_cons]
    omega

/-- A walk over nodes of the table has one run. -/
theorem shows_iff (ht : t.Shaped) {ns : List Node} (hin : ∀ n ∈ Forest.flatten ns, n ∈ t.nodes)
    {opened closed left : List Handle} (hcloses : t.Closes opened closed) {vs : List Json} :
    t.Shows options opened ns vs left ↔ vs = ns.map (t.nodeView options closed) ∧ left = opened := by
  constructor
  · exact fun h => h.eq_view hcloses
  · rintro ⟨rfl, rfl⟩
    exact shows_view ht ns hcloses hin

/-! ## The whole table -/

/-- One step: a declaration is pushed on the empty stack and popped again, and under a new name its
    object comes at the end of the entries. -/
theorem showsEntries_cons_iff (ht : t.Shaped) {h : Handle} {d : Node} (hd : t.get? h = some d)
    {rest : List (Handle × Node)} {out out' : Entries Json} (hnew : d.label.name ∉ out.keys)
    {left : List Handle} :
    t.ShowsEntries options ((h, d) :: rest) out [] out' left ↔
      t.ShowsEntries options rest
        (out ++ [(d.label.name, t.nodeView options (t.handles.erase h) d)]) [] out' left := by
  have hview : ∀ vs inner, t.Shows options [h] [d] vs inner ↔
      vs = [t.nodeView options (t.handles.erase h) d] ∧ inner = [h] :=
    fun _ _ => shows_iff ht (forall_mem_nodes_of_get? hd) ((closes_nil t).push h)
  rw [← Entries.set_of_not_mem hnew]
  constructor
  · rintro (_ | ⟨hshow, hrest⟩)
    obtain ⟨hv, rfl⟩ := (hview _ _).1 hshow
    obtain rfl := List.singleton_inj.1 hv
    exact hrest
  · intro hrest
    exact .cons ((hview _ _).2 ⟨rfl, rfl⟩) hrest

/-- Declarations with new names show one after the other behind the entries that are there. -/
theorem showsEntries_iff (ht : t.Shaped) {es : List (Handle × Node)}
    (hin : ∀ e ∈ es, t.get? e.1 = some e.2) {out : Entries Json}
    (hnew : (out.keys ++ es.map fun e => e.2.label.name).Nodup) {out' : Entries Json}
    {left : List Handle} :
    t.ShowsEntries options es out [] out' left ↔
      out' = out ++ es.map (fun e =>
        (e.2.label.name, t.nodeView options (t.handles.erase e.1) e.2)) ∧ left = [] := by
  induction es generalizing out with
  | nil =>
    constructor
    · rintro ⟨⟩
      exact ⟨(List.append_nil _).symm, rfl⟩
    · rintro ⟨rfl, rfl⟩
      rw [List.map_nil, List.append_nil]
      exact .nil out []
  | cons e rest ih =>
    obtain ⟨h, d⟩ := e
    have hname : d.label.name ∉ out.keys := by
      intro hmem
      exact (List.nodup_append.1 hnew).2.2 _ hmem _ List.mem_cons_self rfl
    have hkeys : ((out ++ [(d.label.name, t.nodeView options (t.handles.erase h) d)]).keys ++
        rest.map fun e => e.2.label.name).Nodup := by
      rw [Entries.keys, List.map_append, List.append_assoc]
      exact hnew
    rw [showsEntries_cons_iff ht (hin _ List.mem_cons_self) hname,
      ih (fun e he => hin e (List.mem_cons_of_mem _ he)) hkeys, List.map_cons, List.append_assoc,
      List.singleton_append]

/-- With an empty stack, the walk over the declarations of a table has one run: it gives the view of
    the table and leaves the stack empty. -/
theorem showsEntries_entries_iff (ht : t.Shaped) {out : Entries Json} {left : List Handle} :
    t.ShowsEntries options t.entries [] [] out left ↔
      t.toJson options = .object out ∧ left = [] := by
  have hnew : (Entries.keys ([] : Entries Json) ++ t.entries.map fun e => e.2.label.name).Nodup := by
    rw [map_name_entries]
    exact ht.nodup
  rw [showsEntries_iff ht (fun e he => mem_entries_iff.1 he) hnew, toJson_eq, List.nil_append,
    Json.object.injEq, eq_comm]

end Table

end SchemaForest
