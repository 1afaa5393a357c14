import SchemaForest.Proofs.Redirection

/-!
# Inlined copies and entries

An inlined copy of a declaration is shown with other declarations open than its entry in the view, so
the two may differ.  They differ only in what is cut off, and a reference in the copy is cut off only if
a declaration around the copy is open.  So

1. the view of a node hangs on the closed handles only as far as references lead from the node
   (`Table.nodeView_congr`);
2. where references lead from a declaration to none of those around the copy, the copy is the entry
   (`Table.view_eq_entry`).

In a table without cycles that is everywhere: references lead from each of the declarations around to
the one that is shown, so none lead back (`Table.Showing.transGen_reference`).
-/

namespace SchemaForest

open Relation

namespace Table

variable {t : Table} {options : ViewOptions}

/-- What references lead to from a declaration is reachable from it. -/
theorem Leads.transGen {h k : Handle} {d : Node} (hd : t.get? h = some d) (hk : t.Leads d k) :
    TransGen t.Refers h k := by
  obtain ⟨m, hm, j, hj, hchain⟩ := hk
  exact .head' ⟨d, hd, m, hm, hj⟩ hchain

/-- Whether a handle is closed makes a difference only if references lead there. -/
theorem nodeView_congr (ht : t.Shaped) {closed closed' : List Handle} (hnodup : closed.Nodup)
    (hnodup' : closed'.Nodup) {n : Node} (hn : ∀ m ∈ n.flatten, m ∈ t.nodes)
    (h : ∀ k, t.Leads n k → (k ∈ closed ↔ k ∈ closed')) :
    t.nodeView options closed n = t.nodeView options closed' n := by
  have hid : Label.redirect id = id := funext fun a => Label.redirect_id
  have hsame : t.nodeView options closed' (n.mapLabels (Label.redirect id)) =
      t.nodeView options closed n := nodeView_redirect ht t.redirects_id hnodup hnodup' hn h
  rw [hid, Tree.mapLabels_id] at hsame
  exact hsame.symm

/-- No declaration is reachable from itself. -/
def Acyclic (t : Table) : Prop := ∀ h, ¬ TransGen t.Refers h h

/-- References that all lead further down make no cycle. -/
theorem acyclic_of_lt (h : ∀ e ∈ t.entries, ∀ n ∈ e.2.flatten, ∀ k ∈ n.label.kind.target?,
    e.1.index < k.index) : t.Acyclic := by
  have hstep : ∀ {j k}, t.Refers j k → j.index < k.index := by
    rintro j k ⟨d, hd, n, hn, hkind⟩
    exact h (j, d) (mem_entries_iff.2 hd) n hn k (congrArg Kind.target? hkind)
  intro j hj
  have hlt : ∀ k, TransGen t.Refers j k → j.index < k.index := by
    intro k hk
    induction hk with
    | single hjk => exact hstep hjk
    | tail _ hik ih => exact Nat.lt_trans ih (hstep hik)
  exact Nat.lt_irrefl _ (hlt j hj)

/-- Where an object shows a reference, all declarations around it lead to what it refers to. -/
theorem Showing.transGen_reference {o : Json} {around : List Json} {opened : List Handle} {n : Node}
    (hs : t.Showing options o around opened n) {h : Handle} (hkind : n.label.kind = .reference h) :
    ∀ k ∈ opened, TransGen t.Refers k h := by
  obtain ⟨j, d, hd, hn, -, hchain⟩ := hs.inside
  exact fun k hk => .tail' (hchain k hk) ⟨d, hd, n, hn, hkind⟩

/-- The entry of a declaration in the view. -/
theorem field?_toJson (ht : t.Shaped) {h : Handle} {d : Node} (hd : t.get? h = some d) :
    (t.toJson options).field? d.label.name =
      some (t.nodeView options (t.handles.erase h) d) := by
  rw [toJson_eq, Json.field?]
  refine Entries.get?_of_mem ?_ (List.mem_map.2 ⟨(h, d), mem_entries_iff.2 hd, rfl⟩)
  rw [Entries.keys, List.map_map]
  exact t.map_name_entries.symm ▸ ht.nodup

/-- A copy is the entry if references lead from its declaration to none of those around. -/
theorem view_eq_entry (ht : t.Shaped) {opened closed : List Handle} (hcloses : t.Closes opened closed)
    {h : Handle} {d : Node} (hd : t.get? h = some d)
    (haround : ∀ k ∈ opened, ¬ TransGen t.Refers h k) :
    t.nodeView options (closed.erase h) d = t.nodeView options (t.handles.erase h) d := by
  refine nodeView_congr ht (hcloses.nodup.erase h) (t.nodup_handles.erase h)
    (fun m hm => mem_nodes_of_get? hd hm) fun k hk => ?_
  have hopen : k ∉ opened := fun hopen => haround k hopen (hk.transGen hd)
  rw [hcloses.nodup.mem_erase_iff, t.nodup_handles.mem_erase_iff, hcloses.mem_iff, and_iff_left hopen]

end Table

/-- Inlined copies are entries.  If a reference shows its declaration and none of the declarations
    around it can be reached from that one, its only child is the entry of the declaration.  In a table
    without cycles, this is so at every reference. -/
theorem inlined_copy_eq_entry {ds : List Declaration} {cs : List Comment} {t : Table}
    (h : extract ds cs = .ok t) (options : ViewOptions) :
    (∀ o around, Json.StandsIn (t.toJson options) o around →
      o.textAt? "kind" = some "reference" → o.children ≠ [] →
      ∃ target k, o.textAt? "referenceName" = some target ∧ t.handle? target = some k ∧
        ((∀ name ∈ Json.declared around, ∀ j, t.handle? name = some j → ¬ TransGen t.Refers k j) →
          ∃ entry, (t.toJson options).field? target = some entry ∧ o.children = [entry])) ∧
    (t.Acyclic → ∀ o around, Json.StandsIn (t.toJson options) o around →
      o.textAt? "kind" = some "reference" →
      ∃ target entry, o.textAt? "referenceName" = some target ∧
        (t.toJson options).field? target = some entry ∧ o.children = [entry]) := by
  have ht := shaped_of_extract h
  constructor
  · intro o around ho hkind hne
    obtain ⟨opened, n, hs⟩ := Table.exists_showing ht ho
    obtain ⟨k, d, closed, -, hd, hcloses, htarget, hnames, -, hchildren⟩ := hs.reference ht hkind
    have hopen : k ∉ opened := by
      intro hopen
      rw [if_pos hopen] at hchildren
      exact hne hchildren
    rw [if_neg hopen] at hchildren
    refine ⟨d.label.name, k, htarget, (Table.handle?_eq_some_iff ht.nodup).2 ⟨d, hd, rfl⟩,
      fun haround => ⟨_, Table.field?_toJson ht hd, ?_⟩⟩
    rw [hchildren, Table.view_eq_entry ht hcloses hd fun j hj => ?_]
    -- The declarations around have their names in the view and their handles in the stack.
    obtain ⟨e, he⟩ := Table.mem_handles_iff.1 (hs.valid j hj)
    have hname : e.label.name ∈ Json.declared around := by
      rw [hnames, ← Table.nameAt_of_get? he]
      exact List.mem_map_of_mem hj
    exact haround _ hname j ((Table.handle?_eq_some_iff ht.nodup).2 ⟨e, he, rfl⟩)
  · intro hacyclic o around ho hkind
    obtain ⟨opened, n, hs⟩ := Table.exists_showing ht ho
    obtain ⟨k, d, closed, hlink, hd, hcloses, htarget, -, -, hchildren⟩ := hs.reference ht hkind
    have hto := hs.transGen_reference hlink
    have hopen : k ∉ opened := fun hopen => hacyclic k (hto k hopen)
    rw [if_neg hopen] at hchildren
    refine ⟨d.label.name, _, htarget, Table.field?_toJson ht hd, ?_⟩
    rw [hchildren, Table.view_eq_entry ht hcloses hd fun j hj hback => ?_]
    exact hacyclic j ((hto j hj).trans hback)

/-- A declaration with a reference to the next one, which has none. -/
def chain : List Declaration :=
  [.interface ⟨0, 20⟩ "A" [.property ⟨10, 19⟩ (.identifier "b")
      (some (.reference ⟨13, 14⟩ (.identifier "B") none))],
    .interface ⟨30, 60⟩ "B" [.property ⟨40, 55⟩ (.identifier "c")
      (some (.keyword ⟨43, 49⟩ .string))]]

/-- The table of the chain. -/
def chainTable : Table :=
  ⟨[Node.of "A" .declaration ⟨0, 20⟩ [Node.of "b" (.reference ⟨1⟩) ⟨13, 14⟩ []],
    Node.of "B" .declaration ⟨30, 60⟩ [Node.of "c" .string ⟨40, 55⟩ []]]⟩

theorem inlined_copy_eq_entry_chain :
    ∃ o entry, Json.StandsIn (chainTable.toJson {}) o
        [chainTable.nodeView {} [⟨1⟩] (Node.of "A" .declaration ⟨0, 20⟩
          [Node.of "b" (.reference ⟨1⟩) ⟨13, 14⟩ []])] ∧
      o.textAt? "referenceName" = some "B" ∧
      (chainTable.toJson {}).field? "B" = some entry ∧ o.children = [entry] := by
  have hextract : extract chain [] = .ok chainTable :=
    extract_eq_ok_iff.2 ⟨_, _, [], rfl, rfl, rfl, rfl⟩
  have hacyclic : chainTable.Acyclic := Table.acyclic_of_lt (by decide)
  have hroot := @Table.standsIn_entry chainTable {} ⟨0⟩ _ rfl
  have href := Table.standsIn_child hroot (fun _ heq => nomatch heq) List.mem_cons_self
  have hview := @Table.nodeView_reference chainTable {} [⟨1⟩]
    (Node.of "b" (.reference ⟨1⟩) ⟨13, 14⟩ []) _ _ rfl rfl
  obtain ⟨target, entry, htarget, hentry, hchildren⟩ :=
    (inlined_copy_eq_entry hextract {}).2 hacyclic _ _ href
      (congrArg (Json.textAt? · "kind") hview)
  have hname : some target = some "B" :=
    htarget.symm.trans (congrArg (Json.textAt? · "referenceName") hview)
  obtain rfl : target = "B" := Option.some.inj hname
  exact ⟨_, entry, href, htarget, hentry, hchildren⟩

end SchemaForest
