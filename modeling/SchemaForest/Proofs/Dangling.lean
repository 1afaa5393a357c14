import SchemaForest.Proofs.Operations

/-!
# Resolving up to a dangling reference

`Registry.resolve` rewrites the arena in place and stops at the first reference whose name is not
declared.  This says what is in the arena then.

1. **One label** (`Table.resolveLabel_cases`): a label either is resolved (`Table.Resolves`), or it
   dangles (`Table.Dangling`), and then its call fails and leaves it as it was.
2. **All labels** (`labels_resolve`, `exists_split_of_fault`): the walk is a run along the flat list,
   so the labels fall into those in front of the first one that dangles, which are resolved, and the
   rest, which stay.
3. **Everything else** stays either way: the shape of the forest, and with the names the index
   (`Registry.Keeps`).
-/

namespace SchemaForest

namespace Table

/-- The label refers to a name that no declaration of the table has. -/
def Dangling (t : Table) (a : Label) : Prop :=
  ∃ name, a.kind = .unresolved name ∧ ∀ d ∈ t.declarations, d.label.name ≠ name

/-- What a label becomes when it is resolved: a reference by name gets the handle of the declaration of
    that name, and all else of it and all other labels stay as they are. -/
inductive Resolves (t : Table) (a : Label) : Label → Prop
  | linked {name : String} {k : Handle} {d : Node} (pending : a.kind = .unresolved name)
    (declared : t.get? k = some d) (named : d.label.name = name) :
    Resolves t a { a with kind := .reference k }
  | kept (settled : ∀ name, a.kind ≠ .unresolved name) : Resolves t a a

/-- A label that can be resolved does not dangle. -/
theorem Resolves.not_dangling {t : Table} {a b : Label} (h : t.Resolves a b) : ¬ t.Dangling a := by
  rintro ⟨name, hkind, hnone⟩
  cases h with
  | linked pending declared named =>
    obtain rfl : _ = name := Kind.unresolved.inj (pending.symm.trans hkind)
    exact hnone _ (List.mem_of_getElem? declared) named
  | kept settled => exact settled name hkind

theorem forall_name_ne_iff {t : Table} {name : String} :
    (∀ d ∈ t.declarations, d.label.name ≠ name) ↔ t.handle? name = none := by
  rw [handle?, handleIn_eq_none_iff, names, List.mem_map]
  constructor
  · rintro h ⟨d, hd, hname⟩
    exact h d hd hname
  · exact fun h d hd hname => h ⟨d, hd, hname⟩

/-- The handle of a name leads to a declaration of that name. -/
theorem exists_get?_of_handle? {t : Table} {name : String} {k : Handle}
    (h : t.handle? name = some k) : ∃ d, t.get? k = some d ∧ d.label.name = name := by
  obtain ⟨i, hi, rfl⟩ := Option.map_eq_some_iff.1 h
  obtain ⟨hlt, hname, -⟩ := List.findIdx?_eq_some_iff_getElem.1 hi
  have hlt' : i < t.declarations.length := by rwa [names, List.length_map] at hlt
  refine ⟨t.declarations[i], List.getElem?_eq_getElem hlt', ?_⟩
  simpa [names] using hname

/-- The call for a label resolves it, or the label dangles and the call fails without changing it. -/
theorem resolveLabel_cases (t : Table) (a : Label) :
    ((resolveLabel t.handle? a).fault = none ∧ t.Resolves a (resolveLabel t.handle? a).label) ∨
      t.Dangling a ∧ ∃ name, a.kind = .unresolved name ∧
        resolveLabel t.handle? a = ⟨a, (), some (.unresolved name a.range)⟩ := by
  rw [resolveLabel]
  split
  · rename_i name hkind
    cases hname : t.handle? name with
    | some k =>
      obtain ⟨d, hd, hnamed⟩ := exists_get?_of_handle? hname
      exact Or.inl ⟨rfl, .linked hkind hd hnamed⟩
    | none => exact Or.inr ⟨⟨name, hkind, forall_name_ne_iff.2 hname⟩, name, hkind, rfl⟩
  · rename_i hsettled
    exact Or.inl ⟨rfl, .kept hsettled⟩

theorem resolves_of_fault_eq_none {t : Table} {a : Label}
    (h : (resolveLabel t.handle? a).fault = none) :
    t.Resolves a (resolveLabel t.handle? a).label := by
  rcases t.resolveLabel_cases a with ⟨-, hresolves⟩ | ⟨-, name, -, heq⟩
  · exact hresolves
  · rw [heq] at h
    cases h

/-- The call for a label fails if the label dangles. -/
theorem resolveLabel_of_fault {t : Table} {a : Label} {e : ExtractError}
    (h : (resolveLabel t.handle? a).fault = some e) :
    t.Dangling a ∧ (resolveLabel t.handle? a).label = a ∧
      ∃ name, a.kind = .unresolved name ∧ e = .unresolved name a.range := by
  rcases t.resolveLabel_cases a with ⟨hnone, -⟩ | ⟨hdangling, name, hkind, heq⟩
  · rw [hnone] at h
    cases h
  · rw [heq] at h ⊢
    exact ⟨hdangling, rfl, name, hkind, (Option.some.inj h).symm⟩

/-- Labels whose calls do not fail are resolved one by one. -/
theorem forall₂_resolves {t : Table} {nodes : List Node}
    (h : ∀ n ∈ nodes, (resolveLabel t.handle? n.label).fault = none) :
    List.Forall₂ t.Resolves (nodes.map Tree.label)
      (nodes.map fun n => (resolveLabel t.handle? n.label).label) := by
  induction nodes with
  | nil => exact .nil
  | cons n rest ih =>
    obtain ⟨hn, hrest⟩ := List.forall_mem_cons.1 h
    exact .cons (resolves_of_fault_eq_none hn) (ih hrest)

theorem fault_resolve (t : Table) :
    t.resolve.2 = t.nodes.findSome? fun n => (resolveLabel t.handle? n.label).fault := by
  rw [resolve_eq]
  exact Forest.tryVisit_fault (fun n => resolveLabel t.handle? n.label) t.declarations

/-- Without a failure all labels are resolved. -/
theorem labels_resolve {t : Table} (h : t.resolve.2 = none) :
    List.Forall₂ t.Resolves (Forest.labels t.declarations)
      (Forest.labels t.resolve.1.declarations) := by
  have hnone : ∀ n ∈ t.nodes, (resolveLabel t.handle? n.label).fault = none := by
    rw [fault_resolve] at h
    exact List.findSome?_eq_none_iff.1 h
  have hlabels : Forest.labels t.resolve.1.declarations =
      t.nodes.map fun n => (resolveLabel t.handle? n.label).label := by
    rw [resolve_eq_of_fault_eq_none h, Forest.labels_mapLabels, Forest.labels, List.map_map]
    rfl
  rw [hlabels]
  exact forall₂_resolves hnone

/-- A failure is that of the first label that dangles.  The labels in front of it are resolved, and from
    there on they stay. -/
theorem exists_split_of_fault {t : Table} {e : ExtractError} (h : t.resolve.2 = some e) :
    ∃ front a back resolved name, Forest.labels t.declarations = front ++ a :: back ∧
      t.Dangling a ∧ a.kind = .unresolved name ∧ e = .unresolved name a.range ∧
      List.Forall₂ t.Resolves front resolved ∧
      Forest.labels t.resolve.1.declarations = resolved ++ a :: back := by
  rw [fault_resolve, List.findSome?_eq_some_iff] at h
  obtain ⟨front, n, back, hsplit, hn, hfront⟩ := h
  obtain ⟨hdangling, hsame, name, hkind, rfl⟩ := resolveLabel_of_fault hn
  refine ⟨front.map Tree.label, n.label, back.map Tree.label, _, name, ?_, hdangling, hkind, rfl,
    forall₂_resolves hfront, ?_⟩
  · rw [Forest.labels, ← nodes, hsplit, List.map_append, List.map_cons]
  · have hlabels := Forest.labels_tryVisit_of_fault hsplit hfront hn
    rw [hsame] at hlabels
    rw [resolve_eq]
    exact hlabels

end Table

namespace Registry

/-- The registry has the nodes of the table at their places, whatever their labels say, and the index of
    the table. -/
structure Keeps (t : Table) (s : Registry) : Prop where
  shape : Forest.shape s.arena = Forest.shape t.declarations
  index : s.index = (ofTable t).index

theorem keeps_resolve (t : Table) : Keeps t (ofTable t.resolve.1) where
  shape := by
    rw [Table.resolve_eq]
    exact Forest.shape_tryVisitFrom _ t.declarations 0 ()
  index := index_ofTable_congr t.names_resolve

/-- Resolving fails if and only if a reference anywhere in the table names nothing that is declared.
    Then the error is that of the first such label in flat order, the labels in front of it are resolved,
    and that label and all behind it are as they were.  Otherwise all labels are resolved.  Either way
    nothing else changes in the forest, and the index stays. -/
theorem resolve_up_to_dangling (t : Table) :
    ((∃ e s, resolve.run (ofTable t) = .error e s) ↔
      ∃ a ∈ Forest.labels t.declarations, t.Dangling a) ∧
    ((∃ s, resolve.run (ofTable t) = .ok () s ∧ Keeps t s ∧
        List.Forall₂ t.Resolves (Forest.labels t.declarations) (Forest.labels s.arena)) ∨
      ∃ front a back resolved name s,
        resolve.run (ofTable t) = .error (.unresolved name a.range) s ∧ Keeps t s ∧
        Forest.labels t.declarations = front ++ a :: back ∧ a.kind = .unresolved name ∧
        t.Dangling a ∧ (∀ b ∈ front, ¬ t.Dangling b) ∧ List.Forall₂ t.Resolves front resolved ∧
        Forest.labels s.arena = resolved ++ a :: back) := by
  have hclean : ∀ {xs ys}, List.Forall₂ t.Resolves xs ys → ∀ b ∈ xs, ¬ t.Dangling b := by
    intro xs ys h b hb
    obtain ⟨i, hi⟩ := List.getElem?_of_mem hb
    obtain ⟨c, -, hc⟩ := Fallible.getElem?_of_forall₂ h hi
    exact hc.not_dangling
  have hrun := run_resolve_ofTable t
  cases hfault : t.resolve.2 with
  | none =>
    rw [hfault] at hrun
    have hlabels := Table.labels_resolve hfault
    refine ⟨⟨fun ⟨e, s, h⟩ => ?_, fun ⟨a, ha, hdangling⟩ => ?_⟩, Or.inl ?_⟩
    · cases hrun.symm.trans h
    · exact absurd hdangling (hclean hlabels a ha)
    · exact ⟨_, hrun, keeps_resolve t, hlabels⟩
  | some e =>
    rw [hfault] at hrun
    obtain ⟨front, a, back, resolved, name, hsplit, hdangling, hkind, rfl, hfront, hlabels⟩ :=
      Table.exists_split_of_fault hfault
    refine ⟨⟨fun _ => ⟨a, ?_, hdangling⟩, fun _ => ⟨_, _, hrun⟩⟩, Or.inr ?_⟩
    · rw [hsplit]
      exact List.mem_append_right _ List.mem_cons_self
    · exact ⟨front, a, back, resolved, name, _, hrun, keeps_resolve t, hsplit, hkind, hdangling,
        hclean hfront, hfront, hlabels⟩

end Registry

end SchemaForest
