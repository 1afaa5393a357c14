import SchemaForest.Proofs.Traversal
import SchemaForest.Schema.Extract

/-!
# Registries and their tables

The index of a registry says the same as the arena: it holds the names of the declarations in order,
each with its place.  The registries for which this is so are those of tables (`Registry.ofTable`).
Every step takes the registry of a table to the registry of a table, whether it fails or not:

* `run_insert`: a new name goes to the end of the arena and of the index, and for a name that is there
  nothing changes;
* `run_declare`: a declaration is translated against the index, and inserted;
* `run_resolve`: references are rewritten in the arena, and as their names stay, so does the index.

So a table that is opened, written and closed is what the same step makes of it as a list of
declarations (`Table.insert_eq`, `Table.declare_eq`, `Table.declareAll_cons`, `Table.resolve_eq`).
An extraction keeps one registry open through all of its phases; it comes to the same as a table for
each of them (`extract_eq`).
-/

namespace SchemaForest

namespace Registry

/-! ## The index -/

/-- The index of a table finds the first place of a name. -/
theorem lookup_ofTable (t : Table) : (ofTable t).lookup = t.handle? := by
  have hzip : ∀ (names : List String) (first : Nat) (name : String),
      List.lookup name (names.zip ((List.range' first names.length).map Handle.mk)) =
        (names.findIdx? (· == name)).map fun i => ⟨first + i⟩ := by
    intro names
    induction names with
    | nil => exact fun _ _ => rfl
    | cons n rest ih =>
      intro first name
      rw [List.length_cons, List.range'_succ, List.map_cons, List.zip_cons_cons, List.lookup_cons,
        List.findIdx?_cons, ih (first + 1) name]
      by_cases h : n = name
      · subst h
        rw [beq_self_eq_true]
        rfl
      · rw [beq_false_of_ne h, beq_false_of_ne (Ne.symm h)]
        show _ = ((rest.findIdx? (· == name)).map (· + 1)).map _
        rw [Option.map_map]
        refine congrArg (fun f => (rest.findIdx? (· == name)).map f) (funext fun i => ?_)
        show Handle.mk (first + 1 + i) = Handle.mk (first + (i + 1))
        rw [Nat.add_assoc, Nat.add_comm 1 i]
  funext name
  have hlength : t.names.length = t.size := List.length_map _
  have h := hzip t.names 0 name
  simp only [Nat.zero_add, hlength] at h
  rw [lookup, Entries.get?, ofTable, Table.handles, List.range_eq_range']
  exact h

/-- A declaration at the end of a table comes at the end of its arena and, under the next handle, at
    the end of its index. -/
theorem ofTable_append (t : Table) (d : Node) :
    ofTable ⟨t.declarations ++ [d]⟩ =
      ⟨t.declarations ++ [d], (ofTable t).index ++ [(d.label.name, ⟨t.size⟩)]⟩ := by
  have hlength : t.names.length = t.handles.length := by
    rw [Table.names, Table.handles, List.length_map, List.length_map, List.length_range, Table.size]
  have hhandles : Table.handles ⟨t.declarations ++ [d]⟩ = t.handles ++ [⟨t.size⟩] := by
    rw [Table.handles, Table.size, List.length_append, List.length_singleton, List.range_succ,
      List.map_append]
    rfl
  have hnames : Table.names ⟨t.declarations ++ [d]⟩ = t.names ++ [d.label.name] := List.map_append
  rw [ofTable, hhandles, hnames, List.zip_append hlength]
  rfl

/-- Tables with the same names in the same order have the same index. -/
theorem index_ofTable_congr {t t' : Table} (h : t.names = t'.names) :
    (ofTable t).index = (ofTable t').index := by
  have hsize : t.size = t'.size := by
    have hlength := congrArg List.length h
    rwa [Table.names, Table.names, List.length_map, List.length_map] at hlength
  rw [ofTable, ofTable, h, Table.handles, Table.handles, hsize]

/-! ## Steps -/

/-- Inserting either is refused and changes nothing, or it adds to both the arena and the index. -/
theorem run_insert_eq (r : Registry) (d : Node) :
    (insert d).run r =
      match r.lookup d.label.name with
      | some first => .error (.duplicate d.label.name (r.rangeAt first) d.label.range) r
      | none => .ok ⟨r.size⟩ ⟨r.arena ++ [d], r.index ++ [(d.label.name, ⟨r.size⟩)]⟩ := by
  show EStateM.run (match r.lookup d.label.name with | some first => _ | none => _) r = _
  cases r.lookup d.label.name <;> rfl

theorem run_insert (t : Table) (d : Node) :
    (insert d).run (ofTable t) =
      match t.find? d.label.name with
      | some first =>
        .error (.duplicate d.label.name first.label.range d.label.range) (ofTable t)
      | none => .ok ⟨t.size⟩ (ofTable ⟨t.declarations ++ [d]⟩) := by
  rw [run_insert_eq, lookup_ofTable, ofTable_append, Table.find?]
  cases hname : t.handle? d.label.name with
  | none => rfl
  | some h =>
    -- The index holds only handles of the arena.
    obtain ⟨i, hi, rfl⟩ := Option.map_eq_some_iff.1 hname
    have hlt : i < t.declarations.length := by
      have := (List.findIdx?_eq_some_iff_getElem.1 hi).1
      rwa [Table.names, List.length_map] at this
    have hget : t.get? ⟨i⟩ = some t.declarations[i] := List.getElem?_eq_getElem hlt
    have hrange : (ofTable t).rangeAt ⟨i⟩ = t.declarations[i].label.range := by
      rw [rangeAt, get?, ofTable, List.getElem?_eq_getElem hlt]
      rfl
    rw [Option.bind_some, hget]
    dsimp only
    rw [hrange]

theorem run_declare (t : Table) (d : Declaration) :
    (declare d).run (ofTable t) =
      match translateDeclaration t.handle? d with
      | .ok n => (insert n).run (ofTable t)
      | .error e => .error e (ofTable t) := by
  rw [← lookup_ofTable]
  show EStateM.run (ofExcept (translateDeclaration (ofTable t).lookup d) >>= insert) _ = _
  cases translateDeclaration (ofTable t).lookup d <;> rfl

/-- The first declaration comes first, and an error there ends it. -/
theorem run_declareAll_cons (d : Declaration) (rest : List Declaration) (r : Registry) :
    (declareAll (d :: rest)).run r =
      match (declare d).run r with
      | .ok _ r => (declareAll rest).run r
      | .error e r => .error e r := by
  show EStateM.bind (declare d) (fun _ => declareAll rest) r = _
  rw [EStateM.bind, EStateM.run]
  cases declare d r <;> rfl

/-- Resolving rewrites the arena up to an error and never the index. -/
theorem run_resolve_eq (r : Registry) :
    resolve.run r =
      match Forest.tryVisit (fun _ n _ => Table.resolveLabel r.lookup n.label) () r.arena with
      | (arena, _, none) => .ok () ⟨arena, r.index⟩
      | (arena, _, some e) => .error e ⟨arena, r.index⟩ := by
  have hget : ∀ f : Registry → EStateM ExtractError Registry Unit,
      (get >>= f).run r = (f r).run r := fun _ => rfl
  rw [resolve, hget]
  rcases Forest.tryVisit (fun _ n _ => Table.resolveLabel r.lookup n.label) () r.arena with
    ⟨arena, _, _ | e⟩ <;> rfl

theorem run_resolve (t : Table) :
    resolve.run (ofTable t) =
      match Forest.tryVisit (fun _ n _ => Table.resolveLabel t.handle? n.label) () t.declarations with
      | (forest, _, none) => .ok () (ofTable ⟨forest⟩)
      | (forest, _, some e) => .error e (ofTable ⟨forest⟩) := by
  have hname : ∀ a, (Table.resolveLabel t.handle? a).label.name = a.name := by
    intro a
    rw [Table.resolveLabel]
    split
    · split <;> rfl
    · rfl
  have hroots := congrArg (List.map Tree.label) (Forest.mapLabels_tryVisit hname t.declarations)
  rw [run_resolve_eq, lookup_ofTable]
  show (match Forest.tryVisit (fun _ n _ => Table.resolveLabel t.handle? n.label) ()
    t.declarations with | (arena, _, none) => _ | (arena, _, some e) => _) = _
  generalize Forest.tryVisit (fun _ n _ => Table.resolveLabel t.handle? n.label) ()
    t.declarations = visit at hroots ⊢
  obtain ⟨forest, _, fault⟩ := visit
  -- The declarations keep their names, so the index is still right.
  have hnames : t.names = Table.names ⟨forest⟩ := by
    rw [Forest.mapLabels_eq, Forest.mapLabels_eq, List.map_map, List.map_map] at hroots
    simpa [Function.comp_def, Table.names] using hroots.symm
  have hclosed : Registry.mk forest (ofTable t).index = ofTable ⟨forest⟩ := by
    rw [index_ofTable_congr hnames]
    rfl
  cases fault with
  | none => exact congrArg (EStateM.Result.ok ()) hclosed
  | some e => exact congrArg (EStateM.Result.error e) hclosed

end Registry

/-! ## Tables -/

namespace Table

theorem insert_eq (t : Table) (d : Node) :
    t.insert d =
      match t.find? d.label.name with
      | some first => .error (.duplicate d.label.name first.label.range d.label.range)
      | none => .ok (⟨t.declarations ++ [d]⟩, ⟨t.size⟩) := by
  rw [insert, write, Registry.run_insert]
  cases t.find? d.label.name <;> rfl

theorem declare_eq (t : Table) (d : Declaration) :
    t.declare d = translateDeclaration t.handle? d >>= t.insert := by
  rw [declare, write, Registry.run_declare]
  cases translateDeclaration t.handle? d <;> rfl

theorem declareAll_cons (t : Table) (d : Declaration) (rest : List Declaration) :
    t.declareAll (d :: rest) = t.declare d >>= fun r => r.1.declareAll rest := by
  -- The registry that is left open is that of the table which would be closed.
  rw [declareAll, write, Registry.run_declareAll_cons, declare, write, Registry.run_declare]
  cases translateDeclaration t.handle? d with
  | error e => rfl
  | ok n =>
    dsimp only
    rw [Registry.run_insert]
    cases t.find? n.label.name <;> rfl

theorem resolve_eq (t : Table) :
    t.resolve =
      let visit := Forest.tryVisit (fun _ n _ => resolveLabel t.handle? n.label) () t.declarations
      (⟨visit.1⟩, visit.2.2) := by
  rw [resolve, Registry.run_resolve]
  rcases Forest.tryVisit (fun _ n _ => resolveLabel t.handle? n.label) () t.declarations with
    ⟨forest, _, fault⟩
  cases fault <;> rfl

end Table

/-! ## One registry for all phases -/

namespace Registry

/-- The registry in which declarations were added is that of the table in which they were added. -/
theorem run_declareAll {t t' : Table} {ds : List Declaration} (h : t.declareAll ds = .ok t') :
    (declareAll ds).run (ofTable t) = .ok () (ofTable t') := by
  induction ds generalizing t with
  | nil =>
    cases h
    rfl
  | cons d rest ih =>
    rw [Table.declareAll_cons, Table.declare_eq] at h
    rw [run_declareAll_cons, run_declare]
    cases hn : translateDeclaration t.handle? d with
    | error e => rw [hn] at h; cases h
    | ok n =>
      rw [hn] at h
      have h : (t.insert n >>= fun r => r.1.declareAll rest) = .ok t' := h
      rw [Table.insert_eq] at h
      dsimp only
      rw [run_insert]
      cases hfind : t.find? n.label.name with
      | some first => rw [hfind] at h; cases h
      | none => rw [hfind] at h; exact ih h

/-- Comments change the arena and not the index. -/
theorem run_annotate (comments : List Comment) (r : Registry) :
    (annotate comments).run r =
      match Comments.attach r.arena comments with
      | .ok (forest, _) => .ok () ⟨(Comments.decode forest).1, r.index⟩
      | .error e => .error e r := by
  show EStateM.run (ofExcept (Comments.attach r.arena comments) >>= _) r = _
  cases Comments.attach r.arena comments <;> rfl

end Registry

/-- The registry of an extraction is at the end of each phase that of a table, so the phases can be
    told one by one, each with a table of its own. -/
theorem extract_eq (ds : List Declaration) (cs : List Comment) :
    extract ds cs = (do
      let t ← Table.ofDeclarations ds
      match t.resolve with
      | (_, some e) => .error e
      | (t, none) => do
        let (forest, _) ← Comments.attach t.declarations cs
        .ok ⟨(Comments.decode forest).1⟩) := by
  rw [extract, Table.write, Registry.extract, EStateM.run_bind]
  cases ht : Table.ofDeclarations ds with
  | error e =>
    rw [Table.ofDeclarations, Table.declareAll, Table.write] at ht
    cases hrun : (Registry.declareAll ds).run (.ofTable .empty) with
    | ok _ r => rw [hrun] at ht; cases ht
    | error e' r => rw [hrun] at ht; cases ht; rfl
  | ok t =>
    have hstep : ∀ f : Table → Except ExtractError Table, (Except.ok t >>= f) = f t := fun _ => rfl
    rw [Registry.run_declareAll ht, hstep, Table.resolve]
    dsimp only
    rw [EStateM.run_bind]
    cases Registry.resolve.run (.ofTable t) with
    | error e r => rfl
    | ok _ r =>
      dsimp only
      rw [Registry.run_annotate, Registry.toTable]
      cases Comments.attach r.arena cs <;> rfl

end SchemaForest
