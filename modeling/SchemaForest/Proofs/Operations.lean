import SchemaForest.Proofs.Shape

/-!
# Sequences of operations

A registry is written by three operations, in any order and each of them able to fail: a node is
inserted, a declaration is translated and inserted, or the references are resolved as far as that
goes.  The operations touch different parts: an insertion writes the arena and the index, resolving
rewrites the arena and reads the index, and a translation puts handles of an earlier state into it.

1. **One step** (`change_perform`): an operation on the registry of a table adds one declaration
   with a new name, or changes nothing, or resolves references.
2. **What a step keeps**: a table stays coherent (`Table.Coherent`), and it extends the one before
   (`Table.Extends`): its declarations are still there under their handles, up to references that
   were resolved since, and what is new comes behind them.
3. **The crux** (`Table.Extends.trans`): handles stay when names are added, so a label that was
   settled early settles in the end as if it had waited (`Table.settle_settle`).

Along every sequence arena and index say the same, no handle leads out of the arena, and a handle
leads to the declaration for which it was given (`sound_afterAll`).
-/

namespace SchemaForest

open Fallible

namespace Table

/-! ## Growth -/

/-- A table extends another by some declarations if it holds those of the other and these behind
    them, up to references that were resolved in between. -/
def Extends (t : Table) (more : Forest Label) (t' : Table) : Prop :=
  Forest.mapLabels (settle t'.handle?) t'.declarations =
    Forest.mapLabels (settle t'.handle?) (t.declarations ++ more)

theorem extends_refl (t : Table) : t.Extends [] t := by
  rw [Extends, List.append_nil]

theorem extends_append (t : Table) (more : Forest Label) :
    t.Extends more ⟨t.declarations ++ more⟩ := rfl

/-- Settling the declarations hides whether they were resolved. -/
theorem settled_resolve (t : Table) :
    Forest.mapLabels (settle t.handle?) t.resolve.1.declarations =
      Forest.mapLabels (settle t.handle?) t.declarations := by
  rw [resolve_eq]
  exact Forest.mapLabels_tryVisit (settle_settle fun _ _ => id) t.declarations

theorem names_resolve (t : Table) : t.resolve.1.names = t.names := by
  have hsettled := congrArg (fun forest => names ⟨forest⟩) t.settled_resolve
  rwa [names_mapLabels (name_settle _), names_mapLabels (name_settle _)] at hsettled

/-- Resolving changes no handle, wherever it stops. -/
theorem handle?_resolve (t : Table) : t.resolve.1.handle? = t.handle? := by
  funext name
  rw [handle?, handle?, names_resolve]

theorem extends_resolve (t : Table) : t.Extends [] t.resolve.1 := by
  rw [Extends, List.append_nil, handle?_resolve, settled_resolve]

namespace Extends

variable {t t' t'' : Table} {xs ys : Forest Label}

theorem names (h : t.Extends xs t') : t'.names = t.names ++ Table.names ⟨xs⟩ := by
  have hnames := congrArg (fun forest => Table.names ⟨forest⟩) h
  rw [names_mapLabels (name_settle _), names_mapLabels (name_settle _), names_append] at hnames
  exact hnames

/-- A name keeps its handle. -/
theorem handle? (h : t.Extends xs t') {name : String} {k : Handle}
    (hk : t.handle? name = some k) : t'.handle? name = some k := by
  rw [Table.handle?, h.names]
  exact handleIn_append _ hk

theorem trans (h : t.Extends xs t') (h' : t'.Extends ys t'') : t.Extends (xs ++ ys) t'' := by
  -- What was settled with the names of the middle settles with the names of the end.
  have hmiddle : ∀ forest, Forest.mapLabels (settle t''.handle?)
      (Forest.mapLabels (settle t'.handle?) forest) =
        Forest.mapLabels (settle t''.handle?) forest := by
    intro forest
    rw [Forest.mapLabels_mapLabels]
    exact congrArg (Forest.mapLabels · forest) (funext (settle_settle fun _ _ => h'.handle?))
  have hfirst := congrArg (Forest.mapLabels (settle t''.handle?)) h
  rw [hmiddle, hmiddle] at hfirst
  rw [Extends, h', Forest.mapLabels_append, hfirst, ← Forest.mapLabels_append, List.append_assoc]

/-- A handle keeps leading to its declaration. -/
theorem get? (h : t.Extends xs t') {k : Handle} {d : Node} (hd : t.get? k = some d) :
    ∃ d', t'.get? k = some d' ∧
      d'.mapLabels (settle t'.handle?) = d.mapLabels (settle t'.handle?) := by
  have hat := congrArg (fun forest => forest[k.index]?) h
  have hlt : k.index < t.declarations.length := (List.getElem?_eq_some_iff.1 hd).1
  have hd : t.declarations[k.index]? = some d := hd
  simp only [Forest.mapLabels_eq, List.getElem?_map, List.getElem?_append_left hlt, hd,
    Option.map_some, Option.map_eq_some_iff] at hat
  exact hat

end Extends

/-! ## Coherence -/

/-- No two declarations have one name, and a handle in a label leads to a declaration. -/
structure Coherent (t : Table) : Prop where
  nodup : t.names.Nodup
  bounded : ∀ a ∈ Forest.labels t.declarations, ∀ k, a.kind.target? = some k → k.index < t.size

theorem handle?_lt {t : Table} {name : String} {k : Handle} (h : t.handle? name = some k) :
    k.index < t.size := by
  have hlt := handleIn_lt h
  rwa [names, List.length_map] at hlt

theorem coherent_empty : empty.Coherent :=
  ⟨List.nodup_nil, fun _ ha => absurd ha List.not_mem_nil⟩

/-- A table stays coherent with one more declaration, if its name is new and its handles are handles
    of the table. -/
theorem Coherent.append {t : Table} (h : t.Coherent) {n : Node} (hnew : n.label.name ∉ t.names)
    (hn : ∀ a ∈ Forest.labels [n], ∀ k, a.kind.target? = some k → k.index < t.size) :
    Coherent ⟨t.declarations ++ [n]⟩ := by
  have hsize : size ⟨t.declarations ++ [n]⟩ = t.size + 1 := List.length_append
  refine ⟨?_, fun a ha k hk => ?_⟩
  · rw [names_append, List.map_singleton, List.nodup_append]
    refine ⟨h.nodup, List.nodup_singleton _, fun x hx y hy heq => ?_⟩
    obtain rfl := List.mem_singleton.1 hy
    exact hnew (heq ▸ hx)
  · rw [hsize]
    rw [Forest.labels_append] at ha
    rcases List.mem_append.1 ha with ha | ha
    · exact Nat.lt_succ_of_lt (h.bounded a ha k hk)
    · exact Nat.lt_succ_of_lt (hn a ha k hk)

/-- A table stays coherent, wherever resolving it stops. -/
theorem Coherent.resolve {t : Table} (h : t.Coherent) : t.resolve.1.Coherent := by
  have hnames := t.names_resolve
  have hsize : t.resolve.1.size = t.size := by
    have hlength := congrArg List.length hnames
    rwa [names, names, List.length_map, List.length_map] at hlength
  refine ⟨hnames ▸ h.nodup, fun a ha k hk => ?_⟩
  rw [hsize]
  rw [resolve_eq] at ha
  obtain ⟨b, hb, rfl | rfl⟩ := Forest.mem_labels_tryVisit ha
  · exact h.bounded a hb k hk
  · -- A label that was resolved holds a handle that was looked up.
    rw [resolveLabel] at hk
    split at hk
    · split at hk
      · rename_i hlookup
        obtain rfl := Option.some.inj hk
        exact handle?_lt hlookup
      · exact h.bounded b hb k hk
    · exact h.bounded b hb k hk

/-- Every handle in a translation was looked up. -/
theorem exists_lookup_of_translate {lookup : String → Option Handle} {d : Declaration} {n : Node}
    (h : translateDeclaration lookup d = .ok n) :
    ∀ a ∈ Forest.labels [n], ∀ k, a.kind.target? = some k → ∃ name, lookup name = some k := by
  intro a ha
  obtain ⟨m, hm, rfl⟩ := Forest.exists_of_mem_labels ha
  have htranslate : (AstNode.declaration d).translate lookup "" d.span = .ok n := h
  refine AstNode.forall_nodes htranslate (P := fun m => ∀ k, m.label.kind.target? = some k →
    ∃ name, lookup name = some k) (fun b _ x cs hmakes _ _ _ k hk => ?_) m hm
  refine hmakes.exists_lookup (k := k) ?_
  rw [Tree.label_node] at hk
  cases hkind : x.kind <;> rw [hkind] at hk <;> cases hk
  rfl

end Table

namespace Registry

/-! ## One operation -/

/-- What can be done to a registry. -/
inductive Operation where
  | insert (d : Node)
  | declare (d : Declaration)
  | resolve

namespace Operation

/-- Carries out an operation; one that adds a declaration gives its handle. -/
def perform : Operation → EStateM ExtractError Registry (Option Handle)
  | insert d => do return some (← Registry.insert d)
  | declare d => do return some (← Registry.declare d)
  | resolve => do
    Registry.resolve
    return none

/-- An operation brings no handle of its own. -/
def Unlinked : Operation → Prop
  | insert d => ∀ a ∈ Forest.labels [d], a.kind.target? = none
  | _ => True

/-- The node that an operation is to add. -/
def Adds (lookup : String → Option Handle) : Operation → Node → Prop
  | insert d, n => n = d
  | declare d, n => translateDeclaration lookup d = .ok n
  | resolve, _ => False

end Operation

/-- The registry that an operation leaves, whether it fails or not. -/
def after (r : Registry) (op : Operation) : Registry :=
  match op.perform.run r with
  | .ok _ s => s
  | .error _ s => s

/-- The registry that operations leave one after the other. -/
def afterAll (r : Registry) (ops : List Operation) : Registry := ops.foldl after r

/-- What an operation can do to the registry of a table. -/
inductive Change (t : Table) (op : Operation) :
    EStateM.Result ExtractError Registry (Option Handle) → Prop
  | added (n : Node) (adds : op.Adds t.handle? n) (fresh : n.label.name ∉ t.names) :
    Change t op (.ok (some ⟨t.size⟩) (ofTable ⟨t.declarations ++ [n]⟩))
  | refused (e : ExtractError) (other : op ≠ .resolve) : Change t op (.error e (ofTable t))
  | resolved (same : op = .resolve) (fault : t.resolve.2 = none) :
    Change t op (.ok none (ofTable t.resolve.1))
  | pending (e : ExtractError) (same : op = .resolve) (fault : t.resolve.2 = some e) :
    Change t op (.error e (ofTable t.resolve.1))

/-- What resolving does to the registry of a table. -/
theorem run_resolve_ofTable (t : Table) :
    resolve.run (ofTable t) =
      match t.resolve.2 with
      | none => .ok () (ofTable t.resolve.1)
      | some e => .error e (ofTable t.resolve.1) := by
  rw [run_resolve, Table.resolve_eq]
  rcases Forest.tryVisit (fun _ n _ => Table.resolveLabel t.handle? n.label) () t.declarations with
    ⟨forest, _, _ | e⟩ <;> rfl

/-- Marking the handle as one changes neither the registry nor an error. -/
theorem run_return_some (m : EStateM ExtractError Registry Handle) (r : Registry) :
    (do return some (← m) : EStateM ExtractError Registry (Option Handle)).run r =
      match m.run r with
      | .ok k s => .ok (some k) s
      | .error e s => .error e s := by
  show EStateM.bind m (fun k => pure (some k)) r = _
  rw [EStateM.bind, EStateM.run]
  cases m r <;> rfl

/-- An operation that is to add a node does so if the name is new, and otherwise it is refused with
    the ranges of both declarations and changes nothing. -/
theorem run_perform_of_adds {t : Table} {op : Operation} {n : Node} (h : op.Adds t.handle? n) :
    op.perform.run (ofTable t) =
      match t.find? n.label.name with
      | some first => .error (.duplicate n.label.name first.label.range n.label.range) (ofTable t)
      | none => .ok (some ⟨t.size⟩) (ofTable ⟨t.declarations ++ [n]⟩) := by
  cases op with
  | insert d =>
    obtain rfl : n = d := h
    rw [Operation.perform, run_return_some, run_insert]
    cases t.find? n.label.name <;> rfl
  | declare d =>
    have hd : translateDeclaration t.handle? d = .ok n := h
    rw [Operation.perform, run_return_some, run_declare, hd]
    dsimp only
    rw [run_insert]
    cases t.find? n.label.name <;> rfl
  | resolve => exact absurd h id

/-- One step: a declaration is added, or nothing changes, or references are resolved. -/
theorem change_perform (t : Table) (op : Operation) : Change t op (op.perform.run (ofTable t)) := by
  have hadds : ∀ n, op.Adds t.handle? n → op ≠ .resolve →
      Change t op (op.perform.run (ofTable t)) := by
    intro n hn hop
    rw [run_perform_of_adds hn]
    cases hfind : t.find? n.label.name with
    | none => exact .added n hn (Table.find?_eq_none_iff.1 hfind)
    | some first => exact .refused _ hop
  cases op with
  | insert d => exact hadds d rfl (by simp)
  | declare d =>
    cases hd : translateDeclaration t.handle? d with
    | ok n => exact hadds n hd (by simp)
    | error e =>
      rw [Operation.perform, run_return_some, run_declare, hd]
      exact .refused e (by simp)
  | resolve =>
    have hresolve := run_resolve_ofTable t
    rw [EStateM.run] at hresolve
    show Change t .resolve (EStateM.bind resolve (fun _ => pure none) (ofTable t))
    rw [EStateM.bind, hresolve]
    cases hfault : t.resolve.2 with
    | none => exact .resolved rfl hfault
    | some e => exact .pending e rfl hfault

/-- What one operation keeps. -/
theorem exists_after {t : Table} (h : t.Coherent) {op : Operation} (hop : op.Unlinked) :
    ∃ t' more, after (ofTable t) op = ofTable t' ∧ t'.Coherent ∧ t.Extends more t' := by
  have hchange := change_perform t op
  rw [after]
  generalize op.perform.run (ofTable t) = result at hchange ⊢
  cases hchange with
  | added n hadds hfresh =>
    refine ⟨_, [n], rfl, h.append hfresh fun a ha k hk => ?_, t.extends_append [n]⟩
    -- A node that is inserted holds no handle, and a translation only what was looked up.
    cases op with
    | insert d =>
      obtain rfl : n = d := hadds
      rw [hop a ha] at hk
      cases hk
    | declare d =>
      obtain ⟨name, hname⟩ := Table.exists_lookup_of_translate hadds a ha k hk
      exact Table.handle?_lt hname
    | resolve => exact absurd hadds id
  | refused e => exact ⟨t, [], rfl, h, t.extends_refl⟩
  | resolved | pending => exact ⟨t.resolve.1, [], rfl, h.resolve, t.extends_resolve⟩

/-! ## Runs -/

/-- What a sequence of operations keeps. -/
theorem exists_afterAll {t : Table} (h : t.Coherent) {ops : List Operation}
    (hops : ∀ op ∈ ops, op.Unlinked) :
    ∃ t' more, afterAll (ofTable t) ops = ofTable t' ∧ t'.Coherent ∧ t.Extends more t' := by
  induction ops generalizing t with
  | nil => exact ⟨t, [], rfl, h, t.extends_refl⟩
  | cons op rest ih =>
    obtain ⟨hop, hrest⟩ := List.forall_mem_cons.1 hops
    obtain ⟨t₁, xs, hstep, hcoherent, hxs⟩ := exists_after h hop
    obtain ⟨t₂, ys, hrun, hcoherent, hys⟩ := ih hcoherent hrest
    refine ⟨t₂, xs ++ ys, ?_, hcoherent, hxs.trans hys⟩
    rw [afterAll, List.foldl_cons, hstep]
    exact hrun

/-- What holds of a registry in every state: arena and index say the same, and no handle leads out
    of the arena. -/
structure Sound (r : Registry) : Prop where
  /-- No two declarations have one name. -/
  nodup : (r.arena.map fun d => d.label.name).Nodup
  /-- The index leads from a name to the declaration of that name. -/
  lookup_iff : ∀ name k, r.lookup name = some k ↔
    k.index < r.size ∧ ∃ d, r.get? k = some d ∧ d.label.name = name
  /-- The handle in a reference, wherever the reference stands, leads to a declaration. -/
  bounded : ∀ n ∈ Forest.flatten r.arena, ∀ k, n.label.kind = .reference k →
    k.index < r.size ∧ ∃ d, r.get? k = some d

theorem sound_ofTable {t : Table} (h : t.Coherent) : (ofTable t).Sound := by
  refine ⟨h.nodup, fun name k => ?_, fun n hn k hk => ?_⟩
  · rw [lookup_ofTable, Table.handle?, Table.handleIn_eq_some_iff h.nodup, Table.names,
      List.getElem?_map, Option.map_eq_some_iff]
    constructor
    · rintro ⟨d, hd, hname⟩
      exact ⟨(List.getElem?_eq_some_iff.1 hd).1, d, hd, hname⟩
    · exact And.right
  · have htarget : n.label.kind.target? = some k := by
      rw [hk]
      rfl
    have hlt : k.index < t.declarations.length :=
      h.bounded n.label (List.mem_map_of_mem hn) k htarget
    exact ⟨hlt, _, List.getElem?_eq_getElem hlt⟩

/-- The handle that an operation gives leads to the node that it added, and it still does so after
    all later operations. -/
theorem exists_get?_of_handle {t : Table} (h : t.Coherent) {op : Operation} (hop : op.Unlinked)
    {later : List Operation} (hlater : ∀ op ∈ later, op.Unlinked) {k : Handle} {s : Registry}
    (hrun : op.perform.run (ofTable t) = .ok (some k) s) :
    ∃ d last, op.Adds (ofTable t).lookup d ∧ s.get? k = some d ∧
      (afterAll s later).get? k = some last ∧
      (afterAll s later).lookup d.label.name = some k ∧ last.label.name = d.label.name ∧
      last.mapLabels (Table.settle (afterAll s later).lookup) =
        d.mapLabels (Table.settle (afterAll s later).lookup) := by
  obtain ⟨t₁, -, hafter, hcoherent, -⟩ := exists_after h hop
  have hs : s = ofTable t₁ := by
    rw [after, hrun] at hafter
    exact hafter
  have hchange := change_perform t op
  rw [hrun] at hchange
  generalize hresult : EStateM.Result.ok (some k) s = result at hchange
  cases hchange with
  | refused | resolved | pending => cases hresult
  | added n hadds hfresh =>
    obtain ⟨hk, hn⟩ := EStateM.Result.ok.inj hresult
    obtain rfl := Option.some.inj hk
    obtain rfl : t₁ = ⟨t.declarations ++ [n]⟩ :=
      congrArg Registry.toTable (hs.symm.trans hn)
    subst hs
    have hget : Table.get? ⟨t.declarations ++ [n]⟩ ⟨t.size⟩ = some n :=
      List.getElem?_concat_length
    have hlookup : Table.handle? ⟨t.declarations ++ [n]⟩ n.label.name = some ⟨t.size⟩ := by
      refine (Table.handleIn_eq_some_iff hcoherent.nodup).2 ?_
      rw [Table.names, List.getElem?_map]
      exact congrArg (Option.map fun d => d.label.name) hget
    obtain ⟨t₂, more, hlast, -, hextends⟩ := exists_afterAll hcoherent hlater
    obtain ⟨last, hget', hsettled⟩ := hextends.get? hget
    have hname := congrArg (fun d => d.label.name) hsettled
    simp only [Tree.label_mapLabels, Table.name_settle] at hname
    rw [hlast, lookup_ofTable, lookup_ofTable]
    exact ⟨n, last, hadds, hget, hget', hextends.handle? hlookup, hname, hsettled⟩

/-- An operation that is to add a declaration does so if the name is not in the index, and otherwise
    is refused with the ranges of both declarations and changes nothing. -/
theorem perform_cases {t : Table} {op : Operation} {d : Node} (h : op.Adds (ofTable t).lookup d) :
    ((ofTable t).lookup d.label.name = none ∧
      ∃ s, op.perform.run (ofTable t) = .ok (some ⟨(ofTable t).size⟩) s ∧
        s.get? ⟨(ofTable t).size⟩ = some d) ∨
    ∃ k first, (ofTable t).lookup d.label.name = some k ∧ (ofTable t).get? k = some first ∧
      op.perform.run (ofTable t) =
        .error (.duplicate d.label.name first.label.range d.label.range) (ofTable t) := by
  rw [lookup_ofTable] at h ⊢
  have hrun := run_perform_of_adds h
  cases hname : t.handle? d.label.name with
  | none =>
    have hfind : t.find? d.label.name = none := by rw [Table.find?, hname, Option.bind_none]
    rw [hfind] at hrun
    exact Or.inl ⟨rfl, _, hrun, List.getElem?_concat_length⟩
  | some k =>
    obtain ⟨first, hget⟩ : ∃ first, t.get? k = some first :=
      ⟨_, List.getElem?_eq_getElem (Table.handle?_lt hname)⟩
    have hfind : t.find? d.label.name = some first := by
      rw [Table.find?, hname, Option.bind_some, hget]
    rw [hfind] at hrun
    exact Or.inr ⟨k, first, rfl, hget, hrun⟩

/-- Whatever is done to the empty registry, in any order and with failures in between: the index
    leads from each declared name to its one declaration, and the handle in a reference leads to a
    declaration; the handle that was given for a declaration keeps leading to it, up to references
    that were resolved since; and an operation that is to add a declaration does so if the name is
    new, and otherwise is refused with the ranges of both declarations and changes nothing. -/
theorem sound_afterAll {ops : List Operation} (hops : ∀ op ∈ ops, op.Unlinked) :
    let r := afterAll empty ops
    r.Sound ∧
      (∀ earlier (op : Operation) later k s, ops = earlier ++ op :: later →
        op.perform.run (afterAll empty earlier) = .ok (some k) s →
        ∃ d last, op.Adds (afterAll empty earlier).lookup d ∧ s.get? k = some d ∧
          r.get? k = some last ∧ r.lookup d.label.name = some k ∧
          last.label.name = d.label.name ∧
          last.mapLabels (Table.settle r.lookup) = d.mapLabels (Table.settle r.lookup)) ∧
      ∀ (op : Operation) (d : Node), op.Adds r.lookup d →
        (r.lookup d.label.name = none ∧
          ∃ s, op.perform.run r = .ok (some ⟨r.size⟩) s ∧ s.get? ⟨r.size⟩ = some d) ∨
        ∃ k first, r.lookup d.label.name = some k ∧ r.get? k = some first ∧
          op.perform.run r =
            .error (.duplicate d.label.name first.label.range d.label.range) r := by
  have hempty : empty = ofTable Table.empty := rfl
  obtain ⟨t, -, hr, hcoherent, -⟩ := exists_afterAll Table.coherent_empty hops
  rw [← hempty] at hr
  refine ⟨hr ▸ sound_ofTable hcoherent, ?_, ?_⟩
  · rintro earlier op later k s rfl hrun
    obtain ⟨hearlier, hlater⟩ := List.forall_mem_append.1 hops
    obtain ⟨hop, hlater⟩ := List.forall_mem_cons.1 hlater
    obtain ⟨t₀, -, hstate, hcoherent, -⟩ := exists_afterAll Table.coherent_empty hearlier
    rw [← hempty] at hstate
    have hend : afterAll empty (earlier ++ op :: later) = afterAll s later := by
      rw [afterAll, List.foldl_append, List.foldl_cons]
      show afterAll (after (afterAll empty earlier) op) later = _
      rw [after, hrun]
    rw [hend, hstate]
    rw [hstate] at hrun
    exact exists_get?_of_handle hcoherent hop hlater hrun
  · rw [hr]
    exact fun op d hd => perform_cases hd

/-- A declaration refers to itself and to one that comes later, references are resolved too early, and
    a name comes twice. -/
def detours : List Operation :=
  [.declare (.alias ⟨0, 40⟩ "A" (.union ⟨9, 40⟩
      [.reference ⟨9, 10⟩ (.identifier "A") none, .reference ⟨13, 14⟩ (.identifier "B") none])),
    .resolve,
    .insert (.leaf { name := "B", kind := .declaration, range := ⟨50, 60⟩ }),
    .insert (.leaf { name := "A", kind := .declaration, range := ⟨70, 80⟩ }),
    .resolve]

theorem sound_afterAll_detours :
    (∀ op ∈ detours, op.Unlinked) ∧ (afterAll empty detours).Sound ∧
      (afterAll empty detours).lookup "A" = some ⟨0⟩ ∧
      ∃ first, (afterAll empty detours).get? ⟨0⟩ = some first ∧
        (Operation.insert (.leaf { name := "A", kind := .declaration, range := ⟨90, 95⟩ })).perform.run
            (afterAll empty detours) =
          .error (.duplicate "A" first.label.range ⟨90, 95⟩) (afterAll empty detours) := by
  have hops : ∀ op ∈ detours, op.Unlinked := by
    simp [detours, Operation.Unlinked, Tree.leaf, Kind.target?]
  obtain ⟨hsound, hkept, hadds⟩ := sound_afterAll hops
  obtain ⟨d, -, hd, -, -, hlookup, -⟩ := hkept [] _ _ ⟨0⟩ _ rfl rfl
  have hname : d.label.name = "A" := by rw [label_translateDeclaration hd]; rfl
  rw [hname] at hlookup
  refine ⟨hops, hsound, hlookup, ?_⟩
  rcases hadds (.insert (.leaf { name := "A", kind := .declaration, range := ⟨90, 95⟩ })) _ rfl with
    ⟨hnone, -⟩ | ⟨k, first, hk, hfirst, hrun⟩
  · cases hlookup.symm.trans hnone
  · obtain rfl := Option.some.inj (hlookup.symm.trans hk)
    exact ⟨first, hfirst, hrun⟩

end Registry

end SchemaForest
