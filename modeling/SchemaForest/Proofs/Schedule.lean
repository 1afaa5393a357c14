import SchemaForest.Proofs.Operations

/-!
# When references are resolved

References may be resolved at any time while declarations are added, and as often as one likes.  A
resolution that comes too early stops at the first name that is not declared yet, and what it has
rewritten until then stays rewritten, so the arenas on the way differ from schedule to schedule.

The invariant says that this makes no difference in the end: settled with the names of the end, the
declarations that a schedule adds are the translation of these declarations with the names of the end
(`exists_afterAll_schedule`).  What a final resolution gives depends on nothing else
(`Table.resolve_congr`), so it gives the same after every schedule (`resolve_schedule`).
-/

namespace SchemaForest

open Fallible

namespace Table

/-- What resolving gives can be seen from the settled declarations: whether it fails, and if it does
    not, the table. -/
theorem resolve_congr {t t' : Table}
    (h : Forest.mapLabels (settle t.handle?) t.declarations =
      Forest.mapLabels (settle t'.handle?) t'.declarations) :
    t.resolve.2 = t'.resolve.2 ∧ (t.resolve.2 = none → t.resolve.1 = t'.resolve.1) := by
  have hfault : t.resolve.2 = t'.resolve.2 := by rw [resolve_fault, resolve_fault, h]
  refine ⟨hfault, fun hnone => ?_⟩
  rw [resolve_eq_of_fault_eq_none hnone, resolve_eq_of_fault_eq_none (hfault ▸ hnone), h]

/-- A resolution that did not fail leaves nothing to resolve. -/
theorem resolve_resolve {t : Table} (h : t.resolve.2 = none) :
    t.resolve.1.resolve = (t.resolve.1, none) := by
  have hsettled := t.settled_resolve
  rw [← handle?_resolve] at hsettled
  conv_rhs at hsettled => rw [handle?_resolve]
  obtain ⟨hfault, hsame⟩ := resolve_congr hsettled
  have hnone := hfault.trans h
  exact Prod.ext (hsame hnone) hnone

end Table

namespace Registry

/-- A resolution that does not fail leaves the registry of the resolved table. -/
theorem run_resolve_eq_ok_iff {t : Table} {s : Registry} :
    resolve.run (ofTable t) = .ok () s ↔ t.resolve.2 = none ∧ s = ofTable t.resolve.1 := by
  rw [run_resolve_ofTable]
  cases t.resolve.2 with
  | none =>
    constructor
    · intro h
      exact ⟨rfl, (EStateM.Result.ok.inj h).2.symm⟩
    · rintro ⟨-, rfl⟩
      rfl
  | some e => exact ⟨fun h => (nomatch h), fun h => (nomatch h.1)⟩

/-! ## Schedules -/

/-- The ways of adding declarations in order, with resolutions before, between and behind them. -/
inductive Schedule : List Declaration → List Operation → Prop
  | done : Schedule [] []
  | declare (d : Declaration) {ds : List Declaration} {ops : List Operation} (h : Schedule ds ops) :
    Schedule (d :: ds) (.declare d :: ops)
  | resolve {ds : List Declaration} {ops : List Operation} (h : Schedule ds ops) :
    Schedule ds (.resolve :: ops)

/-- What every schedule keeps: settled with the names of the end, what was added is the translation
    of the declarations with the names of the end. -/
theorem exists_afterAll_schedule {ds : List Declaration} {ops : List Operation}
    (hops : Schedule ds ops) {t : Table}
    (htranslatable : ∀ d ∈ ds, ∃ lookup n, translateDeclaration lookup d = .ok n)
    (hfresh : ∀ d ∈ ds, d.name ∉ t.names) (hnodup : (ds.map Declaration.name).Nodup) :
    ∃ t' ns, afterAll (ofTable t) ops = ofTable t' ∧ t.Extends ns t' ∧
      ds.mapM (translateDeclaration t'.handle?) =
        .ok (Forest.mapLabels (Table.settle t'.handle?) ns) := by
  induction hops generalizing t with
  | done => exact ⟨t, [], rfl, t.extends_refl, rfl⟩
  | @declare d ds ops _ ih =>
    obtain ⟨⟨lookup, n₀, hn₀⟩, htranslatable⟩ := List.forall_mem_cons.1 htranslatable
    obtain ⟨hnew, hfresh⟩ := List.forall_mem_cons.1 hfresh
    obtain ⟨hdiffer, hnodup⟩ := List.nodup_cons.1 hnodup
    -- What is known of names does not decide whether a declaration can be translated.
    obtain ⟨n, hn⟩ : ∃ n, translateDeclaration t.handle? d = .ok n :=
      exists_translateDeclaration_iff.2 (exists_translateDeclaration_iff.1 ⟨n₀, hn₀⟩)
    have hname : n.label.name = d.name := by rw [label_translateDeclaration hn]
    have hstep : after (ofTable t) (.declare d) = ofTable ⟨t.declarations ++ [n]⟩ := by
      have hadds : (Operation.declare d).Adds t.handle? n := hn
      rw [after, run_perform_of_adds hadds, Table.find?_eq_none_iff.2 (hname ▸ hnew)]
    have hrest : ∀ e ∈ ds, e.name ∉ Table.names ⟨t.declarations ++ [n]⟩ := by
      intro e he hmem
      rw [Table.names_append, List.map_singleton, hname, List.mem_append, List.mem_singleton] at hmem
      rcases hmem with hmem | heq
      · exact hfresh e he hmem
      · exact hdiffer (heq ▸ List.mem_map_of_mem he)
    obtain ⟨t', ns, hrun, hns, hpass⟩ := ih htranslatable hrest hnodup
    have hextends := (t.extends_append [n]).trans hns
    refine ⟨t', n :: ns, ?_, hextends, ?_⟩
    · rw [afterAll, List.foldl_cons, hstep]
      exact hrun
    · rw [mapM_cons, Table.translateDeclaration_settle (fun _ _ => hextends.handle?) hn, hpass]
      rfl
  | resolve _ ih =>
    have hstep : after (ofTable t) .resolve = ofTable t.resolve.1 := by
      have hchange := change_perform t .resolve
      rw [after]
      generalize Operation.resolve.perform.run (ofTable t) = result at hchange ⊢
      cases hchange with
      | added n hadds => exact absurd hadds id
      | refused e hop => exact absurd rfl hop
      | resolved | pending => rfl
    rw [← t.names_resolve] at hfresh
    obtain ⟨t', ns, hrun, hns, hpass⟩ := ih htranslatable hfresh hnodup
    refine ⟨t', ns, ?_, t.extends_resolve.trans hns, hpass⟩
    rw [afterAll, List.foldl_cons, hstep]
    exact hrun

/-- Where declarations can be translated and their names differ, it makes no difference when and how
    often references are resolved while they are added: a final resolution succeeds after any
    schedule exactly if one does after adding them all at once, the registries are the same then,
    and resolving once more changes nothing. -/
theorem resolve_schedule {ds : List Declaration} {ops : List Operation} (hops : Schedule ds ops)
    (htranslatable : ∀ d ∈ ds, ∃ lookup n, translateDeclaration lookup d = .ok n)
    (hnodup : (ds.map Declaration.name).Nodup) :
    ∃ built, (declareAll ds).run empty = .ok () built ∧
      ((∃ s, resolve.run (afterAll empty ops) = .ok () s) ↔ ∃ s, resolve.run built = .ok () s) ∧
      ∀ s, resolve.run (afterAll empty ops) = .ok () s →
        resolve.run built = .ok () s ∧ resolve.run s = .ok () s := by
  have hempty : empty = ofTable Table.empty := rfl
  obtain ⟨t, ns, hrun, hns, hpass⟩ := exists_afterAll_schedule hops (t := Table.empty) htranslatable
    (fun _ _ => List.not_mem_nil) hnodup
  -- All at once is a table, too, and settled it is the same translation.
  obtain ⟨t₀, ht₀⟩ : ∃ t₀, Table.empty.declareAll ds = .ok t₀ := by
    refine Table.exists_declareAll_iff.2 ⟨fun d hd => ?_, fun _ _ => List.not_mem_nil, hnodup⟩
    obtain ⟨lookup, n, hn⟩ := htranslatable d hd
    exact exists_translateDeclaration_iff.1 ⟨n, hn⟩
  obtain ⟨ns₀, hns₀, hpass₀⟩ := Table.declareAll_settled ht₀
  obtain rfl : ns₀ = t₀.declarations := hns₀.symm
  have hhandle : t.handle? = t₀.handle? := by
    have hnames : t.names = t₀.names := by
      rw [Table.declareAll_names ht₀, hns.names, ← names_mapM hpass,
        Table.names_mapLabels (Table.name_settle _)]
    funext name
    rw [Table.handle?, Table.handle?, hnames]
  have hsettled : Forest.mapLabels (Table.settle t.handle?) t.declarations =
      Forest.mapLabels (Table.settle t₀.handle?) t₀.declarations := by
    have hnil : Table.empty.declarations ++ ns = ns := rfl
    rw [hhandle] at hpass
    rw [hns, hnil, hhandle]
    exact Except.ok.inj (hpass.symm.trans hpass₀)
  obtain ⟨hfault, hsame⟩ := Table.resolve_congr hsettled
  refine ⟨ofTable t₀, run_declareAll ht₀, ?_⟩
  rw [hempty, hrun]
  refine ⟨?_, fun s hs => ?_⟩
  · simp only [run_resolve_eq_ok_iff, hfault, exists_and_left, exists_eq]
  · obtain ⟨hnone, rfl⟩ := run_resolve_eq_ok_iff.1 hs
    refine ⟨run_resolve_eq_ok_iff.2 ⟨hfault ▸ hnone, by rw [hsame hnone]⟩, ?_⟩
    rw [run_resolve_eq_ok_iff, Table.resolve_resolve hnone]
    exact ⟨rfl, rfl⟩

/-- References are resolved before there are any, before their declarations are there, and after. -/
theorem resolve_schedule_knot :
    let ops : List Operation :=
      [.resolve, .declare knot[0], .resolve, .declare knot[1], .resolve]
    Schedule knot ops ∧ ∃ built s, (declareAll knot).run empty = .ok () built ∧
      resolve.run (afterAll empty ops) = .ok () s ∧ resolve.run built = .ok () s ∧
      resolve.run s = .ok () s := by
  intro ops
  have hops : Schedule knot ops := .resolve (.declare _ (.resolve (.declare _ (.resolve .done))))
  have htranslatable : ∀ d ∈ knot, ∃ lookup n, translateDeclaration lookup d = .ok n := by
    intro d hd
    refine ⟨fun _ => none, ?_⟩
    rcases List.mem_cons.1 hd with rfl | hd
    · exact ⟨_, rfl⟩
    · obtain rfl := List.mem_singleton.1 hd
      exact ⟨_, rfl⟩
  obtain ⟨built, hbuilt, -, hsame⟩ := resolve_schedule hops htranslatable (by decide)
  obtain ⟨s, hs⟩ : ∃ s, resolve.run (afterAll empty ops) = .ok () s := ⟨_, rfl⟩
  exact ⟨hops, built, s, hbuilt, hs, hsame s hs⟩

end Registry

end SchemaForest
