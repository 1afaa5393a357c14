import Mathlib.Data.List.Nodup
import SchemaForest.Proofs.Registry
import SchemaForest.Proofs.Translation

/-!
# Resolution

References reach their declarations on two ways: at once, when the declaration stands further up, or
later, when all declarations are known.  Both ways together are one pass over the declarations with
all names known from the start: `onePass`.

The step from one table to the next is `Table.declare_eq_ok_iff`.  The invariant of the run is that
settling the labels of the table, with whatever names will be known in the end, gives the one pass
over the declarations so far (`Table.declareAll_settled`); that the names only ever grow at the end
is what makes the two ways agree (`Table.handleIn_append`).
-/

namespace SchemaForest

open Fallible

namespace Table

/-! ## Names and handles -/

theorem handleIn_eq_none_iff {names : List String} {name : String} :
    handleIn names name = none ↔ name ∉ names := by
  rw [handleIn, Option.map_eq_none_iff, List.findIdx?_eq_none_iff]
  simp only [beq_eq_false_iff_ne]
  exact ⟨fun h hmem => h name hmem rfl, fun h x hx heq => h (heq ▸ hx)⟩

/-- Among names that differ, the handle of a name is its place. -/
theorem handleIn_eq_some_iff {names : List String} (hnodup : names.Nodup) {name : String}
    {h : Handle} : handleIn names name = some h ↔ names[h.index]? = some name := by
  obtain ⟨i⟩ := h
  have hindex : handleIn names name = some ⟨i⟩ ↔ names.findIdx? (· == name) = some i := by
    simp [handleIn]
  rw [hindex, List.findIdx?_eq_some_iff_getElem, List.getElem?_eq_some_iff]
  constructor
  · rintro ⟨hi, hname, -⟩
    exact ⟨hi, beq_iff_eq.1 hname⟩
  · rintro ⟨hi, rfl⟩
    refine ⟨hi, beq_self_eq_true _, fun j hj heq => ?_⟩
    exact Nat.ne_of_lt hj ((List.Nodup.getElem_inj_iff hnodup).1 (beq_iff_eq.1 heq))

theorem handleIn_lt {names : List String} {name : String} {h : Handle}
    (hname : handleIn names name = some h) : h.index < names.length := by
  obtain ⟨i, hi, rfl⟩ := Option.map_eq_some_iff.1 hname
  exact (List.findIdx?_eq_some_iff_getElem.1 hi).1

/-- A handle stays when names are added behind. -/
theorem handleIn_append {names : List String} {name : String} {h : Handle} (more : List String)
    (hname : handleIn names name = some h) : handleIn (names ++ more) name = some h := by
  obtain ⟨i, hi, rfl⟩ := Option.map_eq_some_iff.1 hname
  rw [handleIn, List.findIdx?_append, hi]
  rfl

theorem find?_eq_none_iff {t : Table} {name : String} : t.find? name = none ↔ name ∉ t.names := by
  rw [← handleIn_eq_none_iff, find?, handle?]
  cases hname : handleIn t.names name with
  | none => exact ⟨fun _ => rfl, fun _ => rfl⟩
  | some h =>
    have hlt : h.index < t.declarations.length := by
      have := handleIn_lt hname
      rwa [names, List.length_map] at this
    rw [Option.bind_some, get?, List.getElem?_eq_getElem hlt]
    exact iff_of_false (Option.some_ne_none _) (Option.some_ne_none _)

@[simp] theorem names_append (t : Table) (ns : Forest Label) :
    names ⟨t.declarations ++ ns⟩ = t.names ++ List.map (fun n => n.label.name) ns :=
  List.map_append

/-- A relabelling that keeps the names of the nodes keeps the declared names. -/
theorem names_mapLabels {f : Label → Label} (hname : ∀ a, (f a).name = a.name)
    (forest : Forest Label) : names ⟨Forest.mapLabels f forest⟩ = names ⟨forest⟩ := by
  rw [names, Forest.mapLabels_eq, List.map_map]
  exact List.map_congr_left fun d _ => by rw [Function.comp, Tree.label_mapLabels, hname]

/-! ## Declaring -/

/-- A declaration is added if it can be translated and its name is new. -/
theorem declare_eq_ok_iff {t t' : Table} {d : Declaration} {h : Handle} :
    t.declare d = .ok (t', h) ↔
      ∃ n, translateDeclaration t.handle? d = .ok n ∧ d.name ∉ t.names ∧
        t' = ⟨t.declarations ++ [n]⟩ ∧ h = ⟨t.size⟩ := by
  have hinsert : ∀ n, t.insert n = .ok (t', h) ↔
      n.label.name ∉ t.names ∧ t' = ⟨t.declarations ++ [n]⟩ ∧ h = ⟨t.size⟩ := by
    intro n
    rw [insert_eq, ← find?_eq_none_iff]
    cases t.find? n.label.name with
    | some first => exact ⟨fun h => (nomatch h), fun h => (nomatch h.1)⟩
    | none =>
      constructor
      · intro hok
        cases hok
        exact ⟨rfl, rfl, rfl⟩
      · rintro ⟨-, rfl, rfl⟩
        rfl
  rw [declare_eq, bind_eq_ok_iff]
  refine exists_congr fun n => and_congr_right fun hn => ?_
  rw [hinsert, label_translateDeclaration hn]

/-- One more declaration. -/
theorem declareAll_cons_eq_ok_iff {t t' : Table} {d : Declaration} {rest : List Declaration} :
    t.declareAll (d :: rest) = .ok t' ↔
      ∃ n, translateDeclaration t.handle? d = .ok n ∧ d.name ∉ t.names ∧
        declareAll ⟨t.declarations ++ [n]⟩ rest = .ok t' := by
  rw [declareAll_cons, bind_eq_ok_iff]
  constructor
  · rintro ⟨⟨u, h⟩, hdeclare, hrest⟩
    obtain ⟨n, hn, hnew, rfl, rfl⟩ := declare_eq_ok_iff.1 hdeclare
    exact ⟨n, hn, hnew, hrest⟩
  · rintro ⟨n, hn, hnew, hrest⟩
    exact ⟨_, declare_eq_ok_iff.2 ⟨n, hn, hnew, rfl, rfl⟩, hrest⟩

/-- Declarations can be added if every one of them can be translated and their names are new and
    differ from each other. -/
theorem exists_declareAll_iff {t : Table} {ds : List Declaration} :
    (∃ t', t.declareAll ds = .ok t') ↔
      (∀ d ∈ ds, ∀ a ∈ (AstNode.declaration d).preorder, a.offence? = none) ∧
        (∀ d ∈ ds, d.name ∉ t.names) ∧ (ds.map Declaration.name).Nodup := by
  induction ds generalizing t with
  | nil => exact ⟨fun _ => by simp, fun _ => ⟨t, rfl⟩⟩
  | cons d rest ih =>
    have hlabel : ∀ n, translateDeclaration t.handle? d = .ok n →
        names ⟨t.declarations ++ [n]⟩ = t.names ++ [d.name] := by
      intro n hn
      rw [names_append, List.map_singleton, label_translateDeclaration hn]
    simp only [List.forall_mem_cons, List.map_cons, List.nodup_cons]
    constructor
    · rintro ⟨t', h⟩
      obtain ⟨n, hn, hnew, hrest⟩ := declareAll_cons_eq_ok_iff.1 h
      obtain ⟨hclean, hfresh, hnodup⟩ := ih.1 ⟨t', hrest⟩
      rw [hlabel n hn] at hfresh
      -- The rest meets the names of the table and the one that was just added.
      refine ⟨⟨exists_translateDeclaration_iff.1 ⟨n, hn⟩, hclean⟩, ⟨hnew, fun e he hmem => ?_⟩,
        fun hmem => ?_, hnodup⟩
      · exact hfresh e he (List.mem_append_left _ hmem)
      · obtain ⟨e, he, heq⟩ := List.mem_map.1 hmem
        exact hfresh e he (by simp [heq])
    · rintro ⟨⟨hd, hclean⟩, ⟨hnew, hfresh⟩, hdiffer, hnodup⟩
      obtain ⟨n, hn⟩ := exists_translateDeclaration_iff.2 hd
      have hrest : ∀ e ∈ rest, e.name ∉ names ⟨t.declarations ++ [n]⟩ := by
        intro e he hmem
        rw [hlabel n hn, List.mem_append, List.mem_singleton] at hmem
        rcases hmem with hmem | heq
        · exact hfresh e he hmem
        · exact hdiffer (heq ▸ List.mem_map_of_mem he)
      obtain ⟨t', ht'⟩ := ih.2 ⟨hclean, hrest, hnodup⟩
      exact ⟨t', declareAll_cons_eq_ok_iff.2 ⟨n, hn, hnew, ht'⟩⟩

/-- The label with its reference resolved, if its name is known. -/
def settle (lookup : String → Option Handle) (a : Label) : Label := (resolveLabel lookup a).label

theorem settle_of_not_isLink (lookup : String → Option Handle) {a : Label} (h : ¬ a.kind.IsLink) :
    settle lookup a = a := by
  obtain ⟨name, kind, range, comment, annotations⟩ := a
  cases kind with
  | unresolved target => exact absurd trivial h
  | _ => rfl

/-- Settling changes the kind of a label and nothing else. -/
theorem name_settle (lookup : String → Option Handle) (a : Label) :
    (settle lookup a).name = a.name := by
  rw [settle, resolveLabel]
  split
  · split <;> rfl
  · rfl

theorem range_settle (lookup : String → Option Handle) (a : Label) :
    (settle lookup a).range = a.range := by
  rw [settle, resolveLabel]
  split
  · split <;> rfl
  · rfl

/-- A label that was settled with some of the names settles as if it had not been. -/
theorem settle_settle {known all : String → Option Handle}
    (hext : ∀ target h, known target = some h → all target = some h) (a : Label) :
    settle all (settle known a) = settle all a := by
  obtain ⟨name, kind, range, comment, annotations⟩ := a
  cases kind with
  | unresolved target =>
    cases hknown : known target with
    | none => simp [settle, resolveLabel, hknown]
    | some h => simp [settle, resolveLabel, hknown, hext target h hknown]
  | _ => rfl

/-- A reference settles as if all names had been known when it was translated. -/
theorem settle_linkKind {known all : String → Option Handle}
    (hext : ∀ target h, known target = some h → all target = some h) (name target : String)
    (range : Span) : settle all { name, kind := linkKind known target, range } =
      { name, kind := linkKind all target, range } := by
  rw [settle, linkKind, linkKind]
  cases hknown : known target with
  | some h => rw [hext target h hknown]; rfl
  | none =>
    cases hall : all target <;> simp [resolveLabel, hall]

/-- A declaration that was translated with some of the names settles to its translation with all
    of them. -/
theorem translateDeclaration_settle {known all : String → Option Handle}
    (hext : ∀ target h, known target = some h → all target = some h) {d : Declaration} {n : Node}
    (h : translateDeclaration known d = .ok n) :
    translateDeclaration all d = .ok (n.mapLabels (settle all)) := by
  have hmap := AstNode.translate_relabel (fun x => settle_of_not_isLink all)
    (fun name target range => settle_linkKind hext name target range) "" default (.declaration d)
  refine hmap.trans ?_
  rw [AstNode.translate, h]
  rfl

theorem declareAll_names {t t' : Table} {ds : List Declaration} (h : t.declareAll ds = .ok t') :
    t'.names = t.names ++ ds.map Declaration.name := by
  induction ds generalizing t with
  | nil =>
    cases h
    exact (List.append_nil _).symm
  | cons d rest ih =>
    obtain ⟨n, hn, -, hrest⟩ := declareAll_cons_eq_ok_iff.1 h
    rw [ih hrest, names_append, List.map_singleton, label_translateDeclaration hn,
      List.append_assoc]
    rfl

/-- The invariant of the run: settled with the names of the end, what was added is the one pass over
    the declarations. -/
theorem declareAll_settled {t t' : Table} {ds : List Declaration} (h : t.declareAll ds = .ok t') :
    ∃ ns, t'.declarations = t.declarations ++ ns ∧
      ds.mapM (translateDeclaration t'.handle?) =
        .ok (Forest.mapLabels (settle t'.handle?) ns) := by
  induction ds generalizing t with
  | nil =>
    cases h
    exact ⟨[], (List.append_nil _).symm, rfl⟩
  | cons d rest ih =>
    have hnames := declareAll_names h
    obtain ⟨n, hn, -, hrest⟩ := declareAll_cons_eq_ok_iff.1 h
    obtain ⟨ns, hns, hpass⟩ := ih hrest
    -- What is known on the way is known in the end, with the same handle.
    have hext : ∀ target h, t.handle? target = some h → t'.handle? target = some h := by
      intro target h htarget
      rw [handle?, hnames]
      exact handleIn_append _ htarget
    refine ⟨n :: ns, by rw [hns, List.append_assoc]; rfl, ?_⟩
    rw [mapM_cons, translateDeclaration_settle hext hn, hpass]
    rfl

/-! ## Resolving -/

/-- The error of a label whose reference is not resolved. -/
def pending? (a : Label) : Option ExtractError :=
  match a.kind with
  | .unresolved name => some (.unresolved name a.range)
  | _ => none

theorem pending?_eq_none_iff {a : Label} :
    pending? a = none ↔ ∀ name, a.kind ≠ .unresolved name := by
  obtain ⟨name, kind, range, comment, annotations⟩ := a
  cases kind <;> simp [pending?]

/-- Resolving fails at a label exactly if the label stays unresolved. -/
theorem fault_resolveLabel (lookup : String → Option Handle) (a : Label) :
    (resolveLabel lookup a).fault = pending? (settle lookup a) := by
  obtain ⟨name, kind, range, comment, annotations⟩ := a
  cases kind with
  | unresolved target => cases h : lookup target <;> simp [settle, resolveLabel, pending?, h]
  | _ => rfl

/-- A table is resolved up to the first label that stays unresolved. -/
theorem resolve_fault (t : Table) :
    t.resolve.2 =
      (Forest.labels (Forest.mapLabels (settle t.handle?) t.declarations)).findSome? pending? := by
  rw [resolve_eq]
  refine (Forest.tryVisit_fault (fun n => resolveLabel t.handle? n.label) _).trans ?_
  rw [Forest.labels_mapLabels, Forest.labels, List.map_map, List.findSome?_map]
  exact congrArg (fun f => List.findSome? f _) (funext fun n => fault_resolveLabel _ n.label)

/-- A table that can be resolved is settled in every label. -/
theorem resolve_eq_of_fault_eq_none {t : Table} (h : t.resolve.2 = none) :
    t.resolve.1 = ⟨Forest.mapLabels (settle t.handle?) t.declarations⟩ := by
  rw [resolve_eq]
  refine congrArg Table.mk (Forest.tryVisit_eq_map fun a ha => ?_)
  rw [resolve_fault, Forest.labels_mapLabels, List.findSome?_map, List.findSome?_eq_none_iff] at h
  rw [fault_resolveLabel]
  exact h a ha

end Table

/-! ## One pass -/

/-- The handle of a name among the names of all declarations. -/
def index (ds : List Declaration) : String → Option Handle :=
  Table.handleIn (ds.map Declaration.name)

/-- The translation of declarations in one pass, with all of their names known. -/
def onePass (ds : List Declaration) : Except ExtractError (Forest Label) :=
  ds.mapM (translateDeclaration (index ds))

/-- The names that declarations refer to, in source order. -/
def references (ds : List Declaration) : List String :=
  (sourceOrder ds).filterMap AstNode.reference?

/-- The error of a node that refers to a name without a declaration. -/
def AstNode.undeclared? (lookup : String → Option Handle) (a : AstNode) : Option ExtractError :=
  match a.reference? with
  | some target => if lookup target = none then some (.unresolved target a.span) else none
  | none => none

/-- What the labels of translated declarations hold for references and nothing else is found at the
    references of the source, in the same order. -/
theorem filterMap_labels_mapM {γ : Type} {lookup : String → Option Handle} {g : Label → Option γ}
    {h : AstNode → Option γ} (hplain : ∀ x, ¬ x.kind.IsLink → g x = none)
    (hlink : ∀ b target name, b.reference? = some target →
      g { name, kind := linkKind lookup target, range := b.span } = h b)
    (hnone : ∀ b, b.reference? = none → h b = none) {ds : List Declaration}
    {forest : Forest Label} (hforest : ds.mapM (translateDeclaration lookup) = .ok forest) :
    (Forest.labels forest).filterMap g = (sourceOrder ds).filterMap h := by
  rw [Forest.labels_eq_flatMap, sourceOrder, List.filterMap_flatMap, List.filterMap_flatMap]
  refine (flatMap_eq_of_forall₂ (mapM_eq_ok_iff.1 hforest) fun d _ n hn => ?_).symm
  have hd : (AstNode.declaration d).translate lookup "" default = .ok n := hn
  exact (AstNode.filterMap_labels hplain hlink hnone hd).symm

/-- What stays unresolved in the one pass are the references to names without a declaration. -/
theorem filterMap_pending?_labels {lookup : String → Option Handle} {ds : List Declaration}
    {forest : Forest Label} (hforest : ds.mapM (translateDeclaration lookup) = .ok forest) :
    (Forest.labels forest).filterMap Table.pending? =
      (sourceOrder ds).filterMap (AstNode.undeclared? lookup) := by
  refine filterMap_labels_mapM (fun x hx => ?_) (fun b target name hb => ?_) (fun b hb => ?_)
    hforest
  · exact Table.pending?_eq_none_iff.2 fun target heq => hx (heq ▸ trivial)
  · rw [AstNode.undeclared?, hb, linkKind]
    dsimp only
    cases lookup target <;> rfl
  · rw [AstNode.undeclared?, hb]

/-- What resolving makes of the table of some declarations: it fails at the first reference in
    source order whose name is not declared, and if there is none it gives the one pass. -/
theorem resolve_ofDeclarations {ds : List Declaration} {t : Table}
    (h : Table.ofDeclarations ds = .ok t) :
    ∃ forest, onePass ds = .ok forest ∧
      t.resolve.2 = (sourceOrder ds).findSome? (AstNode.undeclared? (index ds)) ∧
      (t.resolve.2 = none → t.resolve.1 = ⟨forest⟩) := by
  have hhandle : t.handle? = index ds := by
    funext name
    rw [Table.handle?, Table.declareAll_names h]
    rfl
  obtain ⟨ns, hns, hpass⟩ := Table.declareAll_settled h
  obtain rfl : ns = t.declarations := hns.symm
  rw [hhandle] at hpass
  refine ⟨_, hpass, ?_, fun hnone => ?_⟩
  · rw [Table.resolve_fault, hhandle, ← List.head?_filterMap, ← List.head?_filterMap]
    exact congrArg List.head? (filterMap_pending?_labels hpass)
  · rw [Table.resolve_eq_of_fault_eq_none hnone, hhandle]

theorem AstNode.undeclared?_eq_none_iff {lookup : String → Option Handle} {a : AstNode} :
    a.undeclared? lookup = none ↔ ∀ target, a.reference? = some target → lookup target ≠ none := by
  rw [undeclared?]
  cases a.reference? with
  | none => simp
  | some target => simp

/-- No reference goes without a declaration exactly if every name referred to is declared. -/
theorem findSome?_undeclared?_eq_none_iff {ds : List Declaration} :
    (sourceOrder ds).findSome? (AstNode.undeclared? (index ds)) = none ↔
      ∀ target ∈ references ds, target ∈ ds.map Declaration.name := by
  simp only [List.findSome?_eq_none_iff, AstNode.undeclared?_eq_none_iff, index, ne_eq,
    Table.handleIn_eq_none_iff, Decidable.not_not, references, List.mem_filterMap]
  constructor
  · rintro h target ⟨a, ha, htarget⟩
    exact h a ha target htarget
  · exact fun h a ha target htarget => h target ⟨a, ha, htarget⟩

/-- The one pass leaves no name unresolved if no reference goes without a declaration. -/
theorem not_unresolved_onePass {ds : List Declaration} {forest : Forest Label}
    (hforest : onePass ds = .ok forest)
    (hnone : (sourceOrder ds).findSome? (AstNode.undeclared? (index ds)) = none) :
    ∀ a ∈ Forest.labels forest, ∀ name, a.kind ≠ .unresolved name := by
  intro a ha
  have hpending := filterMap_pending?_labels hforest
  rw [List.filterMap_eq_nil_iff.2 (List.findSome?_eq_none_iff.1 hnone),
    List.filterMap_eq_nil_iff] at hpending
  exact Table.pending?_eq_none_iff.1 (hpending a ha)

/-- Where every name referred to is declared, resolving gives the translation in one pass against
    the index of all names: each reference of the source, in order, becomes the handle of the one
    declaration of its name, and no name is left unresolved. -/
theorem resolve_eq_onePass {ds : List Declaration} {t : Table}
    (hbuild : Table.ofDeclarations ds = .ok t)
    (hdeclared : ∀ target ∈ references ds, target ∈ ds.map Declaration.name) :
    ∃ forest, onePass ds = .ok forest ∧ t.resolve = (⟨forest⟩, none) ∧
      (∀ target ∈ references ds, ∃ h d, index ds target = some h ∧ ds[h.index]? = some d ∧
        d.name = target ∧ ∀ j e, ds[j]? = some e → e.name = target → j = h.index) ∧
      ((Forest.labels forest).filterMap fun a => a.kind.target?.map fun h => (h, a.range)) =
        ((sourceOrder ds).filterMap fun a => a.reference?.bind fun target =>
          (index ds target).map fun h => (h, a.span)) ∧
      ∀ a ∈ Forest.labels forest, ∀ name, a.kind ≠ .unresolved name := by
  obtain ⟨forest, hforest, hfault, hresolved⟩ := resolve_ofDeclarations hbuild
  have hnone := findSome?_undeclared?_eq_none_iff.2 hdeclared
  rw [hnone] at hfault
  have hnodup : (ds.map Declaration.name).Nodup := (Table.exists_declareAll_iff.1 ⟨t, hbuild⟩).2.2
  refine ⟨forest, hforest, Prod.ext (hresolved hfault) hfault, fun target htarget => ?_, ?_,
    not_unresolved_onePass hforest hnone⟩
  · -- As names differ, the index holds the place of the one declaration with the name.
    cases hindex : index ds target with
    | none => exact absurd (hdeclared target htarget) (Table.handleIn_eq_none_iff.1 hindex)
    | some h =>
      have hplace := (Table.handleIn_eq_some_iff hnodup).1 hindex
      rw [List.getElem?_map, Option.map_eq_some_iff] at hplace
      obtain ⟨d, hd, hname⟩ := hplace
      refine ⟨h, d, rfl, hd, hname, fun j e he hename => ?_⟩
      have hj : index ds target = some ⟨j⟩ := by
        refine (Table.handleIn_eq_some_iff hnodup).2 ?_
        rw [List.getElem?_map, he, ← hename]
        rfl
      exact congrArg Handle.index (Option.some.inj (hj.symm.trans hindex))
  · -- Only references have a target, and in the one pass it is what the index says.
    refine filterMap_labels_mapM (fun x hx => ?_) (fun b target name hb => ?_) (fun b hb => ?_)
      hforest
    · rw [Kind.target?_eq_none hx]
      rfl
    · rw [hb, target?_linkKind]
      rfl
    · rw [hb]
      rfl

/-- Two declarations that refer to each other and to themselves: an alias of a union with a
    reference inside an object type, and an interface with an intersection in parentheses. -/
def knot : List Declaration :=
  [.alias ⟨0, 40⟩ "A" (.union ⟨9, 40⟩
      [.object ⟨9, 30⟩ [.property ⟨10, 20⟩ (.identifier "b")
        (some (.reference ⟨13, 14⟩ (.identifier "B") none))],
      .reference ⟨33, 34⟩ (.identifier "A") none]),
    .exported ⟨50, 99⟩ (.interface ⟨57, 99⟩ "B" [.property ⟨60, 90⟩ (.identifier "c")
      (some (.parenthesized ⟨63, 90⟩ (.intersection ⟨64, 89⟩
        [.reference ⟨64, 65⟩ (.identifier "A") none,
          .reference ⟨70, 71⟩ (.identifier "B") none])))])]

theorem resolve_eq_onePass_knot :
    ∃ t forest, Table.ofDeclarations knot = .ok t ∧ t.resolve = (⟨forest⟩, none) ∧
      ((Forest.labels forest).filterMap fun a => a.kind.target?.map fun h => (h, a.range)) =
        [(⟨1⟩, ⟨13, 14⟩), (⟨0⟩, ⟨33, 34⟩), (⟨0⟩, ⟨64, 65⟩), (⟨1⟩, ⟨70, 71⟩)] := by
  obtain ⟨t, ht⟩ : ∃ t, Table.ofDeclarations knot = .ok t := ⟨_, rfl⟩
  obtain ⟨forest, -, hresolve, -, htargets, -⟩ := resolve_eq_onePass ht (by decide)
  exact ⟨t, forest, ht, hresolve, htargets.trans (by decide)⟩

end SchemaForest
