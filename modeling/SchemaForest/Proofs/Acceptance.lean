import SchemaForest.Proofs.Phases

/-!
# Which sources are accepted

An extraction goes through four phases, and each may end it: translating, declaring, resolving and
placing comments.  `extract_accepts_iff` says in terms of the source alone when none of them does:
names are there and differ, every member and every type is of a kind that has a schema, every name
referred to is declared, and no comment comes too late.

That no node is refused is read off node by node (`AstNode.offence?_eq_none_iff`), so the depth at
which a construct stands makes no difference.
-/

namespace SchemaForest

open Fallible

/-! ## What has a schema -/

/-- The keywords that have a schema. -/
def Keyword.Admitted (k : Keyword) : Prop :=
  k = .string ∨ k = .number ∨ k = .boolean ∨ k = .null

/-- The types that have a schema, as far as the node itself decides. -/
def TypeNode.Admitted : TypeNode → Prop
  | .keyword _ k => k.Admitted
  | .array _ element => ∃ s k, element = .keyword s k ∧ k.Admitted
  | .object .. | .union .. | .intersection .. | .parenthesized .. => True
  | .literal _ v => (∃ s, v = .string s) ∨ (∃ x, v = .number x) ∨ ∃ b, v = .boolean b
  | .reference _ target parameters => (∃ n, target = .identifier n) ∧ parameters = none
  | .foreign .. => False

/-- The members that have a schema: properties with a name and a type. -/
def TypeMember.Admitted (m : TypeMember) : Prop :=
  ∃ s n t, m = .property s (.identifier n) (some t) ∧ n ≠ ""

theorem error?_keywordKind {k : Keyword} {s : Span} :
    error? (keywordKind k s) = none ↔ k.Admitted := by
  rw [keywordKind, Keyword.Admitted]
  cases k <;> simp [Keyword.kind?]

theorem error?_literalKind {v : Literal} {s : Span} :
    error? (literalKind v s) = none ↔
      (∃ t, v = .string t) ∨ (∃ x, v = .number x) ∨ ∃ b, v = .boolean b := by
  cases v <;> simp [literalKind]

theorem error?_referenceKind {lookup : String → Option Handle} {target : TypeName}
    {parameters : Option Json} {s : Span} :
    error? (referenceKind lookup target parameters s) = none ↔
      (∃ n, target = .identifier n) ∧ parameters = none := by
  cases target with
  | qualified => simp [referenceKind]
  | identifier n =>
    cases parameters with
    | some p => simp [referenceKind]
    | none =>
      rw [referenceKind_identifier]
      exact ⟨fun _ => ⟨⟨n, rfl⟩, rfl⟩, fun _ => rfl⟩

theorem propertyName_eq_ok_iff {key : PropertyKey} {s : Span} {n : String} :
    propertyName key s = .ok n ↔ key = .identifier n ∧ n ≠ "" := by
  cases key with
  | identifier m =>
    by_cases hm : m = ""
    · rw [propertyName, if_pos hm, hm]
      simp
    · rw [propertyName, if_neg hm, Except.ok.injEq, PropertyKey.identifier.injEq]
      exact ⟨fun h => ⟨h, h ▸ hm⟩, And.left⟩
  | _ => simp [propertyName]

namespace AstNode

/-- The nodes at which nothing is refused.  An array is refused for an element that is no keyword;
    which keyword it is decides the element. -/
def Sound : AstNode → Prop
  | declaration (.exported ..) => True
  | declaration d => d.name ≠ ""
  | type (.array _ element) => ∃ s k, element = .keyword s k
  | type t => t.Admitted
  | member m => m.Admitted

theorem offence?_eq_none_iff (a : AstNode) : a.offence? = none ↔ a.Sound := by
  cases a with
  | declaration d =>
    have hnamed : ∀ (n : String) (e : ExtractError) (l : Option Label),
        error? (if n = "" then .error e else .ok l) = none ↔ n ≠ "" := by
      intro n e l
      split <;> simp [*]
    cases d with
    | exported s d => exact ⟨fun _ => trivial, fun _ => rfl⟩
    | interface s n _ | «alias» s n _ => exact hnamed n _ _
  | type t =>
    cases t with
    | keyword s k =>
      rw [offence?, own, error?_map]
      exact error?_keywordKind
    | array s e => cases e <;> simp [offence?, own, Sound]
    | object | union | intersection | parenthesized => exact ⟨fun _ => trivial, fun _ => rfl⟩
    | literal s v =>
      rw [offence?, own, error?_map]
      exact error?_literalKind
    | reference s target parameters =>
      rw [offence?, own, error?_map]
      exact error?_referenceKind
    | foreign s kind => simp [offence?, own, Sound, TypeNode.Admitted]
  | member m =>
    cases m with
    | foreign s kind => simp [offence?, own, Sound, TypeMember.Admitted]
    | property s key t =>
      rw [offence?, error?_eq_none_iff]
      constructor
      · rintro ⟨l, hl⟩
        obtain ⟨n, hn, htyped⟩ := bind_eq_ok_iff.1 hl
        obtain ⟨rfl, hne⟩ := propertyName_eq_ok_iff.1 hn
        cases t with
        | none => cases htyped
        | some t => exact ⟨s, n, t, rfl, hne⟩
      · rintro ⟨_, n, t, heq, hne⟩
        cases heq
        refine ⟨none, ?_⟩
        rw [own, propertyName_eq_ok_iff.2 ⟨rfl, hne⟩]
        rfl

/-- Nothing is refused in a declaration exactly if it has a name and all that is inside is
    admitted. -/
theorem forall_sound_iff {d : Declaration} :
    (∀ a ∈ (declaration d).preorder, a.Sound) ↔
      d.name ≠ "" ∧ (∀ m, member m ∈ (declaration d).preorder → m.Admitted) ∧
        ∀ t, type t ∈ (declaration d).preorder → t.Admitted := by
  constructor
  · intro h
    refine ⟨?_, fun m hm => h _ hm, fun t ht => ?_⟩
    · induction d with
      | exported s d ih =>
        exact ih fun a ha => h a (mem_preorder.2 (Or.inr ⟨_, List.mem_singleton_self _, ha⟩))
      | interface | «alias» => exact h _ (mem_preorder_self _)
    · cases t with
      | array s element =>
        -- The element is a node of its own, at which its keyword is checked.
        obtain ⟨s', k, rfl⟩ := h _ ht
        exact ⟨s', k, rfl, h _ (mem_preorder_of_mem_children ht (List.mem_singleton_self _))⟩
      | _ => exact h _ ht
  · rintro ⟨hname, hmembers, htypes⟩ a ha
    cases a with
    | declaration e =>
      -- The declarations inside are exported ones, and all have the one name.
      obtain ⟨_, heq, he, -⟩ := exported_of_mem_preorder ha
      cases heq
      cases e with
      | exported => trivial
      | _ =>
        rw [← he] at hname
        exact hname
    | member m => exact hmembers m ha
    | type t =>
      have ht := htypes t ha
      cases t with
      | array s element =>
        obtain ⟨s', k, heq, -⟩ := ht
        exact ⟨s', k, heq⟩
      | _ => exact ht

end AstNode

/-! ## Comments that come too late -/

/-- The latest start among the nodes of a forest. -/
def latestStart? (forest : Forest Label) : Option Nat :=
  ((Forest.labels forest).map fun a => a.range.start).max?

/-- Something starts behind a place exactly if the latest start does. -/
theorem exists_latestStart?_iff {forest : Forest Label} {stop : Nat} :
    (∃ m, latestStart? forest = some m ∧ stop < m) ↔
      ∃ n ∈ Forest.flatten forest, stop < n.label.range.start := by
  have hlabels : latestStart? forest =
      ((Forest.flatten forest).map fun n => n.label.range.start).max? := by
    rw [latestStart?, Forest.labels, List.map_map]
    rfl
  rw [hlabels]
  constructor
  · rintro ⟨m, hm, hstop⟩
    obtain ⟨n, hn, rfl⟩ := List.mem_map.1 (List.max?_eq_some_iff.1 hm).1
    exact ⟨n, hn, hstop⟩
  · rintro ⟨n, hn, hstop⟩
    have hmem := List.mem_map_of_mem (f := fun n : Node => n.label.range.start) hn
    cases hmax : ((Forest.flatten forest).map fun n => n.label.range.start).max? with
    | none => exact absurd hmem (List.max?_eq_none_iff.1 hmax ▸ List.not_mem_nil)
    | some m => exact ⟨m, rfl, Nat.lt_of_lt_of_le hstop ((List.max?_eq_some_iff.1 hmax).2 _ hmem)⟩

/-- Resolving leaves the places of all nodes as they are. -/
theorem latestStart?_resolve {t t' : Table} (h : t.resolve = (t', none)) :
    latestStart? t'.declarations = latestStart? t.declarations := by
  have ht' : t' = ⟨Forest.mapLabels (Table.settle t.handle?) t.declarations⟩ :=
    (congrArg Prod.fst h).symm.trans (Table.resolve_eq_of_fault_eq_none (congrArg Prod.snd h))
  rw [ht', latestStart?, Forest.labels_mapLabels, List.map_map, latestStart?]
  simp only [Function.comp_def, Table.range_settle]

/-- Declarations can be put into a table exactly if they have names that differ and all members and
    types inside them have a schema. -/
theorem exists_ofDeclarations_iff {ds : List Declaration} :
    (∃ t, Table.ofDeclarations ds = .ok t) ↔
      ((∀ d ∈ ds, d.name ≠ "") ∧ (ds.map Declaration.name).Nodup) ∧
      (∀ m, .member m ∈ sourceOrder ds → m.Admitted) ∧
        ∀ t, .type t ∈ sourceOrder ds → t.Admitted := by
  rw [Table.ofDeclarations, Table.exists_declareAll_iff]
  simp only [AstNode.offence?_eq_none_iff, AstNode.forall_sound_iff, sourceOrder, List.mem_flatMap]
  constructor
  · rintro ⟨hsound, -, hnodup⟩
    refine ⟨⟨fun d hd => (hsound d hd).1, hnodup⟩, ?_, ?_⟩
    · rintro m ⟨d, hd, hm⟩
      exact (hsound d hd).2.1 m hm
    · rintro t ⟨d, hd, ht⟩
      exact (hsound d hd).2.2 t ht
  · rintro ⟨⟨hnamed, hnodup⟩, hmembers, htypes⟩
    refine ⟨fun d hd => ⟨hnamed d hd, fun m hm => ?_, fun t ht => ?_⟩, fun d _ => ?_, hnodup⟩
    · exact hmembers m ⟨d, hd, hm⟩
    · exact htypes t ⟨d, hd, ht⟩
    · exact List.not_mem_nil

/-- An extraction succeeds exactly if the declarations have names that differ, all members and types
    inside them have a schema, every name referred to is declared, and no comment with a text ends
    at or behind the latest start of a node. -/
theorem extract_accepts_iff (ds : List Declaration) (cs : List Comment) :
    (∃ t, extract ds cs = .ok t) ↔
      ((∀ d ∈ ds, d.name ≠ "") ∧ (ds.map Declaration.name).Nodup) ∧
      ((∀ m, .member m ∈ sourceOrder ds → m.Admitted) ∧
        ∀ t, .type t ∈ sourceOrder ds → t.Admitted) ∧
      (∀ target ∈ references ds, target ∈ ds.map Declaration.name) ∧
      ∀ t, Table.ofDeclarations ds = .ok t → ∀ c ∈ cs, c.body ≠ none →
        ∃ m, latestStart? t.declarations = some m ∧ c.span.stop < m := by
  rw [exists_extract_iff]
  constructor
  · rintro ⟨t₀, t₁, ht₀, hresolve, hcomments⟩
    obtain ⟨hnames, hadmitted⟩ := exists_ofDeclarations_iff.1 ⟨t₀, ht₀⟩
    refine ⟨hnames, hadmitted, ?_, fun t ht c hc hbody => ?_⟩
    · obtain ⟨-, -, hfault, -⟩ := resolve_ofDeclarations ht₀
      rw [hresolve] at hfault
      exact findSome?_undeclared?_eq_none_iff.1 hfault.symm
    · cases ht₀.symm.trans ht
      rw [← latestStart?_resolve hresolve]
      exact exists_latestStart?_iff.2 (hcomments c hc hbody)
  · -- Nothing stops the first phase, so there is a table to resolve, and then to place comments in.
    rintro ⟨hnames, hadmitted, hdeclared, hcomments⟩
    obtain ⟨t₀, ht₀⟩ := exists_ofDeclarations_iff.2 ⟨hnames, hadmitted⟩
    obtain ⟨forest, -, hfault, hresolved⟩ := resolve_ofDeclarations ht₀
    have hnone := hfault.trans (findSome?_undeclared?_eq_none_iff.2 hdeclared)
    have hresolve : t₀.resolve = (⟨forest⟩, none) := Prod.ext (hresolved hnone) hnone
    refine ⟨t₀, ⟨forest⟩, ht₀, hresolve, fun c hc hbody => ?_⟩
    refine exists_latestStart?_iff.1 ?_
    rw [latestStart?_resolve hresolve]
    exact hcomments t₀ ht₀ c hc hbody

end SchemaForest
