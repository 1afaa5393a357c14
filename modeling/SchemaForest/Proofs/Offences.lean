import SchemaForest.Proofs.Acceptance

/-!
# The first offence

An extraction that fails reports one error, although much may be wrong with a source.  All that is
wrong with it can be listed without running anything: `offences` goes through the declarations, then
through the references, then through the comments.  An extraction fails exactly with the head of that
list (`error?_extract`).

1. **Inside a declaration** a translation stops at the first offence in source order
   (`error?_translateDeclaration`), because a node is checked before what is inside it.
2. **Between declarations** a name is looked for only when its declaration has been translated, so a
   repeated name comes last of the offences of its declaration (`Table.error?_declareAll`).  The
   invariant is that a table holds the names and the spans of the declarations in front.
3. **Between phases** a later one starts only if the earlier ones have found nothing.
-/

namespace SchemaForest

open Fallible

/-! ## What is wrong with a source -/

instance (k : Keyword) : Decidable k.Admitted := inferInstanceAs (Decidable (_ ∨ _ ∨ _ ∨ _))

/-- What is wrong with a type, without what is inside it.  An array answers for an element that is no
    keyword, and for nothing else. -/
def TypeNode.offences : TypeNode → List ExtractError
  | .keyword s k => if k.Admitted then [] else [.unsupported (.keyword k) s]
  | .array _ (.keyword ..) => []
  | .array _ element => [.unsupported (.arrayOf element.kindName) element.span]
  | .object .. | .union .. | .intersection .. | .parenthesized .. => []
  | .literal s (.bigint _) => [.unsupported .bigint s]
  | .literal s .template => [.unsupported .template s]
  | .literal .. => []
  | .reference s (.qualified ..) _ => [.unsupported .qualifiedName s]
  | .reference s (.identifier n) (some _) => [.unsupported (.generic n) s]
  | .reference _ (.identifier _) none => []
  | .foreign s kind => [.unsupported (.type kind) s]

/-- What is wrong with the key of a property at a span. -/
def PropertyKey.offences (s : Span) : PropertyKey → List ExtractError
  | .identifier n => if n = "" then [.malformed .namelessProperty s] else []
  | key => [.unsupported (.key key) s]

/-- What is wrong with a member, without its type: first the kind of the member, then its key, then
    that it has no type. -/
def TypeMember.offences : TypeMember → List ExtractError
  | .foreign s kind => [.unsupported (.member kind) s]
  | .property s (.identifier n) none =>
    PropertyKey.offences s (.identifier n) ++ [.malformed (.untypedProperty n) s]
  | .property s key _ => key.offences s

/-- What is wrong with a type or a member by itself. -/
def AstNode.offences : AstNode → List ExtractError
  | declaration _ => []
  | type t => t.offences
  | member m => m.offences

/-- The types and members of the declaration inside all exports, in source order. -/
def Declaration.body : Declaration → List AstNode
  | .interface _ _ ms => TypeMember.listed ms
  | .alias _ _ t => (AstNode.type t).preorder
  | .exported _ d => d.body

/-- What is wrong with a declaration by itself: that it has no name, and then what is wrong in its
    body. -/
def Declaration.offences (d : Declaration) : List ExtractError :=
  (if d.name = "" then [.malformed .namelessDeclaration d.span] else []) ++
    d.body.flatMap AstNode.offences

/-- That the name of a declaration is the name of one in front of it. -/
def Declaration.repeated (earlier : List Declaration) (d : Declaration) : List ExtractError :=
  match earlier.find? (fun e => e.name == d.name) with
  | some first => [.duplicate d.name first.span d.span]
  | none => []

/-- What is wrong with declarations, given those in front of them. -/
def offencesBehind (earlier : List Declaration) : List Declaration → List ExtractError
  | [] => []
  | d :: rest => d.offences ++ d.repeated earlier ++ offencesBehind (earlier ++ [d]) rest

/-- The references whose names are not declared, in source order. -/
def referenceOffences (ds : List Declaration) : List ExtractError :=
  (sourceOrder ds).filterMap (AstNode.undeclared? (index ds))

/-- The comments with a text behind which none of some nodes starts. -/
def commentOffences (nodes : List Node) (cs : List Comment) : List ExtractError :=
  cs.filterMap fun c => c.body.bind fun text =>
    if ∃ n ∈ nodes, c.span.stop < n.label.range.start then none else some (.orphan text c.span)

/-- The nodes of some declarations in flat order; none if the declarations have no translation. -/
def nodesOf (ds : List Declaration) : List Node :=
  match onePass ds with
  | .ok forest => Forest.flatten forest
  | .error _ => []

/-- All that is wrong with a source: with its declarations in order, then with its references, then
    with its comments. -/
def offences (ds : List Declaration) (cs : List Comment) : List ExtractError :=
  offencesBehind [] ds ++ referenceOffences ds ++ commentOffences (nodesOf ds) cs

/-! ## Inside a declaration -/

/-- What a type or a member is refused for is the first thing that is wrong with it. -/
theorem AstNode.offence?_eq_head? {a : AstNode} (h : ∀ d, a ≠ declaration d) :
    a.offence? = a.offences.head? := by
  cases a with
  | declaration d => exact absurd rfl (h d)
  | type t =>
    cases t with
    | keyword s k =>
      by_cases hk : k.Admitted
      · have hnone : error? (keywordKind k s) = none := error?_keywordKind.2 hk
        rw [offence?, own, error?_map, hnone]
        simp [offences, TypeNode.offences, hk]
      · have hkind : k.kind? = none := by
          cases k <;> first | rfl | exact absurd (by simp [Keyword.Admitted]) hk
        rw [offence?, own, error?_map, keywordKind, hkind]
        simp [offences, TypeNode.offences, hk]
    | array s e => cases e <;> rfl
    | object | union | intersection | parenthesized | «foreign» => rfl
    | literal s v => cases v <;> rfl
    | reference s target parameters =>
      cases target with
      | qualified => rfl
      | identifier n => cases parameters <;> rfl
  | member m =>
    cases m with
    | «foreign» s kind => rfl
    | property s key t =>
      cases key with
      | identifier n =>
        by_cases hn : n = ""
        · subst hn
          cases t <;> rfl
        · have hkey : PropertyKey.offences s (.identifier n) = [] := if_neg hn
          have hname : propertyName (.identifier n) s = .ok n := if_neg hn
          cases t with
          | none =>
            rw [offence?, own, hname, offences, TypeMember.offences, hkey]
            rfl
          | some t =>
            rw [offence?, own, hname, offences, TypeMember.offences, hkey]
            · rfl
            · intro _ _ h
              cases h
      | string | number | computed => cases t <;> rfl

/-- What stands in the body of a declaration are types and members. -/
theorem Declaration.ne_declaration_of_mem_body {d : Declaration} {a : AstNode} (ha : a ∈ d.body)
    (e : Declaration) : a ≠ .declaration e := by
  induction d with
  | exported s d ih => exact ih ha
  | interface s n ms =>
    rintro rfl
    rw [body, AstNode.listed_members, List.mem_flatMap] at ha
    obtain ⟨b, hb, hmem⟩ := ha
    obtain ⟨m, -, rfl⟩ := List.mem_map.1 hb
    obtain ⟨d, heq, -⟩ := AstNode.exported_of_mem_preorder hmem
    cases heq
  | «alias» s n t =>
    rintro rfl
    obtain ⟨d, heq, -⟩ := AstNode.exported_of_mem_preorder ha
    cases heq

/-- The translation of a declaration fails with the first thing that is wrong with it. -/
theorem error?_translateDeclaration (lookup : String → Option Handle) (d : Declaration) :
    error? (translateDeclaration lookup d) = d.offences.head? := by
  have hbody : ∀ e : Declaration, e.body.findSome? AstNode.offence? =
      (e.body.flatMap AstNode.offences).head? := by
    intro e
    have hnode : ∀ a ∈ e.body, AstNode.offence? a = a.offences.head? := fun a ha =>
      AstNode.offence?_eq_head? (Declaration.ne_declaration_of_mem_body ha)
    rw [List.head?_flatMap, ← List.head?_filterMap, ← List.head?_filterMap,
      List.filterMap_congr hnode]
  have hnamed : ∀ (n : String) (s : Span) (l : Option Label),
      error? (if n = "" then .error (.malformed .namelessDeclaration s) else .ok l) =
        (if n = "" then [ExtractError.malformed .namelessDeclaration s] else []).head? := by
    intro n s l
    by_cases hn : n = ""
    · rw [if_pos hn, if_pos hn]
      rfl
    · rw [if_neg hn, if_neg hn]
      rfl
  have hfirst : error? (translateDeclaration lookup d) =
      (AstNode.declaration d).preorder.findSome? AstNode.offence? :=
    AstNode.error?_translate "" default (.declaration d)
  rw [hfirst]
  clear hfirst
  induction d with
  | exported s d ih => exact ih
  | interface s n ms | «alias» s n t =>
    -- The declaration itself can only lack a name, and behind it in source order comes its body.
    rw [AstNode.preorder, List.findSome?_cons, AstNode.offence?, AstNode.own, hnamed,
      Declaration.offences, List.head?_append, ← hbody]
    · rw [Declaration.name, Declaration.span]
      generalize List.head? (if n = "" then _ else _) = found
      cases found <;> rfl
    · intro _ _ h
      cases h

/-! ## Between declarations -/

/-- A table holds the names and the spans of some declarations. -/
def Table.Lists (t : Table) (ds : List Declaration) : Prop :=
  List.Forall₂ (fun n d => n.label.name = d.name ∧ n.label.range = d.span) t.declarations ds

namespace Table

/-- The declaration found under a name is the first that has it. -/
theorem find?_eq (t : Table) (name : String) :
    t.find? name = t.declarations.find? fun d => d.label.name == name := by
  rw [find?, handle?, handleIn, names, List.findIdx?_map, List.find?_eq_bind_findIdx?_getElem?,
    Option.bind_map]
  rfl

/-- What is found under a name stands where the first declaration of that name does. -/
theorem Lists.find? {t : Table} {ds : List Declaration} (h : t.Lists ds) (name : String) :
    (t.find? name).map (fun n => n.label.range) =
      (ds.find? fun d => d.name == name).map Declaration.span := by
  have hfind : ∀ {ns : Forest Label} {ds : List Declaration},
      List.Forall₂ (fun n d => n.label.name = d.name ∧ n.label.range = d.span) ns ds →
      (ns.find? fun d => d.label.name == name).map (fun n => n.label.range) =
        (ds.find? fun d => d.name == name).map Declaration.span := by
    intro ns ds h
    induction h with
    | nil => rfl
    | @cons n d _ _ hlabel _ ih =>
      obtain ⟨hname, hrange⟩ := hlabel
      rw [List.find?_cons, List.find?_cons, hname]
      cases d.name == name with
      | true => exact congrArg some hrange
      | false => exact ih
  rw [find?_eq]
  exact hfind h

/-- Declaring fails with the first thing that is wrong with the declarations, given those that the
    table holds. -/
theorem error?_declareAll {t : Table} {earlier : List Declaration} (h : t.Lists earlier)
    (ds : List Declaration) :
    error? (t.declareAll ds) = (offencesBehind earlier ds).head? := by
  induction ds generalizing t earlier with
  | nil => rfl
  | cons d rest ih =>
    have hown := error?_translateDeclaration t.handle? d
    rw [declareAll_cons, declare_eq, offencesBehind, List.append_assoc, List.head?_append, ← hown]
    cases htranslate : translateDeclaration t.handle? d with
    | error e => rfl
    | ok n =>
      have hlabel := label_translateDeclaration htranslate
      have hname : n.label.name = d.name := by rw [hlabel]
      have hrange : n.label.range = d.span := by rw [hlabel]
      have hfind := h.find? d.name
      rw [error?_ok, Option.none_or, List.head?_append, Declaration.repeated]
      show error? (t.insert n >>= fun r => r.1.declareAll rest) = _
      rw [insert_eq, hname, hrange]
      -- The name is looked for in the table as it is among the declarations in front.
      cases hfound : t.find? d.name with
      | some first =>
        rw [hfound] at hfind
        obtain ⟨e, he, hspan⟩ := Option.map_eq_some_iff.1 hfind.symm
        rw [he]
        show some _ = (some _).or _
        rw [hspan]
        rfl
      | none =>
        rw [hfound] at hfind
        have hnone := Option.map_eq_none_iff.1 hfind.symm
        rw [hnone]
        have hlists : Lists ⟨t.declarations ++ [n]⟩ (earlier ++ [d]) :=
          List.rel_append h (.cons ⟨hname, hrange⟩ .nil)
        exact ih hlists

end Table

/-! ## Between phases -/

/-- Placing comments fails with the first comment that comes too late. -/
theorem head?_commentOffences (nodes : List Node) (cs : List Comment) :
    (commentOffences nodes cs).head? = error? (Comments.associate nodes cs) := by
  rw [Comments.error?_associate, commentOffences, List.head?_filterMap]
  congr 1
  funext c
  rw [Comments.orphan?]
  cases c.body with
  | none => rfl
  | some text =>
    rw [Option.bind_some, Option.bind_some]
    cases hplace : Comments.nodeFor? nodes c.span.stop with
    | none =>
      have hall := Comments.nodeFor?_eq_none_iff.1 hplace
      refine if_neg ?_
      rintro ⟨n, hn, hstop⟩
      have := hall n hn
      omega
    | some i =>
      obtain ⟨n, hn, hstop, -⟩ := Comments.nodeFor?_eq_some_iff.1 hplace
      exact if_pos ⟨n, List.mem_of_getElem? hn, hstop⟩

/-- An extraction fails with the first thing that is wrong with the source, and only if there is
    something wrong with it.  The references without a declaration stand in the translated forest in
    the order in which they stand in the source. -/
theorem error?_extract (ds : List Declaration) (cs : List Comment) :
    error? (extract ds cs) = (offences ds cs).head? ∧
      ∀ forest, onePass ds = .ok forest →
        (Forest.labels forest).filterMap Table.pending? = referenceOffences ds := by
  refine ⟨?_, fun forest hforest => filterMap_pending?_labels hforest⟩
  have hdeclare : error? (Table.ofDeclarations ds) = (offencesBehind [] ds).head? :=
    Table.error?_declareAll .nil ds
  rw [offences, List.head?_append, List.head?_append, ← hdeclare, extract_eq]
  cases ht : Table.ofDeclarations ds with
  | error e => rfl
  | ok t =>
    obtain ⟨forest, hforest, hfault, hresolved⟩ := resolve_ofDeclarations ht
    have hreferences : (referenceOffences ds).head? = t.resolve.2 := by
      rw [hfault, referenceOffences, List.head?_filterMap]
    have hnodes : nodesOf ds = Forest.flatten forest := by
      rw [nodesOf, hforest]
    have hstep : ∀ f : Table → Except ExtractError Table, (Except.ok t >>= f) = f t := fun _ => rfl
    rw [error?_ok, Option.none_or, hreferences, hnodes, head?_commentOffences, hstep]
    rcases hresolve : t.resolve with ⟨t₁, _ | e⟩
    · -- All references are resolved, so the comments are placed on the nodes of the one pass.
      rw [hresolve] at hresolved
      obtain rfl : t₁ = ⟨forest⟩ := hresolved rfl
      dsimp only
      rw [Comments.attach_eq, Option.none_or]
      cases Comments.associate (Forest.flatten forest) cs <;> rfl
    · rfl

/-- Of two references without a declaration the one in front is reported. -/
theorem error?_extract_dangling :
    let ds : List Declaration := [.alias ⟨0, 20⟩ "A" (.union ⟨5, 20⟩
      [.reference ⟨5, 8⟩ (.identifier "B") none, .reference ⟨11, 20⟩ (.identifier "C") none])]
    ∃ forest, onePass ds = .ok forest ∧
      (Forest.labels forest).filterMap Table.pending? = referenceOffences ds ∧
      error? (extract ds []) = (offences ds []).head? ∧
      (offences ds []).head? = some (.unresolved "B" ⟨5, 8⟩) := by
  intro ds
  obtain ⟨hfirst, hreferences⟩ := error?_extract ds []
  exact ⟨_, rfl, hreferences _ rfl, hfirst, rfl⟩

/-- A repeated name comes last: the array in the second declaration is what is reported. -/
example : error? (extract [.alias ⟨0, 9⟩ "A" (.keyword ⟨5, 9⟩ .null),
      .exported ⟨10, 40⟩ (.alias ⟨17, 40⟩ "A" (.array ⟨20, 39⟩ (.foreign ⟨20, 37⟩ .tuple)))] []) =
    some (.unsupported (.arrayOf "TsTupleType") ⟨20, 37⟩) := rfl

end SchemaForest
