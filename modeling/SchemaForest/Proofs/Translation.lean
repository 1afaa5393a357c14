import SchemaForest.Proofs.Fallible
import SchemaForest.Proofs.SourceOrder
import SchemaForest.Proofs.Traversal
import SchemaForest.Schema.Translate

/-!
# Translation, node by node

Declarations, members and types are translated by three recursions with one plan: a node of the
source is checked by itself, then its children are translated from left to right, then the results
are put together.  `AstNode.translate_eq` says this once, with `AstNode.own` for what a node brings
itself and `AstNode.join` for putting together.  What follows is by induction over one kind of node,
with one case (`AstNode.brings` says all there is to know about `own`):

* a translation fails with the first offence in source order (`error?_translate`);
* which names are known changes nothing but the kinds of references (`translate_relabel`);
* every node has the range of its place or the span of something it was made from (`range_mem`);
* the references of the source become those of the forest, in order (`filterMap_labels`).
-/

namespace SchemaForest

open Fallible

variable (lookup : String → Option Handle)

theorem translateTypes_eq (name : String) (range : Span) (ts : List TypeNode) :
    translateTypes lookup name range ts = ts.mapM (translateType lookup name range) := by
  induction ts with
  | nil => rfl
  | cons t rest ih =>
    rw [translateTypes, ih, mapM_cons]
    rfl

theorem translateMembers_eq (ms : List TypeMember) :
    translateMembers lookup ms = ms.mapM (translateMember lookup) := by
  induction ms with
  | nil => rfl
  | cons m rest ih =>
    rw [translateMembers, ih, mapM_cons]
    rfl

theorem translateDeclaration_of_nameless {d : Declaration} (h : d.name = "") :
    translateDeclaration lookup d = .error (.malformed .namelessDeclaration d.span) := by
  rw [translateDeclaration.eq_def, if_pos h]

/-- An export asks for the name and the span of the declaration inside, so it is refused where that
    is, for the same reason. -/
theorem translateDeclaration_exported (s : Span) (d : Declaration) :
    translateDeclaration lookup (.exported s d) = translateDeclaration lookup d := by
  by_cases h : d.name = ""
  · have houter : (Declaration.exported s d).name = "" := h
    rw [translateDeclaration_of_nameless lookup h, translateDeclaration_of_nameless lookup houter]
    rfl
  · rw [translateDeclaration, Declaration.name, if_neg h]

/-- The kind of a reference to a name. -/
def linkKind (name : String) : Kind :=
  match lookup name with
  | some h => .reference h
  | none => .unresolved name

theorem referenceKind_identifier (name : String) (span : Span) :
    referenceKind lookup (.identifier name) none span = .ok (linkKind lookup name) := by
  rw [referenceKind, linkKind]
  cases lookup name <;> rfl

/-- The kinds of references, resolved or not. -/
def Kind.IsLink : Kind → Prop
  | .reference _ | .unresolved _ => True
  | _ => False

theorem target?_linkKind (name : String) : (linkKind lookup name).target? = lookup name := by
  rw [linkKind]
  cases lookup name <;> rfl

theorem Kind.target?_eq_none {kind : Kind} (h : ¬ kind.IsLink) : kind.target? = none := by
  cases kind with
  | reference _ => exact absurd trivial h
  | _ => rfl

namespace AstNode

/-- The name that a node refers to. -/
def reference? : AstNode → Option String
  | type (.reference _ (.identifier n) none) => some n
  | _ => none

/-- The translation of a node that stands at a place of the given name and range. -/
def translate (name : String) (range : Span) : AstNode → Except ExtractError Node
  | declaration d => translateDeclaration lookup d
  | type t => translateType lookup name range t
  | member m => translateMember lookup m

/-- Name and range of the place where the children of a node stand. -/
def place (name : String) (range : Span) : AstNode → String × Span
  | declaration (.alias s n _) => (n, s)
  | type (.array _ e) => (elementName, e.span)
  | member (.property s (.identifier n) _) => (n, s)
  | _ => (name, range)

/-- What a node brings itself: the label of the schema node that it makes, if it makes one, or the
    reason why it is refused. -/
def own (name : String) (range : Span) : AstNode → Except ExtractError (Option Label)
  | declaration (.exported ..) => .ok none
  | declaration d =>
    if d.name = "" then .error (.malformed .namelessDeclaration d.span)
    else .ok (some { name := d.name, kind := .declaration, range := d.span })
  | type (.keyword s k) =>
    (keywordKind k s).map fun kind => some { name := name, kind := kind, range := range }
  | type (.array _ (.keyword ..)) =>
    .ok (some { name := name, kind := .array, range := range })
  | type (.array _ e) => .error (.unsupported (.arrayOf e.kindName) e.span)
  | type (.object ..) => .ok (some { name := name, kind := .object, range := range })
  | type (.union ..) => .ok (some { name := name, kind := .union, range := range })
  | type (.intersection s _) => .ok (some { name := name, kind := .intersection, range := s })
  | type (.parenthesized ..) => .ok none
  | type (.literal s v) =>
    (literalKind v s).map fun kind => some { name := name, kind := kind, range := s }
  | type (.reference s target parameters) =>
    (referenceKind lookup target parameters s).map fun kind =>
      some { name := name, kind := kind, range := s }
  | type (.foreign s kind) => .error (.unsupported (.type kind) s)
  | member (.foreign s kind) => .error (.unsupported (.member kind) s)
  | member (.property s key t) =>
    (propertyName key s).bind fun n =>
      match t with
      | none => .error (.malformed (.untypedProperty n) s)
      | some _ => .ok none

/-- Puts the nodes of the children below the label of a node; without a label they stay as they are.
    The object type of an alias leaves its members to the alias. -/
def join : AstNode → Option Label → Forest Label → Forest Label
  | _, none, cs => cs
  | declaration (.alias _ _ (.object ..)), some l, cs => [.node l (cs.flatMap Tree.children)]
  | _, some l, cs => [.node l cs]

/-- A node is checked, its children are translated in order, and the results are put together. -/
theorem translate_eq (name : String) (range : Span) (a : AstNode) :
    (a.translate lookup name range).map (fun n => [n]) =
      (a.own lookup name range).bind fun l =>
        (a.children.mapM (translate lookup (a.place name range).1 (a.place name range).2)).map
          (a.join l) := by
  -- The three recursions over children are repetitions of `translate`.
  have hone : ∀ (n : String) (s : Span) (b : AstNode),
      [b].mapM (translate lookup n s) = (b.translate lookup n s).map fun c => [c] := by
    intro n s b
    rw [mapM_cons]
    cases b.translate lookup n s <;> rfl
  have hmembers : ∀ (n : String) (s : Span) (ms : List TypeMember),
      (ms.map member).mapM (translate lookup n s) = translateMembers lookup ms := by
    intro n s ms
    rw [List.mapM_map, translateMembers_eq]
    rfl
  have htypes : ∀ (n : String) (s : Span) (ts : List TypeNode),
      (ts.map type).mapM (translate lookup n s) = translateTypes lookup n s ts := by
    intro n s ts
    rw [List.mapM_map, translateTypes_eq]
    rfl
  cases a with
  | declaration d =>
    cases d with
    | interface s n ms =>
      show (if n = "" then Except.error _ else (translateMembers lookup ms).map _).map _ =
        (if n = "" then Except.error _ else Except.ok _).bind _
      rw [children, hmembers]
      by_cases hn : n = ""
      · rw [if_pos hn, if_pos hn]; rfl
      · rw [if_neg hn, if_neg hn]
        cases translateMembers lookup ms <;> rfl
    | «alias» s n t =>
      show (if n = "" then Except.error _ else _).map _ =
        (if n = "" then Except.error _ else Except.ok _).bind _
      rw [children, hone]
      by_cases hn : n = ""
      · rw [if_pos hn, if_pos hn]; rfl
      · rw [if_neg hn, if_neg hn]
        show _ = ((translateType lookup n s t).map fun c => [c]).map _
        cases t with
        | object s' ms =>
          -- Its members go right below the alias; the one node in between is dropped by `join`.
          show ((translateMembers lookup ms).map _).map _ =
            (((translateMembers lookup ms).map _).map _).map _
          cases translateMembers lookup ms with
          | error e => rfl
          | ok cs =>
            show Except.ok _ = Except.ok [Tree.node _ (cs ++ [])]
            rw [List.append_nil]
            rfl
        | _ =>
          show ((translateType lookup n s _).map _).map _ =
            ((translateType lookup n s _).map _).map _
          generalize translateType lookup n s _ = x
          cases x <;> rfl
    | exported s d =>
      rw [children, hone, translate, translateDeclaration_exported]
      show (translateDeclaration lookup d).map _ = ((translateDeclaration lookup d).map _).map _
      cases translateDeclaration lookup d <;> rfl
  | type t =>
    cases t with
    | keyword s k =>
      rw [translate, translateType, own]
      cases keywordKind k s <;> rfl
    | array s e =>
      rw [translate, translateType, children, hone]
      cases e with
      | keyword s' k =>
        show (((keywordKind k s').map _).map _).map _ = (((keywordKind k s').map _).map _).map _
        cases keywordKind k s' <;> rfl
      | _ => rfl
    | object s ms =>
      rw [translate, translateType, children, hmembers]
      cases translateMembers lookup ms <;> rfl
    | union s ts =>
      rw [children, htypes]
      show ((translateTypes lookup name range ts).map _).map _ =
        (translateTypes lookup name range ts).map _
      cases translateTypes lookup name range ts <;> rfl
    | intersection s ts =>
      rw [children, htypes]
      show ((translateTypes lookup name range ts).map _).map _ =
        (translateTypes lookup name range ts).map _
      cases translateTypes lookup name range ts <;> rfl
    | parenthesized s t =>
      rw [children, hone]
      show (translateType lookup name range t).map _ =
        ((translateType lookup name range t).map _).map _
      cases translateType lookup name range t <;> rfl
    | literal s v =>
      rw [translate, translateType, own]
      cases literalKind v s <;> rfl
    | reference s n p =>
      rw [translate, translateType, own]
      cases referenceKind lookup n p s <;> rfl
    | foreign s kind => rfl
  | member m =>
    cases m with
    | foreign s kind => rfl
    | property s key t =>
      cases t with
      | none =>
        show ((propertyName key s).bind _).map _ = ((propertyName key s).bind _).bind _
        cases propertyName key s <;> rfl
      | some t =>
        cases key with
        | identifier n =>
          rw [children, hone]
          show ((propertyName (.identifier n) s).bind _).map _ =
            ((propertyName (.identifier n) s).bind _).bind fun _ =>
              ((translateType lookup n s t).map _).map _
          by_cases hn : n = ""
          · rw [propertyName, if_pos hn]; rfl
          · rw [propertyName, if_neg hn]
            show (translateType lookup n s t).map _ = ((translateType lookup n s t).map _).map _
            cases translateType lookup n s t <;> rfl
        | string | number | computed => rfl

variable {lookup} {name : String} {range : Span}

theorem translate_eq_ok_iff {a : AstNode} {n : Node} :
    a.translate lookup name range = .ok n ↔
      ∃ l cs, a.own lookup name range = .ok l ∧
        List.Forall₂
          (fun b c => b.translate lookup (a.place name range).1 (a.place name range).2 = .ok c)
          a.children cs ∧ a.join l cs = [n] := by
  have hsingle : a.translate lookup name range = .ok n ↔
      (a.translate lookup name range).map (fun n => [n]) = .ok [n] := by
    rw [map_eq_ok_iff]
    constructor
    · exact fun h => ⟨n, h, rfl⟩
    · rintro ⟨m, hm, hmn⟩
      rw [hm, List.singleton_inj.1 hmn]
  rw [hsingle, translate_eq]
  constructor
  · intro h
    obtain ⟨l, hl, h⟩ := bind_eq_ok_iff.1 h
    obtain ⟨cs, hcs, hn⟩ := map_eq_ok_iff.1 h
    exact ⟨l, cs, hl, mapM_eq_ok_iff.1 hcs, hn⟩
  · rintro ⟨l, cs, hl, hcs, hn⟩
    rw [hl, ← hn]
    exact map_eq_ok_iff.2 ⟨cs, mapM_eq_ok_iff.2 hcs, rfl⟩

/-! ## What a node brings itself -/

/-- What a node can bring: it is refused wherever it stands, or it is a reference, or it leaves no
    trace, or its label does not depend on the names that are known and has the range of the place
    or the span of the node. -/
inductive Brings (a : AstNode) : Prop
  | refused (e : ExtractError) (own : ∀ lookup name range, a.own lookup name range = .error e)
  | link (target : String) (reference : a.reference? = some target)
    (own : ∀ lookup name range, a.own lookup name range =
      .ok (some { name, kind := linkKind lookup target, range := a.span }))
  | bare (reference : a.reference? = none)
    (own : ∀ lookup name range, a.own lookup name range = .ok none)
  | label (l : String → Span → Label) (reference : a.reference? = none)
    (own : ∀ lookup name range, a.own lookup name range = .ok (some (l name range)))
    (kind : ∀ name range, ¬ (l name range).kind.IsLink)
    (range : ∀ name range, (l name range).range = range ∨ (l name range).range = a.span)

theorem not_isLink_of_keyword {k : Keyword} {kind : Kind} (h : k.kind? = some kind) :
    ¬ kind.IsLink := by
  cases k <;> cases h <;> exact id

/-- Every node brings one of these. -/
theorem brings (a : AstNode) : a.Brings := by
  cases a with
  | declaration d =>
    cases d with
    | exported s d => exact .bare rfl fun _ _ _ => rfl
    | interface s n _ | «alias» s n _ =>
      by_cases hn : n = ""
      · exact .refused _ fun _ _ _ => if_pos hn
      · exact .label (fun _ _ => { name := n, kind := .declaration, range := s }) rfl
          (fun _ _ _ => if_neg hn) (fun _ _ => id) fun _ _ => Or.inr rfl
  | type t =>
    cases t with
    | keyword s k =>
      cases hk : k.kind? with
      | none =>
        refine .refused (.unsupported (.keyword k) s) fun _ _ _ => ?_
        rw [own, keywordKind, hk]
        rfl
      | some kind =>
        refine .label (fun name range => { name, kind, range }) rfl (fun _ _ _ => ?_)
          (fun _ _ => not_isLink_of_keyword hk) fun _ _ => Or.inl rfl
        rw [own, keywordKind, hk]
        rfl
    | array s e =>
      cases e with
      | keyword s' k => exact .label _ rfl (fun _ _ _ => rfl) (fun _ _ => id) fun _ _ => Or.inl rfl
      | _ => exact .refused _ fun _ _ _ => rfl
    | object s ms | union s ts =>
      exact .label _ rfl (fun _ _ _ => rfl) (fun _ _ => id) fun _ _ => Or.inl rfl
    | intersection s ts =>
      exact .label _ rfl (fun _ _ _ => rfl) (fun _ _ => id) fun _ _ => Or.inr rfl
    | parenthesized s t => exact .bare rfl fun _ _ _ => rfl
    | literal s v =>
      cases v with
      | bigint | template => exact .refused _ fun _ _ _ => rfl
      | _ => exact .label _ rfl (fun _ _ _ => rfl) (fun _ _ => id) fun _ _ => Or.inr rfl
    | reference s target parameters =>
      cases target with
      | qualified => exact .refused _ fun _ _ _ => rfl
      | identifier n =>
        cases parameters with
        | some p => exact .refused _ fun _ _ _ => rfl
        | none =>
          refine .link n rfl fun lookup _ _ => ?_
          rw [own, referenceKind_identifier]
          rfl
    | foreign s kind => exact .refused _ fun _ _ _ => rfl
  | member m =>
    cases m with
    | foreign s kind => exact .refused _ fun _ _ _ => rfl
    | property s key t =>
      cases hkey : propertyName key s with
      | error e =>
        refine .refused e fun _ _ _ => ?_
        rw [own, hkey]
        rfl
      | ok n =>
        cases t with
        | none =>
          refine .refused (.malformed (.untypedProperty n) s) fun _ _ _ => ?_
          rw [own, hkey]
          rfl
        | some t =>
          refine .bare rfl fun _ _ _ => ?_
          rw [own, hkey]
          rfl

/-- The label that a node brings has the range of the place or the span of the node. -/
theorem range_own {a : AstNode} {x : Label} (h : a.own lookup name range = .ok (some x)) :
    x.range = range ∨ x.range = a.span := by
  cases a.brings with
  | refused e hown | bare _ hown =>
    rw [hown] at h
    cases h
  | link target _ hown =>
    rw [hown] at h
    cases h
    exact Or.inr rfl
  | label y _ hown _ hrange =>
    rw [hown] at h
    cases h
    exact hrange name range

/-! ## The first offence -/

/-- What is wrong with a node by itself. -/
def offence? (a : AstNode) : Option ExtractError := error? (a.own (fun _ => none) "" default)

/-- What is wrong with a node depends neither on its place nor on the names that are known. -/
theorem error?_own (a : AstNode) : error? (a.own lookup name range) = a.offence? := by
  rw [offence?]
  cases a.brings with
  | refused e h | bare _ h => rw [h, h]
  | link target _ h | label l _ h =>
    rw [h, h]
    rfl

/-- A translation fails with the first offence in source order. -/
theorem error?_translate (name : String) (range : Span) (a : AstNode) :
    error? (a.translate lookup name range) = a.preorder.findSome? offence? := by
  induction a using AstNode.induction generalizing name range with
  | step a ih =>
    have hown : error? (a.own lookup name range) = a.offence? := error?_own a
    rw [← error?_map (fun n => [n]), translate_eq, preorder_eq, List.findSome?_cons, ← hown]
    -- Either the node is refused itself, or the first child that fails is the first offence below.
    cases a.own lookup name range with
    | error e => rfl
    | ok l =>
      rw [Except.bind, error?_map, error?_mapM, error?_ok]
      exact findSome?_eq_flatMap fun b hb => ih b hb _ _

/-! ## What is known of names -/

/-- A label stands above the results of the children; only for an alias of an object type it stands
    above what is below them. -/
theorem join_some (a : AstNode) :
    (∀ x cs, a.join (some x) cs = [.node x cs]) ∨
      (∃ s n s' ms, a = declaration (.alias s n (.object s' ms))) ∧
        ∀ x cs, a.join (some x) cs = [.node x (cs.flatMap Tree.children)] := by
  cases a with
  | declaration d =>
    cases d with
    | «alias» s n t =>
      cases t with
      | object s' ms => exact Or.inr ⟨⟨s, n, s', ms, rfl⟩, fun _ _ => rfl⟩
      | _ => exact Or.inl fun _ _ => rfl
    | _ => exact Or.inl fun _ _ => rfl
  | _ => exact Or.inl fun _ _ => rfl

theorem join_none (a : AstNode) (cs : Forest Label) : a.join none cs = cs := by
  rcases a with (_ | ⟨_, _, _ | _⟩ | _) | _ | _ <;> rfl

theorem join_map (f : Label → Label) (a : AstNode) (l : Option Label) (cs : Forest Label) :
    a.join (l.map f) (Forest.mapLabels f cs) = Forest.mapLabels f (a.join l cs) := by
  have hchildren : (Forest.mapLabels f cs).flatMap Tree.children =
      Forest.mapLabels f (cs.flatMap Tree.children) := by
    rw [Forest.mapLabels_eq, Forest.mapLabels_eq, List.flatMap_map, List.map_flatMap]
    refine List.flatMap_congr fun c _ => ?_
    cases c with
    | node x ds => exact Forest.mapLabels_eq f ds
  cases l with
  | none => exact (a.join_none _).trans (congrArg (Forest.mapLabels f) (a.join_none cs).symm)
  | some x =>
    rw [Option.map_some]
    rcases a.join_some with h | ⟨-, h⟩
    · rw [h, h]
      rfl
    · rw [h, h, hchildren]
      rfl

theorem own_relabel {lookup' : String → Option Handle} {f : Label → Label}
    (hfix : ∀ x, ¬ x.kind.IsLink → f x = x)
    (hlink : ∀ name target range, f { name, kind := linkKind lookup target, range } =
      { name, kind := linkKind lookup' target, range }) (a : AstNode) :
    a.own lookup' name range = (a.own lookup name range).map (Option.map f) := by
  cases a.brings with
  | refused e h | bare _ h =>
    rw [h, h]
    rfl
  | link target _ h =>
    rw [h, h, ← hlink]
    rfl
  | label l _ h hkind =>
    rw [h, h]
    exact congrArg (fun x => Except.ok (some x)) (hfix _ (hkind name range)).symm

/-- Which names are known shows in nothing but the kinds of references: a relabelling that takes
    those for one lookup to those for another takes one translation to the other. -/
theorem translate_relabel {lookup' : String → Option Handle} {f : Label → Label}
    (hfix : ∀ x, ¬ x.kind.IsLink → f x = x)
    (hlink : ∀ name target range, f { name, kind := linkKind lookup target, range } =
      { name, kind := linkKind lookup' target, range }) (name : String) (range : Span)
    (a : AstNode) :
    a.translate lookup' name range = (a.translate lookup name range).map (Tree.mapLabels f) := by
  induction a using AstNode.induction generalizing name range with
  | step a ih =>
    -- `translate_eq` speaks of the list with the node alone, which is as good as the node.
    have hsingle : ∀ x y : Except ExtractError Node,
        y.map (fun n => [n]) = (x.map fun n => [n]).map (Forest.mapLabels f) →
        y = x.map (Tree.mapLabels f) := by
      intro x y h
      cases x <;> cases y <;> cases h <;> rfl
    refine hsingle _ _ ?_
    rw [translate_eq, translate_eq, own_relabel hfix hlink,
      mapM_eq_map fun b hb => ih b hb (a.place name range).1 (a.place name range).2]
    cases a.own lookup name range with
    | error e => rfl
    | ok l =>
      show Except.map _ (Except.map _ _) = Except.map _ (Except.map _ _)
      cases a.children.mapM (translate lookup (a.place name range).1 (a.place name range).2) with
      | error e => rfl
      | ok cs =>
        refine congrArg Except.ok ?_
        rw [← Forest.mapLabels_eq]
        exact join_map f a l cs

/-! ## Labels of a translation -/

/-- The labels of a joined forest are that of the node and those of its children; only an alias of
    an object type leaves out the label of the object type. -/
theorem labels_join (a : AstNode) (l : Option Label) (cs : Forest Label) :
    Forest.labels (a.join l cs) = l.toList ++ Forest.labels cs ∨
      ∃ s n s' ms x, a = declaration (.alias s n (.object s' ms)) ∧ l = some x ∧
        Forest.labels (a.join l cs) = x :: Forest.labels (cs.flatMap Tree.children) := by
  cases l with
  | none =>
    rw [join_none]
    exact Or.inl rfl
  | some x =>
    rcases a.join_some with h | ⟨⟨s, n, s', ms, ha⟩, h⟩
    · rw [h]
      exact Or.inl (Forest.labels_singleton (.node x cs))
    · refine Or.inr ⟨s, n, s', ms, x, ha, rfl, ?_⟩
      rw [h]
      exact Forest.labels_singleton _

theorem mem_labels_join {a : AstNode} {l : Option Label} {cs : Forest Label} {x : Label}
    (hx : x ∈ Forest.labels (a.join l cs)) : x ∈ l ∨ x ∈ Forest.labels cs := by
  rcases labels_join a l cs with h | ⟨s, n, s', ms, y, rfl, rfl, h⟩ <;> rw [h] at hx
  · exact (List.mem_append.1 hx).imp Option.mem_toList.1 id
  · refine (List.mem_cons.1 hx).imp (fun heq => congrArg some heq.symm) fun hx => ?_
    obtain ⟨d, hd, hx⟩ := Forest.mem_labels.1 hx
    obtain ⟨c, hc, hd⟩ := List.mem_flatMap.1 hd
    refine Forest.mem_labels.2 ⟨c, hc, ?_⟩
    cases c with
    | node z ds =>
      rw [Forest.labels_node]
      exact List.mem_cons_of_mem _ (List.mem_append_left _ (Forest.mem_labels.2 ⟨d, hd, hx⟩))

/-- Children stand at the range of their parent's place or at the span of the parent, and a type
    that is an only child maybe at its own span. -/
theorem place_range (a : AstNode) (name : String) (range : Span) :
    (a.place name range).2 = range ∨ (a.place name range).2 = a.span ∨
      ∃ t, a.children = [type t] ∧ (a.place name range).2 = t.span := by
  cases a with
  | declaration d =>
    cases d with
    | «alias» => exact Or.inr (Or.inl rfl)
    | _ => exact Or.inl rfl
  | type t =>
    cases t with
    | array s e => exact Or.inr (Or.inr ⟨e, rfl, rfl⟩)
    | _ => exact Or.inl rfl
  | member m =>
    cases m with
    | property s key t =>
      cases key with
      | identifier => exact Or.inr (Or.inl rfl)
      | _ => exact Or.inl rfl
    | _ => exact Or.inl rfl

/-- A node of a translation has the range of the place or the span of something it was made from. -/
theorem range_mem {a : AstNode} {n : Node} (h : a.translate lookup name range = .ok n) {x : Label}
    (hx : x ∈ Forest.labels [n]) : x.range = range ∨ ∃ b ∈ a.preorder, x.range = b.span := by
  induction a using AstNode.induction generalizing name range n with
  | step a ih =>
    obtain ⟨l, cs, hown, hcs, hjoin⟩ := translate_eq_ok_iff.1 h
    rw [← hjoin] at hx
    rcases mem_labels_join hx with hx | hx
    · -- The label of the node itself.
      obtain rfl : l = some x := hx
      exact (range_own hown).imp id fun h => ⟨a, mem_preorder_self _, h⟩
    · -- A label below a child, whose place has the range of this one or the span of a node.
      obtain ⟨c, hc, hx⟩ := Forest.mem_labels.1 hx
      obtain ⟨b, hb, hbc⟩ := exists_of_forall₂ hcs hc
      have hinside : ∀ d ∈ b.preorder, d ∈ a.preorder :=
        fun d hd => mem_preorder.2 (Or.inr ⟨b, hb, hd⟩)
      rcases ih b hb hbc hx with hrange | ⟨d, hd, hrange⟩
      · rw [hrange]
        rcases a.place_range name range with h | h | ⟨t, ht, h⟩
        · exact Or.inl h
        · exact Or.inr ⟨a, mem_preorder_self _, h⟩
        · have ht : type t ∈ a.children := ht ▸ List.mem_singleton_self _
          exact Or.inr ⟨_, mem_preorder_of_mem_children (mem_preorder_self a) ht, h⟩
      · exact Or.inr ⟨d, hinside d hd, hrange⟩

/-- The nodes of translations side by side have the range of the place or the span of something that
    one of them was made from. -/
theorem range_of_mem_flatten {bs : List AstNode} {cs : Forest Label}
    (h : List.Forall₂ (fun b c => b.translate lookup name range = .ok c) bs cs) {n : Node}
    (hn : n ∈ Forest.flatten cs) :
    n.label.range = range ∨ ∃ b ∈ bs, ∃ d ∈ b.preorder, n.label.range = d.span := by
  obtain ⟨c, hc, hn⟩ := Forest.mem_flatten.1 hn
  obtain ⟨b, hb, hbc⟩ := exists_of_forall₂ h hc
  rcases range_mem hbc (Forest.label_mem_labels hn) with hrange | ⟨d, hd, hrange⟩
  · exact Or.inl hrange
  · exact Or.inr ⟨b, hb, d, hd, hrange⟩

/-! ## The references of a translation -/

/-- What the labels of a translation hold for references and nothing else is found at the references
    of the source, in the same order. -/
theorem filterMap_labels {γ : Type} {g : Label → Option γ} {h : AstNode → Option γ}
    (hplain : ∀ x, ¬ x.kind.IsLink → g x = none)
    (hlink : ∀ b target name, b.reference? = some target →
      g { name, kind := linkKind lookup target, range := b.span } = h b)
    (hnone : ∀ b, b.reference? = none → h b = none) {a : AstNode} {n : Node}
    (hn : a.translate lookup name range = .ok n) :
    (Forest.labels [n]).filterMap g = a.preorder.filterMap h := by
  induction a using AstNode.induction generalizing name range n with
  | step a ih =>
    obtain ⟨l, cs, hown, hcs, hjoin⟩ := translate_eq_ok_iff.1 hn
    have hbelow : (Forest.labels cs).filterMap g = (a.children.flatMap preorder).filterMap h := by
      rw [Forest.labels_eq_flatMap, List.filterMap_flatMap, List.filterMap_flatMap]
      exact (flatMap_eq_of_forall₂ hcs fun b hb c hbc => (ih b hb hbc).symm).symm
    have hsingle : ∀ x, g x = h a → [x].filterMap g = [a].filterMap h := by
      intro x hx
      rw [List.filterMap_cons, List.filterMap_cons, hx]
      rfl
    have hself : l.toList.filterMap g = [a].filterMap h := by
      cases a.brings with
      | refused e h' =>
        rw [h'] at hown
        cases hown
      | link target href h' =>
        rw [h'] at hown
        cases hown
        exact hsingle _ (hlink a target name href)
      | bare href h' =>
        rw [h'] at hown
        cases hown
        rw [List.filterMap_cons, hnone a href]
        rfl
      | label y href h' hkind =>
        rw [h'] at hown
        cases hown
        exact hsingle _ ((hplain _ (hkind name range)).trans (hnone a href).symm)
    have hjoined : (Forest.labels (a.join l cs)).filterMap g =
        l.toList.filterMap g ++ (Forest.labels cs).filterMap g := by
      rcases labels_join a l cs with hlabels | ⟨s, m, s', ms, x, rfl, rfl, hlabels⟩
      · rw [hlabels, List.filterMap_append]
      · -- The label of the object type goes missing, but it is no reference.
        obtain ⟨c, ds, hc, hds, rfl⟩ := List.forall₂_cons_left_iff.1 hcs
        obtain rfl := List.forall₂_nil_left_iff.1 hds
        obtain ⟨es, -, rfl⟩ := map_eq_ok_iff.1 hc
        have hobject : g { name := m, kind := .object, range := s } = none := hplain _ id
        rw [hlabels, List.flatMap_singleton, Node.of, Tree.children_node, Forest.labels_node,
          Forest.labels_nil, List.append_nil, Option.toList_some, ← List.filterMap_append]
        show _ = (x :: { name := m, kind := .object, range := s } :: Forest.labels es).filterMap g
        simp only [List.filterMap_cons, hobject]
    rw [← hjoin, preorder_eq, hjoined, hself, hbelow, ← List.filterMap_append]
    rfl

end AstNode

/-- A declaration can be translated if there is nothing wrong with any node of it. -/
theorem exists_translateDeclaration_iff {lookup : String → Option Handle} {d : Declaration} :
    (∃ n, translateDeclaration lookup d = .ok n) ↔
      ∀ a ∈ (AstNode.declaration d).preorder, a.offence? = none := by
  have herror : error? (translateDeclaration lookup d) =
      (AstNode.declaration d).preorder.findSome? AstNode.offence? :=
    AstNode.error?_translate "" default (.declaration d)
  rw [← error?_eq_none_iff, herror, List.findSome?_eq_none_iff]

/-- The root of a declaration has the name and the span of the declaration inside all exports. -/
theorem label_translateDeclaration {lookup : String → Option Handle} {d : Declaration} {n : Node}
    (h : translateDeclaration lookup d = .ok n) :
    n.label = { name := d.name, kind := .declaration, range := d.span } := by
  induction d with
  | exported s d ih => exact ih ((translateDeclaration_exported lookup s d).symm.trans h)
  | interface s name ms =>
    obtain ⟨cs, -, rfl⟩ := map_eq_ok_iff.1 (ite_error_eq_ok_iff.1 h).2
    rfl
  | «alias» s name t =>
    cases t with
    | object s' ms =>
      obtain ⟨cs, -, rfl⟩ := map_eq_ok_iff.1 (ite_error_eq_ok_iff.1 h).2
      rfl
    | _ =>
      obtain ⟨c, -, rfl⟩ := map_eq_ok_iff.1 (ite_error_eq_ok_iff.1 h).2
      rfl

end SchemaForest
