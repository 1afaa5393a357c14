import SchemaForest.Proofs.Resolution

/-!
# The shape of a translated forest

Which kind a schema node has says what it was made from (`AstNode.own_makes`), so what holds of every
node by itself is checked once for each way of making one and then holds of all nodes of a
translation (`AstNode.forall_nodes`).

Read off in this way are the invariants that the views rest on, `Table.Shaped`: names differ,
declarations are the roots and nothing else, references are leaves, and each of them holds the handle
of a declaration (`shaped_onePass`).
-/

namespace SchemaForest

open Fallible

variable {lookup : String → Option Handle} {name : String} {range : Span}

namespace AstNode

/-! ## What makes a node -/

/-- The kinds of the schema nodes that are made of a node of the source. -/
inductive Makes (lookup : String → Option Handle) : AstNode → Kind → Prop
  | declaration (d : Declaration) : Makes lookup (declaration d) .declaration
  | keyword (s : Span) {k : Keyword} {kind : Kind} (h : k.kind? = some kind) :
    Makes lookup (type (.keyword s k)) kind
  | array (s : Span) (element : TypeNode) : Makes lookup (type (.array s element)) .array
  | object (s : Span) (members : List TypeMember) : Makes lookup (type (.object s members)) .object
  | union (s : Span) (arms : List TypeNode) : Makes lookup (type (.union s arms)) .union
  | intersection (s : Span) (parts : List TypeNode) :
    Makes lookup (type (.intersection s parts)) .intersection
  | string (s : Span) (v : String) : Makes lookup (type (.literal s (.string v))) (.stringLiteral v)
  | number (s : Span) (x : Double) : Makes lookup (type (.literal s (.number x))) (.numberLiteral x)
  | boolean (s : Span) (b : Bool) :
    Makes lookup (type (.literal s (.boolean b))) (.booleanLiteral b)
  | reference (s : Span) (target : String) :
    Makes lookup (type (.reference s (.identifier target) none)) (linkKind lookup target)

/-- A label that a node of the source brings has a kind that the node makes, and no comment yet. -/
theorem own_makes {a : AstNode} {x : Label} (h : a.own lookup name range = .ok (some x)) :
    a.Makes lookup x.kind ∧ x.comment = none ∧ x.annotations = none := by
  cases a with
  | declaration d =>
    cases d with
    | exported => cases h
    | interface | «alias» =>
      cases (ite_error_eq_ok_iff.1 h).2
      exact ⟨.declaration _, rfl, rfl⟩
  | type t =>
    cases t with
    | keyword s k =>
      obtain ⟨kind, hkind, hx⟩ := map_eq_ok_iff.1 h
      rw [keywordKind] at hkind
      cases hk : k.kind? with
      | none =>
        rw [hk] at hkind
        cases hkind
      | some kind' =>
        rw [hk] at hkind
        cases hkind
        cases hx
        exact ⟨.keyword s hk, rfl, rfl⟩
    | array s e =>
      cases e with
      | keyword =>
        cases h
        exact ⟨.array s _, rfl, rfl⟩
      | _ => cases h
    | object s ms =>
      cases h
      exact ⟨.object s ms, rfl, rfl⟩
    | union s ts =>
      cases h
      exact ⟨.union s ts, rfl, rfl⟩
    | intersection s ts =>
      cases h
      exact ⟨.intersection s ts, rfl, rfl⟩
    | parenthesized => cases h
    | literal s v =>
      obtain ⟨kind, hkind, hx⟩ := map_eq_ok_iff.1 h
      cases hx
      cases v with
      | string v =>
        cases hkind
        exact ⟨.string s v, rfl, rfl⟩
      | number y =>
        cases hkind
        exact ⟨.number s y, rfl, rfl⟩
      | boolean b =>
        cases hkind
        exact ⟨.boolean s b, rfl, rfl⟩
      | _ => cases hkind
    | reference s target parameters =>
      obtain ⟨kind, hkind, hx⟩ := map_eq_ok_iff.1 h
      cases hx
      cases target with
      | qualified => cases hkind
      | identifier n =>
        cases parameters with
        | some => cases hkind
        | none =>
          rw [referenceKind_identifier] at hkind
          cases hkind
          exact ⟨.reference s n, rfl, rfl⟩
    | «foreign» => cases h
  | member m =>
    cases m with
    | «foreign» => cases h
    | property s key t =>
      obtain ⟨n, -, h⟩ := bind_eq_ok_iff.1 h
      cases t <;> cases h

/-- Only a reference makes a link, and it has nothing below it. -/
theorem Makes.children_eq_nil {a : AstNode} {kind : Kind} (h : a.Makes lookup kind)
    (hlink : kind.IsLink) : a.children = [] := by
  cases h with
  | keyword s hk => exact absurd hlink (not_isLink_of_keyword hk)
  | reference => rfl
  | _ => cases hlink

/-- The handle in a resolved reference was found under some name. -/
theorem Makes.exists_lookup {a : AstNode} {kind : Kind} (h : a.Makes lookup kind) {k : Handle}
    (hkind : kind = .reference k) : ∃ target, lookup target = some k := by
  have hlink : kind.IsLink := hkind ▸ trivial
  cases h with
  | keyword s hk => exact absurd hlink (not_isLink_of_keyword hk)
  | reference s target =>
    refine ⟨target, ?_⟩
    rw [← target?_linkKind lookup target, hkind]
    rfl
  | _ => cases hkind

/-- Only a declaration makes a declaration. -/
theorem Makes.exists_declaration {a : AstNode} (h : a.Makes lookup .declaration) :
    ∃ d, a = AstNode.declaration d := by
  generalize hkind : Kind.declaration = kind at h
  cases h with
  | declaration d => exact ⟨d, rfl⟩
  | @keyword s k kind hk => cases k <;> cases hk <;> cases hkind
  | reference s target =>
    rw [linkKind] at hkind
    cases h : lookup target <;> rw [h] at hkind <;> cases hkind
  | _ => cases hkind

/-- A literal number is the number that was written. -/
theorem Makes.eq_number {a : AstNode} {x : Double} (h : a.Makes lookup (.numberLiteral x)) :
    ∃ s, a = type (.literal s (.number x)) := by
  generalize hkind : Kind.numberLiteral x = kind at h
  cases h with
  | number s y =>
    cases hkind
    exact ⟨s, rfl⟩
  | @keyword s k kind hk => cases k <;> cases hk <;> cases hkind
  | reference s target =>
    rw [linkKind] at hkind
    cases h : lookup target <;> rw [h] at hkind <;> cases hkind
  | _ => cases hkind

/-- Every node of a translation is the translation of something inside, at some place, that brings the
    label of the node. -/
theorem exists_translate_of_mem_flatten {a : AstNode} {n : Node}
    (h : a.translate lookup name range = .ok n) :
    ∀ m ∈ n.flatten, ∃ b ∈ a.preorder, ∃ name range,
      b.translate lookup name range = .ok m ∧ b.own lookup name range = .ok (some m.label) := by
  induction a using AstNode.induction generalizing name range n with
  | step a ih =>
    obtain ⟨l, cs, hown, hcs, hjoin⟩ := translate_eq_ok_iff.1 h
    have hchildren : ∀ c ∈ cs, ∀ m ∈ c.flatten, ∃ b ∈ a.preorder, ∃ name range,
        b.translate lookup name range = .ok m ∧ b.own lookup name range = .ok (some m.label) := by
      intro c hc m hm
      obtain ⟨b, hb, hbc⟩ := exists_of_forall₂ hcs hc
      obtain ⟨d, hd, hmade⟩ := ih b hb hbc m hm
      exact ⟨d, mem_preorder.2 (Or.inr ⟨b, hb, hd⟩), hmade⟩
    cases l with
    | none =>
      rw [join_none] at hjoin
      subst hjoin
      exact hchildren n (List.mem_singleton_self n)
    | some x =>
      -- The root is made of `a`, and what is below it hangs below the children too.
      obtain ⟨hlabel, hbelow⟩ : n.label = x ∧
          ∀ m ∈ Forest.flatten n.children, ∃ c ∈ cs, m ∈ c.flatten := by
        rcases a.join_some with hplain | ⟨-, hobject⟩
        · rw [hplain] at hjoin
          obtain rfl := List.singleton_inj.1 hjoin
          exact ⟨rfl, fun m hm => Forest.mem_flatten.1 hm⟩
        · rw [hobject] at hjoin
          obtain rfl := List.singleton_inj.1 hjoin
          refine ⟨rfl, fun m hm => ?_⟩
          obtain ⟨d, hd, hm⟩ := Forest.mem_flatten.1 hm
          obtain ⟨c, hc, hd⟩ := List.mem_flatMap.1 hd
          exact ⟨c, hc, Tree.mem_flatten_of_child hd hm⟩
      intro m hm
      rcases Tree.mem_flatten.1 hm with rfl | hm
      · exact ⟨a, mem_preorder_self a, name, range, h, hlabel ▸ hown⟩
      · obtain ⟨c, hc, hm⟩ := hbelow m hm
        exact hchildren c hc m hm

/-- What holds of every node right when it is made holds of all nodes of a translation.  A node that
    is made of something without children has none either. -/
theorem forall_nodes {P : Node → Prop} {a : AstNode} {n : Node}
    (h : a.translate lookup name range = .ok n)
    (hmade : ∀ b ∈ a.preorder, ∀ x cs, b.Makes lookup x.kind → x.comment = none →
      x.annotations = none → (b.children = [] → cs = []) → P (.node x cs)) :
    ∀ m ∈ n.flatten, P m := by
  intro m hm
  obtain ⟨b, hb, name, range, hmade', hown⟩ := exists_translate_of_mem_flatten h m hm
  obtain ⟨hmakes, hcomment, hannotations⟩ := own_makes hown
  obtain ⟨x, cs⟩ := m
  refine hmade b hb x cs hmakes hcomment hannotations fun hnil => ?_
  obtain ⟨l, ds, hown', hds, hjoin⟩ := translate_eq_ok_iff.1 hmade'
  obtain rfl : some x = l := Option.some.inj (congrArg Except.toOption (hown.symm.trans hown'))
  rw [hnil] at hds
  obtain rfl := List.forall₂_nil_left_iff.1 hds
  rcases b.join_some with hplain | ⟨-, hobject⟩
  · rw [hplain] at hjoin
    exact (Tree.node.inj (List.singleton_inj.1 hjoin)).2.symm
  · rw [hobject] at hjoin
    exact (Tree.node.inj (List.singleton_inj.1 hjoin)).2.symm

end AstNode

/-- What holds of every node right when it is made holds of all nodes of translated declarations. -/
theorem forall_nodes_mapM {P : Node → Prop} {ds : List Declaration} {forest : Forest Label}
    (h : ds.mapM (translateDeclaration lookup) = .ok forest)
    (hmade : ∀ b ∈ sourceOrder ds, ∀ x cs, b.Makes lookup x.kind → x.comment = none →
      x.annotations = none → (b.children = [] → cs = []) → P (.node x cs)) :
    ∀ m ∈ Forest.flatten forest, P m := by
  intro m hm
  obtain ⟨n, hn, hm⟩ := Forest.mem_flatten.1 hm
  obtain ⟨d, hd, hdn⟩ := exists_of_forall₂ (mapM_eq_ok_iff.1 h) hn
  have htranslate : (AstNode.declaration d).translate lookup "" d.span = .ok n := hdn
  exact AstNode.forall_nodes htranslate
    (fun b hb => hmade b (List.mem_flatMap.2 ⟨d, hd, hb⟩)) m hm

/-- Below the root of a declaration hang the translations of its members, or that of its type. -/
theorem exists_mapM_children {d : Declaration} {n : Node}
    (h : translateDeclaration lookup d = .ok n) :
    ∃ bs : List AstNode, (∀ b ∈ bs, ∀ e, b ≠ .declaration e) ∧
      bs.mapM (AstNode.translate lookup d.name d.span) = .ok n.children := by
  have hmembers : ∀ {name : String} {s : Span} {ms : List TypeMember} {cs : Forest Label},
      translateMembers lookup ms = .ok cs →
      ∃ bs : List AstNode, (∀ b ∈ bs, ∀ e, b ≠ .declaration e) ∧
        bs.mapM (AstNode.translate lookup name s) = .ok cs := by
    intro name s ms cs hcs
    refine ⟨ms.map AstNode.member, fun b hb e heq => ?_, ?_⟩
    · obtain ⟨m, -, rfl⟩ := List.mem_map.1 hb
      cases heq
    · rw [List.mapM_map, ← hcs, translateMembers_eq]
      rfl
  induction d with
  | exported s d ih => exact ih ((translateDeclaration_exported lookup s d).symm.trans h)
  | interface s name ms =>
    obtain ⟨cs, hcs, rfl⟩ := map_eq_ok_iff.1 (ite_error_eq_ok_iff.1 h).2
    exact hmembers hcs
  | «alias» s name t =>
    have htype : ∀ {c : Node}, translateType lookup name s t = .ok c →
        ∃ bs : List AstNode, (∀ b ∈ bs, ∀ e, b ≠ .declaration e) ∧
          bs.mapM (AstNode.translate lookup name s) = .ok [c] := by
      intro c hc
      refine ⟨[.type t], fun b hb e heq => ?_, mapM_eq_ok_iff.2 (.cons hc .nil)⟩
      obtain rfl := List.mem_singleton.1 hb
      cases heq
    cases t with
    | object s' ms =>
      obtain ⟨cs, hcs, rfl⟩ := map_eq_ok_iff.1 (ite_error_eq_ok_iff.1 h).2
      exact hmembers hcs
    | _ =>
      obtain ⟨c, hc, rfl⟩ := map_eq_ok_iff.1 (ite_error_eq_ok_iff.1 h).2
      exact htype hc

/-- Below the root of a declaration there is no declaration. -/
theorem kind_ne_declaration_of_below {d : Declaration} {n : Node}
    (h : translateDeclaration lookup d = .ok n) :
    ∀ m ∈ Forest.flatten n.children, m.label.kind ≠ .declaration := by
  intro m hm
  obtain ⟨bs, hbs, hcs⟩ := exists_mapM_children h
  obtain ⟨c, hc, hm⟩ := Forest.mem_flatten.1 hm
  obtain ⟨b, hb, hbc⟩ := exists_of_forall₂ (mapM_eq_ok_iff.1 hcs) hc
  suffices hall : ∀ m ∈ c.flatten, m.label.kind ≠ .declaration from hall m hm
  refine AstNode.forall_nodes hbc fun b' hb' x _ hmakes _ _ _ hkind => ?_
  -- What makes a declaration is one, and then so is what it is inside of.
  rw [Tree.label_node] at hkind
  rw [hkind] at hmakes
  obtain ⟨e, rfl⟩ := hmakes.exists_declaration
  obtain ⟨e', heq, -⟩ := AstNode.exported_of_mem_preorder hb'
  exact hbs b hb e' heq

/-! ## Tables -/

/-- The shape of a table whose references are resolved. -/
structure Table.Shaped (t : Table) : Prop where
  /-- No two declarations have one name. -/
  nodup : t.names.Nodup
  roots : ∀ d ∈ t.declarations, d.label.kind = .declaration
  below : ∀ d ∈ t.declarations, ∀ n ∈ Forest.flatten d.children, n.label.kind ≠ .declaration
  /-- A reference is a leaf; what it refers to hangs elsewhere. -/
  leaves : ∀ n ∈ t.nodes, n.label.kind.IsLink → n.children = []
  /-- The handle of a reference leads to a declaration. -/
  linked : ∀ n ∈ t.nodes, ∀ h, n.label.kind = .reference h → ∃ d, t.get? h = some d

/-- A relabelling that keeps names and kinds keeps the shape, so a table is well shaped if the
    relabelled one is. -/
theorem Table.Shaped.of_mapLabels {f : Label → Label} {t : Table}
    (h : Table.Shaped ⟨Forest.mapLabels f t.declarations⟩) (hname : ∀ a, (f a).name = a.name)
    (hkind : ∀ a, (f a).kind = a.kind) : t.Shaped := by
  have hroot : ∀ {d : Node}, d ∈ t.declarations →
      d.mapLabels f ∈ Forest.mapLabels f t.declarations := by
    intro d hd
    rw [Forest.mapLabels_eq]
    exact List.mem_map_of_mem hd
  have hsame : ∀ n : Node, (n.mapLabels f).label.kind = n.label.kind := by
    intro n
    rw [Tree.label_mapLabels, hkind]
  refine ⟨?_, fun d hd => ?_, fun d hd n hn => ?_, fun n hn hlink => ?_, fun n hn k hk => ?_⟩
  · have hnames := h.nodup
    rwa [names_mapLabels hname] at hnames
  · rw [← hsame]
    exact h.roots _ (hroot hd)
  · rw [← hsame]
    refine h.below _ (hroot hd) _ ?_
    rw [Tree.children_mapLabels]
    exact Forest.mem_flatten_mapLabels _ hn
  · have hnil := h.leaves _ (Forest.mem_flatten_mapLabels _ hn) (by rwa [hsame])
    rw [Tree.children_mapLabels, Forest.mapLabels_eq, List.map_eq_nil_iff] at hnil
    exact hnil
  · obtain ⟨d, hd⟩ := h.linked _ (Forest.mem_flatten_mapLabels _ hn) k (by rwa [hsame])
    rw [Table.get?, Forest.mapLabels_eq, List.getElem?_map, Option.map_eq_some_iff] at hd
    obtain ⟨d, hd, -⟩ := hd
    exact ⟨d, hd⟩

theorem names_mapM {ds : List Declaration} {forest : Forest Label}
    (h : ds.mapM (translateDeclaration lookup) = .ok forest) :
    Table.names ⟨forest⟩ = ds.map Declaration.name := by
  have hall := mapM_eq_ok_iff.1 h
  clear h
  induction hall with
  | nil => rfl
  | @cons d n ds forest hdn _ ih =>
    have hname : n.label.name = d.name := by rw [label_translateDeclaration hdn]
    rw [List.map_cons, ← ih, ← hname]
    rfl

/-- The one pass over declarations whose names differ is well shaped. -/
theorem shaped_onePass {ds : List Declaration} {forest : Forest Label}
    (h : onePass ds = .ok forest) (hnodup : (ds.map Declaration.name).Nodup) :
    Table.Shaped ⟨forest⟩ := by
  have hroots : ∀ n ∈ forest, ∃ d, translateDeclaration (index ds) d = .ok n := by
    intro n hn
    obtain ⟨d, -, hdn⟩ := exists_of_forall₂ (mapM_eq_ok_iff.1 h) hn
    exact ⟨d, hdn⟩
  refine ⟨?_, fun n hn => ?_, fun n hn => ?_, ?_, ?_⟩
  · rw [names_mapM h]
    exact hnodup
  · obtain ⟨d, hdn⟩ := hroots n hn
    rw [label_translateDeclaration hdn]
  · obtain ⟨d, hdn⟩ := hroots n hn
    exact kind_ne_declaration_of_below hdn
  · refine forall_nodes_mapM h fun b _ x cs hmakes _ _ hleaf hlink => ?_
    exact hleaf (hmakes.children_eq_nil hlink)
  · refine forall_nodes_mapM h fun b _ x cs hmakes _ _ _ k hkind => ?_
    obtain ⟨target, htarget⟩ := hmakes.exists_lookup hkind
    have hlt : k.index < forest.length := by
      have hlength := congrArg List.length (names_mapM h)
      rw [Table.names, List.length_map] at hlength
      rw [hlength]
      exact Table.handleIn_lt htarget
    exact ⟨forest[k.index], List.getElem?_eq_getElem hlt⟩

end SchemaForest
