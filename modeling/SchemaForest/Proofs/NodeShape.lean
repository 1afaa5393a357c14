import SchemaForest.Proofs.Attachment

/-!
# The kind of a node and its children

The kind of a node says what hangs below it (`Node.Formed`).  Primitives, literals and references are
leaves.  An array has one child, a primitive under the name that all elements have.  The arms of a
union and the parts of an intersection bear the name of their parent, because they are translated at
its place.

1. **Where it is established** (`formed_of_translate`): every node of a translation is itself the
   translation of something inside, so it is enough to look at one node and its children.
2. **What carries it** (`Node.Formed.of_mapLabels`): comments change neither names nor kinds.

An extracted forest has the shape of the one pass, so all of its nodes are formed, its declarations are
the roots and nothing else, and every reference holds the handle of a declaration
(`formed_of_extract`).
-/

namespace SchemaForest

open Fallible

/-- The kinds of the keywords that have a schema. -/
def Kind.IsPrimitive : Kind → Prop
  | .string | .number | .boolean | .null => True
  | _ => False

/-- The kinds of the literals that have a schema. -/
def Kind.IsLiteral : Kind → Prop
  | .stringLiteral _ | .numberLiteral _ | .booleanLiteral _ => True
  | _ => False

/-- What the kind of a node says about its children. -/
structure Node.Formed (n : Node) : Prop where
  leaf : n.label.kind.IsPrimitive ∨ n.label.kind.IsLiteral ∨ n.label.kind.IsLink → n.children = []
  array : n.label.kind = .array → ∃ e : Node, n.children = [e] ∧ e.label.name = elementName ∧
    e.children = [] ∧ e.label.kind.IsPrimitive
  /-- Arms of a union and parts of an intersection stand at the place of their parent. -/
  parts : n.label.kind = .union ∨ n.label.kind = .intersection →
    ∀ c ∈ n.children, c.label.name = n.label.name

namespace Node.Formed

/-- What is formed after a relabelling that keeps names and kinds was formed before. -/
theorem of_mapLabels {f : Label → Label} (hname : ∀ a, (f a).name = a.name)
    (hkind : ∀ a, (f a).kind = a.kind) {n : Node} (h : Node.Formed (n.mapLabels f)) :
    n.Formed := by
  obtain ⟨hleaf, harray, hparts⟩ := h
  rw [Tree.label_mapLabels, hkind, Tree.children_mapLabels, Forest.mapLabels_eq]
    at hleaf harray hparts
  refine ⟨fun h => List.map_eq_nil_iff.1 (hleaf h), fun h => ?_, fun h c hc => ?_⟩
  · obtain ⟨e, he, hename, hechildren, hekind⟩ := harray h
    obtain ⟨e, hchildren, rfl⟩ := List.map_eq_singleton_iff.1 he
    rw [Tree.label_mapLabels, hname] at hename
    rw [Tree.label_mapLabels, hkind] at hekind
    rw [Tree.children_mapLabels, Forest.mapLabels_eq, List.map_eq_nil_iff] at hechildren
    exact ⟨e, hchildren, hename, hechildren, hekind⟩
  · have hc := hparts h _ (List.mem_map_of_mem hc)
    rwa [Tree.label_mapLabels, hname, hname] at hc

/-- A node without children is formed unless it is an array. -/
theorem of_leaf {n : Node} (h : n.children = []) (hkind : n.label.kind ≠ .array) : n.Formed := by
  refine ⟨fun _ => h, fun heq => absurd heq hkind, fun _ c hc => ?_⟩
  rw [h] at hc
  exact absurd hc List.not_mem_nil

/-- An object or a declaration may have any children. -/
theorem of_members {n : Node} (h : n.label.kind = .object ∨ n.label.kind = .declaration) :
    n.Formed := by
  have hinner : ∀ kind : Kind, kind = .object ∨ kind = .declaration →
      ¬ (kind.IsPrimitive ∨ kind.IsLiteral ∨ kind.IsLink) ∧ kind ≠ .array ∧
        ¬ (kind = .union ∨ kind = .intersection) := by
    rintro kind (rfl | rfl) <;> simp [Kind.IsPrimitive, Kind.IsLiteral, Kind.IsLink]
  obtain ⟨hleaf, harray, hparts⟩ := hinner _ h
  exact ⟨fun h => absurd h hleaf, fun h => absurd h harray, fun h => absurd h hparts⟩

end Node.Formed

/-! ## Translation -/

section Translation

variable {lookup : String → Option Handle} {name : String} {range : Span}

theorem isPrimitive_of_keywordKind {k : Keyword} {s : Span} {kind : Kind}
    (h : keywordKind k s = .ok kind) : kind.IsPrimitive := by
  cases k <;> cases h <;> exact trivial

theorem isLiteral_of_literalKind {v : Literal} {s : Span} {kind : Kind}
    (h : literalKind v s = .ok kind) : kind.IsLiteral := by
  cases v <;> cases h <;> exact trivial

theorem isLink_of_referenceKind {target : TypeName} {parameters : Option Json} {s : Span}
    {kind : Kind} (h : referenceKind lookup target parameters s = .ok kind) : kind.IsLink := by
  cases target with
  | qualified => cases h
  | identifier n =>
    cases parameters with
    | some p => cases h
    | none =>
      rw [referenceKind_identifier] at h
      cases h
      rw [linkKind]
      cases lookup n <;> exact trivial

/-- A type bears the name of the place where it stands. -/
theorem name_translateType : ∀ {t : TypeNode} {n : Node},
    translateType lookup name range t = .ok n → n.label.name = name
  | .parenthesized _ inner, _, h => name_translateType (t := inner) h
  | .keyword .., _, h | .array .., _, h | .object .., _, h | .union .., _, h
  | .intersection .., _, h | .literal .., _, h | .reference .., _, h => by
    obtain ⟨_, -, rfl⟩ := map_eq_ok_iff.1 h
    rfl

/-- Types at one place bear its name. -/
theorem name_translateTypes {ts : List TypeNode} {ns : Forest Label}
    (h : translateTypes lookup name range ts = .ok ns) : ∀ n ∈ ns, n.label.name = name := by
  rw [translateTypes_eq] at h
  intro n hn
  obtain ⟨t, -, ht⟩ := exists_of_forall₂ (mapM_eq_ok_iff.1 h) hn
  exact name_translateType ht

/-- A type that brings a label of its own makes a node that is formed. -/
theorem formed_translateType {t : TypeNode} {n : Node} {x : Label}
    (h : translateType lookup name range t = .ok n)
    (hown : (AstNode.type t).own lookup name range = .ok (some x)) : n.Formed := by
  cases t with
  | keyword s k =>
    obtain ⟨kind, hkind, rfl⟩ := map_eq_ok_iff.1 h
    have hprimitive := isPrimitive_of_keywordKind hkind
    refine .of_leaf rfl fun heq => ?_
    obtain rfl : kind = .array := heq
    exact hprimitive
  | array s element =>
    obtain ⟨e, he, rfl⟩ := map_eq_ok_iff.1 h
    cases element with
    | keyword s' k =>
      obtain ⟨kind, hkind, rfl⟩ := map_eq_ok_iff.1 he
      refine ⟨fun hleaf => ?_, fun _ => ?_, fun hparts => ?_⟩
      · rcases hleaf with hleaf | hleaf | hleaf <;> exact absurd hleaf id
      · exact ⟨_, rfl, rfl, rfl, isPrimitive_of_keywordKind hkind⟩
      · rcases hparts with hparts | hparts <;> cases hparts
    | _ => cases he
  | object s ms =>
    obtain ⟨cs, -, rfl⟩ := map_eq_ok_iff.1 h
    exact .of_members (Or.inl rfl)
  | union s ts | intersection s ts =>
    obtain ⟨cs, hcs, rfl⟩ := map_eq_ok_iff.1 h
    refine ⟨fun hleaf => ?_, fun harray => ?_, fun _ => name_translateTypes hcs⟩
    · rcases hleaf with hleaf | hleaf | hleaf <;> exact absurd hleaf id
    · cases harray
  | parenthesized => cases hown
  | literal s v =>
    obtain ⟨kind, hkind, rfl⟩ := map_eq_ok_iff.1 h
    have hliteral := isLiteral_of_literalKind hkind
    refine .of_leaf rfl fun heq => ?_
    obtain rfl : kind = .array := heq
    exact hliteral
  | reference s target parameters =>
    obtain ⟨kind, hkind, rfl⟩ := map_eq_ok_iff.1 h
    have hlink := isLink_of_referenceKind hkind
    refine .of_leaf rfl fun heq => ?_
    obtain rfl : kind = .array := heq
    exact hlink
  | «foreign» => cases hown

/-- All nodes of a translation are formed. -/
theorem formed_of_translate {a : AstNode} {n : Node} (h : a.translate lookup name range = .ok n) :
    ∀ m ∈ n.flatten, Node.Formed m := by
  intro m hm
  obtain ⟨b, -, name, range, hb, hown⟩ := AstNode.exists_translate_of_mem_flatten h m hm
  cases b with
  | declaration d =>
    have hlabel : m.label = _ := label_translateDeclaration hb
    exact .of_members (Or.inr (by rw [hlabel]))
  | type t => exact formed_translateType hb hown
  | member => cases (AstNode.own_makes hown).1

end Translation

/-! ## Extraction -/

/-- In an extracted forest the declarations are the roots and nothing else; no reference is left by
    name; primitives, literals and references are leaves; an array has one child, a primitive
    without children under the name of all elements; what is in a union or an intersection bears its
    name; and the handle in a reference leads to a declaration. -/
theorem formed_of_extract {ds : List Declaration} {cs : List Comment} {t : Table}
    (h : extract ds cs = .ok t) :
    (∀ d ∈ t.declarations, d.label.kind = .declaration ∧
      ∀ n ∈ Forest.flatten d.children, n.label.kind ≠ .declaration) ∧
    ∀ n ∈ t.nodes, Node.Formed n ∧ (∀ name, n.label.kind ≠ .unresolved name) ∧
      ∀ k, n.label.kind = .reference k →
        k.index < t.size ∧ ∃ d, t.get? k = some d ∧ t.referenced? n = some d := by
  have hshaped := shaped_of_extract h
  obtain ⟨t₀, t₁, -, ht₀, hresolve, -, -⟩ := extract_eq_ok_iff.1 h
  obtain ⟨forest, hforest, hbare, -⟩ := bare_extract h
  refine ⟨fun d hd => ⟨hshaped.roots d hd, hshaped.below d hd⟩, fun n hn => ⟨?_, ?_, fun k hk => ?_⟩⟩
  · -- Without its comment the node is one of the one pass.
    refine Node.Formed.of_mapLabels (f := Label.bare) (fun _ => rfl) (fun _ => rfl) ?_
    have hmem := Forest.mem_flatten_mapLabels Label.bare hn
    rw [hbare] at hmem
    obtain ⟨m, hm, hmem⟩ := Forest.mem_flatten.1 hmem
    obtain ⟨d, -, hd⟩ := exists_of_forall₂ (mapM_eq_ok_iff.1 hforest) hm
    have htranslate : (AstNode.declaration d).translate (index ds) "" d.span = .ok m := hd
    exact formed_of_translate htranslate _ hmem
  · obtain ⟨-, -, hfault, -⟩ := resolve_ofDeclarations ht₀
    rw [hresolve] at hfault
    have hmem : n.label.bare ∈ Forest.labels forest := by
      rw [← hbare, Forest.labels_mapLabels]
      exact List.mem_map_of_mem (List.mem_map_of_mem hn)
    intro name
    exact not_unresolved_onePass hforest hfault.symm _ hmem name
  · obtain ⟨d, hd⟩ := hshaped.linked n hn k hk
    refine ⟨(List.getElem?_eq_some_iff.1 hd).1, d, hd, ?_⟩
    rw [Table.referenced?, hk]
    exact hd

/-- A declaration with an array and a union in which it refers to itself. -/
def shelf : List Declaration :=
  [.interface ⟨0, 80⟩ "Shelf" [
    .property ⟨10, 30⟩ (.identifier "tags") (some (.array ⟨16, 24⟩ (.keyword ⟨16, 22⟩ .string))),
    .property ⟨40, 70⟩ (.identifier "next") (some (.union ⟨46, 60⟩
      [.reference ⟨46, 51⟩ (.identifier "Shelf") none, .keyword ⟨56, 60⟩ .null]))]]

theorem formed_of_extract_shelf :
    ∃ t tags next, extract shelf [] = .ok t ∧ t.nodes[1]? = some tags ∧ t.nodes[3]? = some next ∧
      (∀ d ∈ t.declarations, d.label.kind = .declaration) ∧
      (∃ e, tags.children = [e] ∧ e.label.name = elementName ∧ e.children = [] ∧
        e.label.kind.IsPrimitive) ∧
      (∀ c ∈ next.children, c.label.name = "next") ∧
      ∃ n d, t.nodes[4]? = some n ∧ t.referenced? n = some d := by
  obtain ⟨t, ht, hnodes⟩ : ∃ t, extract shelf [] = .ok t ∧ t.nodes.length = 6 := ⟨_, rfl, rfl⟩
  obtain ⟨hroots, hall⟩ := formed_of_extract ht
  cases ht
  have htags := hall _ (List.mem_of_getElem? (i := 1) rfl)
  have hnext := hall _ (List.mem_of_getElem? (i := 3) rfl)
  have hlink := hall _ (List.mem_of_getElem? (i := 4) rfl)
  obtain ⟨-, d, -, hd⟩ := hlink.2.2 ⟨0⟩ rfl
  exact ⟨_, _, _, rfl, rfl, rfl, fun d hd => (hroots d hd).1, htags.1.array rfl,
    hnext.1.parts (Or.inl rfl), _, d, rfl, hd⟩

end SchemaForest
