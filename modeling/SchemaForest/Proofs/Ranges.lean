import SchemaForest.Proofs.Translation

/-!
# Where the nodes of a type start

A property hands its span down as the range of the place where its type stands.  Most types show
that range at their node, so nothing below starts before the node does.  Literals, references and
intersections show their own span instead, and that starts later.  For the first two this does no
harm, since nothing is below them.  The parts of an intersection, though, still inherit the range of
the place: a part that shows it (`TypeNode.TakesRange`) starts before the node of the intersection.

So the node of a type starts first in its tree unless the type is an intersection with such a part
(`start_le_of_not_misranged`), and then it does not (`exists_start_lt_of_misranged`).
-/

namespace SchemaForest

open Fallible

namespace TypeNode

/-- The types of which a node shows the range of the place: their own one, or for parentheses and
    intersections one of a type inside. -/
inductive TakesRange : TypeNode → Prop
  | keyword (s : Span) (k : Keyword) : TakesRange (.keyword s k)
  | array (s : Span) (element : TypeNode) : TakesRange (.array s element)
  | object (s : Span) (members : List TypeMember) : TakesRange (.object s members)
  | union (s : Span) (arms : List TypeNode) : TakesRange (.union s arms)
  | parenthesized (s : Span) {inner : TypeNode} (h : TakesRange inner) :
    TakesRange (.parenthesized s inner)
  | intersection (s : Span) {parts : List TypeNode} {part : TypeNode} (hpart : part ∈ parts)
    (h : TakesRange part) : TakesRange (.intersection s parts)

/-- The type without the parentheses around it. -/
def core : TypeNode → TypeNode
  | .parenthesized _ inner => inner.core
  | t => t

/-- The types that are an intersection, maybe in parentheses, with a part that shows the range of
    the place. -/
def Misranged (t : TypeNode) : Prop :=
  ∃ s parts part, t.core = .intersection s parts ∧ part ∈ parts ∧ part.TakesRange

end TypeNode

variable {lookup : String → Option Handle} {name : String} {range : Span}

/-- Parentheses leave no trace. -/
theorem translateType_core : ∀ t : TypeNode,
    translateType lookup name range t.core = translateType lookup name range t
  | .parenthesized _ inner => translateType_core inner
  | .keyword .. | .array .. | .object .. | .union .. | .intersection .. | .literal ..
  | .reference .. | .foreign .. => rfl

theorem core_ne_parenthesized : ∀ (t : TypeNode) (s : Span) (inner : TypeNode),
    t.core ≠ .parenthesized s inner
  | .parenthesized _ t => core_ne_parenthesized t
  | .keyword .. | .array .. | .object .. | .union .. | .intersection .. | .literal ..
  | .reference .. | .foreign .. => fun _ _ => TypeNode.noConfusion

theorem core_mem_preorder : ∀ t : TypeNode, AstNode.type t.core ∈ (AstNode.type t).preorder
  | .parenthesized _ inner =>
    AstNode.mem_preorder.2 (Or.inr ⟨_, List.mem_singleton_self _, core_mem_preorder inner⟩)
  | .keyword .. | .array .. | .object .. | .union .. | .intersection .. | .literal ..
  | .reference .. | .foreign .. => AstNode.mem_preorder_self _

/-- A type that takes the range of the place gives it to one of its nodes. -/
theorem exists_range_of_takesRange {t : TypeNode} (h : t.TakesRange) {n : Node}
    (hn : translateType lookup name range t = .ok n) :
    ∃ x ∈ Forest.labels [n], x.range = range := by
  have hroot : ∀ n : Node, n.label ∈ Forest.labels [n] :=
    fun n => Forest.mem_labels_singleton.2 (Or.inl rfl)
  induction h generalizing n with
  | keyword | array | object | union =>
    obtain ⟨_, -, rfl⟩ := map_eq_ok_iff.1 hn
    exact ⟨_, hroot _, rfl⟩
  | parenthesized s h ih => exact ih hn
  | intersection s hpart h ih =>
    obtain ⟨cs, hcs, rfl⟩ := map_eq_ok_iff.1 hn
    rw [translateTypes_eq, mapM_eq_ok_iff] at hcs
    obtain ⟨c, hc, hpc⟩ := exists_of_forall₂ hcs.flip hpart
    obtain ⟨x, hx, hrange⟩ := ih hpc
    exact ⟨x, Forest.mem_labels_singleton.2 (Or.inr ⟨c, hc, hx⟩), hrange⟩

/-- A type that does not take the range of the place has only nodes with the span of something of
    its own. -/
theorem exists_span_of_not_takesRange {t : TypeNode} (h : ¬ t.TakesRange) {n : Node}
    (hn : translateType lookup name range t = .ok n) {x : Label} (hx : x ∈ Forest.labels [n]) :
    ∃ b ∈ (AstNode.type t).preorder, x.range = b.span := by
  have hself : ∀ {t : TypeNode} {k : Kind} {s : Span}, t.span = s →
      x ∈ Forest.labels [Node.of name k s []] →
      ∃ b ∈ (AstNode.type t).preorder, x.range = b.span := by
    intro t k s hs hx
    refine ⟨_, AstNode.mem_preorder_self _, ?_⟩
    rcases Forest.mem_labels_singleton.1 hx with rfl | ⟨c, hc, -⟩
    · exact hs.symm
    · exact absurd hc List.not_mem_nil
  -- By induction over all nodes, of which only types matter.
  generalize ha : AstNode.type t = a
  induction a using AstNode.induction generalizing t n with
  | step a ih =>
    subst ha
    cases t with
    | keyword s k => exact absurd (.keyword s k) h
    | array s e => exact absurd (.array s e) h
    | object s ms => exact absurd (.object s ms) h
    | union s ts => exact absurd (.union s ts) h
    | parenthesized s t =>
      obtain ⟨b, hb, hrange⟩ := ih _ (List.mem_singleton_self _) (fun ht => h (.parenthesized s ht))
        hn hx rfl
      exact ⟨b, AstNode.mem_preorder.2 (Or.inr ⟨_, List.mem_singleton_self _, hb⟩), hrange⟩
    | literal s v =>
      obtain ⟨_, -, rfl⟩ := map_eq_ok_iff.1 hn
      exact hself rfl hx
    | reference s target parameters =>
      obtain ⟨_, -, rfl⟩ := map_eq_ok_iff.1 hn
      exact hself rfl hx
    | foreign s kind => cases hn
    | intersection s parts =>
      obtain ⟨cs, hcs, rfl⟩ := map_eq_ok_iff.1 hn
      rw [translateTypes_eq, mapM_eq_ok_iff] at hcs
      rcases Forest.mem_labels_singleton.1 hx with rfl | ⟨c, hc, hx⟩
      · exact ⟨_, AstNode.mem_preorder_self _, rfl⟩
      · obtain ⟨part, hpart, hpc⟩ := exists_of_forall₂ hcs hc
        have hchild : AstNode.type part ∈ (AstNode.type (.intersection s parts)).children :=
          List.mem_map_of_mem hpart
        obtain ⟨b, hb, hrange⟩ := ih _ hchild (fun ht => h (.intersection s hpart ht)) hpc hx rfl
        exact ⟨b, AstNode.mem_preorder.2 (Or.inr ⟨_, hchild, hb⟩), hrange⟩

/-! ## The node of a type and what is below -/

section Start

variable {t : TypeNode} {n : Node}

/-- Unless a type is misranged nothing below its node starts before the node. -/
theorem start_le_of_not_misranged (hnested : (AstNode.type t).WellNested)
    (hlate : range.start ≤ t.span.start) (h : ¬ t.Misranged)
    (hn : translateType lookup name range t = .ok n) {x : Label} (hx : x ∈ Forest.labels [n]) :
    n.label.range.start ≤ x.range.start := by
  have hstart := hnested.start_le (core_mem_preorder t)
  have hnested := hnested.of_mem (core_mem_preorder t)
  rw [← translateType_core] at hn
  rw [TypeNode.Misranged] at h
  have hne := core_ne_parenthesized t
  -- Parentheses have been left behind, so the node is that of the type itself.
  generalize t.core = u at hstart hnested hn h hne
  -- Either the node has the range of the place, or no node has it.
  have hcases : n.label.range = range ∨ n.label.range = u.span ∧ ¬ u.TakesRange := by
    cases u with
    | keyword | array | object | union =>
      obtain ⟨_, -, rfl⟩ := map_eq_ok_iff.1 hn
      exact Or.inl rfl
    | parenthesized s inner => exact absurd rfl (hne s inner)
    | literal | reference =>
      obtain ⟨_, -, rfl⟩ := map_eq_ok_iff.1 hn
      exact Or.inr ⟨rfl, fun htakes => (nomatch htakes)⟩
    | foreign => cases hn
    | intersection s parts =>
      obtain ⟨_, -, rfl⟩ := map_eq_ok_iff.1 hn
      refine Or.inr ⟨rfl, fun htakes => ?_⟩
      cases htakes with
      | intersection _ hpart htakes => exact h ⟨s, parts, _, rfl, hpart, htakes⟩
  rcases hcases with hrange | ⟨hrange, hnot⟩
  · rw [hrange]
    have htranslate : (AstNode.type u).translate lookup name range = .ok n := hn
    rcases AstNode.range_mem htranslate hx with hx | ⟨b, hb, hx⟩
    · exact Nat.le_of_eq (congrArg Span.start hx.symm)
    · rw [hx]
      exact Nat.le_trans hlate (Nat.le_trans hstart (hnested.start_le hb))
  · obtain ⟨b, hb, hx⟩ := exists_span_of_not_takesRange hnot hn hx
    rw [hrange, hx]
    exact hnested.start_le hb

/-- Below the node of a misranged type something starts at the place, and so before the node. -/
theorem exists_start_lt_of_misranged (hnested : (AstNode.type t).WellNested)
    (hlate : range.start < t.span.start) (h : t.Misranged)
    (hn : translateType lookup name range t = .ok n) :
    ∃ x ∈ Forest.labels [n], x.range.start < n.label.range.start := by
  obtain ⟨s, parts, part, hcore, hpart, htakes⟩ := h
  have hstart := hnested.start_le (core_mem_preorder t)
  rw [← translateType_core, hcore] at hn
  rw [hcore] at hstart
  have htakes' : (TypeNode.intersection s parts).TakesRange := .intersection s hpart htakes
  obtain ⟨x, hx, hrange⟩ := exists_range_of_takesRange htakes' hn
  obtain ⟨cs, -, rfl⟩ := map_eq_ok_iff.1 hn
  refine ⟨x, hx, ?_⟩
  rw [hrange]
  exact Nat.lt_of_lt_of_le hlate hstart

end Start

end SchemaForest
