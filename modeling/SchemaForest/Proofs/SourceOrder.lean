import SchemaForest.Ast.Basic

/-!
# Declarations in source order

Declarations, types and members of a source are the nodes of one tree, `AstNode`.  The tree is
given by the children of each node alone (`AstNode.induction`), and `AstNode.preorder` lists what is
reached from a node in source order: the node first, then its children from left to right, each with
all that is below it (`AstNode.preorder_eq`).

On top of that stand the two ways in which a source can be laid out.  `Span.Within` and
`Span.Precedes` say how two spans lie to each other, and `AstNode.WellNested` says that all spans
below a node lie as those of a parsed source do.
-/

namespace SchemaForest

/-- A declaration, a type or a member. -/
inductive AstNode where
  | declaration (d : Declaration)
  | type (t : TypeNode)
  | member (m : TypeMember)

namespace AstNode

/-- The span of a node; an export has the span of the declaration inside. -/
def span : AstNode → Span
  | declaration d => d.span
  | type t => t.span
  | member m => m.span

/-- The nodes right below a node, from left to right. -/
def children : AstNode → List AstNode
  | declaration (.interface _ _ ms) => ms.map member
  | declaration (.alias _ _ t) => [type t]
  | declaration (.exported _ d) => [declaration d]
  | type (.array _ t) | type (.parenthesized _ t) => [type t]
  | type (.object _ ms) => ms.map member
  | type (.union _ ts) | type (.intersection _ ts) => ts.map type
  | type _ => []
  | member (.property _ _ (some t)) => [type t]
  | member _ => []

theorem sizeOf_lt_of_mem_children {a b : AstNode} (h : b ∈ a.children) : sizeOf b < sizeOf a := by
  have hlist : ∀ {α : Type} [SizeOf α] (f : α → AstNode) (l : List α),
      (∀ x, sizeOf (f x) = 1 + sizeOf x) → b ∈ l.map f → sizeOf b < 1 + sizeOf l := by
    intro α _ f l hf hb
    obtain ⟨x, hx, rfl⟩ := List.mem_map.1 hb
    have := List.sizeOf_lt_of_mem hx
    rw [hf]
    omega
  -- A node has no children, one child, or a list of them.
  unfold children at h
  split at h
  all_goals first
    | exact absurd h List.not_mem_nil
    | (obtain rfl := List.mem_singleton.1 h; simp; try omega)
    | (have hlt := hlist _ _ (fun _ => rfl) h; simp; omega)

/-- What passes from the children of a node to the node holds of all nodes. -/
@[elab_as_elim]
theorem induction {motive : AstNode → Prop}
    (step : ∀ a, (∀ b ∈ a.children, motive b) → motive a) (a : AstNode) : motive a :=
  step a fun b _ => induction step b
termination_by sizeOf a
decreasing_by exact sizeOf_lt_of_mem_children ‹_›

end AstNode

/-! ## The nodes in source order -/

mutual
/-- What is inside a type, in source order. -/
def TypeNode.inside : TypeNode → List AstNode
  | .array _ t | .parenthesized _ t => .type t :: t.inside
  | .object _ ms => TypeMember.listed ms
  | .union _ ts | .intersection _ ts => TypeNode.listed ts
  | .keyword .. | .literal .. | .reference .. | .foreign .. => []

/-- Types side by side, each with all that is inside it. -/
def TypeNode.listed : List TypeNode → List AstNode
  | [] => []
  | t :: rest => .type t :: (t.inside ++ TypeNode.listed rest)

/-- What is inside a member, in source order. -/
def TypeMember.inside : TypeMember → List AstNode
  | .property _ _ (some t) => .type t :: t.inside
  | .property _ _ none | .foreign .. => []

/-- Members side by side, each with all that is inside it. -/
def TypeMember.listed : List TypeMember → List AstNode
  | [] => []
  | m :: rest => .member m :: (m.inside ++ TypeMember.listed rest)
end

/-- What is inside a declaration, in source order. -/
def Declaration.inside : Declaration → List AstNode
  | .interface _ _ ms => TypeMember.listed ms
  | .alias _ _ t => .type t :: t.inside
  | .exported _ d => .declaration d :: d.inside

namespace AstNode

/-- What is inside a node, in source order. -/
def inside : AstNode → List AstNode
  | declaration d => d.inside
  | type t => t.inside
  | member m => m.inside

/-- A node and all that is inside it, in source order. -/
def preorder (a : AstNode) : List AstNode := a :: a.inside

theorem listed_types (ts : List TypeNode) :
    TypeNode.listed ts = (ts.map type).flatMap preorder := by
  induction ts with
  | nil => rfl
  | cons t rest ih => rw [TypeNode.listed, ih]; rfl

theorem listed_members (ms : List TypeMember) :
    TypeMember.listed ms = (ms.map member).flatMap preorder := by
  induction ms with
  | nil => rfl
  | cons m rest ih => rw [TypeMember.listed, ih]; rfl

/-- Inside a node are its children in order, each with all that is inside it. -/
theorem inside_eq (a : AstNode) : a.inside = a.children.flatMap preorder := by
  have hone : ∀ b : AstNode, b :: b.inside = [b].flatMap preorder :=
    fun b => (List.flatMap_singleton preorder b).symm
  cases a with
  | declaration d =>
    cases d with
    | interface s n ms => exact listed_members ms
    | «alias» s n t => exact hone (type t)
    | exported s d => exact hone (declaration d)
  | type t =>
    cases t with
    | array s t => exact hone (type t)
    | parenthesized s t => exact hone (type t)
    | object s ms => exact listed_members ms
    | union s ts => exact listed_types ts
    | intersection s ts => exact listed_types ts
    | keyword | literal | reference | foreign => rfl
  | member m =>
    cases m with
    | property s key t =>
      cases t with
      | none => rfl
      | some t => exact hone (type t)
    | foreign s kind => rfl

theorem preorder_eq (a : AstNode) : a.preorder = a :: a.children.flatMap preorder :=
  congrArg (a :: ·) (inside_eq a)

theorem mem_preorder {a b : AstNode} :
    b ∈ a.preorder ↔ b = a ∨ ∃ c ∈ a.children, b ∈ c.preorder := by
  rw [preorder_eq, List.mem_cons, List.mem_flatMap]

theorem mem_preorder_self (a : AstNode) : a ∈ a.preorder := List.mem_cons_self

/-- The children of whatever is reached are reached. -/
theorem mem_preorder_of_mem_children {a b c : AstNode} (hb : b ∈ a.preorder)
    (hc : c ∈ b.children) : c ∈ a.preorder := by
  induction a using AstNode.induction with
  | step a ih =>
    rcases mem_preorder.1 hb with rfl | ⟨d, hd, hb⟩
    · exact mem_preorder.2 (Or.inr ⟨c, hc, mem_preorder_self c⟩)
    · exact mem_preorder.2 (Or.inr ⟨d, hd, ih d hd hb⟩)

/-- The declarations inside a declaration are those that it exports, with its name and span. -/
theorem exported_of_mem_preorder {a : AstNode} {e : Declaration}
    (h : declaration e ∈ a.preorder) :
    ∃ d, a = declaration d ∧ e.name = d.name ∧ e.span = d.span := by
  induction a using AstNode.induction with
  | step a ih =>
    rcases mem_preorder.1 h with heq | ⟨c, hc, h⟩
    · exact ⟨e, heq.symm, rfl, rfl⟩
    · obtain ⟨d, rfl, hname, hspan⟩ := ih c hc h
      -- Of all nodes only an export has a declaration as a child.
      obtain ⟨s, rfl⟩ : ∃ s, a = declaration (.exported s d) := by
        unfold children at hc
        split at hc <;> simp_all
      exact ⟨_, rfl, hname, hspan⟩

end AstNode

/-- All nodes of a source, in source order. -/
def sourceOrder (ds : List Declaration) : List AstNode :=
  ds.flatMap fun d => (AstNode.declaration d).preorder

/-- An element of joined lists stands in one of them, behind all the lists in front of that one. -/
theorem flatMap_eq_append_cons {α β : Type} {f : α → List β} {l : List α} {before after : List β}
    {b : β} (h : l.flatMap f = before ++ b :: after) :
    ∃ l₁ x l₂ u v, l = l₁ ++ x :: l₂ ∧ f x = u ++ b :: v ∧ before = l₁.flatMap f ++ u ∧
      after = v ++ l₂.flatMap f := by
  induction l generalizing before with
  | nil => exact absurd h (by simp)
  | cons x rest ih =>
    rw [List.flatMap_cons, List.append_eq_append_iff] at h
    -- The element stands behind the first list, or inside it.
    rcases h with ⟨u, rfl, hrest⟩ | ⟨v, hx, htail⟩
    · obtain ⟨l₁, y, l₂, u', v, rfl, hy, rfl, rfl⟩ := ih hrest
      exact ⟨x :: l₁, y, l₂, u', v, rfl, hy, by simp, rfl⟩
    · cases v with
      | nil =>
        have hrest : rest.flatMap f = [] ++ b :: after := htail.symm
        obtain ⟨l₁, y, l₂, u', v, rfl, hy, hu, rfl⟩ := ih hrest
        refine ⟨x :: l₁, y, l₂, u', v, rfl, hy, ?_, rfl⟩
        rw [List.flatMap_cons, List.append_assoc, ← hu, hx]
        simp
      | cons c v =>
        obtain ⟨rfl, rfl⟩ := List.cons.inj htail
        exact ⟨[], x, rest, before, v, rfl, hx, rfl, rfl⟩

/-! ## Layout -/

/-- The span is a range inside another span. -/
def Span.Within (s outer : Span) : Prop :=
  outer.start ≤ s.start ∧ s.start ≤ s.stop ∧ s.stop ≤ outer.stop

/-- The span is a range that ends before another starts. -/
def Span.Precedes (s t : Span) : Prop := s.start ≤ s.stop ∧ s.stop ≤ t.start

instance (s t : Span) : Decidable (s.Within t) := inferInstanceAs (Decidable (_ ∧ _ ∧ _))

instance (s t : Span) : Decidable (s.Precedes t) := inferInstanceAs (Decidable (_ ∧ _))

theorem Span.Within.trans {s t u : Span} (hst : s.Within t) (htu : t.Within u) : s.Within u :=
  ⟨Nat.le_trans htu.1 hst.1, hst.2.1, Nat.le_trans hst.2.2 htu.2.2⟩

namespace AstNode

/-- Below a node every span lies inside that of its parent, siblings follow each other without
    overlap, and the type of a property starts behind the start of the property. -/
inductive WellNested : AstNode → Prop
  | intro {a : AstNode} (within : ∀ b ∈ a.children, b.span.Within a.span)
    (ordered : a.children.Pairwise fun b c => b.span.Precedes c.span)
    (late : ∀ m, a = member m → ∀ b ∈ a.children, a.span.start < b.span.start)
    (nested : ∀ b ∈ a.children, WellNested b) : WellNested a

theorem WellNested.of_children_eq_nil {a : AstNode} (h : a.children = []) : a.WellNested := by
  refine .intro ?_ ?_ ?_ ?_ <;> rw [h] <;> simp

theorem WellNested.property {s : Span} {key : PropertyKey} {t : TypeNode}
    (hwithin : t.span.Within s) (hlate : s.start < t.span.start) (h : (type t).WellNested) :
    (member (.property s key (some t))).WellNested :=
  .intro (List.forall_mem_singleton.2 hwithin) (List.pairwise_singleton ..)
    (fun _ _ => List.forall_mem_singleton.2 hlate) (List.forall_mem_singleton.2 h)

/-- In a well nested node everything lies inside its span. -/
theorem WellNested.within_of_mem {a b : AstNode} (h : a.WellNested) (hb : b ∈ a.inside) :
    b.span.Within a.span := by
  induction h with
  | intro within _ _ _ ih =>
    rw [inside_eq, List.mem_flatMap] at hb
    obtain ⟨c, hc, hb⟩ := hb
    rcases List.mem_cons.1 hb with rfl | hb
    · exact within _ hc
    · exact (ih c hc hb).trans (within c hc)

/-- What is reached from a well nested node is well nested. -/
theorem WellNested.of_mem {a b : AstNode} (h : a.WellNested) (hb : b ∈ a.preorder) :
    b.WellNested := by
  induction h with
  | intro within ordered late nested ih =>
    rcases mem_preorder.1 hb with rfl | ⟨c, hc, hb⟩
    · exact .intro within ordered late nested
    · exact ih c hc hb

/-- What is reached from a well nested node starts where the node does or later. -/
theorem WellNested.start_le {a b : AstNode} (h : a.WellNested) (hb : b ∈ a.preorder) :
    a.span.start ≤ b.span.start := by
  rcases List.mem_cons.1 hb with rfl | hb
  · exact Nat.le_refl _
  · exact (h.within_of_mem hb).1

/-- What is reached from a well nested node ends where the node does or earlier. -/
theorem WellNested.stop_le {a b : AstNode} (h : a.WellNested) (hb : b ∈ a.preorder) :
    b.span.stop ≤ a.span.stop := by
  rcases List.mem_cons.1 hb with rfl | hb
  · exact Nat.le_refl _
  · exact (h.within_of_mem hb).2.2

end AstNode

end SchemaForest
