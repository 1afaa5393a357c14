/-!
# Forests

Trees with a label at every node.  The flat order of a forest is parent first, then the children
from left to right; the flat index of a node is its place there.  `Forest.flatten` lists the nodes
in that order, and `Forest.unstack` lists them one by one from a stack.  `Forest.visit` relabels them
in that order and hands each call the flat index, and `Forest.tryVisit` does the same until a call
fails: what was relabelled before stays relabelled.
-/

namespace SchemaForest

/-- A labelled tree. -/
inductive Tree (α : Type) where
  | node (label : α) (children : List (Tree α))

instance {α : Type} [Inhabited α] : Inhabited (Tree α) := ⟨.node default []⟩

/-- Trees side by side. -/
abbrev Forest (α : Type) := List (Tree α)

variable {α ε σ : Type}

namespace Tree

def label : Tree α → α
  | node a _ => a

def children : Tree α → Forest α
  | node _ cs => cs

/-- A tree of one node. -/
def leaf (a : α) : Tree α := node a []

@[simp] theorem label_node (a : α) (cs : Forest α) : (node a cs).label = a := rfl

@[simp] theorem children_node (a : α) (cs : Forest α) : (node a cs).children = cs := rfl

end Tree

/-! ## Listing -/

mutual
/-- The nodes of a tree in flat order, each with all that hangs below it. -/
def Tree.flatten : Tree α → List (Tree α)
  | .node a cs => .node a cs :: Forest.flatten cs

/-- The nodes of a forest in flat order. -/
def Forest.flatten : Forest α → List (Tree α)
  | [] => []
  | t :: rest => t.flatten ++ Forest.flatten rest
end

theorem Forest.flatten_append (xs ys : Forest α) :
    Forest.flatten (xs ++ ys) = Forest.flatten xs ++ Forest.flatten ys := by
  induction xs with
  | nil => rfl
  | cons t rest ih => rw [List.cons_append, Forest.flatten, Forest.flatten, ih, List.append_assoc]

/-- The nodes that come off a stack of trees, the top first.  A tree that comes off puts its
    children on the stack, the first of them on top. -/
def Forest.unstack : List (Tree α) → List (Tree α)
  | [] => []
  | .node a cs :: stack => .node a cs :: Forest.unstack (cs ++ stack)
termination_by stack => (Forest.flatten stack).length
decreasing_by
  rw [Forest.flatten_append, Forest.flatten, Tree.flatten, List.cons_append, List.length_cons]
  exact Nat.lt_succ_self _

/-- The labels of a forest in flat order. -/
def Forest.labels (f : Forest α) : List α := (Forest.flatten f).map Tree.label

/-! ## Relabelling -/

mutual
/-- Relabels a tree whose root has the given flat index.  The call gets the index, the node as it
    was and the state. -/
def Tree.visitFrom (f : Nat → Tree α → σ → α × σ) (index : Nat) (state : σ) :
    Tree α → Tree α × Nat × σ
  | .node a cs =>
    let (b, state) := f index (.node a cs) state
    let (ds, next, state) := Forest.visitFrom f (index + 1) state cs
    (.node b ds, next, state)

/-- Relabels a forest whose first root has the given flat index; also gives the next free index and
    the last state. -/
def Forest.visitFrom (f : Nat → Tree α → σ → α × σ) (index : Nat) (state : σ) :
    Forest α → Forest α × Nat × σ
  | [] => ([], index, state)
  | t :: rest =>
    let (u, next, state) := t.visitFrom f index state
    let (us, next, state) := Forest.visitFrom f next state rest
    (u :: us, next, state)
end

/-- Relabels a forest in flat order, with a state handed from call to call. -/
def Forest.visit (f : Nat → Tree α → σ → α × σ) (state : σ) (forest : Forest α) : Forest α × σ :=
  let (forest, _, state) := Forest.visitFrom f 0 state forest
  (forest, state)

/-- Relabels every node by its flat index and itself. -/
def Forest.relabel (f : Nat → Tree α → α) (forest : Forest α) : Forest α :=
  (Forest.visit (fun i t (_ : Unit) => (f i t, ())) () forest).1

/-! ## Relabelling that may fail -/

/-- What one call gives: the new label, the new state, and an error if it fails. -/
structure Outcome (α σ ε : Type) where
  label : α
  state : σ
  fault : Option ε := none

/-- Where a walk stands: the next flat index, the state, and the error that stopped it. -/
structure Progress (σ ε : Type) where
  next : Nat
  state : σ
  fault : Option ε := none

mutual
/-- Relabels a tree until a call fails; from there on the nodes stay as they are. -/
def Tree.tryVisitFrom (f : Nat → Tree α → σ → Outcome α σ ε) (index : Nat) (state : σ) :
    Tree α → Tree α × Progress σ ε
  | .node a cs =>
    match f index (.node a cs) state with
    | ⟨b, state, some e⟩ => (.node b cs, ⟨index, state, some e⟩)
    | ⟨b, state, none⟩ =>
      let (ds, p) := Forest.tryVisitFrom f (index + 1) state cs
      (.node b ds, p)

def Forest.tryVisitFrom (f : Nat → Tree α → σ → Outcome α σ ε) (index : Nat) (state : σ) :
    Forest α → Forest α × Progress σ ε
  | [] => ([], ⟨index, state, none⟩)
  | t :: rest =>
    match t.tryVisitFrom f index state with
    | (u, ⟨next, state, some e⟩) => (u :: rest, ⟨next, state, some e⟩)
    | (u, ⟨next, state, none⟩) =>
      let (us, p) := Forest.tryVisitFrom f next state rest
      (u :: us, p)
end

/-- Relabels a forest in flat order until a call fails. -/
def Forest.tryVisit (f : Nat → Tree α → σ → Outcome α σ ε) (state : σ) (forest : Forest α) :
    Forest α × σ × Option ε :=
  let (forest, p) := Forest.tryVisitFrom f 0 state forest
  (forest, p.state, p.fault)

end SchemaForest
