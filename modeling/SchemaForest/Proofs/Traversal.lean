import SchemaForest.Forest

/-!
# Traversals in flat order

A forest is its shape and the list of its labels (`Forest.eq_of_shape_of_labels`).  Both traversals
keep the shape, and on the labels they are a run along the flat list that counts from the first
index: `visit` calls every node (`labels_visitFrom`), `tryVisit` calls up to the first failure and
leaves the labels behind it as they were (`labels_tryVisitFrom`).  What a relabelling does to a
forest is then a fact about lists.
-/

namespace SchemaForest

variable {α β γ ε σ : Type}

/-! ## Mapping labels -/

mutual
/-- Relabels every node of a tree by its label alone. -/
def Tree.mapLabels (f : α → β) : Tree α → Tree β
  | .node a cs => .node (f a) (Forest.mapLabels f cs)

/-- Relabels every node of a forest by its label alone. -/
def Forest.mapLabels (f : α → β) : Forest α → Forest β
  | [] => []
  | t :: rest => t.mapLabels f :: Forest.mapLabels f rest
end

mutual
theorem Tree.mapLabels_id : ∀ t : Tree α, t.mapLabels id = t
  | .node a cs => by rw [Tree.mapLabels, Forest.mapLabels_id cs, id]

theorem Forest.mapLabels_id : ∀ forest : Forest α, Forest.mapLabels id forest = forest
  | [] => rfl
  | t :: rest => by rw [Forest.mapLabels, Tree.mapLabels_id t, Forest.mapLabels_id rest]
end

/-- What is left of a forest without its labels. -/
def Forest.shape (forest : Forest α) : Forest Unit := Forest.mapLabels (fun _ => ()) forest

@[simp] theorem Tree.mapLabels_node (f : α → β) (a : α) (cs : Forest α) :
    (Tree.node a cs).mapLabels f = .node (f a) (Forest.mapLabels f cs) := rfl

theorem Forest.mapLabels_eq (f : α → β) (forest : Forest α) :
    Forest.mapLabels f forest = List.map (Tree.mapLabels f) forest := by
  induction forest with
  | nil => rfl
  | cons t rest ih => rw [Forest.mapLabels, ih, List.map_cons]

theorem Forest.mapLabels_append (f : α → β) (xs ys : Forest α) :
    Forest.mapLabels f (xs ++ ys) = Forest.mapLabels f xs ++ Forest.mapLabels f ys := by
  rw [Forest.mapLabels_eq, Forest.mapLabels_eq, Forest.mapLabels_eq, List.map_append]

/-! ## The flat list -/

@[simp] theorem Forest.flatten_nil : Forest.flatten ([] : Forest α) = [] := rfl

@[simp] theorem Forest.flatten_cons (t : Tree α) (rest : Forest α) :
    Forest.flatten (t :: rest) = t.flatten ++ Forest.flatten rest := rfl

@[simp] theorem Tree.flatten_node (a : α) (cs : Forest α) :
    (Tree.node a cs).flatten = .node a cs :: Forest.flatten cs := rfl

/-- What passes from the children of a node to the node holds of all trees. -/
@[elab_as_elim]
theorem Tree.induction {motive : Tree α → Prop}
    (node : ∀ a cs, (∀ c ∈ cs, motive c) → motive (.node a cs)) : ∀ t, motive t
  | .node a cs => node a cs fun c _ => Tree.induction node c
termination_by t => sizeOf t
decreasing_by
  have := List.sizeOf_lt_of_mem ‹c ∈ cs›
  simp only [Tree.node.sizeOf_spec]
  omega

theorem Tree.flatten_eq (t : Tree α) : t.flatten = t :: Forest.flatten t.children := by
  cases t; rfl

attribute [simp] Forest.flatten_append

/-- A stack of trees gives their nodes in flat order. -/
theorem Forest.unstack_eq_flatten (stack : List (Tree α)) :
    Forest.unstack stack = Forest.flatten stack := by
  induction stack using Forest.unstack.induct with
  | case1 => rw [Forest.unstack, Forest.flatten_nil]
  | case2 a cs stack ih =>
    rw [Forest.unstack, ih, Forest.flatten_append, Forest.flatten_cons, Tree.flatten_node,
      List.cons_append]

theorem Forest.flatten_eq_flatMap (forest : Forest α) :
    Forest.flatten forest = forest.flatMap Tree.flatten := by
  induction forest with
  | nil => rfl
  | cons t rest ih => rw [Forest.flatten_cons, ih, List.flatMap_cons]

theorem Forest.mem_flatten {n : Tree α} {forest : Forest α} :
    n ∈ Forest.flatten forest ↔ ∃ t ∈ forest, n ∈ t.flatten := by
  rw [Forest.flatten_eq_flatMap, List.mem_flatMap]

theorem Tree.mem_flatten_self (t : Tree α) : t ∈ t.flatten := by
  rw [Tree.flatten_eq]
  exact List.mem_cons_self

/-- A node of a tree is the root, or it is below one of the children of the root. -/
theorem Tree.mem_flatten {n t : Tree α} :
    n ∈ t.flatten ↔ n = t ∨ n ∈ Forest.flatten t.children := by
  rw [Tree.flatten_eq, List.mem_cons]

/-- What is in a child of a node is in the node. -/
theorem Tree.mem_flatten_of_child {n c t : Tree α} (hc : c ∈ t.children) (hn : n ∈ c.flatten) :
    n ∈ t.flatten := Tree.mem_flatten.2 (Or.inr (Forest.mem_flatten.2 ⟨c, hc, hn⟩))

/-- The children of a node stand below the root of the tree. -/
theorem Tree.mem_flatten_of_mem_children {n t c : Tree α} (hn : n ∈ t.flatten)
    (hc : c ∈ n.children) : c ∈ Forest.flatten t.children := by
  induction t using Tree.induction with
  | node a cs ih =>
    rcases Tree.mem_flatten.1 hn with rfl | hn
    · exact Forest.mem_flatten.2 ⟨c, hc, Tree.mem_flatten_self c⟩
    · obtain ⟨u, hu, hn⟩ := Forest.mem_flatten.1 hn
      exact Forest.mem_flatten.2 ⟨u, hu, Tree.mem_flatten.2 (Or.inr (ih u hu hn))⟩

theorem Forest.labels_eq_flatMap (forest : Forest α) :
    Forest.labels forest = forest.flatMap fun t => Forest.labels [t] := by
  simp only [Forest.labels, Forest.flatten_eq_flatMap, List.map_flatMap, List.flatMap_cons,
    List.flatMap_nil, List.append_nil]

theorem Forest.mem_labels {a : α} {forest : Forest α} :
    a ∈ Forest.labels forest ↔ ∃ t ∈ forest, a ∈ Forest.labels [t] := by
  rw [Forest.labels_eq_flatMap, List.mem_flatMap]

@[simp] theorem Forest.labels_nil : Forest.labels ([] : Forest α) = [] := rfl

@[simp] theorem Forest.labels_node (a : α) (cs rest : Forest α) :
    Forest.labels (.node a cs :: rest) = a :: (Forest.labels cs ++ Forest.labels rest) := by
  simp [Forest.labels]

theorem Forest.labels_append (xs ys : Forest α) :
    Forest.labels (xs ++ ys) = Forest.labels xs ++ Forest.labels ys := by
  simp [Forest.labels]

theorem Forest.labels_cons (t : Tree α) (rest : Forest α) :
    Forest.labels (t :: rest) = Forest.labels [t] ++ Forest.labels rest :=
  Forest.labels_append [t] rest

theorem Forest.label_mem_labels {n t : Tree α} (h : n ∈ t.flatten) : n.label ∈ Forest.labels [t] :=
  List.mem_map_of_mem (by rwa [Forest.flatten_cons, Forest.flatten_nil, List.append_nil])

theorem Forest.exists_of_mem_labels {a : α} {t : Tree α} (h : a ∈ Forest.labels [t]) :
    ∃ n ∈ t.flatten, n.label = a := by
  rwa [Forest.labels, Forest.flatten_cons, Forest.flatten_nil, List.append_nil, List.mem_map] at h

/-- The labels of a tree are that of its root and those below. -/
theorem Forest.labels_singleton (t : Tree α) :
    Forest.labels [t] = t.label :: Forest.labels t.children := by
  cases t
  rw [Forest.labels_node, Forest.labels_nil, List.append_nil]
  rfl

theorem Forest.mem_labels_singleton {a : α} {t : Tree α} :
    a ∈ Forest.labels [t] ↔ a = t.label ∨ ∃ c ∈ t.children, a ∈ Forest.labels [c] := by
  rw [Forest.labels_singleton, List.mem_cons, Forest.mem_labels]

mutual
theorem Tree.flatten_mapLabels (f : α → β) :
    ∀ t : Tree α, (t.mapLabels f).flatten = t.flatten.map (Tree.mapLabels f)
  | .node a cs => by
    rw [Tree.mapLabels_node, Tree.flatten_node, Tree.flatten_node, List.map_cons,
      Tree.mapLabels_node, Forest.flatten_mapLabels f cs]

/-- The nodes of a relabelled forest are the relabelled nodes. -/
theorem Forest.flatten_mapLabels (f : α → β) :
    ∀ forest : Forest α,
      Forest.flatten (Forest.mapLabels f forest) =
        (Forest.flatten forest).map (Tree.mapLabels f)
  | [] => rfl
  | t :: rest => by
    rw [Forest.mapLabels, Forest.flatten_cons, Forest.flatten_cons, List.map_append,
      Tree.flatten_mapLabels f t, Forest.flatten_mapLabels f rest]
end

theorem Forest.mem_flatten_mapLabels (f : α → β) {n : Tree α} {forest : Forest α}
    (h : n ∈ Forest.flatten forest) :
    n.mapLabels f ∈ Forest.flatten (Forest.mapLabels f forest) := by
  rw [Forest.flatten_mapLabels]
  exact List.mem_map_of_mem h

@[simp] theorem Tree.label_mapLabels (f : α → β) (t : Tree α) :
    (t.mapLabels f).label = f t.label := by
  cases t; rfl

@[simp] theorem Tree.children_mapLabels (f : α → β) (t : Tree α) :
    (t.mapLabels f).children = Forest.mapLabels f t.children := by
  cases t; rfl

/-- The labels of a relabelled forest are the relabelled labels. -/
theorem Forest.labels_mapLabels (f : α → β) (forest : Forest α) :
    Forest.labels (Forest.mapLabels f forest) = (Forest.labels forest).map f := by
  rw [Forest.labels, Forest.labels, Forest.flatten_mapLabels, List.map_map, List.map_map]
  exact List.map_congr_left fun t _ => Tree.label_mapLabels f t

mutual
theorem Tree.mapLabels_mapLabels (f : α → β) (g : β → γ) :
    ∀ t : Tree α, (t.mapLabels f).mapLabels g = t.mapLabels (g ∘ f)
  | .node a cs => by
    rw [Tree.mapLabels_node, Tree.mapLabels_node, Forest.mapLabels_mapLabels f g cs,
      Tree.mapLabels_node]
    rfl

theorem Forest.mapLabels_mapLabels (f : α → β) (g : β → γ) :
    ∀ forest : Forest α,
      Forest.mapLabels g (Forest.mapLabels f forest) = Forest.mapLabels (g ∘ f) forest
  | [] => rfl
  | t :: rest => by
    rw [Forest.mapLabels, Forest.mapLabels, Tree.mapLabels_mapLabels f g t,
      Forest.mapLabels_mapLabels f g rest, Forest.mapLabels]
end

theorem Forest.shape_mapLabels (f : α → β) (forest : Forest α) :
    Forest.shape (Forest.mapLabels f forest) = Forest.shape forest :=
  Forest.mapLabels_mapLabels f (fun _ => ()) forest

theorem Forest.length_labels_of_shape {xs : Forest α} {ys : Forest β}
    (h : Forest.shape xs = Forest.shape ys) :
    (Forest.labels xs).length = (Forest.labels ys).length := by
  have hx := Forest.labels_mapLabels (fun _ => ()) xs
  have hy := Forest.labels_mapLabels (fun _ => ()) ys
  rw [← Forest.shape, h] at hx
  rw [← Forest.shape, hx] at hy
  simpa using congrArg List.length hy

/-- Up to a root, forests of one shape have the same number of nodes. -/
theorem Forest.length_flatten_take_of_shape {xs : Forest α} {ys : Forest β}
    (h : Forest.shape xs = Forest.shape ys) (k : Nat) :
    (Forest.flatten (xs.take k)).length = (Forest.flatten (ys.take k)).length := by
  have htake : Forest.shape (xs.take k) = Forest.shape (ys.take k) := by
    rw [Forest.shape, Forest.mapLabels_eq] at h ⊢
    rw [Forest.shape, Forest.mapLabels_eq] at h ⊢
    rw [List.map_take, List.map_take, h]
  simpa [Forest.labels] using Forest.length_labels_of_shape htake

theorem Forest.length_of_shape {xs : Forest α} {ys : Forest β}
    (h : Forest.shape xs = Forest.shape ys) : xs.length = ys.length := by
  rw [Forest.shape, Forest.shape, Forest.mapLabels_eq, Forest.mapLabels_eq] at h
  simpa using congrArg List.length h

/-- A root stands in the flat list behind all nodes of the trees in front of it. -/
theorem Forest.getElem?_flatten_take {forest : Forest α} {k : Nat} {t : Tree α}
    (h : forest[k]? = some t) :
    (Forest.flatten forest)[(Forest.flatten (forest.take k)).length]? = some t := by
  obtain ⟨hk, rfl⟩ := List.getElem?_eq_some_iff.1 h
  have hsplit : Forest.flatten forest = Forest.flatten (forest.take k) ++
      Forest.flatten (forest.drop k) := by
    rw [← Forest.flatten_append, List.take_append_drop]
  rw [hsplit, List.getElem?_append_right (Nat.le_refl _), Nat.sub_self,
    List.drop_eq_getElem_cons hk, Forest.flatten_cons, Tree.flatten_eq]
  rfl

mutual
theorem Tree.eq_of_shape_of_labels : ∀ t u : Tree α,
    t.mapLabels (fun _ => ()) = u.mapLabels (fun _ => ()) →
    t.flatten.map Tree.label = u.flatten.map Tree.label → t = u
  | .node a cs, .node b ds, hshape, hlabels => by
    obtain ⟨hroot, hbelow⟩ : a = b ∧ Forest.labels cs = Forest.labels ds := List.cons.inj hlabels
    have hshape : Forest.shape cs = Forest.shape ds := (Tree.node.inj hshape).2
    rw [hroot, Forest.eq_of_shape_of_labels cs ds hshape hbelow]

/-- A forest is its shape and its labels. -/
theorem Forest.eq_of_shape_of_labels : ∀ xs ys : Forest α, Forest.shape xs = Forest.shape ys →
    Forest.labels xs = Forest.labels ys → xs = ys
  | [], [], _, _ => rfl
  | [], _ :: _, hshape, _ => nomatch hshape
  | _ :: _, [], hshape, _ => nomatch hshape
  | t :: xs, u :: ys, hshape, hlabels => by
    obtain ⟨htree, hrest⟩ := List.cons.inj hshape
    -- Trees of one shape have equally many labels, so the labels can be cut behind the first tree.
    have hlength : (Forest.labels [t]).length = (Forest.labels [u]).length :=
      Forest.length_labels_of_shape (by
        rw [Forest.shape, Forest.shape, Forest.mapLabels, Forest.mapLabels, htree]; rfl)
    rw [Forest.labels_cons t, Forest.labels_cons u] at hlabels
    obtain ⟨hhead, htail⟩ := List.append_inj hlabels hlength
    rw [Forest.labels, Forest.labels, Forest.flatten_cons, Forest.flatten_cons, Forest.flatten_nil,
      List.append_nil, List.append_nil] at hhead
    rw [Tree.eq_of_shape_of_labels t u htree hhead, Forest.eq_of_shape_of_labels xs ys hrest htail]
end

/-! ## Visiting every node -/

/-- The calls along a flat list that starts at an index: the labels that they give, the next index
    and the last state. -/
def callEach (f : Nat → Tree α → σ → α × σ) (index : Nat) (state : σ) :
    List (Tree α) → List α × Nat × σ
  | [] => ([], index, state)
  | t :: rest =>
    let (a, state) := f index t state
    let (as, last) := callEach f (index + 1) state rest
    (a :: as, last)

theorem callEach_append (f : Nat → Tree α → σ → α × σ) (index : Nat) (state : σ)
    (xs ys : List (Tree α)) :
    callEach f index state (xs ++ ys) =
      let (as, next, middle) := callEach f index state xs
      let (bs, last) := callEach f next middle ys
      (as ++ bs, last) := by
  induction xs generalizing index state with
  | nil => rfl
  | cons t xs ih =>
    rw [List.cons_append, callEach, callEach]
    rcases f index t state with ⟨a, middle⟩
    dsimp only
    rw [ih]
    rfl

/-- Where the label does not hang on the state, each node gets the label of its own index. -/
theorem callEach_labels {f : Nat → Tree α → σ → α × σ} {g : Nat → Tree α → α}
    (h : ∀ i t s, (f i t s).1 = g i t) (index : Nat) (state : σ) (ts : List (Tree α)) :
    (callEach f index state ts).1 = (ts.zipIdx index).map fun p => g p.2 p.1 := by
  induction ts generalizing index state with
  | nil => rfl
  | cons t ts ih => rw [callEach, List.zipIdx_cons, List.map_cons, ← h, ← ih]

section Visit

variable (f : Nat → Tree α → σ → α × σ)

mutual
theorem Tree.labels_visitFrom : ∀ (t : Tree α) (index : Nat) (state : σ),
    callEach f index state t.flatten =
      ((t.visitFrom f index state).1.flatten.map Tree.label, (t.visitFrom f index state).2)
  | .node a cs, index, state => by
    rw [Tree.flatten_node, callEach, Tree.visitFrom]
    rcases f index (.node a cs) state with ⟨b, middle⟩
    dsimp only
    rw [Forest.labels_visitFrom cs]
    rfl

/-- Visiting a forest calls every node once, in flat order and with its flat index. -/
theorem Forest.labels_visitFrom : ∀ (forest : Forest α) (index : Nat) (state : σ),
    callEach f index state (Forest.flatten forest) =
      (Forest.labels (Forest.visitFrom f index state forest).1,
        (Forest.visitFrom f index state forest).2)
  | [], _, _ => rfl
  | t :: rest, index, state => by
    rw [Forest.flatten_cons, callEach_append, Tree.labels_visitFrom t]
    dsimp only
    rw [Forest.labels_visitFrom rest, Forest.visitFrom, Forest.labels, Forest.labels,
      Forest.flatten_cons, List.map_append]
end

mutual
theorem Tree.shape_visitFrom : ∀ (t : Tree α) (index : Nat) (state : σ),
    (t.visitFrom f index state).1.mapLabels (fun _ => ()) = t.mapLabels (fun _ => ())
  | .node a cs, index, state => by
    rw [Tree.visitFrom, Tree.mapLabels_node, Tree.mapLabels_node, ← Forest.shape,
      Forest.shape_visitFrom cs]
    rfl

theorem Forest.shape_visitFrom : ∀ (forest : Forest α) (index : Nat) (state : σ),
    Forest.shape (Forest.visitFrom f index state forest).1 = Forest.shape forest
  | [], _, _ => rfl
  | t :: rest, index, state => by
    rw [Forest.visitFrom, Forest.shape, Forest.mapLabels, Tree.shape_visitFrom t, ← Forest.shape,
      Forest.shape_visitFrom rest]
    rfl
end

end Visit

theorem Forest.shape_visit (f : Nat → Tree α → σ → α × σ) (state : σ) (forest : Forest α) :
    Forest.shape (Forest.visit f state forest).1 = Forest.shape forest :=
  Forest.shape_visitFrom f forest 0 state

/-- A visit whose labels do not hang on the state gives each node the label of its flat index. -/
theorem Forest.labels_visit {f : Nat → Tree α → σ → α × σ} {g : Nat → Tree α → α}
    (h : ∀ i t s, (f i t s).1 = g i t) (state : σ) (forest : Forest α) :
    Forest.labels (Forest.visit f state forest).1 =
      (Forest.flatten forest).zipIdx.map fun p => g p.2 p.1 := by
  rw [← callEach_labels h 0 state, Forest.labels_visitFrom f forest 0 state]
  rfl

/-! ## Visiting up to a failure -/

/-- The calls along a flat list up to the first that fails; behind it the labels stay. -/
def callUntil (f : Nat → Tree α → σ → Outcome α σ ε) (index : Nat) (state : σ) :
    List (Tree α) → List α × Progress σ ε
  | [] => ([], ⟨index, state, none⟩)
  | t :: rest =>
    match f index t state with
    | ⟨a, state, some e⟩ => (a :: rest.map Tree.label, ⟨index, state, some e⟩)
    | ⟨a, state, none⟩ =>
      let (as, p) := callUntil f (index + 1) state rest
      (a :: as, p)

theorem callUntil_append (f : Nat → Tree α → σ → Outcome α σ ε) (index : Nat) (state : σ)
    (xs ys : List (Tree α)) :
    callUntil f index state (xs ++ ys) =
      match callUntil f index state xs with
      | (as, ⟨next, middle, some e⟩) => (as ++ ys.map Tree.label, ⟨next, middle, some e⟩)
      | (as, ⟨next, middle, none⟩) =>
        let (bs, p) := callUntil f next middle ys
        (as ++ bs, p) := by
  induction xs generalizing index state with
  | nil => rfl
  | cons t xs ih =>
    rw [List.cons_append, callUntil, callUntil]
    rcases f index t state with ⟨a, middle, _ | e⟩
    · dsimp only
      rw [ih]
      rcases callUntil f (index + 1) middle xs with ⟨as, next, last, _ | e⟩ <;> rfl
    · simp

section TryVisit

variable (f : Nat → Tree α → σ → Outcome α σ ε)

mutual
theorem Tree.labels_tryVisitFrom : ∀ (t : Tree α) (index : Nat) (state : σ),
    callUntil f index state t.flatten =
      ((t.tryVisitFrom f index state).1.flatten.map Tree.label, (t.tryVisitFrom f index state).2)
  | .node a cs, index, state => by
    rw [Tree.flatten_node, callUntil, Tree.tryVisitFrom]
    rcases f index (.node a cs) state with ⟨b, middle, _ | e⟩
    · dsimp only
      rw [Forest.labels_tryVisitFrom cs]
      rfl
    · rfl

/-- Visiting a forest up to a failure is calling along its flat list up to that failure. -/
theorem Forest.labels_tryVisitFrom : ∀ (forest : Forest α) (index : Nat) (state : σ),
    callUntil f index state (Forest.flatten forest) =
      (Forest.labels (Forest.tryVisitFrom f index state forest).1,
        (Forest.tryVisitFrom f index state forest).2)
  | [], _, _ => rfl
  | t :: rest, index, state => by
    rw [Forest.flatten_cons, callUntil_append, Tree.labels_tryVisitFrom t, Forest.tryVisitFrom]
    rcases t.tryVisitFrom f index state with ⟨u, next, middle, _ | e⟩
    · dsimp only
      rw [Forest.labels_tryVisitFrom rest, Forest.labels, Forest.labels, Forest.flatten_cons,
        List.map_append]
    · simp [Forest.labels]
end

mutual
theorem Tree.shape_tryVisitFrom : ∀ (t : Tree α) (index : Nat) (state : σ),
    (t.tryVisitFrom f index state).1.mapLabels (fun _ => ()) = t.mapLabels (fun _ => ())
  | .node a cs, index, state => by
    rw [Tree.tryVisitFrom]
    rcases f index (.node a cs) state with ⟨b, middle, _ | e⟩
    · dsimp only
      rw [Tree.mapLabels_node, Tree.mapLabels_node, ← Forest.shape, Forest.shape_tryVisitFrom cs]
      rfl
    · rfl

theorem Forest.shape_tryVisitFrom : ∀ (forest : Forest α) (index : Nat) (state : σ),
    Forest.shape (Forest.tryVisitFrom f index state forest).1 = Forest.shape forest
  | [], _, _ => rfl
  | t :: rest, index, state => by
    have ht := Tree.shape_tryVisitFrom t index state
    rw [Forest.tryVisitFrom]
    rcases h : t.tryVisitFrom f index state with ⟨u, next, middle, _ | e⟩ <;> rw [h] at ht
    · dsimp only
      rw [Forest.shape, Forest.mapLabels, ht, ← Forest.shape, Forest.shape_tryVisitFrom rest]
      rfl
    · dsimp only
      rw [Forest.shape, Forest.mapLabels, ht]
      rfl
end

theorem callUntil_fault {out : Tree α → Outcome α Unit ε} (index : Nat) (nodes : List (Tree α)) :
    (callUntil (fun _ n _ => out n) index () nodes).2.fault =
      nodes.findSome? fun n => (out n).fault := by
  induction nodes generalizing index with
  | nil => rfl
  | cons n rest ih =>
    rw [callUntil, List.findSome?_cons]
    rcases out n with ⟨a, _, _ | e⟩
    · exact ih (index + 1)
    · rfl

theorem callUntil_labels {out : Tree α → Outcome α Unit ε} (index : Nat) {nodes : List (Tree α)}
    (h : ∀ n ∈ nodes, (out n).fault = none) :
    (callUntil (fun _ n _ => out n) index () nodes).1 = nodes.map fun n => (out n).label := by
  induction nodes generalizing index with
  | nil => rfl
  | cons n rest ih =>
    have hn := h n List.mem_cons_self
    rw [callUntil, List.map_cons, ← ih (index + 1) fun m hm => h m (List.mem_cons_of_mem n hm)]
    generalize out n = o at hn ⊢
    obtain ⟨a, _, _ | e⟩ := o
    · rfl
    · exact absurd hn (Option.some_ne_none e)

/-- In front of the first call that fails the labels are what the calls made of them, and behind it
    they stay. -/
theorem callUntil_labels_of_fault {out : Tree α → Outcome α Unit ε} (index : Nat)
    {front back : List (Tree α)} {n : Tree α} {e : ε} (hfront : ∀ m ∈ front, (out m).fault = none)
    (hn : (out n).fault = some e) :
    (callUntil (fun _ n _ => out n) index () (front ++ n :: back)).1 =
      front.map (fun m => (out m).label) ++ (out n).label :: back.map Tree.label := by
  induction front generalizing index with
  | nil =>
    rw [List.nil_append, List.map_nil, List.nil_append, callUntil]
    generalize out n = o at hn ⊢
    obtain ⟨a, _, _ | e'⟩ := o
    · cases hn
    · rfl
  | cons m front ih =>
    obtain ⟨hm, hrest⟩ := List.forall_mem_cons.1 hfront
    rw [List.cons_append, List.map_cons, List.cons_append, ← ih (index + 1) hrest, callUntil]
    generalize out m = o at hm ⊢
    obtain ⟨a, _, _ | e'⟩ := o
    · rfl
    · cases hm

/-- What no call changes is the same in all labels, those that were left out included. -/
theorem callUntil_map {out : Tree α → Outcome α Unit ε} {g : α → β}
    (h : ∀ n, g (out n).label = g n.label) (index : Nat) (nodes : List (Tree α)) :
    (callUntil (fun _ n _ => out n) index () nodes).1.map g = nodes.map fun n => g n.label := by
  induction nodes generalizing index with
  | nil => rfl
  | cons n rest ih =>
    have hn := h n
    rw [callUntil, List.map_cons, ← hn]
    rcases out n with ⟨a, _, _ | e⟩
    · exact congrArg (g a :: ·) (ih (index + 1))
    · show g a :: (rest.map Tree.label).map g = _
      rw [List.map_map]
      rfl

/-- Each label that comes out is one that was there, or what its call made of it. -/
theorem mem_callUntil {out : Tree α → Outcome α Unit ε} {index : Nat} {nodes : List (Tree α)} {a : α}
    (h : a ∈ (callUntil (fun _ n _ => out n) index () nodes).1) :
    ∃ n ∈ nodes, a = n.label ∨ a = (out n).label := by
  induction nodes generalizing index with
  | nil => exact absurd h List.not_mem_nil
  | cons n rest ih =>
    rw [callUntil] at h
    rcases hn : out n with ⟨b, _, _ | e⟩ <;> rw [hn] at h
    · rcases List.mem_cons.1 h with rfl | hrest
      · exact ⟨n, List.mem_cons_self, Or.inr (by rw [hn])⟩
      · obtain ⟨m, hm, ha⟩ := ih hrest
        exact ⟨m, List.mem_cons_of_mem n hm, ha⟩
    · rcases List.mem_cons.1 h with rfl | hrest
      · exact ⟨n, List.mem_cons_self, Or.inr (by rw [hn])⟩
      · obtain ⟨m, hm, rfl⟩ := List.mem_map.1 hrest
        exact ⟨m, List.mem_cons_of_mem n hm, Or.inl rfl⟩

end TryVisit

/-- Calls that look at the node alone stop at the first node whose call fails. -/
theorem Forest.tryVisit_fault (out : Tree α → Outcome α Unit ε) (forest : Forest α) :
    (Forest.tryVisit (fun _ n _ => out n) () forest).2.2 =
      (Forest.flatten forest).findSome? fun n => (out n).fault := by
  rw [← callUntil_fault 0, Forest.labels_tryVisitFrom]
  rfl

/-- Where the first failing call is known, so are all labels. -/
theorem Forest.labels_tryVisit_of_fault {out : Tree α → Outcome α Unit ε} {forest : Forest α}
    {front back : List (Tree α)} {n : Tree α} {e : ε}
    (hsplit : Forest.flatten forest = front ++ n :: back)
    (hfront : ∀ m ∈ front, (out m).fault = none) (hn : (out n).fault = some e) :
    Forest.labels (Forest.tryVisit (fun _ n _ => out n) () forest).1 =
      front.map (fun m => (out m).label) ++ (out n).label :: back.map Tree.label := by
  have hcalls := Forest.labels_tryVisitFrom (fun _ n (_ : Unit) => out n) forest 0 ()
  rw [← callUntil_labels_of_fault 0 hfront hn, ← hsplit, hcalls]
  rfl

/-- Calls that look at the label alone and never fail relabel the forest. -/
theorem Forest.tryVisit_eq_map {out : α → Outcome α Unit ε} {forest : Forest α}
    (h : ∀ a ∈ Forest.labels forest, (out a).fault = none) :
    (Forest.tryVisit (fun _ n _ => out n.label) () forest).1 =
      Forest.mapLabels (fun a => (out a).label) forest := by
  refine Forest.eq_of_shape_of_labels _ _ ?_ ?_
  · rw [Forest.shape_mapLabels]
    exact Forest.shape_tryVisitFrom _ forest 0 ()
  · have hcalls := Forest.labels_tryVisitFrom (fun _ n (_ : Unit) => out n.label) forest 0 ()
    rw [Forest.labels_mapLabels]
    refine (congrArg Prod.fst hcalls).symm.trans ?_
    rw [callUntil_labels 0 fun n hn => h n.label (List.mem_map_of_mem hn), Forest.labels,
      List.map_map]
    rfl

/-- Wherever a visit stops, each label is one that was there, or what its call made of it. -/
theorem Forest.mem_labels_tryVisit {out : α → Outcome α Unit ε} {forest : Forest α} {a : α}
    (h : a ∈ Forest.labels (Forest.tryVisit (fun _ n _ => out n.label) () forest).1) :
    ∃ b ∈ Forest.labels forest, a = b ∨ a = (out b).label := by
  have hcalls := Forest.labels_tryVisitFrom (fun _ n (_ : Unit) => out n.label) forest 0 ()
  have hmem : a ∈ (callUntil (fun _ n _ => out n.label) 0 () (Forest.flatten forest)).1 := by
    rw [hcalls]
    exact h
  obtain ⟨n, hn, ha⟩ := mem_callUntil hmem
  exact ⟨n.label, List.mem_map_of_mem hn, ha⟩

/-- Wherever a visit stops, what no call changes of a label is as it was. -/
theorem Forest.mapLabels_tryVisit {out : α → Outcome α Unit ε} {g : α → β}
    (h : ∀ a, g (out a).label = g a) (forest : Forest α) :
    Forest.mapLabels g (Forest.tryVisit (fun _ n _ => out n.label) () forest).1 =
      Forest.mapLabels g forest := by
  refine Forest.eq_of_shape_of_labels _ _ ?_ ?_
  · rw [Forest.shape_mapLabels, Forest.shape_mapLabels]
    exact Forest.shape_tryVisitFrom _ forest 0 ()
  · have hcalls := Forest.labels_tryVisitFrom (fun _ n (_ : Unit) => out n.label) forest 0 ()
    have hlabels := callUntil_map (fun n : Tree α => h n.label) 0 (Forest.flatten forest)
    rw [hcalls] at hlabels
    rw [Forest.labels_mapLabels, Forest.labels_mapLabels]
    refine hlabels.trans ?_
    rw [Forest.labels, List.map_map]
    rfl

end SchemaForest
