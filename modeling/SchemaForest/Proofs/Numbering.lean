import SchemaForest.Proofs.Traversal

/-!
# Walks number nodes as listings do

Whoever walks a forest to change it gets a flat index with every node, and whoever lists the nodes counts
them as they come off a stack.  Targets of comments are found in the one order and filled in the other,
so both have to number alike.

1. **The plain counterpart** of a walk is a row of calls along the numbered nodes, each in the state that
   the one before has left (`repliesTo`).
2. **Walks are such rows** (`callEach_eq`, `callUntil_eq_of_fault`): what was proved of a walk along the
   flat list is said of the replies.  A walk that may fail ends with the first reply that has an error.
3. **Who is called** is seen by callbacks that keep a record (`recorded`, `tryRecorded`).  The crux: a
   record changes nothing of the walk, so the record is that of the callback without it.
4. **What stays** behind a failure are whole nodes, not labels alone: below a node there are only later
   nodes (`Forest.drop_flatten_of_shape`).
-/

namespace SchemaForest

variable {α ε ρ σ : Type}

/-! ## Calls in a row -/

/-- The nodes of a forest as they come off the stack, each with its number. -/
def Forest.numbered (forest : Forest α) : List (Tree α × Nat) := (Forest.unstack forest).zipIdx

/-- What calls reply along numbered nodes, each called in the state that the one before has left. -/
def repliesTo (call : Nat → Tree α → σ → ρ) (left : ρ → σ) (state : σ) :
    List (Tree α × Nat) → List ρ
  | [] => []
  | (n, i) :: rest =>
    let reply := call i n state
    reply :: repliesTo call left (left reply) rest

/-- The state that the last of some replies has left. -/
def lastState (left : ρ → σ) (state : σ) (replies : List ρ) : σ :=
  (replies.getLast?.map left).getD state

theorem lastState_cons (left : ρ → σ) (state : σ) (reply : ρ) (rest : List ρ) :
    lastState left state (reply :: rest) = lastState left (left reply) rest := by
  rw [lastState, lastState]
  cases rest with
  | nil => rfl
  | cons r rest => rw [List.getLast?_cons_cons, List.getLast?_cons, Option.map_some,
      Option.getD_some, Option.getD_some]

/-- Calls along a flat list give the labels of the replies and leave the state of the last. -/
theorem callEach_eq (f : Nat → Tree α → σ → α × σ) (index : Nat) (state : σ)
    (nodes : List (Tree α)) :
    callEach f index state nodes =
      ((repliesTo f Prod.snd state (nodes.zipIdx index)).map Prod.fst, index + nodes.length,
        lastState Prod.snd state (repliesTo f Prod.snd state (nodes.zipIdx index))) := by
  induction nodes generalizing index state with
  | nil => rfl
  | cons n rest ih =>
    rw [callEach, List.zipIdx_cons, repliesTo, lastState_cons, List.map_cons, List.length_cons,
      Nat.add_comm rest.length, ← Nat.add_assoc]
    rcases f index n state with ⟨a, middle⟩
    dsimp only
    rw [ih]

/-- The callback whose errors nobody heeds. -/
def heedless (f : Nat → Tree α → σ → Outcome α σ ε) : Nat → Tree α → σ → α × σ := fun i n state =>
  ((f i n state).label, (f i n state).state)

/-- Where no reply has an error, calls up to a failure are calls to all. -/
theorem callUntil_eq_of_faultless {f : Nat → Tree α → σ → Outcome α σ ε} {index : Nat} {state : σ}
    {nodes : List (Tree α)}
    (h : ∀ r ∈ repliesTo f Outcome.state state (nodes.zipIdx index), r.fault = none) :
    callUntil f index state nodes =
      ((callEach (heedless f) index state nodes).1,
        ⟨(callEach (heedless f) index state nodes).2.1,
          (callEach (heedless f) index state nodes).2.2, none⟩) := by
  induction nodes generalizing index state with
  | nil => rfl
  | cons n rest ih =>
    rw [List.zipIdx_cons, repliesTo, List.forall_mem_cons] at h
    rw [callUntil, callEach, heedless]
    generalize f index n state = o at h ⊢
    obtain ⟨a, middle, _ | e⟩ := o
    · dsimp only
      rw [ih h.2]
    · cases h.1

/-- The calls end with the first reply that has an error.  The labels up to there are those of the
    replies, and the labels behind stay. -/
theorem callUntil_eq_of_fault {f : Nat → Tree α → σ → Outcome α σ ε} {index : Nat} {state : σ}
    {nodes : List (Tree α)} {k : Nat} {r : Outcome α σ ε} {e : ε}
    (hr : (repliesTo f Outcome.state state (nodes.zipIdx index))[k]? = some r)
    (he : r.fault = some e)
    (hfirst : ∀ q ∈ (repliesTo f Outcome.state state (nodes.zipIdx index)).take k, q.fault = none) :
    callUntil f index state nodes =
      (((repliesTo f Outcome.state state (nodes.zipIdx index)).take (k + 1)).map Outcome.label ++
          (nodes.drop (k + 1)).map Tree.label,
        ⟨index + k, r.state, some e⟩) := by
  induction nodes generalizing index state k with
  | nil => cases hr
  | cons n rest ih =>
    rw [List.zipIdx_cons, repliesTo] at hr hfirst ⊢
    rw [callUntil]
    generalize f index n state = o at hr hfirst ⊢
    obtain ⟨a, middle, fault⟩ := o
    cases k with
    | zero =>
      obtain rfl := Option.some.inj hr
      obtain rfl : fault = some e := he
      rfl
    | succ k =>
      rw [List.take_succ_cons, List.forall_mem_cons] at hfirst
      obtain rfl : fault = none := hfirst.1
      dsimp only
      rw [ih hr hfirst.2, List.take_succ_cons, List.map_cons, List.drop_succ_cons,
        Nat.add_right_comm, Nat.add_assoc]
      rfl

/-! ## Records of calls -/

/-- The callback that besides keeps a record of the nodes that it was called with and their numbers. -/
def recorded (f : Nat → Tree α → σ → α × σ) :
    Nat → Tree α → σ × List (Tree α × Nat) → α × (σ × List (Tree α × Nat)) :=
  fun i n (state, record) => ((f i n state).1, (f i n state).2, record ++ [(n, i)])

/-- The same for a callback that may fail; a failing call is recorded too. -/
def tryRecorded (f : Nat → Tree α → σ → Outcome α σ ε) :
    Nat → Tree α → σ × List (Tree α × Nat) → Outcome α (σ × List (Tree α × Nat)) ε :=
  fun i n (state, record) =>
    ⟨(f i n state).label, ((f i n state).state, record ++ [(n, i)]), (f i n state).fault⟩

theorem callEach_recorded (f : Nat → Tree α → σ → α × σ) (index : Nat) (state : σ)
    (record : List (Tree α × Nat)) (nodes : List (Tree α)) :
    callEach (recorded f) index (state, record) nodes =
      ((callEach f index state nodes).1, (callEach f index state nodes).2.1,
        (callEach f index state nodes).2.2, record ++ nodes.zipIdx index) := by
  induction nodes generalizing index state record with
  | nil => rw [List.zipIdx_nil, List.append_nil]; rfl
  | cons n rest ih =>
    rw [callEach, recorded, callEach, List.zipIdx_cons]
    dsimp only
    rw [ih, List.append_assoc, List.singleton_append]

theorem callUntil_tryRecorded_of_fault {f : Nat → Tree α → σ → Outcome α σ ε} {index : Nat}
    {state : σ} (record : List (Tree α × Nat)) {nodes : List (Tree α)} {k : Nat}
    {r : Outcome α σ ε} {e : ε}
    (hr : (repliesTo f Outcome.state state (nodes.zipIdx index))[k]? = some r)
    (he : r.fault = some e)
    (hfirst : ∀ q ∈ (repliesTo f Outcome.state state (nodes.zipIdx index)).take k, q.fault = none) :
    callUntil (tryRecorded f) index (state, record) nodes =
      ((callUntil f index state nodes).1,
        ⟨index + k, (r.state, record ++ (nodes.zipIdx index).take (k + 1)), some e⟩) := by
  induction nodes generalizing index state record k with
  | nil => cases hr
  | cons n rest ih =>
    rw [List.zipIdx_cons, repliesTo] at hr hfirst
    rw [callUntil, tryRecorded, callUntil, List.zipIdx_cons, List.take_succ_cons]
    generalize f index n state = o at hr hfirst ⊢
    obtain ⟨a, middle, fault⟩ := o
    cases k with
    | zero =>
      obtain rfl := Option.some.inj hr
      obtain rfl : fault = some e := he
      rfl
    | succ k =>
      rw [List.take_succ_cons, List.forall_mem_cons] at hfirst
      obtain rfl : fault = none := hfirst.1
      dsimp only
      rw [ih _ hr hfirst.2, List.append_assoc, List.singleton_append, Nat.add_right_comm,
        Nat.add_assoc]

/-! ## Nodes behind a place -/

mutual
theorem Tree.drop_flatten_of_shape : ∀ (t u : Tree α) (k : Nat),
    t.mapLabels (fun _ => ()) = u.mapLabels (fun _ => ()) →
    (t.flatten.map Tree.label).drop k = (u.flatten.map Tree.label).drop k →
    t.flatten.drop k = u.flatten.drop k
  | t, u, 0, hshape, hlabels => by rw [Tree.eq_of_shape_of_labels t u hshape hlabels]
  | .node a cs, .node b ds, k + 1, hshape, hlabels =>
    Forest.drop_flatten_of_shape cs ds k (Tree.node.inj hshape).2 hlabels

/-- Where forests of one shape have the same labels from a place on, they have the same nodes there. -/
theorem Forest.drop_flatten_of_shape : ∀ (xs ys : Forest α) (k : Nat),
    Forest.shape xs = Forest.shape ys →
    (Forest.labels xs).drop k = (Forest.labels ys).drop k →
    (Forest.flatten xs).drop k = (Forest.flatten ys).drop k
  | [], [], _, _, _ => rfl
  | [], _ :: _, _, hshape, _ => nomatch hshape
  | _ :: _, [], _, hshape, _ => nomatch hshape
  | t :: xs, u :: ys, k, hshape, hlabels => by
    obtain ⟨htree, hrest⟩ := List.cons.inj hshape
    have hlength : t.flatten.length = u.flatten.length := by
      have h := congrArg (fun v : Tree Unit => v.flatten.length) htree
      simpa only [Tree.flatten_mapLabels, List.length_map] using h
    -- The trees in front have equally many nodes, so the place lies equally far behind them.
    rw [Forest.labels, Forest.labels, Forest.flatten_cons, Forest.flatten_cons, List.map_append,
      List.map_append, List.drop_append, List.drop_append, List.length_map, List.length_map,
      hlength] at hlabels
    obtain ⟨hfront, hback⟩ := List.append_inj hlabels (by simp [hlength])
    rw [Forest.flatten_cons, Forest.flatten_cons, List.drop_append, List.drop_append, hlength,
      Tree.drop_flatten_of_shape t u k htree hfront,
      Forest.drop_flatten_of_shape xs ys _ hrest hback]
end

/-! ## Walks -/

namespace Forest

theorem numbered_eq (forest : Forest α) : forest.numbered = (flatten forest).zipIdx := by
  rw [numbered, unstack_eq_flatten]

section Visit

variable (f : Nat → Tree α → σ → α × σ) (state : σ) (forest : Forest α)

/-- A walk has the labels of the replies along the numbered nodes, and leaves the state of the last. -/
theorem visit_eq_replies :
    labels (visit f state forest).1 = (repliesTo f Prod.snd state forest.numbered).map Prod.fst ∧
      (visit f state forest).2 =
        lastState Prod.snd state (repliesTo f Prod.snd state forest.numbered) := by
  have hwalk := labels_visitFrom f forest 0 state
  rw [callEach_eq, ← numbered_eq] at hwalk
  obtain ⟨hlabels, hrest⟩ := Prod.mk.inj hwalk
  exact ⟨hlabels.symm, (congrArg Prod.snd hrest).symm⟩

/-- With a record the walk is the same, and the record has every node once with its number. -/
theorem visit_recorded :
    visit (recorded f) (state, []) forest =
      ((visit f state forest).1, (visit f state forest).2, forest.numbered) := by
  have hwalk := labels_visitFrom (recorded f) forest 0 (state, [])
  rw [callEach_recorded, labels_visitFrom f forest 0 state] at hwalk
  obtain ⟨hlabels, hrest⟩ := Prod.mk.inj hwalk
  refine Prod.ext (eq_of_shape_of_labels _ _ ?_ hlabels.symm) ?_
  · rw [shape_visit, shape_visit]
  · rw [numbered_eq]
    exact (congrArg Prod.snd hrest).symm

end Visit

section TryVisit

variable {f : Nat → Tree α → σ → Outcome α σ ε} {state : σ} {forest : Forest α}

theorem shape_tryVisit (f : Nat → Tree α → σ → Outcome α σ ε) (state : σ) (forest : Forest α) :
    shape (tryVisit f state forest).1 = shape forest :=
  shape_tryVisitFrom f forest 0 state

/-- Where no reply has an error, a walk that may fail is one that cannot. -/
theorem tryVisit_eq_visit
    (h : ∀ r ∈ repliesTo f Outcome.state state forest.numbered, r.fault = none) :
    tryVisit f state forest =
      ((visit (heedless f) state forest).1, (visit (heedless f) state forest).2, none) := by
  rw [numbered_eq] at h
  have hwalk := labels_tryVisitFrom f forest 0 state
  rw [callUntil_eq_of_faultless h, labels_visitFrom] at hwalk
  obtain ⟨hlabels, hrest⟩ := Prod.mk.inj hwalk
  refine Prod.ext (eq_of_shape_of_labels _ _ ?_ hlabels.symm) ?_
  · rw [shape_tryVisit, shape_visit]
  · exact (congrArg (fun p => (p.state, p.fault)) hrest).symm

/-- What a walk comes to whose first reply with an error is that of the node of number `k`. -/
structure StopsAt (f : Nat → Tree α → σ → Outcome α σ ε) (state : σ) (forest : Forest α) (k : Nat)
    (r : Outcome α σ ε) (e : ε) : Prop where
  result : (tryVisit f state forest).2 = (r.state, some e)
  called : tryVisit (tryRecorded f) (state, []) forest =
    ((tryVisit f state forest).1, (r.state, forest.numbered.take (k + 1)), some e)
  shape : Forest.shape (tryVisit f state forest).1 = Forest.shape forest
  front : (labels (tryVisit f state forest).1).take (k + 1) =
    ((repliesTo f Outcome.state state forest.numbered).take (k + 1)).map Outcome.label
  back : (unstack (tryVisit f state forest).1).drop (k + 1) = (unstack forest).drop (k + 1)

theorem stopsAt_of_fault {k : Nat} {r : Outcome α σ ε} {e : ε}
    (hr : (repliesTo f Outcome.state state forest.numbered)[k]? = some r) (he : r.fault = some e)
    (hfirst : ∀ q ∈ (repliesTo f Outcome.state state forest.numbered).take k, q.fault = none) :
    StopsAt f state forest k r e := by
  have hnumbered := numbered_eq forest
  have hr' := hnumbered ▸ hr
  have hfirst' := hnumbered ▸ hfirst
  have hwalk := labels_tryVisitFrom f forest 0 state
  have hrecord := labels_tryVisitFrom (tryRecorded f) forest 0 (state, [])
  rw [callUntil_tryRecorded_of_fault [] hr' he hfirst', hwalk] at hrecord
  obtain ⟨hrecordLabels, hrecordRest⟩ := Prod.mk.inj hrecord
  rw [callUntil_eq_of_fault hr' he hfirst', ← hnumbered] at hwalk
  obtain ⟨hlabels, hrest⟩ := Prod.mk.inj hwalk
  -- There are replies up to the one of number `k`, so the labels are cut right behind it.
  have hlength : (((repliesTo f Outcome.state state forest.numbered).take (k + 1)).map
      Outcome.label).length = k + 1 := by
    obtain ⟨hlt, -⟩ := List.getElem?_eq_some_iff.1 hr
    rw [List.length_map, List.length_take]
    omega
  refine ⟨?_, ?_, shape_tryVisit f state forest, ?_, ?_⟩
  · exact (congrArg (fun p => (p.state, p.fault)) hrest).symm
  · refine Prod.ext (eq_of_shape_of_labels _ _ ?_ hrecordLabels.symm) ?_
    · rw [shape_tryVisit, shape_tryVisit]
    · rw [hnumbered]
      exact (congrArg (fun p => (p.state, p.fault)) hrecordRest).symm
  · exact hlabels ▸ List.take_left' hlength
  · rw [unstack_eq_flatten, unstack_eq_flatten]
    refine drop_flatten_of_shape _ _ _ (shape_tryVisit f state forest) ?_
    refine (congrArg (List.drop (k + 1)) hlabels.symm).trans ?_
    rw [List.drop_left' hlength, labels, List.map_drop]

end TryVisit

/-- A walk calls every node once, with the number under which it comes off the stack and in that order;
    afterwards the nodes come off the stack with the labels that the calls gave.  A walk that may fail
    does the same if no call fails, and otherwise ends with the first call that does. -/
theorem walks_follow_numbers (forest : Forest α) (state : σ) :
    (∀ f : Nat → Tree α → σ → α × σ,
      visit (recorded f) (state, []) forest =
        ((visit f state forest).1, (visit f state forest).2, forest.numbered) ∧
      (unstack (visit f state forest).1).map Tree.label =
        (repliesTo f Prod.snd state forest.numbered).map Prod.fst ∧
      shape (visit f state forest).1 = shape forest ∧
      (visit f state forest).2 =
        lastState Prod.snd state (repliesTo f Prod.snd state forest.numbered)) ∧
    ∀ f : Nat → Tree α → σ → Outcome α σ ε,
      ((∀ r ∈ repliesTo f Outcome.state state forest.numbered, r.fault = none) →
        tryVisit f state forest =
          ((visit (heedless f) state forest).1, (visit (heedless f) state forest).2, none)) ∧
      ∀ k r e, (repliesTo f Outcome.state state forest.numbered)[k]? = some r → r.fault = some e →
        (∀ q ∈ (repliesTo f Outcome.state state forest.numbered).take k, q.fault = none) →
        StopsAt f state forest k r e := by
  refine ⟨fun f => ?_, fun f => ⟨tryVisit_eq_visit, fun k r e => stopsAt_of_fault⟩⟩
  obtain ⟨hlabels, hstate⟩ := visit_eq_replies f state forest
  rw [unstack_eq_flatten]
  exact ⟨visit_recorded f state forest, hlabels, shape_visit f state forest, hstate⟩

/-- Marks that stop at the second grandchild: what comes in front has its mark, and the rest has none. -/
theorem walks_follow_numbers_marks :
    let forest : Forest String :=
      [.node "A" [.node "a" [.leaf "a1", .leaf "a2"], .leaf "b"], .node "B" [.leaf "c"]]
    let f : Nat → Tree String → Nat → Outcome String Nat Nat := fun i n count =>
      ⟨n.label ++ "!", count + 1, if n.label = "a2" then some i else none⟩
    (repliesTo f Outcome.state 0 forest.numbered)[3]? = some ⟨"a2!", 4, some 3⟩ ∧
      (∀ q ∈ (repliesTo f Outcome.state 0 forest.numbered).take 3, q.fault = none) ∧
      StopsAt f 0 forest 3 ⟨"a2!", 4, some 3⟩ 3 := by
  intro forest f
  have hr : (repliesTo f Outcome.state 0 forest.numbered)[3]? = some ⟨"a2!", 4, some 3⟩ := by
    rw [numbered_eq]
    rfl
  have hfirst : ∀ q ∈ (repliesTo f Outcome.state 0 forest.numbered).take 3, q.fault = none := by
    rw [numbered_eq]
    decide
  exact ⟨hr, hfirst, (walks_follow_numbers forest 0).2 f |>.2 3 _ _ hr rfl hfirst⟩

end Forest

end SchemaForest
