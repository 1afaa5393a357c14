import SchemaForest.Proofs.Attachment

/-!
# Comments and the trees around

Where a comment goes is decided among all nodes of a forest.  But if nothing outside of a tree starts
where a node of the tree does, the trees around matter only by the set of their starts, and neither
their order nor how many there are makes a difference:

1. **One comment** (`FirstBehind.transfer`): the first start behind a comment is the least one, and
   among equal starts, all of which are in the tree, the first in the tree.
2. **All comments** (`textFor?_filterMap_congr`): so the text that the comments leave on a node of the
   tree is the same.
3. **All nodes** (`Forest.labels_getElem?`): a relabelling by flat indices relabels a tree by the
   indices in the tree, counted from behind the trees in front of it.
-/

namespace SchemaForest

/-- Where the nodes of a forest start, in flat order. -/
def Forest.starts (forest : Forest Label) : List Nat :=
  (Forest.labels forest).map fun a => a.range.start

namespace Forest

theorem length_starts (forest : Forest Label) :
    (starts forest).length = (labels forest).length := List.length_map _

theorem starts_append (xs ys : Forest Label) : starts (xs ++ ys) = starts xs ++ starts ys := by
  rw [starts, labels_append, List.map_append]
  rfl

theorem starts_cons (n : Node) (rest : Forest Label) :
    starts (n :: rest) = starts [n] ++ starts rest := starts_append [n] rest

theorem starts_singleton (n : Node) :
    starts [n] = n.label.range.start :: starts n.children := by
  rw [starts, labels_singleton, List.map_cons]
  rfl

/-- A relabelling that keeps the ranges keeps the starts. -/
theorem starts_mapLabels {f : Label → Label} (hrange : ∀ a, (f a).range = a.range)
    (forest : Forest Label) : starts (mapLabels f forest) = starts forest := by
  rw [starts, labels_mapLabels, List.map_map]
  exact List.map_congr_left fun a _ => congrArg Span.start (hrange a)

end Forest

namespace Comments

/-! ## One comment -/

/-- The start at flat index `i` is behind `stop`; whatever else is starts later, or at the same place
    with a higher index. -/
def FirstBehind (starts : List Nat) (stop i : Nat) : Prop :=
  ∃ s, starts[i]? = some s ∧ stop < s ∧
    ∀ j s', starts[j]? = some s' → stop < s' → s < s' ∨ s = s' ∧ i ≤ j

/-- Which node a comment is for can be seen from the starts. -/
theorem isTarget_iff {forest : Forest Label} {stop i : Nat} :
    IsTarget (Forest.flatten forest) stop i ↔ FirstBehind (Forest.starts forest) stop i := by
  have hat : ∀ (j s : Nat), (Forest.starts forest)[j]? = some s ↔
      ∃ n, (Forest.flatten forest)[j]? = some n ∧ n.label.range.start = s := by
    intro j s
    rw [Forest.starts, Forest.labels, List.map_map, List.getElem?_map, Option.map_eq_some_iff]
    rfl
  rw [IsTarget, FirstBehind]
  constructor
  · rintro ⟨n, hn, hstop, hmin⟩
    refine ⟨_, (hat i _).2 ⟨n, hn, rfl⟩, hstop, fun j s hs => ?_⟩
    obtain ⟨m, hm, rfl⟩ := (hat j s).1 hs
    exact hmin j m hm
  · rintro ⟨s, hs, hstop, hmin⟩
    obtain ⟨n, hn, rfl⟩ := (hat i s).1 hs
    exact ⟨n, hn, hstop, fun j m hm => hmin j _ ((hat j _).2 ⟨m, hm, rfl⟩)⟩

/-- A start is the first behind `stop` if it is the least one there and none in front of it is equal. -/
theorem firstBehind_append_iff {front back : List Nat} {s stop : Nat} :
    FirstBehind (front ++ s :: back) stop front.length ↔
      stop < s ∧ s ∉ front ∧ ∀ s' ∈ front ++ s :: back, stop < s' → s ≤ s' := by
  have hat : (front ++ s :: back)[front.length]? = some s := by
    rw [List.getElem?_append_right (Nat.le_refl _), Nat.sub_self]
    rfl
  constructor
  · rintro ⟨s₀, hs₀, hstop, hmin⟩
    obtain rfl : s = s₀ := Option.some.inj (hat.symm.trans hs₀)
    refine ⟨hstop, fun hmem => ?_, fun s' hs' hstop' => ?_⟩
    · obtain ⟨j, hj, hget⟩ := List.getElem_of_mem hmem
      have hget : (front ++ s :: back)[j]? = some s := by
        rw [List.getElem?_append_left hj, List.getElem?_eq_getElem hj, hget]
      rcases hmin j s hget hstop with hlt | ⟨-, hle⟩
      · exact absurd hlt (Nat.lt_irrefl s)
      · exact absurd hj (Nat.not_lt_of_le hle)
    · obtain ⟨j, hj⟩ := List.getElem?_of_mem hs'
      rcases hmin j s' hj hstop' with hlt | ⟨rfl, -⟩
      · exact Nat.le_of_lt hlt
      · exact Nat.le_refl s
  · rintro ⟨hstop, hnew, hmin⟩
    refine ⟨s, hat, hstop, fun j s' hs' hstop' => ?_⟩
    rcases Nat.lt_or_eq_of_le (hmin s' (List.mem_of_getElem? hs') hstop') with hlt | rfl
    · exact Or.inl hlt
    · refine Or.inr ⟨rfl, Nat.le_of_not_lt fun hj => hnew ?_⟩
      rw [List.getElem?_append_left hj] at hs'
      exact List.mem_of_getElem? hs'

/-- For whether a start is the first behind `stop` it only matters which starts are in front of it,
    and which there are at all. -/
theorem firstBehind_congr {front back front' back' : List Nat} {s stop : Nat}
    (hfront : ∀ x, x ∈ front' ↔ x ∈ front) (hback : ∀ x, x ∈ s :: back' ↔ x ∈ s :: back) :
    FirstBehind (front' ++ s :: back') stop front'.length ↔
      FirstBehind (front ++ s :: back) stop front.length := by
  rw [firstBehind_append_iff, firstBehind_append_iff, hfront]
  simp only [List.mem_append, hfront, hback]

/-- A start in the middle that is the first behind `stop` stays so when the starts around change, if
    none comes in that was not there, and none around is one of the middle. -/
theorem FirstBehind.transfer {front middle back front' back' : List Nat} {stop j : Nat}
    (hsub : ∀ s ∈ front' ++ middle ++ back', s ∈ front ++ middle ++ back)
    (hapart : ∀ s ∈ middle, s ∉ front' ∧ s ∉ back') (hj : j < middle.length)
    (h : FirstBehind (front ++ middle ++ back) stop (front.length + j)) :
    FirstBehind (front' ++ middle ++ back') stop (front'.length + j) := by
  have hat : ∀ (xs ys : List Nat) {k : Nat}, k < middle.length →
      (xs ++ middle ++ ys)[xs.length + k]? = middle[k]? := by
    intro xs ys k hk
    rw [List.append_assoc, List.getElem?_append_right (Nat.le_add_right _ _),
      Nat.add_sub_cancel_left, List.getElem?_append_left hk]
  obtain ⟨s, hs, hstop, hmin⟩ := h
  rw [hat _ _ hj] at hs
  have hmem : s ∈ middle := List.mem_of_getElem? hs
  refine ⟨s, (hat _ _ hj).trans hs, hstop, fun p s' hs' hstop' => ?_⟩
  obtain ⟨q, hq⟩ := List.getElem?_of_mem (hsub s' (List.mem_of_getElem? hs'))
  rcases hmin q s' hq hstop' with hlt | ⟨rfl, -⟩
  · exact Or.inl hlt
  · -- An equal start is in the middle, and there it does not come before.
    refine Or.inr ⟨rfl, ?_⟩
    rcases Nat.lt_or_ge p front'.length with hlt | hge
    · rw [List.append_assoc, List.getElem?_append_left hlt] at hs'
      exact absurd (List.mem_of_getElem? hs') (hapart s hmem).1
    · obtain ⟨k, rfl⟩ := Nat.exists_eq_add_of_le hge
      rcases Nat.lt_or_ge k middle.length with hlt | hge
      · rw [hat _ _ hlt] at hs'
        have hk := hmin (front.length + k) s ((hat _ _ hlt).trans hs') hstop
        omega
      · rw [List.append_assoc, List.getElem?_append_right (Nat.le_add_right _ _),
          Nat.add_sub_cancel_left, List.getElem?_append_right hge] at hs'
        exact absurd (List.mem_of_getElem? hs') (hapart s hmem).2

/-! ## All comments -/

/-- Nodes for which the same comments are meant get the same text. -/
theorem textFor?_filterMap_congr {nodes nodes' : List Node} {i i' : Nat}
    (h : ∀ stop, IsTarget nodes stop i ↔ IsTarget nodes' stop i') (comments : List Comment) :
    textFor? (comments.filterMap (attachment? nodes)) i =
      textFor? (comments.filterMap (attachment? nodes')) i' := by
  have hsame : ∀ (c : Comment) (text : String), associate nodes [c] = .ok [⟨i, text⟩] ↔
      associate nodes' [c] = .ok [⟨i', text⟩] := by
    intro c text
    rw [associate_singleton_iff, associate_singleton_iff, attachment?_eq_some_iff,
      attachment?_eq_some_iff, h]
  refine Option.ext fun text => ?_
  rw [textFor?_filterMap_eq_some_iff, textFor?_filterMap_eq_some_iff]
  simp only [LastFor, hsame, ne_eq]

end Comments

/-! ## All nodes -/

/-- A list is what stands in front of a place, what stands there, and what stands behind. -/
theorem eq_take_append_cons_drop {α : Type} {l : List α} {k : Nat} {x : α} (h : l[k]? = some x) :
    l = l.take k ++ x :: l.drop (k + 1) := by
  obtain ⟨hlt, rfl⟩ := List.getElem?_eq_some_iff.1 h
  rw [← List.drop_eq_getElem_cons hlt, List.take_append_drop]

/-- In forests of one shape, trees at one place have one shape. -/
theorem Forest.shape_getElem? {α β : Type} {xs : Forest α} {ys : Forest β}
    (hshape : Forest.shape ys = Forest.shape xs) {k : Nat} {x : Tree α} {y : Tree β}
    (hx : xs[k]? = some x) (hy : ys[k]? = some y) : Forest.shape [y] = Forest.shape [x] := by
  have hat := congrArg (fun forest => forest[k]?) hshape
  rw [Forest.shape, Forest.shape, Forest.mapLabels_eq, Forest.mapLabels_eq] at hat
  simp only [List.getElem?_map, hx, hy, Option.map_some, Option.some.injEq] at hat
  rw [Forest.shape, Forest.shape, Forest.mapLabels, Forest.mapLabels, hat]
  rfl

/-- Where labels were given out along the flat list, a tree has those of its part of the list. -/
theorem Forest.labels_getElem? {α β : Type} {xs : Forest α} {ys : Forest β} {g : α × Nat → β}
    (hshape : Forest.shape ys = Forest.shape xs)
    (hlabels : Forest.labels ys = (Forest.labels xs).zipIdx.map g) {k : Nat} {x : Tree α} {y : Tree β}
    (hx : xs[k]? = some x) (hy : ys[k]? = some y) :
    Forest.labels [y] =
      ((Forest.labels [x]).zipIdx (Forest.labels (xs.take k)).length).map g := by
  have hfront : (Forest.labels (ys.take k)).length = (Forest.labels (xs.take k)).length := by
    simpa [Forest.labels] using Forest.length_flatten_take_of_shape hshape k
  have htree : (Forest.labels [y]).length = (Forest.labels [x]).length :=
    Forest.length_labels_of_shape (Forest.shape_getElem? hshape hx hy)
  have hsplit : ∀ {γ : Type} {zs : Forest γ} {z : Tree γ}, zs[k]? = some z →
      Forest.labels zs = Forest.labels (zs.take k) ++ (Forest.labels [z] ++
        Forest.labels (zs.drop (k + 1))) := by
    intro γ zs z hz
    rw [← Forest.labels_cons, ← Forest.labels_append, ← eq_take_append_cons_drop hz]
  rw [hsplit hx, hsplit hy, List.zipIdx_append, List.zipIdx_append, List.map_append,
    List.map_append, Nat.zero_add] at hlabels
  obtain ⟨-, hrest⟩ := List.append_inj hlabels (by rw [List.length_map, List.length_zipIdx, hfront])
  obtain ⟨hlabels, -⟩ := List.append_inj hrest (by rw [List.length_map, List.length_zipIdx, htree])
  exact hlabels

/-- Two trees that got their labels along the flat lists of two forests: where one was made of the
    other by a relabelling, and that commutes with giving out the labels, it still is. -/
theorem Forest.eq_mapLabels_of_labels {α β : Type} {xs xs' : Forest α} {ys ys' : Forest β}
    {f : α → α} {f' : β → β} {g g' : α × Nat → β} (hshape : Forest.shape ys = Forest.shape xs)
    (hlabels : Forest.labels ys = (Forest.labels xs).zipIdx.map g)
    (hshape' : Forest.shape ys' = Forest.shape xs')
    (hlabels' : Forest.labels ys' = (Forest.labels xs').zipIdx.map g') {k k' : Nat} {x : Tree α}
    {y y' : Tree β} (hx : xs[k]? = some x) (hy : ys[k]? = some y)
    (hx' : xs'[k']? = some (x.mapLabels f)) (hy' : ys'[k']? = some y')
    (hcommutes : ∀ j < (Forest.labels [x]).length, ∀ a,
      g' (f a, (Forest.labels (xs'.take k')).length + j) =
        f' (g (a, (Forest.labels (xs.take k)).length + j))) : y' = y.mapLabels f' := by
  refine List.singleton_inj.1 (Forest.eq_of_shape_of_labels [y'] [y.mapLabels f'] ?_ ?_)
  · calc Forest.shape [y'] = Forest.shape [x.mapLabels f] := Forest.shape_getElem? hshape' hx' hy'
      _ = Forest.shape [x] := Forest.shape_mapLabels f [x]
      _ = Forest.shape [y] := (Forest.shape_getElem? hshape hx hy).symm
      _ = Forest.shape [y.mapLabels f'] := (Forest.shape_mapLabels f' [y]).symm
  · have hxlabels : Forest.labels [x.mapLabels f] = (Forest.labels [x]).map f :=
      Forest.labels_mapLabels f [x]
    have hylabels : Forest.labels [y.mapLabels f'] = (Forest.labels [y]).map f' :=
      Forest.labels_mapLabels f' [y]
    rw [Forest.labels_getElem? hshape' hlabels' hx' hy', hylabels,
      Forest.labels_getElem? hshape hlabels hx hy, hxlabels]
    refine List.ext_getElem? fun j => ?_
    simp only [List.getElem?_map, List.getElem?_zipIdx, Option.map_map]
    cases hj : (Forest.labels [x])[j]? with
    | none => rfl
    | some a => exact congrArg some (hcommutes j (List.getElem?_eq_some_iff.1 hj).1 a)

end SchemaForest
