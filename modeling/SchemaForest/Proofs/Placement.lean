import SchemaForest.Proofs.Fallible
import SchemaForest.Proofs.Search
import SchemaForest.Proofs.Traversal
import SchemaForest.Schema.Comments

/-!
# The node that a comment documents

The sorted search finds what a plain reading of the rule asks for: of the nodes that start behind
the comment the least by start and flat index (`nodeFor?_eq_some_iff`), and nothing if there is no
such node (`nodeFor?_eq_none_iff`).  On a list of comments this is done comment by comment
(`associate_eq_ok_iff`, `error?_associate`).

Attachments change the comment of a label and nothing else, and decoding its annotations and
nothing else (`labels_apply`, `labels_decode`).
-/

namespace SchemaForest.Comments

open Fallible

/-- The flat index of the node that a comment ending at `stop` documents. -/
def nodeFor? (nodes : List Node) (stop : Nat) : Option Nat :=
  target? ((starts nodes).mergeSort startLe).toArray stop

/-- The node at flat index `i` starts behind `stop`; whatever else does starts later, or at the same
    place with a higher index. -/
def IsTarget (nodes : List Node) (stop i : Nat) : Prop :=
  ∃ n, nodes[i]? = some n ∧ stop < n.label.range.start ∧
    ∀ j m, nodes[j]? = some m → stop < m.label.range.start →
      n.label.range.start < m.label.range.start ∨
        n.label.range.start = m.label.range.start ∧ i ≤ j

/-! ## The sorted starts -/

theorem starts_eq (nodes : List Node) :
    starts nodes = (nodes.map fun n => n.label.range.start).zipIdx := by
  rw [starts, List.zipIdx_map]
  rfl

/-- Where nodes are placed is all that counts for comments. -/
theorem associate_congr {xs ys : List Node}
    (h : (xs.map fun n => n.label.range.start) = ys.map fun n => n.label.range.start)
    (comments : List Comment) : associate xs comments = associate ys comments := by
  rw [associate, associate, starts_eq, starts_eq, h]

theorem mem_starts {nodes : List Node} {s i : Nat} :
    (s, i) ∈ starts nodes ↔ ∃ n, nodes[i]? = some n ∧ n.label.range.start = s := by
  rw [starts, List.mem_map]
  constructor
  · rintro ⟨⟨n, j⟩, hmem, heq⟩
    obtain ⟨rfl, rfl⟩ := Prod.mk.inj heq
    exact ⟨n, List.mem_zipIdx_iff_getElem?.1 hmem, rfl⟩
  · rintro ⟨n, hn, rfl⟩
    exact ⟨(n, i), List.mem_zipIdx_iff_getElem?.2 hn, rfl⟩

theorem startLe_iff {a b : Nat × Nat} :
    startLe a b = true ↔ a.1 < b.1 ∨ a.1 = b.1 ∧ a.2 ≤ b.2 := by
  simp [startLe]

theorem pairwise_sorted (nodes : List Node) :
    ((starts nodes).mergeSort startLe).Pairwise fun a b => startLe a b = true := by
  refine List.pairwise_mergeSort (fun a b c hab hbc => ?_) (fun a b => ?_) _
  · rw [startLe_iff] at *
    omega
  · rw [Bool.or_eq_true, startLe_iff, startLe_iff]
    omega

/-- Sorted starts fall into those up to `stop` and those behind it. -/
theorem exists_split {sorted : List (Nat × Nat)}
    (h : sorted.Pairwise fun a b => startLe a b = true) (stop : Nat) :
    ∃ xs ys, sorted = xs ++ ys ∧ (∀ x ∈ xs, x.1 ≤ stop) ∧ ∀ y ∈ ys, stop < y.1 := by
  induction sorted with
  | nil => exact ⟨[], [], rfl, by simp, by simp⟩
  | cons a rest ih =>
    obtain ⟨hle, hrest⟩ := List.pairwise_cons.1 h
    rcases Nat.lt_or_ge stop a.1 with ha | ha
    · refine ⟨[], a :: rest, rfl, by simp, fun y hy => ?_⟩
      rcases List.mem_cons.1 hy with rfl | hy
      · exact ha
      · have := startLe_iff.1 (hle y hy)
        omega
    · obtain ⟨xs, ys, rfl, hxs, hys⟩ := ih hrest
      refine ⟨a :: xs, ys, rfl, fun x hx => ?_, hys⟩
      rcases List.mem_cons.1 hx with rfl | hx
      · exact ha
      · exact hxs x hx

/-- The search gives the first of the sorted starts that lie behind `stop`. -/
theorem target?_append {xs ys : List (Nat × Nat)} {stop : Nat} (hxs : ∀ x ∈ xs, x.1 ≤ stop)
    (hys : ∀ y ∈ ys, stop < y.1) :
    target? (xs ++ ys).toArray stop = ys[0]?.map Prod.snd := by
  rw [target?, Search.getElem?_frontLength (fun x hx => ?_) (fun y hy => ?_)]
  · simpa using hxs x hx
  · simpa using hys y hy

/-! ## One comment -/

theorem IsTarget.unique {nodes : List Node} {stop i j : Nat} (hi : IsTarget nodes stop i)
    (hj : IsTarget nodes stop j) : i = j := by
  obtain ⟨n, hn, hsn, hmin⟩ := hi
  obtain ⟨m, hm, hsm, hmin'⟩ := hj
  have h₁ := hmin j m hm hsm
  have h₂ := hmin' i n hn hsn
  omega

/-- A node is the target if all others start at `stop` or before, or not before the node; those in
    front of it may not start where it does. -/
theorem IsTarget.of_append {front back : List Node} {n : Node} {stop : Nat}
    (hfront : ∀ m ∈ front, m.label.range.start ≤ stop ∨
      n.label.range.start < m.label.range.start) (hn : stop < n.label.range.start)
    (hback : ∀ m ∈ back, m.label.range.start ≤ stop ∨
      n.label.range.start ≤ m.label.range.start) :
    IsTarget (front ++ n :: back) stop front.length := by
  refine ⟨n, by simp, hn, fun j m hm hstop => ?_⟩
  rcases Nat.lt_trichotomy j front.length with hj | rfl | hj
  · rw [List.getElem?_append_left hj] at hm
    have := hfront m (List.mem_of_getElem? hm)
    omega
  · rw [List.getElem?_append_right (Nat.le_refl _), Nat.sub_self] at hm
    cases hm
    exact Or.inr ⟨rfl, Nat.le_refl _⟩
  · rw [List.getElem?_append_right (Nat.le_of_lt hj)] at hm
    have hm : m ∈ back := by
      obtain ⟨i, rfl⟩ := Nat.exists_eq_add_of_lt hj
      rw [show front.length + i + 1 - front.length = i + 1 by omega] at hm
      exact List.mem_of_getElem? hm
    have := hback m hm
    omega

/-- The search gives the least start behind `stop`, or there is none. -/
theorem nodeFor?_cases (nodes : List Node) (stop : Nat) :
    (nodeFor? nodes stop = none ∧ ∀ n ∈ nodes, n.label.range.start ≤ stop) ∨
      ∃ i, nodeFor? nodes stop = some i ∧ IsTarget nodes stop i := by
  have hsorted := pairwise_sorted nodes
  have hmem : ∀ s i, (s, i) ∈ (starts nodes).mergeSort startLe ↔
      ∃ n, nodes[i]? = some n ∧ n.label.range.start = s :=
    fun s i => List.mem_mergeSort.trans mem_starts
  obtain ⟨xs, ys, hsplit, hxs, hys⟩ := exists_split hsorted stop
  rw [nodeFor?, hsplit, target?_append hxs hys]
  rw [hsplit] at hsorted hmem
  cases ys with
  | nil =>
    -- All starts are in front.
    refine Or.inl ⟨rfl, fun n hn => ?_⟩
    obtain ⟨i, hi⟩ := List.getElem?_of_mem hn
    have hin := (hmem _ i).2 ⟨n, hi, rfl⟩
    rw [List.append_nil] at hin
    exact hxs _ hin
  | cons y ys =>
    obtain ⟨s, i⟩ := y
    obtain ⟨n, hn, rfl⟩ := (hmem s i).1 (by simp)
    -- The first start behind `stop` comes before all others there, by the order they are sorted in.
    refine Or.inr ⟨i, rfl, n, hn, hys _ List.mem_cons_self, fun j m hm hstop => ?_⟩
    rcases List.mem_append.1 ((hmem _ j).2 ⟨m, hm, rfl⟩) with hj | hj
    · have := hxs _ hj
      omega
    · rcases List.mem_cons.1 hj with hj | hj
      · obtain ⟨h₁, h₂⟩ := Prod.mk.inj hj
        omega
      · rw [List.pairwise_append] at hsorted
        exact startLe_iff.1 ((List.pairwise_cons.1 hsorted.2.1).1 _ hj)

theorem nodeFor?_eq_none_iff {nodes : List Node} {stop : Nat} :
    nodeFor? nodes stop = none ↔ ∀ n ∈ nodes, n.label.range.start ≤ stop := by
  rcases nodeFor?_cases nodes stop with ⟨hnone, hall⟩ | ⟨i, hsome, n, hn, hstart, -⟩
  · exact ⟨fun _ => hall, fun _ => hnone⟩
  · refine ⟨fun h => (nomatch hsome.symm.trans h), fun h => ?_⟩
    have := h n (List.mem_of_getElem? hn)
    omega

/-- The search finds the least node by start and flat index that starts behind the comment. -/
theorem nodeFor?_eq_some_iff {nodes : List Node} {stop i : Nat} :
    nodeFor? nodes stop = some i ↔ IsTarget nodes stop i := by
  rcases nodeFor?_cases nodes stop with ⟨hnone, hall⟩ | ⟨j, hsome, hj⟩
  · refine ⟨fun h => (nomatch hnone.symm.trans h), fun ⟨n, hn, hstart, _⟩ => ?_⟩
    have := hall n (List.mem_of_getElem? hn)
    omega
  · rw [hsome]
    exact ⟨fun h => Option.some.inj h ▸ hj, fun h => congrArg some (hj.unique h)⟩

/-- The target is in the middle of a list if nothing in front starts behind `stop`, and nothing
    behind starts between `stop` and the start of some node in the middle. -/
theorem exists_isTarget_of_mem {front middle back : List Node} {x : Node} {stop : Nat}
    (hfront : ∀ m ∈ front, m.label.range.start ≤ stop) (hx : x ∈ middle)
    (hstop : stop < x.label.range.start)
    (hback : ∀ m ∈ back, m.label.range.start ≤ stop ∨
      x.label.range.start ≤ m.label.range.start) :
    ∃ offset y, middle[offset]? = some y ∧ y.label.range.start ≤ x.label.range.start ∧
      IsTarget (front ++ middle ++ back) stop (front.length + offset) := by
  obtain ⟨j, hj⟩ := List.getElem?_of_mem hx
  obtain ⟨hlt, -⟩ := List.getElem?_eq_some_iff.1 hj
  have hxat : (front ++ middle ++ back)[front.length + j]? = some x := by
    rw [List.append_assoc, List.getElem?_append_right (Nat.le_add_right _ _),
      Nat.add_sub_cancel_left, List.getElem?_append_left hlt, hj]
  rcases nodeFor?_cases (front ++ middle ++ back) stop with ⟨-, hall⟩ | ⟨i, -, hi⟩
  · have := hall x (List.mem_of_getElem? hxat)
    omega
  obtain ⟨y, hy, hystop, hmin⟩ := hi
  have hyx := hmin _ x hxat hstop
  -- The target is not in front, where everything starts too early.
  rcases Nat.lt_or_ge i front.length with hlt | hge
  · rw [List.append_assoc, List.getElem?_append_left hlt] at hy
    have := hfront y (List.mem_of_getElem? hy)
    omega
  obtain ⟨offset, rfl⟩ := Nat.exists_eq_add_of_le hge
  have hyat := hy
  rw [List.append_assoc, List.getElem?_append_right hge, Nat.add_sub_cancel_left] at hyat
  rcases Nat.lt_or_ge offset middle.length with hlt | hge
  · rw [List.getElem?_append_left hlt] at hyat
    exact ⟨offset, y, hyat, by omega, y, hy, hystop, hmin⟩
  · -- Nor is it behind, where everything starts too early, or not before the node.
    rw [List.getElem?_append_right hge] at hyat
    have := hback y (List.mem_of_getElem? hyat)
    omega

/-! ## A list of comments -/

/-- The attachment of a comment that has a text and a node. -/
def attachment? (nodes : List Node) (c : Comment) : Option Attachment :=
  c.body.bind fun text => (nodeFor? nodes c.span.stop).map fun i => ⟨i, text⟩

theorem attachment?_eq_some_iff {nodes : List Node} {c : Comment} {a : Attachment} :
    attachment? nodes c = some a ↔ c.body = some a.text ∧ IsTarget nodes c.span.stop a.node := by
  rw [← nodeFor?_eq_some_iff, attachment?, Option.bind_eq_some_iff]
  constructor
  · rintro ⟨text, hbody, h⟩
    obtain ⟨i, hi, rfl⟩ := Option.map_eq_some_iff.1 h
    exact ⟨hbody, hi⟩
  · rintro ⟨hbody, hi⟩
    exact ⟨a.text, hbody, Option.map_eq_some_iff.2 ⟨a.node, hi, rfl⟩⟩

/-- The error of a comment that has a text and no node. -/
def orphan? (nodes : List Node) (c : Comment) : Option ExtractError :=
  c.body.bind fun text =>
    match nodeFor? nodes c.span.stop with
    | some _ => none
    | none => some (.orphan text c.span)

/-- A comment is refused unless it has no text or something starts behind it. -/
theorem orphan?_eq_none_iff {nodes : List Node} {c : Comment} :
    orphan? nodes c = none ↔
      (c.body ≠ none → ∃ n ∈ nodes, c.span.stop < n.label.range.start) := by
  have hbehind : (∃ n ∈ nodes, c.span.stop < n.label.range.start) ↔
      nodeFor? nodes c.span.stop ≠ none := by
    rw [ne_eq, nodeFor?_eq_none_iff]
    simp only [not_forall, Nat.not_le, exists_prop]
  rw [hbehind, orphan?]
  cases c.body with
  | none => simp
  | some text => cases nodeFor? nodes c.span.stop <;> simp

/-- A comment that is not refused has an attachment if it has a text. -/
theorem isSome_attachment? {nodes : List Node} {c : Comment} (h : orphan? nodes c = none) :
    (attachment? nodes c).isSome = c.body.isSome := by
  rw [orphan?] at h
  rw [attachment?]
  cases hbody : c.body with
  | none => rfl
  | some text =>
    rw [hbody, Option.bind_some] at h
    cases hnode : nodeFor? nodes c.span.stop with
    | none =>
      rw [hnode] at h
      cases h
    | some i => rfl

/-- A comment that has an attachment is not refused. -/
theorem orphan?_eq_none_of_attachment? {nodes : List Node} {c : Comment} {a : Attachment}
    (h : attachment? nodes c = some a) : orphan? nodes c = none := by
  obtain ⟨hbody, htarget⟩ := attachment?_eq_some_iff.1 h
  rw [orphan?, hbody, Option.bind_some, nodeFor?_eq_some_iff.2 htarget]

theorem associate_cons (nodes : List Node) (c : Comment) (rest : List Comment) :
    associate nodes (c :: rest) =
      match orphan? nodes c with
      | some e => .error e
      | none => (associate nodes rest).map ((attachment? nodes c).toList ++ ·) := by
  rw [associate, associateSorted, orphan?, attachment?, nodeFor?, associate]
  cases c.body with
  | none => cases associateSorted _ rest <;> rfl
  | some text =>
    dsimp only [Option.bind]
    cases target? _ c.span.stop <;> rfl

/-- Comments are refused with the first of them that has no node. -/
theorem error?_associate (nodes : List Node) (comments : List Comment) :
    error? (associate nodes comments) = comments.findSome? (orphan? nodes) := by
  induction comments with
  | nil => rfl
  | cons c rest ih =>
    rw [associate_cons, List.findSome?_cons]
    cases orphan? nodes c with
    | some e => rfl
    | none => rw [← ih]; exact error?_map _ _

theorem associate_eq_ok_iff {nodes : List Node} {comments : List Comment}
    {attachments : List Attachment} :
    associate nodes comments = .ok attachments ↔
      (∀ c ∈ comments, orphan? nodes c = none) ∧
        attachments = comments.filterMap (attachment? nodes) := by
  induction comments generalizing attachments with
  | nil => exact ⟨fun h => ⟨fun c hc => (nomatch hc), (Except.ok.inj h).symm⟩, fun h => h.2 ▸ rfl⟩
  | cons c rest ih =>
    rw [associate_cons, List.forall_mem_cons]
    cases horphan : orphan? nodes c with
    | some e => simp
    | none =>
      dsimp only
      rw [map_eq_ok_iff, List.filterMap_cons]
      constructor
      · rintro ⟨as, has, rfl⟩
        obtain ⟨hrest, rfl⟩ := ih.1 has
        refine ⟨⟨rfl, hrest⟩, ?_⟩
        cases attachment? nodes c <;> rfl
      · rintro ⟨⟨-, hrest⟩, rfl⟩
        refine ⟨_, ih.2 ⟨hrest, rfl⟩, ?_⟩
        cases attachment? nodes c <;> rfl

/-- One comment with a text is attached to the node that the search finds. -/
theorem associate_singleton {nodes : List Node} {c : Comment} {text : String} {i : Nat}
    (hbody : c.body = some text) :
    associate nodes [c] = .ok [⟨i, text⟩] ↔ IsTarget nodes c.span.stop i := by
  rw [← nodeFor?_eq_some_iff, associate_cons, orphan?, attachment?, hbody]
  cases nodeFor? nodes c.span.stop with
  | none => exact ⟨fun h => (nomatch h), fun h => (nomatch h)⟩
  | some j =>
    show Except.ok [Attachment.mk j text] = Except.ok [Attachment.mk i text] ↔ some j = some i
    simp

/-! ## What attachments and decoding change -/

/-- The text that attachments leave on a node: that of the last one. -/
def textFor? (attachments : List Attachment) (node : Nat) : Option String :=
  attachments.foldl (fun found a => if a.node = node then some a.text else found) none

theorem textFor?_append (xs ys : List Attachment) (i : Nat) :
    textFor? (xs ++ ys) i = (textFor? ys i).or (textFor? xs i) := by
  -- The text found so far counts only if no attachment further down has one.
  have hfold : ∀ (found : Option String) (as : List Attachment),
      as.foldl (fun found a => if a.node = i then some a.text else found) found =
        (textFor? as i).or found := by
    intro found as
    induction as generalizing found with
    | nil => rfl
    | cons a as ih =>
      rw [textFor?, List.foldl_cons, List.foldl_cons, ih, ih]
      by_cases h : a.node = i
      · rw [if_pos h, if_pos h, Option.or_assoc, Option.some_or]
      · rw [if_neg h, if_neg h, Option.or_none]
  rw [textFor?, List.foldl_append, hfold]
  rfl

theorem textFor?_cons (a : Attachment) (rest : List Attachment) (i : Nat) :
    textFor? (a :: rest) i = (textFor? rest i).or (if a.node = i then some a.text else none) :=
  textFor?_append [a] rest i

theorem textFor?_eq_none_iff {attachments : List Attachment} {i : Nat} :
    textFor? attachments i = none ↔ ∀ a ∈ attachments, a.node ≠ i := by
  induction attachments with
  | nil => exact ⟨fun _ a ha => absurd ha List.not_mem_nil, fun _ => rfl⟩
  | cons a rest ih =>
    have hhere : (if a.node = i then some a.text else none) = none ↔ a.node ≠ i := by
      by_cases h : a.node = i
      · rw [if_pos h]
        exact ⟨fun hnone => (nomatch hnone), fun hne => absurd h hne⟩
      · rw [if_neg h]
        exact ⟨fun _ => h, fun _ => rfl⟩
    rw [textFor?_cons, Option.or_eq_none_iff, ih, hhere, List.forall_mem_cons, and_comm]

/-- The last attachment of a node decides its text. -/
theorem textFor?_last {xs ys : List Attachment} {a : Attachment}
    (h : ∀ b ∈ ys, b.node ≠ a.node) : textFor? (xs ++ a :: ys) a.node = some a.text := by
  rw [textFor?_append, textFor?_cons, textFor?_eq_none_iff.2 h, if_pos rfl]
  rfl

/-- A node gets the text of a comment that is for it, if no comment further down the list is. -/
theorem textFor?_associate {nodes : List Node} {earlier later : List Comment} {c : Comment}
    {text : String} {i : Nat} {attachments : List Attachment}
    (h : associate nodes (earlier ++ c :: later) = .ok attachments) (hbody : c.body = some text)
    (htarget : IsTarget nodes c.span.stop i)
    (hlast : ∀ c' ∈ later, c'.body ≠ none → ¬ IsTarget nodes c'.span.stop i) :
    textFor? attachments i = some text := by
  obtain ⟨-, rfl⟩ := associate_eq_ok_iff.1 h
  have hc : attachment? nodes c = some ⟨i, text⟩ := attachment?_eq_some_iff.2 ⟨hbody, htarget⟩
  rw [List.filterMap_append, List.filterMap_cons, hc]
  refine textFor?_last (a := ⟨i, text⟩) fun b hb heq => ?_
  obtain ⟨c', hc', hb⟩ := List.mem_filterMap.1 hb
  obtain ⟨hbody', htarget'⟩ := attachment?_eq_some_iff.1 hb
  rw [show b.node = i from heq] at htarget'
  refine hlast c' hc' ?_ htarget'
  rw [hbody']
  exact Option.some_ne_none b.text

/-- The label of a node at a flat index, once its attachments are written. -/
def attached (attachments : List Attachment) (i : Nat) (a : Label) : Label :=
  match textFor? attachments i with
  | some text => { a with comment := some text }
  | none => a

/-- A label with the tags of its comment decoded. -/
def decoded (a : Label) : Label :=
  match a.comment with
  | some text => { a with annotations := some (Annotations.ofText text) }
  | none => a

/-- Putting an attachment in changes the slot of its node and no other. -/
theorem Slots.getElem?_put (slots : Slots) (a : Attachment) (i : Nat) :
    (slots.put a)[i]?.join = if a.node = i then some a.text else slots[i]?.join := by
  rw [Slots.put]
  generalize hroom : (if slots.size ≤ a.node then
    slots ++ Array.replicate (a.node + 1 - slots.size) none else slots) = room
  -- Room is made by empty slots, so what can be taken out is what was there before.
  have hsame : room[i]?.join = slots[i]?.join := by
    rw [← hroom]
    split
    · rw [Array.getElem?_append]
      split
      · rfl
      · rename_i hi
        rw [Array.getElem?_replicate, Array.getElem?_eq_none (Nat.le_of_not_lt hi)]
        split <;> rfl
    · rfl
  have hsize : a.node < room.size := by
    rw [← hroom]
    split
    · rw [Array.size_append, Array.size_replicate]
      omega
    · omega
  rw [Array.getElem?_setIfInBounds]
  by_cases h : a.node = i
  · rw [if_pos h, if_pos h, if_pos (h ▸ hsize)]
    rfl
  · rw [if_neg h, if_neg h, hsame]

/-- Taking the text of a node out leaves the slots of all others. -/
theorem Slots.getElem?_take {slots : Slots} {i j : Nat} (h : i ≠ j) :
    (slots.take i).2[j]? = slots[j]? := by
  rw [Slots.take, Array.getElem?_setIfInBounds, if_neg h]

/-- When all attachments have been put in, the slot of a node holds the text of the last one. -/
theorem Slots.getElem?_foldl_put (attachments : List Attachment) (i : Nat) :
    (attachments.foldl Slots.put #[])[i]?.join = textFor? attachments i := by
  have hfold : ∀ slots : Slots, (attachments.foldl Slots.put slots)[i]?.join =
      attachments.foldl (fun found a => if a.node = i then some a.text else found)
        slots[i]?.join := by
    induction attachments with
    | nil => exact fun _ => rfl
    | cons a rest ih =>
      intro slots
      rw [List.foldl_cons, List.foldl_cons, ih, Slots.getElem?_put]
  exact hfold #[]

/-- Where the slot of a node is full, writing gives the label with the text of its last attachment. -/
theorem write_eq {attachments : List Attachment} {i : Nat} {slots : Slots}
    (h : (slots.take i).1 = textFor? attachments i) (n : Node) :
    write i n slots = (attached attachments i n.label, (slots.take i).2) := by
  rw [write, attached, ← h]
  rcases slots.take i with ⟨text, slots'⟩
  cases text <;> rfl

theorem labels_apply (forest : Forest Label) (attachments : List Attachment) :
    Forest.labels (apply forest attachments) =
      (Forest.labels forest).zipIdx.map fun p => attached attachments p.2 p.1 := by
  -- The walk meets the indices in order, so the slots that it still needs are full when it comes.
  have hrun : ∀ (nodes : List Node) (index : Nat) (slots : Slots),
      (∀ i, index ≤ i → slots[i]?.join = textFor? attachments i) →
      (callEach write index slots nodes).1 =
        (nodes.zipIdx index).map fun p => attached attachments p.2 p.1.label := by
    intro nodes
    induction nodes with
    | nil => exact fun _ _ _ => rfl
    | cons n rest ih =>
      intro index slots hslots
      have hrest : ∀ i, index + 1 ≤ i →
          (slots.take index).2[i]?.join = textFor? attachments i := by
        intro i hi
        rw [Slots.getElem?_take (by omega)]
        exact hslots i (by omega)
      have hhere : (slots.take index).1 = textFor? attachments index :=
        hslots index (Nat.le_refl _)
      rw [callEach, write_eq hhere, List.zipIdx_cons, List.map_cons]
      exact congrArg _ (ih (index + 1) _ hrest)
  have hall := hrun (Forest.flatten forest) 0 (attachments.foldl Slots.put #[])
    fun i _ => Slots.getElem?_foldl_put attachments i
  rw [Forest.labels_visitFrom] at hall
  refine hall.trans ?_
  rw [Forest.labels, List.zipIdx_map, List.map_map]
  rfl

theorem shape_apply (forest : Forest Label) (attachments : List Attachment) :
    Forest.shape (apply forest attachments) = Forest.shape forest :=
  Forest.shape_visit _ _ forest

/-- In place, comments are placed on the nodes in flat order, and then they are written. -/
theorem run_attachInPlace (forest : Forest Label) (comments : List Comment) :
    (attachInPlace comments).run forest =
      (do
        let attachments ← ofExcept (associate (Forest.flatten forest) comments)
        set (apply forest attachments)
        return attachments.length : EStateM ExtractError (Forest Label) Nat).run forest := by
  rw [← Forest.unstack_eq_flatten]
  rfl

theorem run_attachInPlace_of_ok {forest : Forest Label} {comments : List Comment}
    {attachments : List Attachment}
    (h : associate (Forest.flatten forest) comments = .ok attachments) :
    (attachInPlace comments).run forest = .ok attachments.length (apply forest attachments) := by
  rw [run_attachInPlace, h]
  rfl

/-- All comments are placed before the first is written, so one that cannot be placed leaves the
    forest as it was. -/
theorem run_attachInPlace_of_error {forest : Forest Label} {comments : List Comment}
    {e : ExtractError} (h : associate (Forest.flatten forest) comments = .error e) :
    (attachInPlace comments).run forest = .error e forest := by
  rw [run_attachInPlace, h]
  rfl

theorem attach_eq (forest : Forest Label) (comments : List Comment) :
    attach forest comments = (associate (Forest.flatten forest) comments).map fun attachments =>
      (apply forest attachments, attachments.length) := by
  cases h : associate (Forest.flatten forest) comments with
  | ok attachments =>
    rw [attach, run_attachInPlace_of_ok h]
    rfl
  | error e =>
    rw [attach, run_attachInPlace_of_error h]
    rfl

theorem labels_decode (forest : Forest Label) :
    Forest.labels (decode forest).1 = (Forest.labels forest).map decoded := by
  refine Eq.trans
    (Forest.labels_visit (g := fun _ n => decoded n.label) (fun i n count => ?_) 0 forest) ?_
  · split <;> rename_i h <;> simp [decoded, h]
  · rw [Forest.labels]
    conv_rhs => rw [← List.zipIdx_map_fst 0 (Forest.flatten forest), List.map_map, List.map_map]
    rfl

end SchemaForest.Comments
