import SchemaForest.Proofs.Phases
import SchemaForest.Proofs.Shape

/-!
# What comments change

Attaching comments writes texts and nothing else.  Each node ends with the text of the last comment in
the list that is for it (`Comments.LastFor`), a node without one keeps what it had, and if one comment
has no node nothing is written at all.

1. **The last attachment counts.**  `textFor?` of a list of attachments is the text of the last one of
   the node (`textFor?_eq_some_iff`), and attachments stand in the order of their comments.
2. **Nothing else is written.**  On the flat list of labels attaching is `attached`, index by index
   (`labels_apply`), and the shape stays.
3. **An extraction** attaches to a forest without comments and decodes what it attached.  So without
   comments and annotations the forest is the one pass over the declarations, whatever the comments
   are, and annotations say what the comment says (`bare_extract`).  Where they are left in, the table
   is well shaped all the same (`shaped_of_extract`).
-/

namespace SchemaForest

open Fallible

/-- The label without its comment and its annotations. -/
def Label.bare (a : Label) : Label := { a with comment := none, annotations := none }

namespace Comments

/-! ## The last comment of a node -/

/-- The text is that of the last comment in the list that is for the node at flat index `i`. -/
def LastFor (nodes : List Node) (comments : List Comment) (i : Nat) (text : String) : Prop :=
  ∃ earlier c later, comments = earlier ++ c :: later ∧ associate nodes [c] = .ok [⟨i, text⟩] ∧
    ∀ c' ∈ later, ∀ text', associate nodes [c'] ≠ .ok [⟨i, text'⟩]

/-- What attaching comments leaves of a forest: its shape and its labels, but for the comments that
    are written. -/
structure Leaves (forest : Forest Label) (comments : List Comment) (held : Forest Label) : Prop where
  shape : Forest.shape held = Forest.shape forest
  written : ∀ i text a, LastFor (Forest.flatten forest) comments i text →
    (Forest.labels forest)[i]? = some a →
    (Forest.labels held)[i]? = some { a with comment := some text }
  kept : ∀ i, (∀ c ∈ comments, ∀ text,
    associate (Forest.flatten forest) [c] ≠ .ok [⟨i, text⟩]) →
    (Forest.labels held)[i]? = (Forest.labels forest)[i]?

/-- A comment alone is attached where it is attached among others. -/
theorem associate_singleton_iff {nodes : List Node} {c : Comment} {a : Attachment} :
    associate nodes [c] = .ok [a] ↔ attachment? nodes c = some a := by
  constructor
  · intro h
    have heq : [a] = [c].filterMap (attachment? nodes) := (associate_eq_ok_iff.1 h).2
    rw [List.filterMap_cons, List.filterMap_nil] at heq
    cases hc : attachment? nodes c with
    | none =>
      rw [hc] at heq
      cases heq
    | some b =>
      rw [hc] at heq
      exact congrArg some (List.singleton_inj.1 heq).symm
  · intro h
    have hbody : c.body = some a.text := (attachment?_eq_some_iff.1 h).1
    exact (associate_singleton hbody).2 (attachment?_eq_some_iff.1 h).2

/-- A node has the text of an attachment behind which there is no other for the node. -/
theorem textFor?_eq_some_iff {attachments : List Attachment} {i : Nat} {text : String} :
    textFor? attachments i = some text ↔
      ∃ xs ys, attachments = xs ++ ⟨i, text⟩ :: ys ∧ ∀ b ∈ ys, b.node ≠ i := by
  constructor
  · intro h
    induction attachments with
    | nil => cases h
    | cons a rest ih =>
      rw [textFor?_cons] at h
      cases hrest : textFor? rest i with
      | some found =>
        rw [hrest] at h
        obtain ⟨xs, ys, rfl, hys⟩ := ih (hrest.trans h)
        exact ⟨a :: xs, ys, rfl, hys⟩
      | none =>
        -- Nothing further down is for the node, so the first attachment is.
        rw [hrest, Option.none_or] at h
        by_cases hnode : a.node = i
        · rw [if_pos hnode] at h
          cases h
          subst hnode
          exact ⟨[], rest, rfl, textFor?_eq_none_iff.1 hrest⟩
        · rw [if_neg hnode] at h
          cases h
  · rintro ⟨xs, ys, rfl, hys⟩
    exact textFor?_last (a := ⟨i, text⟩) hys

/-- The attachments of a list of comments leave on a node the text of the last comment for it. -/
theorem textFor?_filterMap_eq_some_iff {nodes : List Node} {comments : List Comment} {i : Nat}
    {text : String} :
    textFor? (comments.filterMap (attachment? nodes)) i = some text ↔
      LastFor nodes comments i text := by
  rw [textFor?_eq_some_iff, LastFor]
  constructor
  · rintro ⟨xs, ys, hsplit, hys⟩
    obtain ⟨front, back, rfl, -, hback⟩ := List.filterMap_eq_append_iff.1 hsplit
    obtain ⟨skipped, c, later, rfl, -, hc, rfl⟩ := List.filterMap_eq_cons_iff.1 hback
    refine ⟨front ++ skipped, c, later, by simp, associate_singleton_iff.2 hc, ?_⟩
    intro c' hc' text' h
    exact hys _ (List.mem_filterMap.2 ⟨c', hc', associate_singleton_iff.1 h⟩) rfl
  · rintro ⟨earlier, c, later, rfl, hc, hlater⟩
    refine ⟨earlier.filterMap (attachment? nodes), later.filterMap (attachment? nodes), ?_, ?_⟩
    · rw [List.filterMap_append, List.filterMap_cons, associate_singleton_iff.1 hc]
    · rintro ⟨j, text'⟩ hb rfl
      obtain ⟨c', hc', hb⟩ := List.mem_filterMap.1 hb
      exact hlater c' hc' text' (associate_singleton_iff.2 hb)

theorem textFor?_filterMap_eq_none_iff {nodes : List Node} {comments : List Comment} {i : Nat} :
    textFor? (comments.filterMap (attachment? nodes)) i = none ↔
      ∀ c ∈ comments, ∀ text, associate nodes [c] ≠ .ok [⟨i, text⟩] := by
  rw [textFor?_eq_none_iff]
  constructor
  · intro hall c hc text h
    exact hall _ (List.mem_filterMap.2 ⟨c, hc, associate_singleton_iff.1 h⟩) rfl
  · rintro hall ⟨j, text⟩ ha rfl
    obtain ⟨c, hc, ha⟩ := List.mem_filterMap.1 ha
    exact hall c hc text (associate_singleton_iff.2 ha)

/-! ## Attaching -/

/-- If every comment has a node, there are as many attachments as comments with a text. -/
theorem length_filterMap_attachment? {nodes : List Node} {comments : List Comment}
    (h : ∀ c ∈ comments, orphan? nodes c = none) :
    (comments.filterMap (attachment? nodes)).length = comments.countP fun c => c.body.isSome := by
  induction comments with
  | nil => rfl
  | cons c rest ih =>
    have hrest := ih fun c' hc' => h c' (List.mem_cons_of_mem c hc')
    have hc := isSome_attachment? (h c List.mem_cons_self)
    rw [List.filterMap_cons, List.countP_cons, ← hc, ← hrest]
    cases attachment? nodes c <;> rfl

/-- Applying the attachments of some comments leaves all but the comments as it was. -/
theorem leaves_apply (forest : Forest Label) (comments : List Comment) :
    Leaves forest comments
      (apply forest (comments.filterMap (attachment? (Forest.flatten forest)))) := by
  have hat : ∀ attachments i, (Forest.labels (apply forest attachments))[i]? =
      (Forest.labels forest)[i]?.map (attached attachments i) := by
    intro attachments i
    rw [labels_apply, List.getElem?_map, List.getElem?_zipIdx, Nat.zero_add, Option.map_map]
    rfl
  refine ⟨shape_apply _ _, fun i text a hlast ha => ?_, fun i hnone => ?_⟩
  · rw [hat, ha, Option.map_some, attached, textFor?_filterMap_eq_some_iff.2 hlast]
  · have hsame : ∀ a, attached (comments.filterMap (attachment? (Forest.flatten forest))) i a =
        a := by
      intro a
      rw [attached, textFor?_filterMap_eq_none_iff.2 hnone]
    rw [hat]
    cases (Forest.labels forest)[i]? with
    | none => rfl
    | some a => exact congrArg some (hsame a)

/-- Attaching in place either fails at a comment without a node, and the forest is what it was, or
    writes the comments and counts those with a text. -/
theorem attachInPlace_cases (forest : Forest Label) (comments : List Comment) :
    (∃ c ∈ comments, ∃ text, c.body = some text ∧
      (attachInPlace comments).run forest = .error (.orphan text c.span) forest) ∨
    ∃ held, (attachInPlace comments).run forest =
      .ok (comments.countP fun c => c.body.isSome) held ∧ Leaves forest comments held := by
  cases hassociate : associate (Forest.flatten forest) comments with
  | error e =>
    rw [run_attachInPlace_of_error hassociate]
    have herror := error?_associate (Forest.flatten forest) comments
    rw [hassociate, error?_error] at herror
    obtain ⟨c, hc, horphan⟩ := List.exists_of_findSome?_eq_some herror.symm
    rw [orphan?, Option.bind_eq_some_iff] at horphan
    obtain ⟨text, hbody, horphan⟩ := horphan
    refine Or.inl ⟨c, hc, text, hbody, ?_⟩
    cases hnode : nodeFor? (Forest.flatten forest) c.span.stop with
    | some i =>
      rw [hnode] at horphan
      cases horphan
    | none =>
      rw [hnode] at horphan
      cases horphan
      rfl
  | ok attachments =>
    obtain ⟨hplaced, rfl⟩ := associate_eq_ok_iff.1 hassociate
    refine Or.inr ⟨_, ?_, leaves_apply forest comments⟩
    rw [run_attachInPlace_of_ok hassociate, length_filterMap_attachment? hplaced]

end Comments

/-! ## Extraction -/

/-- Declarations are translated to nodes without comments. -/
theorem bare_onePass {ds : List Declaration} {forest : Forest Label}
    (h : onePass ds = .ok forest) : ∀ x ∈ Forest.labels forest, x.bare = x := by
  have hnodes : ∀ n ∈ Forest.flatten forest, n.label.bare = n.label := by
    refine forall_nodes_mapM h fun b _ x cs _ hcomment hannotations _ => ?_
    rw [Tree.label_node, Label.bare, ← hcomment, ← hannotations]
  intro x hx
  obtain ⟨n, hn, rfl⟩ := List.mem_map.1 hx
  exact hnodes n hn

/-- Whatever the comments are, without them an extracted forest is the one pass over the
    declarations; and its annotations are those of its comments. -/
theorem bare_extract {ds : List Declaration} {cs : List Comment} {t : Table}
    (h : extract ds cs = .ok t) :
    ∃ forest, onePass ds = .ok forest ∧ Forest.mapLabels Label.bare t.declarations = forest ∧
      ∀ a ∈ Forest.labels t.declarations, a.annotations = a.comment.map Annotations.ofText := by
  obtain ⟨forest, attachments, hforest, -, hshape, hlabels⟩ := labels_extract h
  have hbare := bare_onePass hforest
  -- Attaching and decoding start from a label that has neither a comment nor annotations.
  have hlabel : ∀ i x, x.bare = x →
      (Comments.decoded (Comments.attached attachments i x)).bare = x ∧
        (Comments.decoded (Comments.attached attachments i x)).annotations =
          (Comments.decoded (Comments.attached attachments i x)).comment.map
            Annotations.ofText := by
    intro i x hx
    rw [← hx, Comments.attached]
    cases Comments.textFor? attachments i <;> exact ⟨rfl, rfl⟩
  refine ⟨forest, hforest, ?_, fun a ha => ?_⟩
  · refine Forest.eq_of_shape_of_labels _ _ ((Forest.shape_mapLabels _ _).trans hshape) ?_
    rw [Forest.labels_mapLabels, hlabels, List.map_map]
    conv_rhs => rw [← List.zipIdx_map_fst 0 (Forest.labels forest)]
    refine List.map_congr_left fun p hp => ?_
    exact (hlabel p.2 p.1 (hbare p.1 (List.fst_mem_of_mem_zipIdx hp))).1
  · rw [hlabels] at ha
    obtain ⟨p, hp, rfl⟩ := List.mem_map.1 ha
    exact (hlabel p.2 p.1 (hbare p.1 (List.fst_mem_of_mem_zipIdx hp))).2

/-- An extracted table is well shaped: comments change neither the shape nor names and kinds. -/
theorem shaped_of_extract {ds : List Declaration} {cs : List Comment} {t : Table}
    (h : extract ds cs = .ok t) : t.Shaped := by
  obtain ⟨t₀, -, -, ht₀, -, -, -⟩ := extract_eq_ok_iff.1 h
  obtain ⟨forest, hforest, rfl, -⟩ := bare_extract h
  have hnodup : (ds.map Declaration.name).Nodup := (Table.exists_declareAll_iff.1 ⟨t₀, ht₀⟩).2.2
  exact (shaped_onePass hforest hnodup).of_mapLabels (fun _ => rfl) (fun _ => rfl)

/-- In an extracted table no reference is left by name. -/
theorem resolved_of_extract {ds : List Declaration} {cs : List Comment} {t : Table}
    (h : extract ds cs = .ok t) : ∀ n ∈ t.nodes, ∀ name, n.label.kind ≠ .unresolved name := by
  obtain ⟨t₀, t₁, -, ht₀, hresolve, -, -⟩ := extract_eq_ok_iff.1 h
  obtain ⟨forest, hforest, hbare, -⟩ := bare_extract h
  obtain ⟨-, -, hfault, -⟩ := resolve_ofDeclarations ht₀
  rw [hresolve] at hfault
  intro n hn name
  -- Without its comment the label is one of the one pass.
  have hmem : n.label.bare ∈ Forest.labels forest := by
    rw [← hbare, Forest.labels_mapLabels]
    exact List.mem_map_of_mem (List.mem_map_of_mem hn)
  exact not_unresolved_onePass hforest hfault.symm _ hmem name

/-- What is extracted with comments is extracted without them too, and differs in nothing but comments
    and annotations. -/
theorem extract_nil_of_extract {ds : List Declaration} {cs : List Comment} {t : Table}
    (h : extract ds cs = .ok t) :
    ∃ t₀, extract ds [] = .ok t₀ ∧
      t₀.declarations = Forest.mapLabels Label.bare t.declarations := by
  obtain ⟨t₁, t₂, -, ht₁, ht₂, -, -⟩ := extract_eq_ok_iff.1 h
  obtain ⟨t₀, ht₀⟩ : ∃ t₀, extract ds [] = .ok t₀ :=
    ⟨_, extract_eq_ok_iff.2 ⟨t₁, t₂, [], ht₁, ht₂, rfl, rfl⟩⟩
  refine ⟨t₀, ht₀, ?_⟩
  obtain ⟨forest, hforest, hbare, -⟩ := bare_extract h
  obtain ⟨forest', attachments, hforest', hattachments, hshape, hlabels⟩ := labels_extract ht₀
  obtain rfl : forest = forest' := Except.ok.inj (hforest.symm.trans hforest')
  obtain rfl : attachments = [] := (Except.ok.inj hattachments).symm
  rw [hbare]
  refine Forest.eq_of_shape_of_labels _ _ hshape (hlabels.trans ?_)
  conv_rhs => rw [← List.zipIdx_map_fst 0 (Forest.labels forest)]
  refine List.map_congr_left fun p hp => ?_
  have hp := bare_onePass hforest p.1 (List.fst_mem_of_mem_zipIdx hp)
  rw [← hp]
  rfl

/-- Comments change comments only.  Attached to any forest, either one of them has no node and the
    forest is what it was, or those with a text are counted, each node gets the text of the last one
    for it, and nothing else changes.  So an extraction differs from the one without comments in the
    comments and in annotations alone, and the annotations are those of the comments. -/
theorem comments_change_comments_only (ds : List Declaration) (comments : List Comment) :
    (∀ forest,
      (∃ c ∈ comments, ∃ text, c.body = some text ∧
        (Comments.attachInPlace comments).run forest = .error (.orphan text c.span) forest) ∨
      ∃ held, (Comments.attachInPlace comments).run forest =
          .ok (comments.countP fun c => c.body.isSome) held ∧
        Comments.Leaves forest comments held) ∧
    ∀ t, extract ds comments = .ok t →
      (∃ t₀, extract ds [] = .ok t₀ ∧
        t₀.declarations = Forest.mapLabels Label.bare t.declarations) ∧
      ∀ a ∈ Forest.labels t.declarations, a.annotations = a.comment.map Annotations.ofText := by
  refine ⟨fun forest => Comments.attachInPlace_cases forest comments, fun t h => ?_⟩
  obtain ⟨-, -, -, hannotations⟩ := bare_extract h
  exact ⟨extract_nil_of_extract h, hannotations⟩

/-- Three comments between the two declarations of the knot; the one in the middle has no text. -/
def notes : List Comment := [⟨some "one", ⟨41, 45⟩⟩, ⟨none, ⟨46, 47⟩⟩, ⟨some "two", ⟨48, 50⟩⟩]

theorem comments_change_comments_only_knot :
    ∃ t t₀ forest held, extract knot notes = .ok t ∧ extract knot [] = .ok t₀ ∧
      t₀.declarations = Forest.mapLabels Label.bare t.declarations ∧
      (Comments.attachInPlace notes).run forest = .ok 2 held ∧
      Forest.shape held = Forest.shape forest ∧
      (Forest.labels held)[5]?.bind Label.comment = some "two" := by
  obtain ⟨t, ht⟩ : ∃ t, extract knot notes = .ok t :=
    exists_extract_iff.2 ⟨_, _, rfl, rfl, by decide⟩
  obtain ⟨hattach, hextract⟩ := comments_change_comments_only knot notes
  obtain ⟨⟨t₀, ht₀, hbare⟩, -⟩ := hextract t ht
  obtain ⟨forest, attachments, hforest, hattachments, -, -⟩ := labels_extract ht
  rcases hattach forest with ⟨c, -, text, -, hrun⟩ | ⟨held, hrun, hleaves⟩
  · rw [Comments.run_attachInPlace_of_ok hattachments] at hrun
    cases hrun
  · refine ⟨t, t₀, forest, held, ht, ht₀, hbare, hrun, hleaves.shape, ?_⟩
    cases hforest
    -- The root of the second declaration starts first behind the comments; nothing comes later.
    have hwritten := hleaves.written 5 "two" _ ⟨[_, _], _, [], rfl,
      (Comments.associate_singleton rfl).2
        (@Comments.IsTarget.of_append [_, _, _, _, _] _ _ _ (by decide) (by decide) (by decide)),
      fun c hc => nomatch hc⟩ rfl
    rw [hwritten]
    rfl

end SchemaForest
