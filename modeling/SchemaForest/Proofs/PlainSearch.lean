import SchemaForest.Proofs.Placement

/-!
# The sorted search against the plain rule

Comments are placed by a search in sorted starts.  The rule says less: of the nodes that start behind
the comment the least by start and flat index, `Comments.IsTarget`.

1. **One comment** has an attachment that follows the rule (`Comments.Documents`), or it has no text,
   or nothing starts behind it (`orphan?_eq_some_iff`).
2. **A list of comments** has the attachments of those with a text, one for each and in their order
   (`forall₂_documents_iff`), and the first of them behind which nothing starts refuses the list.
3. **The sorting does not matter.**  Starts with their flat indices all differ, so there is one order
   of them only, whatever sorts them and whether that is stable or not (`eq_of_perm_starts`).
-/

namespace SchemaForest.Comments

open Fallible

/-- The attachment carries the whole text of the comment to a node of the list, and that is the least
    by start and flat index of those that start behind the comment. -/
structure Documents (nodes : List Node) (c : Comment) (a : Attachment) : Prop where
  text : c.body = some a.text
  inside : a.node < nodes.length
  least : IsTarget nodes c.span.stop a.node

theorem documents_iff {nodes : List Node} {c : Comment} {a : Attachment} :
    Documents nodes c a ↔ attachment? nodes c = some a := by
  rw [attachment?_eq_some_iff]
  constructor
  · intro h
    exact ⟨h.text, h.least⟩
  · rintro ⟨htext, hleast⟩
    have hinside : a.node < nodes.length := by
      obtain ⟨n, hn, -⟩ := hleast
      exact (List.getElem?_eq_some_iff.1 hn).1
    exact ⟨htext, hinside, hleast⟩

/-- A comment is refused if it has a text and nothing starts behind it. -/
theorem orphan?_eq_some_iff {nodes : List Node} {c : Comment} {e : ExtractError} :
    orphan? nodes c = some e ↔
      ∃ text, c.body = some text ∧ (∀ n ∈ nodes, n.label.range.start ≤ c.span.stop) ∧
        e = .orphan text c.span := by
  rw [orphan?, Option.bind_eq_some_iff]
  constructor
  · rintro ⟨text, hbody, h⟩
    cases hnode : nodeFor? nodes c.span.stop with
    | some i =>
      rw [hnode] at h
      cases h
    | none =>
      rw [hnode] at h
      exact ⟨text, hbody, nodeFor?_eq_none_iff.1 hnode, (Option.some.inj h).symm⟩
  · rintro ⟨text, hbody, hnone, rfl⟩
    refine ⟨text, hbody, ?_⟩
    rw [nodeFor?_eq_none_iff.2 hnone]

/-- Among comments that are not refused, those with a text have their attachments in order. -/
theorem forall₂_documents_iff {nodes : List Node} {comments : List Comment}
    {attachments : List Attachment} :
    List.Forall₂ (Documents nodes) (comments.filter fun c => c.body.isSome) attachments ↔
      (∀ c ∈ comments, orphan? nodes c = none) ∧
        attachments = comments.filterMap (attachment? nodes) := by
  induction comments generalizing attachments with
  | nil =>
    rw [List.filter_nil, List.forall₂_nil_left_iff, List.filterMap_nil]
    exact ⟨fun h => ⟨fun c hc => (nomatch hc), h⟩, And.right⟩
  | cons c rest ih =>
    rw [List.forall_mem_cons, List.filter_cons]
    by_cases hbody : c.body.isSome = true
    · rw [if_pos hbody, List.forall₂_cons_left_iff]
      constructor
      · rintro ⟨a, more, ha, hmore, rfl⟩
        have ha := documents_iff.1 ha
        obtain ⟨hrest, rfl⟩ := ih.1 hmore
        refine ⟨⟨orphan?_eq_none_of_attachment? ha, hrest⟩, ?_⟩
        rw [List.filterMap_cons_some ha]
      · rintro ⟨⟨hc, hrest⟩, rfl⟩
        have hsome := isSome_attachment? hc
        rw [hbody] at hsome
        obtain ⟨a, ha⟩ := Option.isSome_iff_exists.1 hsome
        refine ⟨a, rest.filterMap (attachment? nodes), documents_iff.2 ha, ih.2 ⟨hrest, rfl⟩, ?_⟩
        rw [List.filterMap_cons_some ha]
    · -- Without a text a comment is neither refused nor attached.
      have hnone : c.body = none := Option.not_isSome_iff_eq_none.1 hbody
      have horphan : orphan? nodes c = none := by rw [orphan?, hnone, Option.bind_none]
      have hattached : attachment? nodes c = none := by rw [attachment?, hnone, Option.bind_none]
      rw [if_neg hbody, ih, List.filterMap_cons_none hattached]
      constructor
      · rintro ⟨hrest, heq⟩
        exact ⟨⟨horphan, hrest⟩, heq⟩
      · rintro ⟨⟨-, hrest⟩, heq⟩
        exact ⟨hrest, heq⟩

/-- However the starts are sorted, they come out in one order. -/
theorem eq_of_perm_starts {nodes : List Node} {sorted : List (Nat × Nat)}
    (hperm : sorted.Perm (starts nodes)) (h : sorted.Pairwise fun a b => startLe a b = true) :
    sorted = (starts nodes).mergeSort startLe := by
  refine List.Perm.eq_of_pairwise (fun a b _ _ hab hba => ?_) h (pairwise_sorted nodes)
    (hperm.trans (List.mergeSort_perm _ _).symm)
  rw [startLe_iff] at hab hba
  have hstart : a.1 = b.1 := by omega
  have hindex : a.2 = b.2 := by omega
  exact Prod.ext hstart hindex

/-- Comments are placed by the plain rule.  On the nodes as they come off the stack the attachments are
    those of the comments with a text, in the order of the list and each to the least node by start and
    flat index that starts behind its comment; if for one of them there is no such node, the first is
    refused.  And nothing of this hangs on the way in which the starts are sorted. -/
theorem associate_follows_rule (forest : Forest Label) (comments : List Comment) :
    let nodes := Forest.flatten forest
    (∀ attachments, associate (Forest.unstack forest) comments = .ok attachments ↔
      List.Forall₂ (Documents nodes) (comments.filter fun c => c.body.isSome) attachments) ∧
    (∀ e, associate (Forest.unstack forest) comments = .error e ↔
      ∃ earlier c later text, comments = earlier ++ c :: later ∧ c.body = some text ∧
        (∀ n ∈ nodes, n.label.range.start ≤ c.span.stop) ∧ e = .orphan text c.span ∧
        ∀ c' ∈ earlier, c'.body ≠ none → ∃ n ∈ nodes, c'.span.stop < n.label.range.start) ∧
    ∀ sorted : List (Nat × Nat), sorted.Perm (starts nodes) →
      (sorted.Pairwise fun a b => startLe a b = true) →
      associateSorted sorted.toArray comments = associate (Forest.unstack forest) comments := by
  dsimp only
  rw [Forest.unstack_eq_flatten]
  refine ⟨fun attachments => ?_, fun e => ?_, fun sorted hperm hsorted => ?_⟩
  · rw [associate_eq_ok_iff, forall₂_documents_iff]
  · have herror : associate (Forest.flatten forest) comments = .error e ↔
        comments.findSome? (orphan? (Forest.flatten forest)) = some e := by
      rw [← error?_associate]
      cases associate (Forest.flatten forest) comments <;> simp
    rw [herror, List.findSome?_eq_some_iff]
    constructor
    · rintro ⟨earlier, c, later, rfl, hc, hearlier⟩
      obtain ⟨text, hbody, hnone, rfl⟩ := orphan?_eq_some_iff.1 hc
      exact ⟨earlier, c, later, text, rfl, hbody, hnone, rfl, fun c' hc' =>
        orphan?_eq_none_iff.1 (hearlier c' hc')⟩
    · rintro ⟨earlier, c, later, text, rfl, hbody, hnone, rfl, hearlier⟩
      exact ⟨earlier, c, later, rfl, orphan?_eq_some_iff.2 ⟨text, hbody, hnone, rfl⟩,
        fun c' hc' => orphan?_eq_none_iff.2 (hearlier c' hc')⟩
  · rw [eq_of_perm_starts hperm hsorted, associate]

/-- A node that stands first and starts last, and one that starts where both of its children do. -/
def ties : Forest Label :=
  [.leaf { name := "far", kind := .string, range := ⟨100, 110⟩ },
    .node { name := "near", kind := .intersection, range := ⟨30, 40⟩ }
      [.leaf { name := "near", kind := .string, range := ⟨30, 35⟩ },
        .leaf { name := "near", kind := .number, range := ⟨30, 40⟩ }]]

theorem associate_follows_rule_ties :
    associate (Forest.unstack ties) [⟨some "b", ⟨40, 99⟩⟩, ⟨some "", ⟨200, 210⟩⟩, ⟨some "a", ⟨9, 29⟩⟩] =
        .ok [⟨0, "b"⟩, ⟨1, "a"⟩] ∧
      [(30, 1), (30, 2), (30, 3), (100, 0)].Perm (starts (Forest.flatten ties)) ∧
      associateSorted #[(30, 1), (30, 2), (30, 3), (100, 0)]
          [⟨some "b", ⟨40, 99⟩⟩, ⟨some "a", ⟨9, 29⟩⟩, ⟨some "c", ⟨100, 100⟩⟩] =
        .error (.orphan "c" ⟨100, 100⟩) := by
  have hplaced := (associate_follows_rule ties
    [⟨some "b", ⟨40, 99⟩⟩, ⟨some "", ⟨200, 210⟩⟩, ⟨some "a", ⟨9, 29⟩⟩]).1
  obtain ⟨-, hrefused, hsorted⟩ := associate_follows_rule ties
    [⟨some "b", ⟨40, 99⟩⟩, ⟨some "a", ⟨9, 29⟩⟩, ⟨some "c", ⟨100, 100⟩⟩]
  have hperm : [(30, 1), (30, 2), (30, 3), (100, 0)].Perm (starts (Forest.flatten ties)) := by
    decide
  refine ⟨(hplaced _).2 (.cons ?_ (.cons ?_ .nil)), hperm, ?_⟩
  · exact ⟨rfl, by decide, @IsTarget.of_append [] _ _ _ (by decide) (by decide) (by decide)⟩
  · exact ⟨rfl, by decide, @IsTarget.of_append [_] _ _ _ (by decide) (by decide) (by decide)⟩
  · refine (hsorted _ hperm (by decide)).trans ((hrefused _).2 ?_)
    exact ⟨[_, _], _, [], "c", rfl, rfl, by decide, rfl, by decide⟩

end SchemaForest.Comments
