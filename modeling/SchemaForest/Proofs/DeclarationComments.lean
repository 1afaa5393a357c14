import SchemaForest.Proofs.Phases

/-!
# Comments above declarations

A comment between two declarations documents the second one: not something inside of it, and not
another declaration.  The search for the node of a comment sees nothing but starts, so this rests on
where the nodes of a declaration start (`start_of_translateDeclaration`): its root where the
declaration starts, everything below not earlier and not behind its end.  An arm of a union or the
type of an alias may start where the root does; the root comes first in flat order.

So the nodes of the declarations in front start too early for the comment, and of those behind it
none starts before the root does (`isTarget_root`).
-/

namespace SchemaForest

open Fallible

/-- Declarations that follow each other without overlap, with all members and types inside of a
    declaration in its span. -/
structure LaidOut (ds : List Declaration) : Prop where
  ordered : ds.Pairwise fun d e => d.span.Precedes e.span
  members : ∀ d ∈ ds, ∀ m, .member m ∈ d.inside → m.span.Within d.span
  types : ∀ d ∈ ds, ∀ t, .type t ∈ d.inside → t.span.Within d.span

/-- The comment ends before the declaration starts, and not before the end of the last of the
    declarations in front of it. -/
def Comment.Above (c : Comment) (front : List Declaration) (d : Declaration) : Prop :=
  (∀ e, front.getLast? = some e → e.span.stop ≤ c.span.stop) ∧ c.span.stop < d.span.start

/-! ## Where the nodes of a declaration start -/

/-- The nodes of a declaration start where the declaration starts, or inside its span. -/
theorem start_of_translateDeclaration {lookup : String → Option Handle} {d : Declaration} {n : Node}
    (hmembers : ∀ m, .member m ∈ d.inside → m.span.Within d.span)
    (htypes : ∀ t, .type t ∈ d.inside → t.span.Within d.span)
    (hn : translateDeclaration lookup d = .ok n) {x : Label} (hx : x ∈ Forest.labels [n]) :
    x.range = d.span ∨ x.range.Within d.span := by
  have htranslate : (AstNode.declaration d).translate lookup "" d.span = .ok n := hn
  rcases AstNode.range_mem htranslate hx with hrange | ⟨b, hb, hrange⟩
  · exact Or.inl hrange
  · rw [hrange]
    have hinside : ∀ {b : AstNode}, (∀ e, b ≠ .declaration e) →
        b ∈ (AstNode.declaration d).preorder → b ∈ d.inside := by
      intro b hne hb
      rcases List.mem_cons.1 hb with rfl | hb
      · exact absurd rfl (hne d)
      · exact hb
    cases b with
    | declaration e =>
      obtain ⟨_, heq, -, hspan⟩ := AstNode.exported_of_mem_preorder hb
      cases heq
      exact Or.inl hspan
    | member m => exact Or.inr (hmembers m (hinside (fun _ => AstNode.noConfusion) hb))
    | type t => exact Or.inr (htypes t (hinside (fun _ => AstNode.noConfusion) hb))

/-- All declarations in front end before the comment does. -/
theorem Comment.Above.stop_le {c : Comment} {front back : List Declaration} {d : Declaration}
    (h : c.Above front d)
    (hordered : (front ++ d :: back).Pairwise fun d e => d.span.Precedes e.span) :
    ∀ e ∈ front, e.span.start ≤ e.span.stop ∧ e.span.stop ≤ c.span.stop := by
  intro e he
  obtain ⟨hfront, -, hcross⟩ := List.pairwise_append.1 hordered
  refine ⟨(hcross e he d List.mem_cons_self).1, ?_⟩
  -- The comment is compared with the last declaration in front only; the others end before that.
  obtain ⟨init, last, rfl⟩ : ∃ init last, front = init ++ [last] :=
    ⟨_, _, (List.dropLast_append_getLast (List.ne_nil_of_mem he)).symm⟩
  have hlast : last.span.stop ≤ c.span.stop := h.1 last List.getLast?_concat
  rcases List.mem_append.1 he with he | he
  · have hprecedes := (List.pairwise_append.1 hfront).2.2 e he last List.mem_cons_self
    have hrange := (hcross last (by simp) d List.mem_cons_self).1
    exact Nat.le_trans hprecedes.2 (Nat.le_trans hrange hlast)
  · rw [List.mem_singleton.1 he]
    exact hlast

/-- A comment above a declaration is for the root of it. -/
theorem isTarget_root {lookup : String → Option Handle} {front back : List Declaration}
    {d : Declaration} {c : Comment} {forest : Forest Label}
    (hlaid : LaidOut (front ++ d :: back)) (habove : c.Above front d)
    (hforest : (front ++ d :: back).mapM (translateDeclaration lookup) = .ok forest) :
    ∃ fs n gs, forest = fs ++ n :: gs ∧ fs.length = front.length ∧
      translateDeclaration lookup d = .ok n ∧
      Comments.IsTarget (Forest.flatten forest) c.span.stop (Forest.flatten fs).length := by
  obtain ⟨fs, gs, hfs, hgs, rfl⟩ := mapM_append_eq_ok_iff.1 hforest
  obtain ⟨n, gs, hn, hback, rfl⟩ := List.forall₂_cons_left_iff.1 (mapM_eq_ok_iff.1 hgs)
  refine ⟨fs, n, gs, rfl, (mapM_eq_ok_iff.1 hfs).length_eq.symm, hn, ?_⟩
  have hstart : ∀ {e : Declaration} {m x : Node}, e ∈ front ++ d :: back →
      translateDeclaration lookup e = .ok m → x ∈ m.flatten →
      x.label.range = e.span ∨ x.label.range.Within e.span := by
    intro e m x he hm hx
    exact start_of_translateDeclaration (hlaid.members e he) (hlaid.types e he) hm
      (Forest.label_mem_labels hx)
  have hroot : n.label.range = d.span := by rw [label_translateDeclaration hn]
  rw [Forest.flatten_append, Forest.flatten_cons, Tree.flatten_eq, List.cons_append]
  refine Comments.IsTarget.of_append (fun x hx => Or.inl ?_) ?_ fun x hx => Or.inr ?_
  · -- In front nothing starts behind the end of its declaration.
    obtain ⟨m, hm, hx⟩ := Forest.mem_flatten.1 hx
    obtain ⟨e, he, hem⟩ := exists_of_forall₂ (mapM_eq_ok_iff.1 hfs) hm
    obtain ⟨hrange, hstop⟩ := habove.stop_le hlaid.ordered e he
    rcases hstart (List.mem_append_left _ he) hem hx with heq | hwithin
    · rw [heq]
      omega
    · have := hwithin.2
      omega
  · rw [hroot]
    exact habove.2
  · -- Behind the root nothing starts before its declaration, and that not before this one.
    obtain ⟨e, m, he, hem, hxm, hle⟩ : ∃ e m, e ∈ d :: back ∧
        translateDeclaration lookup e = .ok m ∧ x ∈ m.flatten ∧ d.span.start ≤ e.span.start := by
      rcases List.mem_append.1 hx with hx | hx
      · exact ⟨d, n, List.mem_cons_self, hn, by rw [Tree.flatten_eq]; exact .tail _ hx,
          Nat.le_refl _⟩
      · obtain ⟨m, hm, hx⟩ := Forest.mem_flatten.1 hx
        obtain ⟨e, he, hem⟩ := exists_of_forall₂ hback hm
        have hprecedes := (List.pairwise_cons.1 (List.pairwise_append.1 hlaid.ordered).2.1).1 e he
        exact ⟨e, m, .tail _ he, hem, hx, Nat.le_trans hprecedes.1 hprecedes.2⟩
    rw [hroot]
    rcases hstart (List.mem_append_right _ he) hem hxm with heq | hwithin
    · rw [heq]
      exact hle
    · exact Nat.le_trans hle hwithin.1

/-- The flat index of the root of a declaration. -/
def Table.rootIndex (t : Table) (h : Handle) : Nat :=
  (Forest.flatten (t.declarations.take h.index)).length

/-- A comment above a declaration documents the root of it: every comment there that has a text is
    attached to the root, and the root ends with the text of the last one, unless a comment further
    down the list, wherever it stands, is attached to the root too. -/
theorem comment_above_declaration {ds front back : List Declaration} {d : Declaration}
    {cs earlier later : List Comment} {c : Comment} {text : String} {t : Table}
    (hextract : extract ds cs = .ok t) (hlaid : LaidOut ds) (hds : ds = front ++ d :: back)
    (hcs : cs = earlier ++ c :: later) (hbody : c.body = some text) (habove : c.Above front d)
    (hlast : ∀ c' ∈ later, ∀ text',
      Comments.associate t.nodes [c'] ≠ .ok [⟨t.rootIndex ⟨front.length⟩, text'⟩]) :
    (∀ c' ∈ cs, ∀ text', c'.body = some text' → c'.Above front d →
      Comments.associate t.nodes [c'] = .ok [⟨t.rootIndex ⟨front.length⟩, text'⟩]) ∧
    ∃ n, t.get? ⟨front.length⟩ = some n ∧ t.nodes[t.rootIndex ⟨front.length⟩]? = some n ∧
      n.label.name = d.name ∧ n.label.kind = .declaration ∧ n.label.range = d.span ∧
      n.label.comment = some text := by
  subst hds hcs
  obtain ⟨forest, attachments, hforest, hattachments, hshape, hlabels⟩ := labels_extract hextract
  have hassociate := associate_extracted hlabels
  have hindex : t.rootIndex ⟨front.length⟩ = (Forest.flatten (forest.take front.length)).length :=
    Forest.length_flatten_take_of_shape hshape front.length
  have hnodes : ∀ n, t.get? ⟨front.length⟩ = some n →
      t.nodes[t.rootIndex ⟨front.length⟩]? = some n :=
    fun n hn => Forest.getElem?_flatten_take hn
  generalize t.rootIndex ⟨front.length⟩ = i at hindex hnodes hlast ⊢
  -- In the one pass every comment above the declaration is for the root, at the flat index `i`.
  have hroot : ∀ {c' : Comment}, c'.Above front d →
      Comments.IsTarget (Forest.flatten forest) c'.span.stop i := by
    intro c' habove'
    obtain ⟨fs, n, gs, rfl, hlength, -, htarget⟩ := isTarget_root hlaid habove' hforest
    rw [hindex, ← hlength, List.take_left]
    exact htarget
  refine ⟨fun c' _ text' hbody' habove' => ?_, ?_⟩
  · rw [hassociate]
    exact (Comments.associate_singleton hbody').2 (hroot habove')
  · -- The last attachment of the root is that of the comment.
    have htext : Comments.textFor? attachments i = some text := by
      refine Comments.textFor?_associate hattachments hbody (hroot habove)
        fun c' hc' hbody' htarget => ?_
      obtain ⟨text', htext'⟩ := Option.ne_none_iff_exists'.1 hbody'
      refine hlast c' hc' text' ?_
      rw [hassociate]
      exact (Comments.associate_singleton htext').2 htarget
    obtain ⟨fs, n, gs, rfl, hlength, hn, -⟩ := isTarget_root hlaid habove hforest
    obtain ⟨m, hm⟩ : ∃ m, t.get? ⟨front.length⟩ = some m := by
      have hlt : front.length < t.declarations.length := by
        rw [Forest.length_of_shape hshape, ← hlength]
        simp
      exact ⟨_, List.getElem?_eq_getElem hlt⟩
    have hat : (Forest.flatten (fs ++ n :: gs))[i]? = some n := by
      rw [hindex]
      exact Forest.getElem?_flatten_take (by rw [← hlength]; simp)
    have hlabel := label_extracted hlabels hat (hnodes m hm)
    rw [Comments.attached, htext, label_translateDeclaration hn] at hlabel
    exact ⟨m, hm, hnodes m hm, by rw [hlabel]; rfl, by rw [hlabel]; rfl, by rw [hlabel]; rfl,
      by rw [hlabel]; rfl⟩

/-- An interface and an exported alias of a union, of which one arm starts where the alias does. -/
def neighbours : List Declaration :=
  [.interface ⟨0, 20⟩ "A" [.property ⟨14, 18⟩ (.identifier "a") (some (.keyword ⟨16, 18⟩ .null))],
    .exported ⟨60, 99⟩ (.alias ⟨67, 99⟩ "B" (.union ⟨76, 99⟩
      [.keyword ⟨76, 82⟩ .string, .literal ⟨85, 89⟩ (.boolean true)]))]

theorem comment_above_declaration_neighbours :
    ∃ t n, extract neighbours [⟨some "first", ⟨22, 30⟩⟩, ⟨some "last", ⟨31, 40⟩⟩] = .ok t ∧
      t.get? ⟨1⟩ = some n ∧ n.label.name = "B" ∧ n.label.comment = some "last" := by
  obtain ⟨t, ht⟩ : ∃ t, extract neighbours
      [⟨some "first", ⟨22, 30⟩⟩, ⟨some "last", ⟨31, 40⟩⟩] = .ok t :=
    exists_extract_iff.2 ⟨_, _, rfl, rfl, by decide⟩
  have hlaid : LaidOut neighbours := by
    refine ⟨by decide, ?_, ?_⟩
    all_goals
      simp [neighbours, Declaration.inside, TypeMember.listed, TypeMember.inside, TypeNode.inside,
        TypeNode.listed]
      decide
  have hds : neighbours = [_] ++ _ :: [] := rfl
  have habove : Comment.Above ⟨some "last", ⟨31, 40⟩⟩ [neighbours[0]] neighbours[1] :=
    ⟨fun e he => by cases he; decide, by decide⟩
  obtain ⟨-, n, hn, -, hname, -, -, hcomment⟩ := comment_above_declaration ht hlaid hds
    (List.singleton_append).symm rfl habove (by simp)
  exact ⟨t, n, ht, hn, hname, hcomment⟩

end SchemaForest
