import SchemaForest.Proofs.Phases
import SchemaForest.Proofs.Ranges

/-!
# Comments above properties

A comment right above a property is attached to a node of that property.  The nodes of the property
stand together in flat order (`Stands`).  Of all others, those of what comes before it in the source
start too early for the comment, and those of what comes behind it start behind its end; nodes of a
place that is shared start with the place, which is too early as well.  This is shown for siblings
(`stands_of_siblings`) and from there, by induction from a node to its children, for the whole
source (`stands_of_sourceOrder`).

Which node of the property it is depends on the type: the top one exactly if nothing below it starts
earlier, and by `Ranges` that is so unless the type is misranged.
-/

namespace SchemaForest

open Fallible

variable {lookup : String → Option Handle} {name : String} {range : Span}

namespace AstNode

/-- Members stand below nodes that bring a label. -/
theorem own_ne_none_of_member {a : AstNode} {m : TypeMember} (h : member m ∈ a.children) :
    a.own lookup name range ≠ .ok none := by
  intro hown
  -- Of all nodes only interfaces and object types have members as children.
  cases a with
  | declaration d =>
    cases d with
    | interface s n ms =>
      have hown : (if n = "" then Except.error _ else Except.ok (some _)) = Except.ok none := hown
      split at hown <;> cases hown
    | _ => cases List.mem_singleton.1 h
  | type t =>
    cases t with
    | object s ms => cases hown
    | array | parenthesized => cases List.mem_singleton.1 h
    | union | intersection =>
      obtain ⟨t, -, ht⟩ := List.mem_map.1 h
      cases ht
    | _ => exact absurd h List.not_mem_nil
  | member m' =>
    cases m' with
    | foreign => exact absurd h List.not_mem_nil
    | property s key t =>
      cases t with
      | none => exact absurd h List.not_mem_nil
      | some t => cases List.mem_singleton.1 h

/-- A translated node has the translations of the children below it, unless it passes on, or takes
    in, the node of its only child, which is no member. -/
theorem translate_cases {a : AstNode} {n : Node} (h : a.translate lookup name range = .ok n) :
    (∃ b c, a.children = [b] ∧ (∀ m, b ≠ member m) ∧
      b.translate lookup (a.place name range).1 (a.place name range).2 = .ok c ∧
      n.children = c.children ∧
      (n.label = c.label ∨ n.label.range = range ∨ n.label.range = a.span)) ∨
    (a.children.mapM (translate lookup (a.place name range).1 (a.place name range).2) =
      .ok n.children ∧ (n.label.range = range ∨ n.label.range = a.span)) := by
  obtain ⟨l, cs, hown, hcs, hjoin⟩ := translate_eq_ok_iff.1 h
  have hlabel : ∀ x, l = some x → x.range = range ∨ x.range = a.span := by
    rintro x rfl
    exact range_own hown
  cases l with
  | none =>
    -- A forest that is passed on has one node only if there is one child.
    rw [join_none] at hjoin
    subst hjoin
    obtain ⟨b, bs, hb, hbs, hchildren⟩ := List.forall₂_cons_right_iff.1 hcs
    obtain rfl := List.forall₂_nil_right_iff.1 hbs
    refine Or.inl ⟨b, n, hchildren, ?_, hb, rfl, Or.inl rfl⟩
    rintro m rfl
    exact own_ne_none_of_member (hchildren ▸ List.mem_singleton_self _) hown
  | some x =>
    rcases a.join_some with h | ⟨⟨s, m, s', ms, rfl⟩, h⟩
    · rw [h] at hjoin
      obtain rfl := List.singleton_inj.1 hjoin
      exact Or.inr ⟨mapM_eq_ok_iff.2 hcs, hlabel x rfl⟩
    · rw [h] at hjoin
      obtain rfl := List.singleton_inj.1 hjoin
      obtain ⟨c, ds, hc, hds, rfl⟩ := List.forall₂_cons_left_iff.1 hcs
      obtain rfl := List.forall₂_nil_left_iff.1 hds
      exact Or.inl ⟨_, c, rfl, fun _ => AstNode.noConfusion, hc, List.append_nil _,
        Or.inr (hlabel x rfl)⟩

end AstNode

/-! ## Where a property stands in flat order -/

/-- The tree of a property stands among nodes of which those in front start at `stop` or before, and
    those behind start at `stop` or before, or at the end of the property or behind it. -/
def Stands (lookup : String → Option Handle) (p : TypeMember) (stop : Nat) (nodes : List Node) :
    Prop :=
  ∃ front top back, nodes = front ++ top.flatten ++ back ∧ translateMember lookup p = .ok top ∧
    (∀ n ∈ front, n.label.range.start ≤ stop) ∧
    ∀ n ∈ back, n.label.range.start ≤ stop ∨ p.span.stop ≤ n.label.range.start

theorem Stands.append {p : TypeMember} {stop : Nat} {xs nodes ys : List Node}
    (hxs : ∀ n ∈ xs, n.label.range.start ≤ stop) (h : Stands lookup p stop nodes)
    (hys : ∀ n ∈ ys, n.label.range.start ≤ stop ∨ p.span.stop ≤ n.label.range.start) :
    Stands lookup p stop (xs ++ nodes ++ ys) := by
  obtain ⟨front, top, back, rfl, htop, hfront, hback⟩ := h
  refine ⟨xs ++ front, top, back ++ ys, by simp, htop, fun n hn => ?_, fun n hn => ?_⟩
  · exact (List.mem_append.1 hn).elim (hxs n) (hfront n)
  · exact (List.mem_append.1 hn).elim (hback n) (hys n)

section Source

variable {p : TypeMember} {stop : Nat}

/-- A property that is, or is inside of, one of several siblings stands among the nodes of all of
    them as it does among those of that one. -/
theorem stands_of_siblings {bs before after : List AstNode} {cs : Forest Label}
    (hcs : bs.mapM (AstNode.translate lookup name range) = .ok cs)
    (hordered : bs.Pairwise fun b c => b.span.Precedes c.span)
    (hnested : ∀ b ∈ bs, b.WellNested)
    (hsplit : bs.flatMap AstNode.preorder = before ++ .member p :: after)
    (hbefore : ∀ b ∈ before, b.span.start ≤ stop) (hrange : range.start ≤ stop)
    (hinside : ∀ b ∈ bs, ∀ c u v, b.translate lookup name range = .ok c →
      b.inside = u ++ .member p :: v → (∀ d ∈ u, d.span.start ≤ stop) → b.span.start ≤ stop →
        c.label.range.start ≤ stop ∧ Stands lookup p stop (Forest.flatten c.children)) :
    Stands lookup p stop (Forest.flatten cs) := by
  obtain ⟨l₁, b, l₂, u, v, rfl, hb, rfl, -⟩ := flatMap_eq_append_cons hsplit
  obtain ⟨cs₁, cs₂, hcs₁, hcs₂, rfl⟩ := mapM_append_eq_ok_iff.1 hcs
  obtain ⟨c, cs₂, hc, hrest, rfl⟩ := List.forall₂_cons_left_iff.1 (mapM_eq_ok_iff.1 hcs₂)
  have hp : AstNode.member p ∈ b.preorder := by
    rw [hb]
    exact List.mem_append_right _ List.mem_cons_self
  -- The property is the sibling itself, or inside of it and then behind its start.
  have hmiddle : Stands lookup p stop c.flatten := by
    cases u with
    | nil =>
      obtain ⟨rfl, -⟩ := List.cons.inj hb
      exact ⟨[], c, [], by simp, hc, by simp, by simp⟩
    | cons d u =>
      obtain ⟨rfl, hbelow⟩ := List.cons.inj hb
      have hu : ∀ d ∈ b :: u, d.span.start ≤ stop :=
        fun d hd => hbefore d (List.mem_append_right _ hd)
      obtain ⟨hroot, hstands⟩ := hinside b (by simp) c u v hc hbelow
        (fun d hd => hu d (.tail _ hd)) (hu b List.mem_cons_self)
      have hroots : ∀ n ∈ [c], n.label.range.start ≤ stop := by
        intro n hn
        rw [List.mem_singleton.1 hn]
        exact hroot
      rw [Tree.flatten_eq, ← List.singleton_append, ← List.append_nil ([c] ++ _)]
      exact hstands.append hroots fun n hn => absurd hn List.not_mem_nil
  rw [Forest.flatten_append, Forest.flatten_cons, ← List.append_assoc]
  refine hmiddle.append (fun n hn => ?_) fun n hn => ?_
  · -- In front everything belongs to siblings that come before the property.
    rcases AstNode.range_of_mem_flatten (mapM_eq_ok_iff.1 hcs₁) hn with h | ⟨b₁, hb₁, d, hd, h⟩ <;>
      rw [h]
    · exact hrange
    · exact hbefore d (List.mem_append_left _ (List.mem_flatMap.2 ⟨b₁, hb₁, hd⟩))
  · -- Behind everything has the range of the place or belongs to siblings behind the property.
    rcases AstNode.range_of_mem_flatten hrest hn with h | ⟨b₂, hb₂, d, hd, h⟩ <;> rw [h]
    · exact Or.inl hrange
    · have hprecedes := (List.pairwise_cons.1 (List.pairwise_append.1 hordered).2.1).1 b₂ hb₂
      have hstop := (hnested b (by simp)).stop_le hp
      have hstart := (hnested b₂ (by simp [hb₂])).start_le hd
      exact Or.inr (Nat.le_trans hstop (Nat.le_trans hprecedes.2 hstart))

/-- What is in front of a property inside a node starts at `stop` or before; then so does the node
    that is made of it, and the property stands among the nodes below. -/
theorem stands_of_inside {a : AstNode} {before after : List AstNode} {n : Node}
    (hn : a.translate lookup name range = .ok n) (hnested : a.WellNested)
    (hsplit : a.inside = before ++ .member p :: after)
    (hbefore : ∀ b ∈ before, b.span.start ≤ stop) (hself : a.span.start ≤ stop)
    (hrange : range.start ≤ stop) :
    n.label.range.start ≤ stop ∧ Stands lookup p stop (Forest.flatten n.children) := by
  induction a using AstNode.induction generalizing name range before after n with
  | step a ih =>
    obtain ⟨-, ordered, -, nested⟩ := hnested
    rw [AstNode.inside_eq] at hsplit
    -- An only child that is no member comes before the property.
    have honly : ∀ {b : AstNode}, a.children = [b] → (∀ m, b ≠ .member m) →
        ∃ u, before = b :: u ∧ b.inside = u ++ .member p :: after := by
      intro b hb hmember
      rw [hb, List.flatMap_singleton] at hsplit
      cases before with
      | nil => exact absurd (List.cons.inj hsplit).1 (hmember p)
      | cons d u =>
        obtain ⟨rfl, h⟩ := List.cons.inj hsplit
        exact ⟨u, rfl, h⟩
    have hplace : (a.place name range).2.start ≤ stop := by
      rcases a.place_range name range with h | h | ⟨t, ht, h⟩ <;> rw [h]
      · exact hrange
      · exact hself
      · obtain ⟨u, rfl, -⟩ := honly ht fun _ => AstNode.noConfusion
        exact hbefore (.type t) List.mem_cons_self
    rcases AstNode.translate_cases hn with
      ⟨b, c, hb, hmember, hc, hbelow, hlabel⟩ | ⟨hcs, hlabel⟩
    · obtain ⟨u, rfl, hinside⟩ := honly hb hmember
      have hchild : b ∈ a.children := hb ▸ List.mem_singleton_self b
      obtain ⟨hroot, hstands⟩ := ih b hchild hc (nested b hchild) hinside
        (fun d hd => hbefore d (.tail _ hd)) (hbefore b List.mem_cons_self) hplace
      rw [hbelow]
      refine ⟨?_, hstands⟩
      rcases hlabel with h | h | h <;> rw [h] <;> assumption
    · refine ⟨?_, stands_of_siblings hcs ordered nested hsplit hbefore hplace
        fun b hb c u v hc hinside hu hstart =>
          ih b hb hc (nested b hb) hinside hu hstart hplace⟩
      rcases hlabel with h | h <;> rw [h] <;> assumption

/-- In a source a property stands among nodes that start no later than what is in front of it, or
    not before its end. -/
theorem stands_of_sourceOrder {ds : List Declaration} {before after : List AstNode}
    {forest : Forest Label} (hforest : ds.mapM (translateDeclaration lookup) = .ok forest)
    (hordered : ds.Pairwise fun d e => d.span.Precedes e.span)
    (hnested : ∀ d ∈ ds, (AstNode.declaration d).WellNested)
    (hsplit : sourceOrder ds = before ++ .member p :: after)
    (hbefore : ∀ b ∈ before, b.span.start ≤ stop) :
    Stands lookup p stop (Forest.flatten forest) := by
  have hplace : (⟨0, 0⟩ : Span).start ≤ stop := Nat.zero_le stop
  have hcs : (ds.map AstNode.declaration).mapM (AstNode.translate lookup "" ⟨0, 0⟩) =
      .ok forest := by
    rw [List.mapM_map]
    exact hforest
  refine stands_of_siblings hcs (List.pairwise_map.2 hordered) (fun b hb => ?_)
    ((List.flatMap_map ..).trans hsplit) hbefore hplace fun b hb c u v hc hsplit hu hb' => ?_
  · obtain ⟨d, hd, rfl⟩ := List.mem_map.1 hb
    exact hnested d hd
  · obtain ⟨d, hd, rfl⟩ := List.mem_map.1 hb
    exact stands_of_inside hc (hnested d hd) hsplit hu hb' hplace

end Source

/-- The nodes of a property start inside its span. -/
theorem start_of_property {s : Span} {ty : TypeNode} {name : String} {top : Node}
    (hnested : (AstNode.type ty).WellNested) (hwithin : ty.span.Within s)
    (htop : translateType lookup name s ty = .ok top) {x : Label} (hx : x ∈ Forest.labels [top]) :
    s.start ≤ x.range.start ∧ x.range.start ≤ s.stop := by
  have htranslate : (AstNode.type ty).translate lookup name s = .ok top := htop
  obtain ⟨hstart, hrange, hstop⟩ := hwithin
  rcases AstNode.range_mem htranslate hx with h | ⟨b, hb, h⟩ <;> rw [h]
  · exact ⟨Nat.le_refl _, Nat.le_trans hstart (Nat.le_trans hrange hstop)⟩
  · rcases List.mem_cons.1 hb with rfl | hb
    · exact ⟨hstart, Nat.le_trans hrange hstop⟩
    · obtain ⟨hstart', hrange', hstop'⟩ := hnested.within_of_mem hb
      exact ⟨Nat.le_trans hstart hstart', Nat.le_trans hrange' (Nat.le_trans hstop' hstop)⟩

/-! ## The node of a property that a comment is for -/

section Target

variable {front back : List Node} {top : Node} {stop : Nat}

/-- If nothing in the tree of a property starts before its top node, a comment is for that node. -/
theorem isTarget_top (hfront : ∀ n ∈ front, n.label.range.start ≤ stop)
    (hstop : stop < top.label.range.start)
    (hfirst : ∀ n ∈ top.flatten, top.label.range.start ≤ n.label.range.start)
    (hback : ∀ m ∈ back, m.label.range.start ≤ stop ∨
      top.label.range.start ≤ m.label.range.start) :
    Comments.IsTarget (front ++ top.flatten ++ back) stop front.length := by
  rw [Tree.flatten_eq, List.append_assoc, List.cons_append]
  refine Comments.IsTarget.of_append (fun m hm => Or.inl (hfront m hm)) hstop fun m hm => ?_
  rcases List.mem_append.1 hm with hm | hm
  · exact Or.inr (hfirst m (by rw [Tree.flatten_eq]; exact .tail _ hm))
  · exact hback m hm

/-- If something in the tree of a property starts before its top node, a comment is for a node below
    the top node. -/
theorem exists_isTarget_below {n : Node} (hfront : ∀ n ∈ front, n.label.range.start ≤ stop)
    (hn : n ∈ top.flatten) (hstop : stop < n.label.range.start)
    (hlt : n.label.range.start < top.label.range.start)
    (hback : ∀ m ∈ back, m.label.range.start ≤ stop ∨
      n.label.range.start ≤ m.label.range.start) :
    ∃ offset, offset ≠ 0 ∧ offset < top.flatten.length ∧
      Comments.IsTarget (front ++ top.flatten ++ back) stop (front.length + offset) := by
  obtain ⟨offset, y, hy, hyn, htarget⟩ := Comments.exists_isTarget_of_mem hfront hn hstop hback
  refine ⟨offset, fun hzero => ?_, (List.getElem?_eq_some_iff.1 hy).1, htarget⟩
  -- At the offset 0 stands the top node, but the target starts no later than the other node.
  rw [hzero, Tree.flatten_eq] at hy
  obtain rfl : top = y := Option.some.inj hy
  omega

end Target

/-- A comment right above a property is attached to a node of the property: to the top one exactly
    if nothing in the tree of the property starts before that, and this is so exactly if the type of
    the property is not misranged. -/
theorem comment_above_property {ds : List Declaration} {cs : List Comment} {t : Table}
    {before after : List AstNode} {s : Span} {key : PropertyKey} {ty : TypeNode} {c : Comment}
    {text : String} (hextract : extract ds cs = .ok t)
    (hordered : ds.Pairwise fun d e => d.span.Precedes e.span)
    (hnested : ∀ d ∈ ds, (AstNode.declaration d).WellNested)
    (hsplit : sourceOrder ds = before ++ .member (.property s key (some ty)) :: after)
    (hbody : c.body = some text) (hstart : c.span.stop < s.start)
    (hbefore : ∀ a ∈ before, a.span.start ≤ c.span.stop) :
    ∃ forest front top back offset, onePass ds = .ok forest ∧
      Forest.flatten forest = front ++ top.flatten ++ back ∧
      translateMember (index ds) (.property s key (some ty)) = .ok top ∧
      Comments.associate t.nodes [c] = .ok [⟨front.length + offset, text⟩] ∧
      offset < top.flatten.length ∧ (offset = 0 ↔ ¬ ty.Misranged) ∧
      ((∀ n ∈ top.flatten, top.label.range.start ≤ n.label.range.start) ↔ ¬ ty.Misranged) := by
  obtain ⟨forest, attachments, hforest, -, -, hlabels⟩ := labels_extract hextract
  obtain ⟨front, top, back, hflat, htop, hfront, hback⟩ :=
    stands_of_sourceOrder hforest hordered hnested hsplit hbefore
  obtain ⟨name, -, htype⟩ := bind_eq_ok_iff.1 htop
  -- The property is well nested, and its type starts behind its start.
  have hmem : AstNode.member (.property s key (some ty)) ∈ sourceOrder ds := by
    rw [hsplit]
    exact List.mem_append_right _ List.mem_cons_self
  obtain ⟨d, hd, hmem⟩ := List.mem_flatMap.1 hmem
  obtain ⟨within, -, late, nested⟩ := (hnested d hd).of_mem hmem
  have hty : AstNode.type ty ∈ (AstNode.member (.property s key (some ty))).children :=
    List.mem_singleton_self _
  have hlate : s.start < ty.span.start := late _ rfl _ hty
  have hbounds : ∀ n ∈ top.flatten,
      s.start ≤ n.label.range.start ∧ n.label.range.start ≤ s.stop :=
    fun n hn => start_of_property (nested _ hty) (within _ hty) htype (Forest.label_mem_labels hn)
  have hself : top ∈ top.flatten := by
    rw [Tree.flatten_eq]
    exact List.mem_cons_self
  have hbehind : ∀ n ∈ top.flatten, ∀ m ∈ back, m.label.range.start ≤ c.span.stop ∨
      n.label.range.start ≤ m.label.range.start := by
    intro n hn m hm
    exact (hback m hm).imp id fun h => Nat.le_trans (hbounds n hn).2 h
  refine ⟨forest, front, top, back, ?_⟩
  rw [associate_extracted hlabels]
  by_cases hmis : ty.Misranged
  · obtain ⟨x, hx, hlt⟩ := exists_start_lt_of_misranged (nested _ hty) hlate hmis htype
    obtain ⟨n, hn, rfl⟩ := Forest.exists_of_mem_labels hx
    obtain ⟨offset, hne, hinside, htarget⟩ := exists_isTarget_below hfront hn
      (Nat.lt_of_lt_of_le hstart (hbounds n hn).1) hlt (hbehind n hn)
    rw [← hflat] at htarget
    refine ⟨offset, hforest, hflat, htop, (Comments.associate_singleton hbody).2 htarget, hinside,
      ⟨fun hzero => absurd hzero hne, fun h => absurd hmis h⟩,
      ⟨fun h => ?_, fun h => absurd hmis h⟩⟩
    exact absurd (h n hn) (Nat.not_le_of_lt hlt)
  · have hfirst : ∀ n ∈ top.flatten, top.label.range.start ≤ n.label.range.start := fun n hn =>
      start_le_of_not_misranged (nested _ hty) (Nat.le_of_lt hlate) hmis htype
        (Forest.label_mem_labels hn)
    have htarget := isTarget_top hfront (Nat.lt_of_lt_of_le hstart (hbounds top hself).1) hfirst
      (hbehind top hself)
    rw [← hflat] at htarget
    exact ⟨0, hforest, hflat, htop, (Comments.associate_singleton hbody).2 htarget,
      List.length_pos_of_mem hself, ⟨fun _ => hmis, fun _ => rfl⟩, ⟨fun _ => hmis, fun _ => hfirst⟩⟩

/-- An interface with a property of an intersection type whose parts are object types. -/
def overlay : List Declaration :=
  [.interface ⟨0, 71⟩ "A" [.property ⟨36, 69⟩ (.identifier "a") (some (.intersection ⟨39, 68⟩
    [.object ⟨39, 52⟩ [.property ⟨41, 50⟩ (.identifier "x") (some (.keyword ⟨44, 50⟩ .string))],
      .object ⟨55, 68⟩
        [.property ⟨57, 66⟩ (.identifier "y") (some (.keyword ⟨60, 66⟩ .number))]]))]]

theorem overlay_wellNested : ∀ d ∈ overlay, (AstNode.declaration d).WellNested := by
  have hobject : ∀ {s : Span} {m : TypeMember}, m.span.Within s → (AstNode.member m).WellNested →
      (AstNode.type (.object s [m])).WellNested :=
    fun hwithin hm => .intro (List.forall_mem_singleton.2 hwithin) (List.pairwise_singleton ..)
      (fun _ h => (nomatch h)) (List.forall_mem_singleton.2 hm)
  refine List.forall_mem_singleton.2 (.intro (by decide) (by decide) (fun _ h => (nomatch h))
    (List.forall_mem_singleton.2 (.property (by decide) (by decide) ?_)))
  refine .intro (by decide) (by decide) (fun _ h => (nomatch h))
    (List.forall_mem_cons.2 ⟨?_, List.forall_mem_singleton.2 ?_⟩)
  · exact hobject (by decide) (.property (by decide) (by decide) (.of_children_eq_nil rfl))
  · exact hobject (by decide) (.property (by decide) (by decide) (.of_children_eq_nil rfl))

theorem comment_above_property_overlay :
    ∃ (t : Table) (forest : Forest Label) (front : List Node) (top : Node) (offset : Nat),
      extract overlay [⟨some "both", ⟨16, 33⟩⟩] = .ok t ∧ onePass overlay = .ok forest ∧
      (Forest.flatten forest)[front.length]? = some top ∧ offset ≠ 0 ∧
      offset < top.flatten.length ∧
      Comments.associate t.nodes [⟨some "both", ⟨16, 33⟩⟩] =
        .ok [⟨front.length + offset, "both"⟩] := by
  obtain ⟨t, ht⟩ : ∃ t, extract overlay [⟨some "both", ⟨16, 33⟩⟩] = .ok t :=
    exists_extract_iff.2 ⟨_, _, rfl, rfl, by decide⟩
  have hsplit : sourceOrder overlay = [_] ++ .member (.property _ _ (some _)) :: _ := rfl
  obtain ⟨forest, front, top, back, offset, hforest, hflat, -, htarget, hlt, hzero, -⟩ :=
    comment_above_property (c := ⟨some "both", ⟨16, 33⟩⟩) ht (by decide) overlay_wellNested hsplit
      rfl (by decide) (by decide)
  have hbelow : offset ≠ 0 := fun h => hzero.1 h ⟨_, _, _, rfl, List.mem_cons_self, .object ..⟩
  refine ⟨t, forest, front, top, offset, ht, hforest, ?_, hbelow, hlt, htarget⟩
  rw [hflat, Tree.flatten_eq]
  simp

/-- Of the nodes of the overlay, the comment above the property goes to the first part, at index 2,
    and not to the intersection at index 1. -/
theorem overlay_comment_on_part :
    ∃ t t', Table.ofDeclarations overlay = .ok t ∧ t.resolve = (t', none) ∧
      (t'.nodes.map fun n => (n.label.name, n.label.kind, n.label.range.start)) =
        [("A", .declaration, 0), ("a", .intersection, 39), ("a", .object, 36), ("x", .string, 41),
          ("a", .object, 36), ("y", .number, 57)] ∧
      Comments.associate t'.nodes [⟨some "both", ⟨16, 33⟩⟩] = .ok [⟨2, "both"⟩] := by
  refine ⟨_, _, rfl, rfl, rfl, (Comments.associate_singleton rfl).2 ?_⟩
  exact @Comments.IsTarget.of_append [_, _] _ _ _ (by decide) (by decide) (by decide)

end SchemaForest
