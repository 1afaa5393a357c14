import SchemaForest.Proofs.Attachment
import SchemaForest.Proofs.View

/-!
# What the view keeps

Two extracted tables with one view are one table, but for what the view leaves out.  The view leaves
out the ranges if it is told to, and it leaves nothing else out.

The crux is that everything a node holds can be read off its object (`Label.seen_of_object`), although
the view shows some of it in other terms:

1. A literal shows as its value, and that a number is finite keeps it apart from null.
2. A reference shows as the name of its declaration.  As names differ, the name has the handle
   (`Table.handle_eq_of_name`); and as a reference is a leaf, nothing is lost below it.
3. Annotations show as plain values, but they are decoded from the comment, which shows as it is.

Numbers may be looked at more coarsely on the way: the proof takes any function of them, so it holds of
views that agree up to the sign of zeros (`Double.unsigned`) as well as of those that are equal.
-/

namespace SchemaForest

/-! ## Looking at numbers -/

namespace Double

/-- The number with both zeros made one: a zero loses its sign. -/
def unsigned : Double → Double
  | .nan => .nan
  | .signed s r => .signed (s && r.val != 0) r

end Double

namespace Json

mutual
/-- The value with a function applied to its floating point numbers. -/
def mapFloats (f : Double → Double) : Json → Json
  | .null => .null
  | .bool b => .bool b
  | .integer i => .integer i
  | .float x => .float (f x)
  | .string s => .string s
  | .array items => .array (mapFloatsItems f items)
  | .object fields => .object (mapFloatsFields f fields)

def mapFloatsItems (f : Double → Double) : List Json → List Json
  | [] => []
  | v :: rest => mapFloats f v :: mapFloatsItems f rest

def mapFloatsFields (f : Double → Double) : List (String × Json) → List (String × Json)
  | [] => []
  | (k, v) :: rest => (k, mapFloats f v) :: mapFloatsFields f rest
end

variable (f : Double → Double)

theorem mapFloatsItems_eq (items : List Json) : mapFloatsItems f items = items.map (mapFloats f) := by
  induction items with
  | nil => rfl
  | cons v rest ih => rw [mapFloatsItems, ih, List.map_cons]

theorem mapFloatsFields_eq (fields : List (String × Json)) :
    mapFloatsFields f fields = fields.map fun p => (p.1, mapFloats f p.2) := by
  induction fields with
  | nil => rfl
  | cons p rest ih => rw [mapFloatsFields, ih, List.map_cons]

theorem field?_mapFloats (v : Json) (name : String) :
    (v.mapFloats f).field? name = (v.field? name).map (mapFloats f) := by
  cases v with
  | object fields =>
    rw [mapFloats, field?, field?, mapFloatsFields_eq]
    induction fields with
    | nil => rfl
    | cons p rest ih =>
      rw [Entries.get?, Entries.get?, List.map_cons, List.lookup_cons, List.lookup_cons]
      cases name == p.1 with
      | true => rfl
      | false => exact ih
  | _ => rfl

theorem textAt?_mapFloats (v : Json) (name : String) :
    (v.mapFloats f).textAt? name = v.textAt? name := by
  rw [textAt?, textAt?, field?_mapFloats]
  cases v.field? name with
  | none => rfl
  | some w => cases w <;> rfl

theorem textAt?_eq_of_mapFloats {f : Double → Double} {v w : Json} (h : v.mapFloats f = w.mapFloats f)
    (name : String) : v.textAt? name = w.textAt? name := by
  rw [← textAt?_mapFloats f, h, textAt?_mapFloats]

theorem children_mapFloats (v : Json) : (v.mapFloats f).children = v.children.map (mapFloats f) := by
  rw [children, children, field?_mapFloats]
  cases v.field? "children" with
  | none => rfl
  | some w =>
    cases w with
    | array items => exact mapFloatsItems_eq f items
    | _ => rfl

end Json

/-! ## What a label shows -/

namespace Kind

/-- The kind with a function applied to its number. -/
def mapNumber (f : Double → Double) : Kind → Kind
  | numberLiteral x => numberLiteral (f x)
  | kind => kind

theorem mapNumber_id (kind : Kind) : kind.mapNumber id = kind := by
  cases kind <;> rfl

/-- A kind without a handle is recovered from its name, its value and the name that it holds. -/
theorem mapNumber_eq {f : Double → Double} {kind kind' : Kind} (hname : kind.name = kind'.name)
    (hlink : ∀ h, kind ≠ reference h) (hunresolved : kind.unresolved? = kind'.unresolved?)
    (hliteral : kind.literal?.map (Json.mapFloats f) = kind'.literal?.map (Json.mapFloats f))
    (hfinite : ∀ x, kind = numberLiteral x → x.isFinite = true)
    (hfinite' : ∀ x, kind' = numberLiteral x → x.isFinite = true) :
    kind.mapNumber f = kind'.mapNumber f := by
  -- Kinds of different constructors have different names.
  cases kind <;> cases kind' <;> first
    | rfl
    | (dsimp only [name] at hname; exact absurd hname (by decide))
    | skip
  case stringLiteral.stringLiteral s s' =>
    cases hliteral
    rfl
  case numberLiteral.numberLiteral x x' =>
    rw [literal?, literal?, hfinite x rfl, hfinite' x' rfl] at hliteral
    have hvalue : some (Json.float (f x)) = some (.float (f x')) := hliteral
    rw [mapNumber, mapNumber, Json.float.inj (Option.some.inj hvalue)]
  case booleanLiteral.booleanLiteral b b' =>
    cases hliteral
    rfl
  case reference.reference h h' => exact absurd rfl (hlink h)
  case unresolved.unresolved name name' =>
    cases hunresolved
    rfl

end Kind

namespace Label

variable {options : ViewOptions} {f : Double → Double}

/-- The label as far as a view shows it: its number through a function, and its range only in a view
    with ranges. -/
def seen (options : ViewOptions) (f : Double → Double) (a : Label) : Label :=
  { a with kind := a.kind.mapNumber f, range := (a.shownRange? options).getD default }

/-- With its kind known, a label whose annotations are those of its comment is recovered from its
    object, and so are the objects of the children. -/
theorem seen_of_object {a b : Label} {target target' : Option String} {cs cs' : List Json}
    (h : (a.object options target cs).mapFloats f = (b.object options target' cs').mapFloats f)
    (hkind : a.kind.mapNumber f = b.kind.mapNumber f)
    (ha : a.annotations = a.comment.map Annotations.ofText)
    (hb : b.annotations = b.comment.map Annotations.ofText) :
    a.seen options f = b.seen options f ∧ cs.map (Json.mapFloats f) = cs'.map (Json.mapFloats f) := by
  have hname : a.name = b.name := Option.some.inj (Json.textAt?_eq_of_mapFloats h "name")
  have hcomment : a.comment = b.comment := by
    rw [← comment_object options a target cs, Json.textAt?_eq_of_mapFloats h, comment_object]
  have hrange : a.shownRange? options = b.shownRange? options := by
    have hshown := congrArg (Json.field? · "sourceRange") h
    simp only [Json.field?_mapFloats, range_object, Option.map_map] at hshown
    refine Option.map_injective (fun s s' hs => ?_) hshown
    have hends : Json.array [.integer s.start, .integer s.stop] =
        .array [.integer s'.start, .integer s'.stop] := hs
    rw [Json.array.injEq, List.cons.injEq, List.cons.injEq, Json.integer.injEq, Json.integer.injEq,
      Int.ofNat_inj, Int.ofNat_inj] at hends
    obtain ⟨start, stop⟩ := s
    obtain ⟨hstart, hstop, -⟩ := hends
    rw [Span.mk.injEq]
    exact ⟨hstart, hstop⟩
  have hchildren := congrArg Json.children h
  rw [Json.children_mapFloats, Json.children_mapFloats, children_object, children_object] at hchildren
  refine ⟨?_, hchildren⟩
  rw [seen, seen, ha, hb, hname, hkind, hcomment, hrange]

end Label

/-! ## What a table shows -/

/-- Lists that agree through two functions agree through any two that tell no more. -/
theorem map_eq_of_map_eq {α β γ δ : Type} {f : α → γ} {f' : β → γ} {g : α → δ} {g' : β → δ}
    {as : List α} {bs : List β} (h : as.map f = bs.map f')
    (hg : ∀ a ∈ as, ∀ b ∈ bs, f a = f' b → g a = g' b) : as.map g = bs.map g' := by
  induction as generalizing bs with
  | nil =>
    rw [List.map_nil, eq_comm, List.map_eq_nil_iff] at h
    rw [h]
    rfl
  | cons a as ih =>
    cases bs with
    | nil => cases h
    | cons b bs =>
      obtain ⟨hhead, htail⟩ := List.cons.inj h
      rw [List.map_cons, List.map_cons, hg a List.mem_cons_self b List.mem_cons_self hhead,
        ih htail fun a' ha b' hb => hg a' (List.mem_cons_of_mem _ ha) b' (List.mem_cons_of_mem _ hb)]

namespace Table

variable {t t' : Table} {options : ViewOptions} {f : Double → Double}

/-- A table of which a view leaves nothing out but ranges. -/
structure Legible (t : Table) : Prop extends Shaped t where
  finite : ∀ n ∈ t.nodes, ∀ x, n.label.kind = .numberLiteral x → x.isFinite = true
  annotated : ∀ n ∈ t.nodes, n.label.annotations = n.label.comment.map Annotations.ofText

/-- The declarations of a table as far as a view shows them. -/
def seen (t : Table) (options : ViewOptions) (f : Double → Double) : Forest Label :=
  Forest.mapLabels (Label.seen options f) t.declarations

/-- In tables with the same names, one name has one handle. -/
theorem handle_eq_of_name (hnodup : t.names.Nodup) (hnames : t.names = t'.names) {h h' : Handle}
    {d d' : Node} (hd : t.get? h = some d) (hd' : t'.get? h' = some d')
    (hname : d.label.name = d'.label.name) : h = h' := by
  have hfound : t.handle? d.label.name = some h := (handle?_eq_some_iff hnodup).2 ⟨d, hd, rfl⟩
  have hfound' : t'.handle? d'.label.name = some h' :=
    (handle?_eq_some_iff (hnames ▸ hnodup)).2 ⟨d', hd', rfl⟩
  rw [handle?, hnames, hname, ← handle?, hfound'] at hfound
  exact (Option.some.inj hfound).symm

/-- References with one view: what they refer to has one name, and both are leaves. -/
theorem seen_of_reference (ht : t.Legible) (ht' : t'.Legible) (hnames : t.names = t'.names)
    {closed closed' : List Handle} {n n' : Node} (hn : n ∈ t.nodes) (hn' : n' ∈ t'.nodes)
    {k k' : Handle} (hkind : n.label.kind = .reference k) (hkind' : n'.label.kind = .reference k')
    (h : (t.nodeView options closed n).mapFloats f = (t'.nodeView options closed' n').mapFloats f) :
    n.mapLabels (Label.seen options f) = n'.mapLabels (Label.seen options f) := by
  obtain ⟨d, hd⟩ := ht.linked n hn k hkind
  obtain ⟨d', hd'⟩ := ht'.linked n' hn' k' hkind'
  rw [nodeView_reference hkind hd, nodeView_reference hkind' hd'] at h
  have htarget : d.label.name = d'.label.name :=
    Option.some.inj (Json.textAt?_eq_of_mapFloats h "referenceName")
  obtain rfl := handle_eq_of_name ht.nodup hnames hd hd' htarget
  have hsame : n.label.kind.mapNumber f = n'.label.kind.mapNumber f := by rw [hkind, hkind']
  obtain ⟨hseen, -⟩ := Label.seen_of_object h hsame (ht.annotated n hn) (ht'.annotated n' hn')
  have hnil : n.children = [] := ht.leaves n hn (hkind ▸ trivial)
  have hnil' : n'.children = [] := ht'.leaves n' hn' (hkind' ▸ trivial)
  obtain ⟨a, cs⟩ := n
  obtain ⟨b, cs'⟩ := n'
  obtain rfl : cs = [] := hnil
  obtain rfl : cs' = [] := hnil'
  exact congrArg (Tree.node · []) hseen

/-- Nodes with one view that are no references are equal if children with one view are. -/
theorem seen_of_inner (ht : t.Legible) (ht' : t'.Legible) {closed closed' : List Handle}
    {n n' : Node} (hn : n ∈ t.nodes) (hn' : n' ∈ t'.nodes)
    (hkind : ∀ k, n.label.kind ≠ .reference k) (hkind' : ∀ k, n'.label.kind ≠ .reference k)
    (h : (t.nodeView options closed n).mapFloats f = (t'.nodeView options closed' n').mapFloats f)
    (hchildren : ∀ c ∈ n.children, ∀ c' ∈ n'.children,
      (t.nodeView options closed c).mapFloats f = (t'.nodeView options closed' c').mapFloats f →
      c.mapLabels (Label.seen options f) = c'.mapLabels (Label.seen options f)) :
    n.mapLabels (Label.seen options f) = n'.mapLabels (Label.seen options f) := by
  have hname := Json.textAt?_eq_of_mapFloats h "kind"
  rw [kind_nodeView, kind_nodeView, Option.some_inj] at hname
  rw [nodeView_inner hkind, nodeView_inner hkind'] at h
  have hsame : n.label.kind.mapNumber f = n'.label.kind.mapNumber f := by
    refine Kind.mapNumber_eq hname hkind ?_ ?_ (ht.finite n hn) (ht'.finite n' hn')
    · have hlink := Json.textAt?_eq_of_mapFloats h "referenceName"
      rwa [Label.unresolved_object, Label.unresolved_object] at hlink
    · have hvalue := congrArg (Json.field? · "literalValue") h
      simpa only [Json.field?_mapFloats, Label.literal_object] using hvalue
  obtain ⟨hseen, hviews⟩ := Label.seen_of_object h hsame (ht.annotated n hn) (ht'.annotated n' hn')
  rw [List.map_map, List.map_map] at hviews
  have hbelow := map_eq_of_map_eq hviews hchildren
  obtain ⟨a, cs⟩ := n
  obtain ⟨b, cs'⟩ := n'
  rw [Tree.mapLabels_node, Tree.mapLabels_node, Forest.mapLabels_eq, Forest.mapLabels_eq]
  exact congrArg₂ Tree.node hseen hbelow

/-- Nodes with one view are equal as far as the view shows them, whatever is open around them. -/
theorem seen_of_nodeView (ht : t.Legible) (ht' : t'.Legible) (hnames : t.names = t'.names)
    {closed closed' : List Handle} {n n' : Node} (hn : ∀ m ∈ n.flatten, m ∈ t.nodes)
    (hn' : ∀ m ∈ n'.flatten, m ∈ t'.nodes)
    (h : (t.nodeView options closed n).mapFloats f = (t'.nodeView options closed' n').mapFloats f) :
    n.mapLabels (Label.seen options f) = n'.mapLabels (Label.seen options f) := by
  induction n using Tree.induction generalizing n' with
  | node a cs ih =>
    have hmem := hn _ (Tree.mem_flatten_self _)
    have hmem' := hn' _ (Tree.mem_flatten_self _)
    -- The name of the kind tells whether a node is a reference, so both are or none.
    have hname := Json.textAt?_eq_of_mapFloats h "kind"
    rw [kind_nodeView, kind_nodeView, Option.some_inj] at hname
    have hiff : (∃ k, (Tree.node a cs).label.kind = .reference k) ↔
        ∃ k, n'.label.kind = .reference k := by
      rw [← Kind.name_eq_reference_iff, hname, Kind.name_eq_reference_iff]
    by_cases href : ∃ k, (Tree.node a cs).label.kind = .reference k
    · obtain ⟨k', hkind'⟩ := hiff.1 href
      obtain ⟨k, hkind⟩ := href
      exact seen_of_reference ht ht' hnames hmem hmem' hkind hkind' h
    · refine seen_of_inner ht ht' hmem hmem' (not_exists.1 href)
        (not_exists.1 fun href' => href (hiff.2 href')) h fun c hc c' hc' hview => ?_
      exact ih c hc (fun m hm => hn m (Tree.mem_flatten_of_child hc hm))
        (fun m hm => hn' m (Tree.mem_flatten_of_child hc' hm)) hview

/-- Tables with one view are equal as far as the view shows them. -/
theorem seen_of_toJson (ht : t.Legible) (ht' : t'.Legible)
    (h : (t.toJson options).mapFloats f = (t'.toJson options).mapFloats f) :
    t.seen options f = t'.seen options f := by
  rw [toJson_eq, toJson_eq, Json.mapFloats, Json.mapFloats, Json.object.injEq,
    Json.mapFloatsFields_eq, Json.mapFloatsFields_eq, List.map_map, List.map_map] at h
  have hnames : t.names = t'.names := by
    rw [← map_name_entries, ← map_name_entries]
    exact map_eq_of_map_eq h fun e _ e' _ heq => congrArg Prod.fst heq
  rw [seen, seen, Forest.mapLabels_eq, Forest.mapLabels_eq, ← map_snd_entries, ← map_snd_entries,
    List.map_map, List.map_map]
  refine map_eq_of_map_eq h fun e he e' he' heq => ?_
  exact seen_of_nodeView ht ht' hnames (fun m hm => mem_nodes_of_get? (mem_entries_iff.1 he) hm)
    (fun m hm => mem_nodes_of_get? (mem_entries_iff.1 he') hm) (congrArg Prod.snd heq)

end Table

/-! ## Extracted tables -/

/-- All number literals of the source are finite. -/
def FiniteLiterals (ds : List Declaration) : Prop :=
  ∀ s x, AstNode.type (.literal s (.number x)) ∈ sourceOrder ds → x.isFinite = true

/-- The table of a source with finite literals is legible. -/
theorem legible_of_extract {ds : List Declaration} {cs : List Comment} {t : Table}
    (h : extract ds cs = .ok t) (hfinite : FiniteLiterals ds) : t.Legible := by
  obtain ⟨forest, hforest, hbare, hannotations⟩ := bare_extract h
  refine ⟨shaped_of_extract h, fun n hn x hkind => ?_, fun n hn => ?_⟩
  · have hnumbers : ∀ m ∈ Forest.flatten forest, ∀ y, m.label.kind = .numberLiteral y →
        y.isFinite = true := by
      refine forall_nodes_mapM hforest fun b hb a cs hmakes _ _ _ y hkind => ?_
      rw [Tree.label_node] at hkind
      rw [hkind] at hmakes
      obtain ⟨s, rfl⟩ := hmakes.eq_number
      exact hfinite s y hb
    refine hnumbers _ (hbare ▸ Forest.mem_flatten_mapLabels _ hn) x ?_
    rw [Tree.label_mapLabels, Label.bare]
    exact hkind
  · exact hannotations _ (List.mem_map_of_mem hn)

/-- With ranges and all numbers as they are, everything in a table is shown. -/
theorem Table.seen_ranges_id (t : Table) : t.seen ⟨true⟩ id = t.declarations := by
  have hlabel : ∀ a : Label, a.seen ⟨true⟩ id = a := by
    intro a
    rw [Label.seen, Kind.mapNumber_id]
    rfl
  refine Forest.eq_of_shape_of_labels _ _ (Forest.shape_mapLabels _ _) ?_
  rw [Table.seen, Forest.labels_mapLabels]
  exact (List.map_congr_left fun a _ => hlabel a).trans (List.map_id _)

/-- The view loses nothing.  If the views of two extracted tables with ranges are equal, so are the
    tables, and without ranges they are equal up to ranges.  If the views are equal up to the sign of
    zeros, the tables are, too. -/
theorem view_loses_nothing {ds ds' : List Declaration} {cs cs' : List Comment} {t t' : Table}
    (h : extract ds cs = .ok t) (h' : extract ds' cs' = .ok t') (hfinite : FiniteLiterals ds)
    (hfinite' : FiniteLiterals ds') :
    (t.toJson ⟨true⟩ = t'.toJson ⟨true⟩ → t = t') ∧
    (t.toJson ⟨false⟩ = t'.toJson ⟨false⟩ → t.seen ⟨false⟩ id = t'.seen ⟨false⟩ id) ∧
    ∀ options, (t.toJson options).mapFloats Double.unsigned =
        (t'.toJson options).mapFloats Double.unsigned →
      t.seen options Double.unsigned = t'.seen options Double.unsigned := by
  have ht := legible_of_extract h hfinite
  have ht' := legible_of_extract h' hfinite'
  have hequal : ∀ {options}, t.toJson options = t'.toJson options →
      t.seen options id = t'.seen options id :=
    fun heq => Table.seen_of_toJson ht ht' (congrArg (Json.mapFloats id) heq)
  refine ⟨fun heq => ?_, hequal, fun options => Table.seen_of_toJson ht ht'⟩
  have hseen := hequal heq
  rw [Table.seen_ranges_id, Table.seen_ranges_id] at hseen
  exact congrArg Table.mk hseen

/-- An alias of a number. -/
def numberAlias (x : Double) : List Declaration :=
  [.alias ⟨0, 12⟩ "A" (.literal ⟨9, 11⟩ (.number x))]

theorem finiteLiterals_numberAlias {x : Double} (h : x.isFinite = true) :
    FiniteLiterals (numberAlias x) := by
  intro s y hy
  have hsource : sourceOrder (numberAlias x) =
      [.declaration _, .type (.literal ⟨9, 11⟩ (.number x))] := rfl
  rw [hsource] at hy
  rcases List.mem_cons.1 hy with heq | hy
  · cases heq
  · obtain heq := List.mem_singleton.1 hy
    cases heq
    exact h

theorem view_loses_nothing_zeros :
    ∃ t t', extract (numberAlias .zero) [] = .ok t ∧ extract (numberAlias .negZero) [] = .ok t' ∧
      t ≠ t' ∧ t.seen ⟨true⟩ Double.unsigned = t'.seen ⟨true⟩ Double.unsigned := by
  have hextract : ∀ x, extract (numberAlias x) [] = .ok ⟨[Node.of "A" .declaration ⟨0, 12⟩
      [Node.of "A" (.numberLiteral x) ⟨9, 11⟩ []]]⟩ :=
    fun x => extract_eq_ok_iff.2 ⟨_, _, [], rfl, rfl, rfl, rfl⟩
  obtain ⟨-, -, hzeros⟩ := view_loses_nothing (hextract .zero) (hextract .negZero)
    (finiteLiterals_numberAlias (by decide)) (finiteLiterals_numberAlias (by decide))
  refine ⟨_, _, hextract _, hextract _, fun heq => ?_, hzeros ⟨true⟩ ?_⟩
  · have hkinds := congrArg (fun t => t.nodes.map fun n => n.label.kind) heq
    exact absurd hkinds (by decide)
  · rw [Table.toJson_eq, Table.toJson_eq]
    rfl

end SchemaForest
