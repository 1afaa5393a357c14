import SchemaForest.Proofs.Inlining
import SchemaForest.Proofs.Locality

/-!
# The order of declarations

Putting declarations into another order changes which references are resolved at once, every handle,
every flat index and the sorted starts.  It does not change what the view shows, if no two nodes of
different declarations start at one place (`Apart`).

1. **Handles.**  A handle among the declarations in one order is redirected to the handle of the same
   name in the other (`redirection`).  That takes one translation to the other, because which names
   are known shows in the kinds of references only.
2. **Comments.**  A tree gets the same texts in both orders: the set of all starts is the same, and
   equal starts are in one tree (`isTarget_perm`).
3. **Tables.**  So the extracted tables hold the same declarations up to the redirection of handles
   (`redirects_extract`), and tables like this show the same (`Table.nodeView_redirect`).
-/

namespace SchemaForest

open Fallible

/-- Where the nodes start that a declaration is translated to. -/
def Declaration.starts (d : Declaration) : List Nat :=
  match translateDeclaration (fun _ => none) d with
  | .ok n => Forest.starts [n]
  | .error _ => []

/-- No node of a declaration starts where a node of another one does. -/
def Apart (ds : List Declaration) : Prop := ds.Pairwise fun d e => d.starts.Disjoint e.starts

theorem Apart.perm {ds ds' : List Declaration} (h : Apart ds) (hperm : ds.Perm ds') : Apart ds' :=
  (hperm.pairwise_iff fun hdisjoint => List.disjoint_comm.1 hdisjoint).1 h

/-! ## Starts -/

/-- What is known of names does not move a node. -/
theorem starts_translateDeclaration {lookup : String → Option Handle} {d : Declaration} {n : Node}
    (h : translateDeclaration lookup d = .ok n) : Forest.starts [n] = d.starts := by
  obtain ⟨n₀, hn₀⟩ : ∃ n₀, translateDeclaration (fun _ => none) d = .ok n₀ :=
    exists_translateDeclaration_iff.2 (exists_translateDeclaration_iff.1 ⟨n, h⟩)
  have hext : ∀ (target : String) (h : Handle), (none : Option Handle) = some h →
      lookup target = some h := by
    intro target h heq
    cases heq
  have hsettled := Table.translateDeclaration_settle hext hn₀
  obtain rfl := Except.ok.inj (h.symm.trans hsettled)
  rw [Declaration.starts, hn₀]
  exact Forest.starts_mapLabels (Table.range_settle lookup) [n₀]

/-- The nodes of the one pass start where those of its declarations do. -/
theorem starts_mapM {lookup : String → Option Handle} {ds : List Declaration} {forest : Forest Label}
    (h : ds.mapM (translateDeclaration lookup) = .ok forest) :
    Forest.starts forest = ds.flatMap Declaration.starts := by
  rw [Forest.starts, Forest.labels_eq_flatMap, List.map_flatMap]
  refine (flatMap_eq_of_forall₂ (mapM_eq_ok_iff.1 h) fun d _ n hn => ?_).symm
  exact (starts_translateDeclaration hn).symm

/-! ## Handles -/

/-- The handle in one order of what stands at a handle in another. -/
def redirection (ds ds' : List Declaration) (h : Handle) : Handle :=
  ((ds[h.index]?).bind fun d => index ds' d.name).getD h

theorem index_eq_some_iff {ds : List Declaration} (hnodup : (ds.map Declaration.name).Nodup)
    {name : String} {h : Handle} :
    index ds name = some h ↔ ∃ d, ds[h.index]? = some d ∧ d.name = name := by
  rw [index, Table.handleIn_eq_some_iff hnodup, List.getElem?_map, Option.map_eq_some_iff]

section Permutation

variable {ds ds' : List Declaration}

/-- A redirected handle leads to the same declaration. -/
theorem getElem?_redirection (hperm : ds.Perm ds') (hnodup : (ds.map Declaration.name).Nodup)
    {h : Handle} {d : Declaration} (hd : ds[h.index]? = some d) :
    ds'[(redirection ds ds' h).index]? = some d ∧
      index ds' d.name = some (redirection ds ds' h) := by
  have hmem : d ∈ ds' := hperm.mem_iff.1 (List.mem_of_getElem? hd)
  have hnodup' : (ds'.map Declaration.name).Nodup := (hperm.map _).nodup_iff.1 hnodup
  cases hk : index ds' d.name with
  | none => exact absurd (List.mem_map_of_mem hmem) (Table.handleIn_eq_none_iff.1 hk)
  | some k =>
    have hρ : redirection ds ds' h = k := by
      rw [redirection, hd, Option.bind_some, hk]
      rfl
    obtain ⟨e, he, hname⟩ := (index_eq_some_iff hnodup').1 hk
    obtain rfl : e = d :=
      List.inj_on_of_nodup_map hnodup' (List.mem_of_getElem? he) hmem hname
    rw [hρ]
    exact ⟨he, rfl⟩

theorem redirection_inj (hperm : ds.Perm ds') (hnodup : (ds.map Declaration.name).Nodup)
    {h k : Handle} {d e : Declaration} (hd : ds[h.index]? = some d) (he : ds[k.index]? = some e)
    (heq : redirection ds ds' h = redirection ds ds' k) : h = k := by
  have hd' := (getElem?_redirection hperm hnodup hd).1
  have he' := (getElem?_redirection hperm hnodup he).1
  rw [heq] at hd'
  obtain rfl : d = e := Option.some.inj (hd'.symm.trans he')
  have hh := (index_eq_some_iff hnodup).2 ⟨d, hd, rfl⟩
  exact Option.some.inj (hh.symm.trans ((index_eq_some_iff hnodup).2 ⟨d, he, rfl⟩))

/-- With the names of one order known or with those of the other, a reference becomes the same up to
    the redirection. -/
theorem redirect_linkKind (hperm : ds.Perm ds') (hnodup : (ds.map Declaration.name).Nodup)
    (name target : String) (range : Span) :
    Label.redirect (redirection ds ds') { name, kind := linkKind (index ds) target, range } =
      { name, kind := linkKind (index ds') target, range } := by
  rw [linkKind, linkKind]
  cases hindex : index ds target with
  | none =>
    have hnone : index ds' target = none := by
      refine Table.handleIn_eq_none_iff.2 fun hmem => ?_
      exact Table.handleIn_eq_none_iff.1 hindex ((hperm.map _).mem_iff.2 hmem)
    rw [hnone]
    rfl
  | some h =>
    obtain ⟨d, hd, rfl⟩ := (index_eq_some_iff hnodup).1 hindex
    rw [(getElem?_redirection hperm hnodup hd).2]
    rfl

theorem translateDeclaration_redirect (hperm : ds.Perm ds')
    (hnodup : (ds.map Declaration.name).Nodup) (d : Declaration) :
    translateDeclaration (index ds') d = (translateDeclaration (index ds) d).map
      (Tree.mapLabels (Label.redirect (redirection ds ds'))) := by
  refine AstNode.translate_relabel (fun x hx => ?_) (redirect_linkKind hperm hnodup) "" default
    (.declaration d)
  exact Label.redirect_of_ne_reference fun h heq => hx (heq ▸ trivial)

/-- In the two passes the trees of one declaration are the same up to the redirection. -/
theorem getElem?_onePass (hperm : ds.Perm ds') (hnodup : (ds.map Declaration.name).Nodup)
    {forest forest' : Forest Label} (hforest : onePass ds = .ok forest)
    (hforest' : onePass ds' = .ok forest') {h : Handle} {d : Declaration}
    (hd : ds[h.index]? = some d) :
    ∃ x, forest[h.index]? = some x ∧ Forest.starts [x] = d.starts ∧
      forest'[(redirection ds ds' h).index]? =
        some (x.mapLabels (Label.redirect (redirection ds ds'))) := by
  obtain ⟨x, hx, hdx⟩ := getElem?_of_forall₂ (mapM_eq_ok_iff.1 hforest) hd
  obtain ⟨x', hx', hdx'⟩ := getElem?_of_forall₂ (mapM_eq_ok_iff.1 hforest')
    (getElem?_redirection hperm hnodup hd).1
  rw [translateDeclaration_redirect hperm hnodup, hdx] at hdx'
  obtain rfl := Except.ok.inj hdx'
  exact ⟨x, hx, starts_translateDeclaration hdx, hx'⟩

/-! ## Comments -/

/-- Among declarations that are apart, whether a start of one of them is the first behind a comment
    does not hang on their order. -/
theorem firstBehind_perm (hperm : ds.Perm ds') (hapart : Apart ds') {i i' : Nat} {d : Declaration}
    (hd : ds[i]? = some d) (hd' : ds'[i']? = some d) {stop j : Nat} (hj : j < d.starts.length)
    (h : Comments.FirstBehind (ds.flatMap Declaration.starts) stop
      (((ds.take i).flatMap Declaration.starts).length + j)) :
    Comments.FirstBehind (ds'.flatMap Declaration.starts) stop
      (((ds'.take i').flatMap Declaration.starts).length + j) := by
  have hstarts : ∀ {es : List Declaration} {k : Nat}, es[k]? = some d →
      es.flatMap Declaration.starts = (es.take k).flatMap Declaration.starts ++ d.starts ++
        (es.drop (k + 1)).flatMap Declaration.starts := by
    intro es k hk
    conv_lhs => rw [eq_take_append_cons_drop hk]
    rw [List.flatMap_append, List.flatMap_cons, List.append_assoc]
  rw [hstarts hd] at h
  rw [hstarts hd']
  refine h.transfer (fun s hs => ?_) (fun s hs => ?_) hj
  · rw [← hstarts hd'] at hs
    rw [← hstarts hd]
    obtain ⟨e, he, hs⟩ := List.mem_flatMap.1 hs
    exact List.mem_flatMap.2 ⟨e, hperm.mem_iff.2 he, hs⟩
  · -- The others are in front of the declaration or behind it, and all of them are apart from it.
    rw [Apart, eq_take_append_cons_drop hd', List.pairwise_append, List.pairwise_cons] at hapart
    obtain ⟨-, ⟨hback, -⟩, hfront⟩ := hapart
    refine ⟨fun hmem => ?_, fun hmem => ?_⟩
    · obtain ⟨e, he, hse⟩ := List.mem_flatMap.1 hmem
      exact hfront e he d List.mem_cons_self hse hs
    · obtain ⟨e, he, hse⟩ := List.mem_flatMap.1 hmem
      exact hback e he hs hse

/-- A comment is for a node of a tree in the one pass exactly if it is for that node in the other. -/
theorem isTarget_perm (hperm : ds.Perm ds') (hapart : Apart ds)
    (hnodup : (ds.map Declaration.name).Nodup) {forest forest' : Forest Label}
    (hforest : onePass ds = .ok forest) (hforest' : onePass ds' = .ok forest') {h : Handle}
    {d : Declaration} (hd : ds[h.index]? = some d) {j : Nat} (hj : j < d.starts.length)
    (stop : Nat) :
    Comments.IsTarget (Forest.flatten forest) stop
        ((Forest.labels (forest.take h.index)).length + j) ↔
      Comments.IsTarget (Forest.flatten forest') stop
        ((Forest.labels (forest'.take (redirection ds ds' h).index)).length + j) := by
  have hoffset : ∀ {es : List Declaration} {trees : Forest Label} (k : Nat),
      onePass es = .ok trees → (Forest.labels (trees.take k)).length =
        ((es.take k).flatMap Declaration.starts).length := by
    intro es trees k htrees
    have htake := mapM_eq_ok_iff.2 (List.forall₂_take k (mapM_eq_ok_iff.1 htrees))
    rw [← Forest.length_starts, starts_mapM htake]
  have hd' := (getElem?_redirection hperm hnodup hd).1
  rw [Comments.isTarget_iff, Comments.isTarget_iff, starts_mapM hforest, starts_mapM hforest',
    hoffset _ hforest, hoffset _ hforest']
  exact ⟨firstBehind_perm hperm (hapart.perm hperm) hd hd' hj,
    firstBehind_perm hperm.symm hapart hd' hd hj⟩

/-- What comments write into a label does not hang on the handle in it. -/
theorem decoded_attached_redirect {ρ : Handle → Handle} {as as' : List Attachment} {i i' : Nat}
    (h : Comments.textFor? as i = Comments.textFor? as' i') (a : Label) :
    Comments.decoded (Comments.attached as' i' (a.redirect ρ)) =
      (Comments.decoded (Comments.attached as i a)).redirect ρ := by
  obtain ⟨name, kind, range, comment, annotations⟩ := a
  rw [Comments.attached, Comments.attached, h]
  cases Comments.textFor? as' i' <;> cases comment <;> cases kind <;> rfl

/-! ## Extraction -/

/-- The extracted tables hold the same declarations up to the redirection. -/
theorem redirects_extract (hperm : ds.Perm ds') (hapart : Apart ds) {cs : List Comment}
    {t t' : Table} (h : extract ds cs = .ok t) (h' : extract ds' cs = .ok t') :
    t.Redirects (redirection ds ds') t' := by
  obtain ⟨t₀, -, -, ht₀, -, -, -⟩ := extract_eq_ok_iff.1 h
  have hnodup : (ds.map Declaration.name).Nodup := (Table.exists_declareAll_iff.1 ⟨t₀, ht₀⟩).2.2
  obtain ⟨forest, as, hforest, has, hshape, hlabels⟩ := labels_extract h
  obtain ⟨forest', as', hforest', has', hshape', hlabels'⟩ := labels_extract h'
  obtain ⟨-, rfl⟩ := Comments.associate_eq_ok_iff.1 has
  obtain ⟨-, rfl⟩ := Comments.associate_eq_ok_iff.1 has'
  have hdeclared : ∀ {k y}, t.get? k = some y → ∃ d, ds[k.index]? = some d := by
    intro k y hy
    have hlt : k.index < t.declarations.length := (List.getElem?_eq_some_iff.1 hy).1
    rw [Forest.length_of_shape hshape, ← (mapM_eq_ok_iff.1 hforest).length_eq] at hlt
    exact ⟨_, List.getElem?_eq_getElem hlt⟩
  refine ⟨fun k y hy => ?_, fun j hj k hk heq => ?_⟩
  · obtain ⟨d, hd⟩ := hdeclared hy
    obtain ⟨x, hx, hstarts, hx'⟩ := getElem?_onePass hperm hnodup hforest hforest' hd
    obtain ⟨y', hy'⟩ : ∃ y', t'.declarations[(redirection ds ds' k).index]? = some y' := by
      have hlt := (List.getElem?_eq_some_iff.1 hx').1
      rw [← Forest.length_of_shape hshape'] at hlt
      exact ⟨_, List.getElem?_eq_getElem hlt⟩
    rw [Table.get?, hy']
    -- For a node of the tree the same comments are meant in both orders.
    refine congrArg some (Forest.eq_mapLabels_of_labels hshape hlabels hshape' hlabels' hx hy hx' hy'
      fun j hj a => decoded_attached_redirect ?_ a)
    rw [← Forest.length_starts, hstarts] at hj
    exact Comments.textFor?_filterMap_congr
      (isTarget_perm hperm hapart hnodup hforest hforest' hd hj) cs
  · obtain ⟨y, hy⟩ := Table.mem_handles_iff.1 hj
    obtain ⟨z, hz⟩ := Table.mem_handles_iff.1 hk
    obtain ⟨d, hd⟩ := hdeclared hy
    obtain ⟨e, he⟩ := hdeclared hz
    exact redirection_inj hperm hnodup hd he heq

/-- Whether an extraction succeeds does not hang on the order of the declarations. -/
theorem exists_extract_perm (hperm : ds.Perm ds') {cs : List Comment}
    (h : ∃ t, extract ds cs = .ok t) : ∃ t', extract ds' cs = .ok t' := by
  obtain ⟨t₀, t₁, ht₀, hresolve, hcomments⟩ := exists_extract_iff.1 h
  obtain ⟨hclean, -, hnodup⟩ := Table.exists_declareAll_iff.1 ⟨t₀, ht₀⟩
  obtain ⟨t₀', ht₀'⟩ : ∃ t₀', Table.ofDeclarations ds' = .ok t₀' :=
    Table.exists_declareAll_iff.2 ⟨fun d hd => hclean d (hperm.mem_iff.2 hd),
      fun _ _ => List.not_mem_nil, (hperm.map _).nodup_iff.1 hnodup⟩
  obtain ⟨forest, hforest, hfault, hresolved⟩ := resolve_ofDeclarations ht₀
  obtain ⟨forest', hforest', hfault', hresolved'⟩ := resolve_ofDeclarations ht₀'
  rw [hresolve] at hfault hresolved
  obtain rfl : t₁ = ⟨forest⟩ := hresolved rfl
  -- The same names are referred to, and the same are declared.
  have hnone : t₀'.resolve.2 = none := by
    have hdeclared := findSome?_undeclared?_eq_none_iff.1 hfault.symm
    refine hfault'.trans (findSome?_undeclared?_eq_none_iff.2 fun target htarget => ?_)
    rw [← (hperm.map Declaration.name).mem_iff]
    refine hdeclared target ?_
    rw [references, List.mem_filterMap] at htarget ⊢
    obtain ⟨a, ha, href⟩ := htarget
    obtain ⟨d, hd, ha⟩ := List.mem_flatMap.1 ha
    exact ⟨a, List.mem_flatMap.2 ⟨d, hperm.mem_iff.2 hd, ha⟩, href⟩
  have hbehind : ∀ (trees : Forest Label) (stop : Nat),
      (∃ n ∈ Forest.flatten trees, stop < n.label.range.start) ↔
        ∃ s ∈ Forest.starts trees, stop < s := by
    intro trees stop
    simp [Forest.starts, Forest.labels]
  refine exists_extract_iff.2 ⟨t₀', ⟨forest'⟩, ht₀', Prod.ext (hresolved' hnone) hnone,
    fun c hc hbody => (hbehind _ _).2 ?_⟩
  obtain ⟨s, hs, hstop⟩ := (hbehind _ _).1 (hcomments c hc hbody)
  rw [starts_mapM hforest] at hs
  rw [starts_mapM hforest']
  obtain ⟨d, hd, hs⟩ := List.mem_flatMap.1 hs
  exact ⟨s, List.mem_flatMap.2 ⟨d, hperm.mem_iff.1 hd, hs⟩, hstop⟩

end Permutation

/-- An extracted table has the names of the declarations in order. -/
theorem names_extract {ds : List Declaration} {cs : List Comment} {t : Table}
    (h : extract ds cs = .ok t) : t.names = ds.map Declaration.name := by
  obtain ⟨forest, hforest, rfl, -⟩ := bare_extract h
  rw [← names_mapM hforest]
  exact (Table.names_mapLabels (f := Label.bare) (fun _ => rfl) t.declarations).symm

namespace Table

variable {t t' : Table} {ρ : Handle → Handle} {options : ViewOptions}

/-- Tables that hold the same declarations have the same entries. -/
theorem Redirects.field?_toJson (hρ : t.Redirects ρ t') (ht : t.Shaped) (ht' : t'.Shaped)
    {h : Handle} {d : Node} (hd : t.get? h = some d) :
    (t'.toJson options).field? d.label.name = (t.toJson options).field? d.label.name := by
  have hd' := hρ.get? h d hd
  have hentry := @Table.field?_toJson t' options ht' _ _ hd'
  rw [Tree.label_mapLabels, Label.name_redirect] at hentry
  rw [hentry, Table.field?_toJson ht hd]
  refine congrArg some (nodeView_redirect ht hρ (t.nodup_handles.erase h)
    (t'.nodup_handles.erase (ρ h)) (fun m hm => mem_nodes_of_get? hd hm) fun k hk => ?_)
  -- All declarations but the one that is shown are closed, in both tables.
  have hmem := hk.mem_handles ht fun m hm => mem_nodes_of_get? hd hm
  obtain ⟨e, he⟩ := mem_handles_iff.1 hmem
  have hmem' : ρ k ∈ t'.handles := mem_handles_iff.2 ⟨_, hρ.get? k e he⟩
  have hne : k ≠ h ↔ ρ k ≠ ρ h :=
    not_congr ⟨congrArg ρ, hρ.injOn k hmem h (mem_handles_iff.2 ⟨d, hd⟩)⟩
  rw [t.nodup_handles.mem_erase_iff, t'.nodup_handles.mem_erase_iff, hne, and_iff_left hmem,
    and_iff_left hmem']

/-- The view of a table has an entry under each declared name, in order. -/
theorem fields_toJson (ht : t.Shaped) (options : ViewOptions) :
    (t.toJson options).fields =
      t.names.map fun name => (name, ((t.toJson options).field? name).getD .null) := by
  have hkeys : Entries.keys (t.toJson options).fields = t.names := by
    rw [toJson_eq, Json.fields, Entries.keys, List.map_map]
    exact t.map_name_entries
  have hfields := Entries.eq_map_keys (m := (t.toJson options).fields) (hkeys ▸ ht.nodup) .null
  rw [hkeys] at hfields
  rw [toJson_eq] at hfields ⊢
  exact hfields

end Table

/-- The order of declarations does not matter.  If no two nodes of different declarations start at
    one place, an extraction of declarations in another order succeeds exactly if it does in theirs,
    and then, with ranges or without, every declared name has the same entry in both views, so that
    these differ in the order of their entries at most. -/
theorem extract_perm {ds ds' : List Declaration} (hperm : ds.Perm ds') (hapart : Apart ds)
    (cs : List Comment) :
    ((∃ t, extract ds cs = .ok t) ↔ ∃ t', extract ds' cs = .ok t') ∧
      ∀ t t', extract ds cs = .ok t → extract ds' cs = .ok t' → ∀ options,
        (∀ name ∈ ds.map Declaration.name, ∃ entry,
          (t.toJson options).field? name = some entry ∧
            (t'.toJson options).field? name = some entry) ∧
        (t.toJson options).fields.Perm (t'.toJson options).fields := by
  refine ⟨⟨exists_extract_perm hperm, exists_extract_perm hperm.symm⟩, ?_⟩
  intro t t' h h' options
  have ht := shaped_of_extract h
  have ht' := shaped_of_extract h'
  have hρ := redirects_extract hperm hapart h h'
  have hentries : ∀ name ∈ t.names, ∃ entry, (t.toJson options).field? name = some entry ∧
      (t'.toJson options).field? name = some entry := by
    intro name hname
    obtain ⟨d, hd, rfl⟩ := List.mem_map.1 hname
    obtain ⟨i, hi⟩ := List.getElem?_of_mem hd
    have hget : t.get? ⟨i⟩ = some d := hi
    have hentry := @Table.field?_toJson t options ht _ _ hget
    exact ⟨_, hentry, (hρ.field?_toJson ht ht' hget).trans hentry⟩
  refine ⟨names_extract h ▸ hentries, ?_⟩
  have hnames : t.names.Perm t'.names := by
    rw [names_extract h, names_extract h']
    exact hperm.map _
  rw [Table.fields_toJson ht, Table.fields_toJson ht']
  refine List.Perm.trans (List.Perm.of_eq (List.map_congr_left fun name hname => ?_))
    (hnames.map _)
  obtain ⟨entry, hentry, hentry'⟩ := hentries name hname
  rw [hentry, hentry']

/-- Two declarations that refer to each other, and the comments between them, with the second
    declaration first. -/
theorem extract_perm_knot :
    knot.Perm knot.reverse ∧ Apart knot ∧
      ∃ t t', extract knot notes = .ok t ∧ extract knot.reverse notes = .ok t' ∧
        t.names = ["A", "B"] ∧ t'.names = ["B", "A"] ∧
        (∃ entry, (t.toJson ⟨true⟩).field? "B" = some entry ∧
          (t'.toJson ⟨true⟩).field? "B" = some entry) ∧
        (t.toJson ⟨true⟩).fields.Perm (t'.toJson ⟨true⟩).fields := by
  have hperm : knot.Perm knot.reverse := (List.reverse_perm knot).symm
  have hapart : Apart knot := by
    refine List.pairwise_pair.2 fun s hs hs' => ?_
    have hfirst : s ≤ 40 := by revert s; decide
    have hsecond : 57 ≤ s := by revert s; decide
    omega
  obtain ⟨hsuccess, hsame⟩ := extract_perm hperm hapart notes
  obtain ⟨t, ht⟩ : ∃ t, extract knot notes = .ok t :=
    exists_extract_iff.2 ⟨_, _, rfl, rfl, by decide⟩
  obtain ⟨t', ht'⟩ := hsuccess.1 ⟨t, ht⟩
  obtain ⟨hentries, hfields⟩ := hsame t t' ht ht' ⟨true⟩
  exact ⟨hperm, hapart, t, t', ht, ht', names_extract ht, names_extract ht',
    hentries "B" (by decide), hfields⟩

end SchemaForest
