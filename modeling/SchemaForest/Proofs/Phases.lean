import SchemaForest.Proofs.Placement
import SchemaForest.Proofs.Resolution
import SchemaForest.Schema.Extract

/-!
# The phases of an extraction

An extraction that succeeds has gone through all of its phases, and each has left its result
(`extract_eq_ok_iff`).  Only the first decides the nodes: the extracted forest is the one pass over
the declarations, with comments and annotations in its labels (`labels_extract`).
-/

namespace SchemaForest

open Fallible

theorem attach_eq_ok_iff {forest : Forest Label} {comments : List Comment}
    {r : Forest Label × Nat} :
    Comments.attach forest comments = .ok r ↔
      ∃ attachments, Comments.associate (Forest.flatten forest) comments = .ok attachments ∧
        r = (Comments.apply forest attachments, attachments.length) := by
  rw [Comments.attach_eq, map_eq_ok_iff]
  simp only [eq_comm]

theorem extract_eq_ok_iff {ds : List Declaration} {cs : List Comment} {t : Table} :
    extract ds cs = .ok t ↔
      ∃ t₀ t₁ attachments, Table.ofDeclarations ds = .ok t₀ ∧ t₀.resolve = (t₁, none) ∧
        Comments.associate t₁.nodes cs = .ok attachments ∧
        t = ⟨(Comments.decode (Comments.apply t₁.declarations attachments)).1⟩ := by
  rw [extract_eq, bind_eq_ok_iff]
  constructor
  · rintro ⟨t₀, ht₀, h⟩
    rcases hresolve : t₀.resolve with ⟨t₁, _ | e⟩ <;> rw [hresolve] at h
    · obtain ⟨r, hr, h⟩ := bind_eq_ok_iff.1 h
      obtain ⟨attachments, hattachments, rfl⟩ := attach_eq_ok_iff.1 hr
      exact ⟨t₀, t₁, attachments, ht₀, hresolve, hattachments, (Except.ok.inj h).symm⟩
    · cases h
  · rintro ⟨t₀, t₁, attachments, ht₀, hresolve, hattachments, rfl⟩
    refine ⟨t₀, ht₀, ?_⟩
    rw [hresolve]
    exact bind_eq_ok_iff.2 ⟨_, attach_eq_ok_iff.2 ⟨attachments, hattachments, rfl⟩, rfl⟩

/-- An extraction succeeds if all references are resolved and something starts behind every comment
    with a text. -/
theorem exists_extract_iff {ds : List Declaration} {cs : List Comment} :
    (∃ t, extract ds cs = .ok t) ↔
      ∃ t₀ t₁, Table.ofDeclarations ds = .ok t₀ ∧ t₀.resolve = (t₁, none) ∧
        ∀ c ∈ cs, c.body ≠ none → ∃ n ∈ t₁.nodes, c.span.stop < n.label.range.start := by
  constructor
  · rintro ⟨t, h⟩
    obtain ⟨t₀, t₁, attachments, ht₀, hresolve, hattachments, -⟩ := extract_eq_ok_iff.1 h
    exact ⟨t₀, t₁, ht₀, hresolve, fun c hc =>
      Comments.orphan?_eq_none_iff.1 ((Comments.associate_eq_ok_iff.1 hattachments).1 c hc)⟩
  · rintro ⟨t₀, t₁, ht₀, hresolve, hcomments⟩
    have hattachments := Comments.associate_eq_ok_iff.2
      ⟨fun c hc => Comments.orphan?_eq_none_iff.2 (hcomments c hc), rfl⟩
    exact ⟨_, extract_eq_ok_iff.2 ⟨t₀, t₁, _, ht₀, hresolve, hattachments, rfl⟩⟩

/-- An extracted forest is the one pass over the declarations, with the comments attached to its
    labels and decoded. -/
theorem labels_extract {ds : List Declaration} {cs : List Comment} {t : Table}
    (h : extract ds cs = .ok t) :
    ∃ forest attachments, onePass ds = .ok forest ∧
      Comments.associate (Forest.flatten forest) cs = .ok attachments ∧
      Forest.shape t.declarations = Forest.shape forest ∧
      Forest.labels t.declarations = (Forest.labels forest).zipIdx.map fun p =>
        Comments.decoded (Comments.attached attachments p.2 p.1) := by
  obtain ⟨t₀, t₁, attachments, ht₀, hresolve, hattachments, rfl⟩ := extract_eq_ok_iff.1 h
  obtain ⟨forest, hforest, -, hresolved⟩ := resolve_ofDeclarations ht₀
  rw [hresolve] at hresolved
  obtain rfl : t₁ = ⟨forest⟩ := hresolved rfl
  refine ⟨forest, attachments, hforest, hattachments, ?_, ?_⟩
  · exact (Forest.shape_visit _ _ _).trans (Comments.shape_apply _ _)
  · rw [Comments.labels_decode, Comments.labels_apply, List.map_map]
    rfl

/-- At the same flat index an extracted node has the label of the one pass, with the comments
    attached to it and decoded. -/
theorem label_extracted {forest : Forest Label} {t : Table} {attachments : List Attachment}
    (hlabels : Forest.labels t.declarations = (Forest.labels forest).zipIdx.map fun p =>
      Comments.decoded (Comments.attached attachments p.2 p.1)) {i : Nat} {n m : Node}
    (hn : (Forest.flatten forest)[i]? = some n) (hm : t.nodes[i]? = some m) :
    m.label = Comments.decoded (Comments.attached attachments i n.label) := by
  have hm : (Forest.flatten t.declarations)[i]? = some m := hm
  have hat := congrArg (fun labels => labels[i]?) hlabels
  simp only [Forest.labels, List.getElem?_map, List.getElem?_zipIdx, hm, hn, Option.map_some,
    Nat.zero_add, Option.some.injEq] at hat
  exact hat

/-- Comments move no node, so they are placed in an extracted forest as in the one pass. -/
theorem associate_extracted {forest : Forest Label} {t : Table} {attachments : List Attachment}
    (hlabels : Forest.labels t.declarations = (Forest.labels forest).zipIdx.map fun p =>
      Comments.decoded (Comments.attached attachments p.2 p.1)) (comments : List Comment) :
    Comments.associate t.nodes comments =
      Comments.associate (Forest.flatten forest) comments := by
  have hrange : ∀ i a,
      (Comments.decoded (Comments.attached attachments i a)).range = a.range := by
    intro i a
    rw [Comments.decoded, Comments.attached]
    split <;> split <;> rfl
  have hstarts := congrArg (List.map fun a => a.range.start) hlabels
  simp only [Forest.labels, List.map_map, Function.comp_def, hrange, List.zipIdx_map] at hstarts
  refine Comments.associate_congr (hstarts.trans ?_) comments
  conv_rhs => rw [← List.zipIdx_map_fst 0 (Forest.flatten forest), List.map_map]
  rfl

end SchemaForest
