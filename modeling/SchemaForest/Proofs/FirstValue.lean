import SchemaForest.Proofs.Inputs
import SchemaForest.Proofs.Rereading

/-!
# The first value of a text

A source is read from the first value of a text, and nobody looks at what stands behind it: not at
blanks, and not at another document (`CommandLine.only_filter_checks_end`).  A text given to a filter,
on the other hand, has to be one value and nothing else.

1. A draft that nothing broke off (`Draft.Unbroken`) has been read to its end (`Json.isSome_readValue`).
   The induction follows the reader.  A value in error does no harm where a step over it succeeds, so
   the draft of a field counts as whole for either reason.
2. Whoever accepts a draft has met no error in it, and passes by only what can be stepped over
   (`heeds_readSource`).
3. A source is a container, so its text ends at a bracket, and neither the grammar nor the reader needs
   to see what follows (`Json.readValue_append_of_isContainer`).
-/

namespace SchemaForest

open Fallible

/-! ## Drafts that nothing broke off -/

mutual
/-- The draft has no error but in values that could be stepped over. -/
def Draft.Unbroken : Draft → Prop
  | .array items => items.Unbroken
  | .object fields => fields.Unbroken
  | .broken _ => False
  | _ => True

def DraftItems.Unbroken : DraftItems → Prop
  | .done => True
  | .failed _ => False
  | .item d rest => d.Unbroken ∧ rest.Unbroken

def DraftFields.Unbroken : DraftFields → Prop
  | .done => True
  | .failed _ => False
  | .unvalued _ _ => False
  | .field _ d stepped rest => (d.Unbroken ∨ stepped = none) ∧ rest.Unbroken
end

namespace Json

mutual
/-- A draft that nothing broke off has been read to its end. -/
theorem isSome_readValue {depth : Nat} {s : List Char} (h : (shown (readValue depth s)).1.Unbroken) :
    (shown (readValue depth s)).2.isSome := by
  cases hs : skipGaps s with
  | nil =>
    rw [shown_readValue_nil hs] at h
    exact h.elim
  | cons c r =>
    have hr := length_lt_of_skipGaps hs
    rw [shown_readValue hs] at h ⊢
    split_ifs at h ⊢
    · cases depth with
      | zero => exact h.elim
      | succ d => exact isSome_readItems h
    · cases depth with
      | zero => exact h.elim
      | succ d => exact isSome_readFields h
    · split at h
      · exact h.elim
      · rfl
termination_by (s.length, 0)
decreasing_by all_goals exact Prod.Lex.left _ _ hr

theorem isSome_readItems {depth : Nat} {first : Bool} {s : List Char}
    (h : (shown (readItems depth first s)).1.Unbroken) :
    (shown (readItems depth first s)).2.isSome := by
  cases hs : skipGaps s with
  | nil =>
    rw [shown_readItems_nil hs] at h
    exact h.elim
  | cons c r =>
    rw [shown_readItems hs] at h ⊢
    split_ifs at h ⊢
    · rfl
    · split at h
      · exact h.elim
      · rename_i v hstart
        obtain ⟨-, -, -, hv⟩ := exists_partStart hs hstart
        cases hvalue : shown (readValue depth v) with
        | mk d rest =>
          rw [hvalue] at h
          have hd : d.Unbroken → rest.isSome := by
            have ih : (shown (readValue depth v)).1.Unbroken → _ := isSome_readValue
            rwa [hvalue] at ih
          cases rest with
          | none => exact nomatch hd h.1
          | some u =>
            have hu : u.length < v.length := of_shown (congrArg Prod.snd hvalue)
            exact isSome_readItems h.2
termination_by (s.length, 1)
decreasing_by
  · exact Prod.Lex.right' _ hv Nat.zero_lt_one
  · exact Prod.Lex.left _ _ (Nat.lt_of_lt_of_le hu hv)

theorem isSome_readFields {depth : Nat} {first : Bool} {s : List Char}
    (h : (shown (readFields depth first s)).1.Unbroken) :
    (shown (readFields depth first s)).2.isSome := by
  cases hs : skipGaps s with
  | nil =>
    rw [shown_readFields_nil hs] at h
    exact h.elim
  | cons c r =>
    rw [shown_readFields hs] at h ⊢
    split_ifs at h ⊢
    · rfl
    · split at h
      · exact h.elim
      · rename_i f hstart
        obtain ⟨f', -, hf', hf⟩ := exists_partStart hs hstart
        obtain ⟨e, he⟩ | ⟨name, e, he⟩ | ⟨name, v, hname, hfield⟩ :=
          readField_cases depth (fun t => shown (readFields depth false t)) (skipGaps_of_skipGaps hf')
        · rw [he] at h
          exact h.elim
        · rw [he] at h
          exact h.elim
        have hv : v.length < s.length := Nat.lt_of_lt_of_le (length_lt_of_stepName hname) hf
        rw [hfield] at h ⊢
        cases hvalue : shown (readValue depth v) with
        | mk d rest =>
          rw [hvalue] at h
          have hd : d.Unbroken → rest.isSome := by
            have ih : (shown (readValue depth v)).1.Unbroken → _ := isSome_readValue
            rwa [hvalue] at ih
          cases rest with
          | some u =>
            have hu : u.length < v.length := of_shown (congrArg Prod.snd hvalue)
            exact isSome_readFields h.2
          | none =>
            cases hstep : leaves (stepValue v) with
            | error e =>
              rw [hstep] at h
              exact h.1.elim (fun h => nomatch hd h) fun h => nomatch h
            | ok u =>
              rw [hstep] at h
              have hu : u.length < v.length := of_leaves hstep
              exact isSome_readFields h.2
termination_by (s.length, 1)
decreasing_by
  · exact Prod.Lex.left _ _ hv
  · exact Prod.Lex.left _ _ (Nat.lt_trans hu hv)
  · exact Prod.Lex.left _ _ (Nat.lt_trans hu hv)
end

end Json

/-! ## What a reader accepts -/

namespace Draft

mutual
/-- A draft without errors is one that nothing broke off. -/
theorem unbroken_of_content {d : Draft} {v : Json} (h : d.content = .ok v) : d.Unbroken := by
  cases d with
  | array items =>
    obtain ⟨vs, hvs, -⟩ := map_eq_ok_iff.1 h
    exact unbroken_of_contentItems hvs
  | object fields =>
    obtain ⟨fs, hfs, -⟩ := map_eq_ok_iff.1 h
    exact unbroken_of_contentFields hfs
  | broken e => cases h
  | _ => trivial

theorem unbroken_of_contentItems {items : DraftItems} {i : Nat} {vs : List Json}
    (h : contentItems i items = .ok vs) : items.Unbroken := by
  cases items with
  | done => trivial
  | failed e => cases h
  | item d rest =>
    obtain ⟨v, hv, ws, hws, -⟩ := contentItems_item_eq_ok_iff.1 h
    exact ⟨unbroken_of_content hv, unbroken_of_contentItems hws⟩

theorem unbroken_of_contentFields {fields : DraftFields} {fs : List (String × Json)}
    (h : contentFields fields = .ok fs) : fields.Unbroken := by
  cases fields with
  | done => trivial
  | failed e => cases h
  | unvalued name e => cases h
  | field name d stepped rest =>
    obtain ⟨v, hv, gs, hgs, -⟩ := contentFields_field_eq_ok_iff.1 h
    exact ⟨.inl (unbroken_of_content hv), unbroken_of_contentFields hgs⟩
end

end Draft

/-- Only drafts that nothing broke off are accepted. -/
def Heeds {α : Type} (read : Draft → Except DecodeError α) : Prop :=
  ∀ d a, read d = .ok a → d.Unbroken

theorem heeds_readNatural : Heeds readNatural := by
  intro d n h
  cases d with
  | integer i => trivial
  | _ => cases h

theorem heeds_readOptionalString : Heeds readOptionalString := by
  intro d s h
  cases d with
  | null => trivial
  | string s => trivial
  | _ => cases h

theorem unbroken_of_readItemsWith {α : Type} {read : Draft → Except DecodeError α} (hread : Heeds read) :
    ∀ {items : DraftItems} {i : Nat} {as : List α}, readItemsWith read i items = .ok as → items.Unbroken
  | .done, _, _, _ => trivial
  | .failed _, _, _, h => nomatch h
  | .item d rest, i, as, h => by
    obtain ⟨a, ha, hrest⟩ := bind_eq_ok_iff.1 h
    obtain ⟨as', has, -⟩ := bind_eq_ok_iff.1 hrest
    exact ⟨hread d a (Located.within_eq_ok_iff.1 ha), unbroken_of_readItemsWith hread has⟩

theorem heeds_readList {α : Type} {read : Draft → Except DecodeError α} (hread : Heeds read) :
    Heeds (readList read) := by
  intro d as h
  cases d with
  | array items => exact unbroken_of_readItemsWith hread h
  | _ => cases h

section Pair

variable {α β : Type} {a : Component α} {b : Component β}

theorem unbroken_of_pairFields (ha : Heeds a.read) (hb : Heeds b.read) :
    ∀ {fields : DraftFields} {x : Option α} {y : Option β} {p : Option α × Option β},
      pairFields a b x y fields = .ok p → fields.Unbroken
  | .done, _, _, _, _ => trivial
  | .failed _, _, _, _, h => nomatch h
  | .unvalued name e, x, y, p, h => by
    unfold pairFields at h
    split_ifs at h
    · cases h
    · cases h
  | .field name d stepped rest, x, y, p, h => by
    unfold pairFields at h
    split_ifs at h
    · cases h
    · obtain ⟨x', hx, hrest⟩ := bind_eq_ok_iff.1 h
      exact ⟨.inl (ha d x' (Located.within_eq_ok_iff.1 hx)), unbroken_of_pairFields ha hb hrest⟩
    · cases h
    · obtain ⟨y', hy, hrest⟩ := bind_eq_ok_iff.1 h
      exact ⟨.inl (hb d y' (Located.within_eq_ok_iff.1 hy)), unbroken_of_pairFields ha hb hrest⟩
    · cases stepped with
      | some e => cases h
      | none => exact ⟨.inr rfl, unbroken_of_pairFields ha hb h⟩

theorem unbroken_of_pairItems (ha : Heeds a.read) (hb : Heeds b.read) {origin : Origin}
    {expected : String} {items : DraftItems} {p : α × β}
    (h : pairItems a b origin expected items = .ok p) : items.Unbroken := by
  cases items with
  | done => trivial
  | failed e => cases h
  | item d rest =>
    obtain ⟨x, hx, h⟩ := bind_eq_ok_iff.1 h
    refine ⟨ha d x (Located.within_eq_ok_iff.1 hx), ?_⟩
    cases rest with
    | done => trivial
    | failed e => cases h
    | item w rest =>
      obtain ⟨y, hy, h⟩ := bind_eq_ok_iff.1 h
      refine ⟨hb w y (Located.within_eq_ok_iff.1 hy), ?_⟩
      cases hsurplus : surplus? origin rest with
      | some fault =>
        rw [hsurplus] at h
        cases h
      | none =>
        rw [surplus?_eq_none_iff.1 hsurplus]
        trivial

theorem heeds_readPair (ha : Heeds a.read) (hb : Heeds b.read) (origin : Origin) (typeName : String) :
    Heeds (readPair a b origin typeName) := by
  intro d p h
  cases d with
  | object fields =>
    obtain ⟨q, hq, -⟩ := bind_eq_ok_iff.1 h
    exact unbroken_of_pairFields ha hb hq
  | array items => exact unbroken_of_pairItems ha hb h
  | _ => cases h

end Pair

theorem Heeds.map {α β : Type} {read : Draft → Except DecodeError α} (hread : Heeds read) (f : α → β) :
    Heeds fun d => (read d).map f := by
  intro d b h
  obtain ⟨a, ha, -⟩ := map_eq_ok_iff.1 h
  exact hread d a ha

theorem heeds_readSpan (origin : Origin) : Heeds (readSpan origin) :=
  (heeds_readPair heeds_readNatural heeds_readNatural origin "Span").map _

theorem heeds_readComment (origin : Origin) : Heeds (readComment origin) :=
  (heeds_readPair heeds_readOptionalString (heeds_readSpan origin) origin "Comment").map _

theorem heeds_readRootTag (f : Family) : Heeds (readRootTag f) := by
  intro d v h
  cases d with
  | string name => trivial
  | _ => cases h

theorem content_of_liftSyntax {α : Type} {x : Except (Located SyntaxError) α} {a : α}
    (h : readTagged.liftSyntax x = .ok a) : x = .ok a := by
  cases x with
  | ok b => exact congrArg Except.ok (Except.ok.inj h)
  | error e => cases h

theorem unbroken_of_readTagged {f : Family} : ∀ {fields : DraftFields}
    {tag : Option (Variant f.Carrier)} {p : Option (Variant f.Carrier) × List (String × Json)},
    readTagged f tag fields = .ok p → fields.Unbroken
  | .done, _, _, _ => trivial
  | .failed _, _, _, h => nomatch h
  | .unvalued name e, tag, p, h => by
    rw [readTagged] at h
    split_ifs at h
    · cases h
    · cases h
  | .field name d stepped rest, tag, p, h => by
    rw [readTagged] at h
    split_ifs at h
    · cases h
    · obtain ⟨t, ht, hrest⟩ := bind_eq_ok_iff.1 h
      exact ⟨.inl (heeds_readRootTag f d t (Located.within_eq_ok_iff.1 ht)),
        unbroken_of_readTagged hrest⟩
    · obtain ⟨x, hx, h⟩ := bind_eq_ok_iff.1 h
      obtain ⟨q, hrest, -⟩ := bind_eq_ok_iff.1 h
      exact ⟨.inl (Draft.unbroken_of_content (content_of_liftSyntax (Located.within_eq_ok_iff.1 hx))),
        unbroken_of_readTagged hrest⟩

theorem heeds_readNode (f : Family) : Heeds (readNode f) := by
  intro d a h
  cases d with
  | object fields =>
    obtain ⟨q, hq, -⟩ := bind_eq_ok_iff.1 h
    exact unbroken_of_readTagged hq
  | array items =>
    cases items with
    | done => trivial
    | failed e => cases h
    | item tag rest =>
      obtain ⟨v, hv, h⟩ := bind_eq_ok_iff.1 h
      obtain ⟨items, hitems, -⟩ := bind_eq_ok_iff.1 h
      exact ⟨heeds_readRootTag f tag v (Located.within_eq_ok_iff.1 hv),
        Draft.unbroken_of_contentItems (content_of_liftSyntax hitems)⟩
  | _ => cases h

theorem heeds_readSource (origin : Origin) : Heeds (readSource origin) :=
  (heeds_readPair (heeds_readList (heeds_readNode .declaration))
    (heeds_readList (heeds_readComment origin)) origin "SourceFile").map _

/-! ## The first value of a text -/

namespace Json

/-- What is read to its end is one value behind blanks. -/
theorem exists_spells_of_readValue {depth : Nat} {s t : List Char}
    (h : (shown (readValue depth s)).2 = some t) :
    ∃ gap value, IsBlank gap ∧ Spells .value value ∧ s = gap ++ (value ++ t) := by
  obtain ⟨value, hvalue, hs⟩ := exists_spells_value (leaves_of_readValue h)
  obtain ⟨gap, hgap, hgs⟩ := exists_blank hs
  exact ⟨gap, value, hgap, hvalue, hgs⟩

/-- Where a document ends its first value there are only blanks: a step goes over a value in one
    way. -/
theorem isBlank_of_isDocument {s t : List Char} (h : IsDocument s)
    (hstep : leaves (stepValue s) = .ok t) : IsBlank t := by
  obtain ⟨gap, value, gap', hgap, hvalue, hgap', rfl⟩ := h
  have hend : leaves (stepValue (gap ++ (value ++ gap'))) = .ok gap' := by
    rw [leaves_stepValue_congr (skipGaps_append hgap _)]
    refine hvalue.step_append fun _ => ?_
    rw [← List.append_nil gap']
    exact .append hgap' fun _ hc => nomatch hc
  obtain rfl := Except.ok.inj (hend.symm.trans hstep)
  exact hgap'

theorem isDocument_of_ofText {text : String} {v : Json} (h : ofText text = .ok v) :
    IsDocument text.toList := by
  unfold ofText at h
  dsimp only at h
  split at h
  · cases h
  · rename_i w hcontent
    obtain ⟨t, ht⟩ := Option.isSome_iff_exists.1 (isSome_readValue (Draft.unbroken_of_content hcontent))
    have hrest : (readText text.toList).2 = some t := ht
    split at h
    · rename_i hblank
      rw [hrest, Option.getD_some, List.all_eq_true] at hblank
      obtain ⟨gap, value, hgap, hvalue, hs⟩ := exists_spells_of_readValue ht
      exact ⟨gap, value, t, hgap, hvalue, hblank, hs⟩
    · cases h

end Json

/-- Whether a draft is a container. -/
def Draft.IsContainer : Draft → Prop
  | .array _ | .object _ => True
  | _ => False

namespace Json

theorem not_isContainer_numberDraft (negative : Bool) (n : Nat ⊕ Double) :
    ¬ (numberDraft negative n).IsContainer := by
  cases n with
  | inl n =>
    rw [numberDraft]
    split
    · exact id
    · split <;> exact id
  | inr x => exact id

theorem not_isContainer_of_readScalar {c : Char} {r t : List Char} {d : Draft}
    (h : bare (readScalar c r) = .ok (d, t)) : ¬ d.IsContainer := by
  obtain ⟨⟨d', t'⟩, hread, heq⟩ := map_eq_ok_iff.1 h
  obtain ⟨rfl, -⟩ := Prod.mk.inj heq
  have hmap : ∀ {α : Type} {x : Except SyntaxError α} {f : α → Draft × After (c :: r)},
      (∀ a, ¬ (f a).1.IsContainer) → x.map f = .ok (d', t') → ¬ d'.IsContainer := by
    intro α x f hf hx
    obtain ⟨a, -, ha⟩ := map_eq_ok_iff.1 hx
    have hdraft : (f a).1 = d' := congrArg Prod.fst ha
    exact hdraft ▸ hf a
  unfold readScalar at hread
  dsimp only at hread
  split at hread
  · exact hmap (fun n => not_isContainer_numberDraft false n.1) hread
  · split at hread
    · exact hmap (fun _ => id) hread
    · exact hmap (fun _ => id) hread
    · exact hmap (fun _ => id) hread
    · exact hmap (fun _ => id) hread
    · exact hmap (fun n => not_isContainer_numberDraft true n.1) hread
    · cases hread

/-- One reading of what stands inside brackets tells them all. -/
theorem read_eq_of_readsAlike {depth : Nat} {p : Part} {w t : List Char} {d : p.Reading}
    (h : p.ReadsAlike depth w) (hp : p ≠ .value) (hread : p.read depth (w ++ t) = (d, some t))
    (u : List Char) : p.read depth (w ++ u) = (d, some u) := by
  obtain ⟨d', ends, hall⟩ := h
  obtain ⟨rfl, hends⟩ := Prod.mk.inj (hread.symm.trans (hall t fun h => absurd h hp))
  cases ends with
  | false => cases hends
  | true => exact hall u fun h => absurd h hp

/-- Reading the parts of a container goes on to its bracket and looks at nothing behind it. -/
theorem oneDeeper_append {depth : Nat} {p : Part} {wrap : p.Reading → Draft} {r t : List Char}
    {d : Draft} (hp : p ≠ .value)
    (hspells : ∀ n, (p.read n r).2 = some t → ∃ w, Spells p w ∧ r = w ++ t)
    (h : oneDeeper wrap depth (fun n => p.read n r) = (d, some t)) :
    ∃ w, Spells p w ∧ r = w ++ t ∧
      ∀ u, oneDeeper wrap depth (fun n => p.read n (w ++ u)) = (d, some u) := by
  cases depth with
  | zero => cases h
  | succ n =>
    obtain ⟨hdraft, hrest⟩ := Prod.mk.inj h
    obtain ⟨w, hw, rfl⟩ := hspells n hrest
    have hread : p.read n (w ++ t) = ((p.read n (w ++ t)).1, some t) := Prod.ext rfl hrest
    refine ⟨w, hw, rfl, fun u => ?_⟩
    rw [oneDeeper, read_eq_of_readsAlike (hw.readsAlike n) hp hread u]
    exact congrArg (·, some u) hdraft

/-- Reading a container goes on to its bracket and looks at nothing behind it. -/
theorem readValue_append_of_isContainer {depth : Nat} {s t : List Char} {d : Draft}
    (h : shown (readValue depth s) = (d, some t)) (hd : d.IsContainer) :
    ∃ gap value, IsBlank gap ∧ Spells .value value ∧ s = gap ++ (value ++ t) ∧
      ∀ u, shown (readValue depth (gap ++ (value ++ u))) = (d, some u) := by
  cases hs : skipGaps s with
  | nil =>
    rw [shown_readValue_nil hs] at h
    cases h
  | cons c r =>
    obtain ⟨gap, hgap, rfl⟩ := exists_blank hs
    rw [shown_readValue hs] at h
    split_ifs at h with harray hobject
    · subst harray
      obtain ⟨w, hw, rfl, hall⟩ := oneDeeper_append (p := .items true) (fun h => nomatch h)
        (fun _ hrest => exists_spells_items (leaves_of_readItems hrest)) h
      refine ⟨gap, '[' :: w, hgap, .array hw, rfl, fun u => ?_⟩
      rw [List.cons_append, shown_readValue (skipGaps_blank hgap rfl _), if_pos rfl]
      exact hall u
    · subst hobject
      obtain ⟨w, hw, rfl, hall⟩ := oneDeeper_append (p := .fields true) (fun h => nomatch h)
        (fun _ hrest => exists_spells_fields (leaves_of_readFields hrest)) h
      refine ⟨gap, '\x7b' :: w, hgap, .object hw, rfl, fun u => ?_⟩
      rw [List.cons_append, shown_readValue (skipGaps_blank hgap rfl _), if_neg (by decide), if_pos rfl]
      exact hall u
    · split at h
      · cases h
      · rename_i d' t' hscalar
        obtain ⟨rfl, -⟩ := Prod.mk.inj h
        exact absurd hd (not_isContainer_of_readScalar hscalar)

end Json

theorem isContainer_of_readSource {origin : Origin} {d : Draft} {file : SourceFile}
    (h : readSource origin d = .ok file) : d.IsContainer := by
  obtain ⟨p, hp, -⟩ := map_eq_ok_iff.1 h
  cases d with
  | array items => trivial
  | object fields => trivial
  | _ => cases hp

/-! ## Texts and files -/

/-- A source is read from the first value of a text. -/
theorem SourceFile.exists_firstValue {text : String} {file : SourceFile}
    (h : SourceFile.ofText text = .ok file) :
    ∃ gap value rest, text.toList = gap ++ (value ++ rest) ∧ Json.IsBlank gap ∧
      Json.Spells .value value ∧ (Json.IsDocument text.toList ↔ Json.IsBlank rest) ∧
      ∀ behind, SourceFile.ofText (String.ofList (gap ++ (value ++ behind))) = .ok file := by
  obtain ⟨rest, hrest⟩ :=
    Option.isSome_iff_exists.1 (Json.isSome_readValue (heeds_readSource .text _ _ h))
  have hread : Json.shown (Json.readValue Json.depthBound text.toList) =
      (Draft.ofText text, some rest) := Prod.ext rfl hrest
  obtain ⟨gap, value, hgap, hvalue, htext, halike⟩ :=
    Json.readValue_append_of_isContainer hread (isContainer_of_readSource h)
  refine ⟨gap, value, rest, htext, hgap, hvalue, ?_, fun behind => ?_⟩
  · exact ⟨fun hdocument => Json.isBlank_of_isDocument hdocument (Json.leaves_of_readValue hrest),
      fun hblank => ⟨gap, value, rest, hgap, hvalue, hblank, htext⟩⟩
  · have hdraft : Draft.ofText (String.ofList (gap ++ (value ++ behind))) = Draft.ofText text := by
      rw [Draft.ofText, String.toList_ofList, Json.readText_eq, halike]
    rw [SourceFile.ofText, hdraft]
    exact h

namespace CommandLine

/-- A source is read from the first value of a text, and whatever stands behind makes no difference:
    the text is one value exactly if there are only blanks.  Under a filter nothing is loaded but
    from a text that is one value. -/
theorem only_filter_checks_end (text : String) :
    (∀ file, SourceFile.ofText text = .ok file →
      ∃ gap value rest, text.toList = gap ++ (value ++ rest) ∧ Json.IsBlank gap ∧
        Json.Spells .value value ∧ (Json.IsDocument text.toList ↔ Json.IsBlank rest) ∧
        ∀ behind, SourceFile.ofText (String.ofList (gap ++ (value ++ behind))) = .ok file) ∧
    ∀ (interpret : Filter.Interpreter) (read : Reader) (filter path : String) (file : SourceFile),
      readText read path = .ok text → load interpret read (some filter) path = .ok file →
      Json.IsDocument text.toList := by
  refine ⟨fun file => SourceFile.exists_firstValue, fun interpret read filter path file htext h => ?_⟩
  unfold load at h
  rw [htext] at h
  unfold sourceOf at h
  dsimp only at h
  split at h
  · cases h
  · rename_i v hv
    exact Json.isDocument_of_ofText hv

/-- The document of no declarations, and what is printed for it. -/
def nothing : Json := .object [("declarations", .array [])]

theorem fits_nothing : Json.Fits Json.depthBound nothing := ⟨_, rfl, ⟨_, rfl, trivial⟩, trivial⟩

theorem distinct_nothing : nothing.Distinct := ⟨by decide, trivial, trivial⟩

theorem text_nothing : (Filter.Value.ofJson nothing).text = "\x7b\"declarations\":[]\x7d" := by
  decide +kernel

theorem ofText_nothing : Json.ofText "\x7b\"declarations\":[]\x7d" = .ok nothing ∧
    Json.Unrepeated "\x7b\"declarations\":[]\x7d" := by
  rw [← text_nothing]
  exact ⟨Json.ofText_text fits_nothing distinct_nothing,
    Json.unrepeated_text fits_nothing distinct_nothing⟩

/-- The same with another document behind it. -/
theorem chars_nothing_append : "\x7b\"declarations\":[]\x7d \x7b\x7d".toList =
    (Filter.Value.ofJson nothing).chars ++ [' ', '\x7b', '\x7d'] := by
  decide +kernel

/-- A source with another document behind it, and the same source read under a filter. -/
theorem only_filter_checks_end_two :
    let text := "\x7b\"declarations\":[]\x7d \x7b\x7d"
    let alone := "\x7b\"declarations\":[]\x7d"
    let read : Reader := fun _ => .ok alone.toUTF8
    SourceFile.ofText text = .ok ⟨[], []⟩ ∧
      (∃ gap value rest, text.toList = gap ++ (value ++ rest) ∧ Json.IsBlank gap ∧
        Json.Spells .value value ∧ (Json.IsDocument text.toList ↔ Json.IsBlank rest) ∧
        ∀ behind, SourceFile.ofText (String.ofList (gap ++ (value ++ behind))) = .ok ⟨[], []⟩) ∧
      readText read "a" = .ok alone ∧ load Filter.evaluate read (some ".") "a" = .ok ⟨[], []⟩ ∧
      Json.IsDocument alone.toList := by
  intro text alone read
  have htext : SourceFile.ofText text = .ok ⟨[], []⟩ :=
    SourceFile.ofText_of_chars chars_nothing_append (Json.stops_cons (by decide)) fits_nothing rfl
  have hread : readText read "a" = .ok alone := readText_of_toUTF8 rfl
  obtain ⟨hvalue, hunrepeated⟩ : Json.ofText alone = .ok nothing ∧ Json.Unrepeated alone :=
    ofText_nothing
  have hfilter : Filter.evaluate.select "." nothing = .ok nothing :=
    ((Filter.handsOn_identity nothing).select_eq_ok_iff hvalue hunrepeated).2 rfl
  have hload : load Filter.evaluate read (some ".") "a" = .ok ⟨[], []⟩ :=
    (load_filtered_eq_ok_iff hread hvalue).2 ⟨nothing, hfilter, rfl⟩
  exact ⟨htext, (only_filter_checks_end text).1 _ htext, hread, hload,
    (only_filter_checks_end alone).2 Filter.evaluate read "." "a" _ hread hload⟩

/-- A text of two documents is accepted, though it is not one. -/
theorem accepts_text_behind_document :
    let text := "\x7b\"declarations\":[]\x7d \x7b\x7d"
    SourceFile.ofText text = .ok ⟨[], []⟩ ∧ ¬ Json.IsDocument text.toList := by
  intro text
  have hstops : Json.Stops [' ', '\x7b', '\x7d'] := Json.stops_cons (by decide)
  have hread := Json.readText_chars fits_nothing rfl hstops
  refine ⟨SourceFile.ofText_of_chars chars_nothing_append hstops fits_nothing rfl, fun h => ?_⟩
  rw [← chars_nothing_append, Json.readText_eq] at hread
  have hrest : (Json.shown (Json.readValue Json.depthBound text.toList)).2 = _ :=
    congrArg Prod.snd hread
  have hblank := Json.isBlank_of_isDocument h (Json.leaves_of_readValue hrest)
  exact absurd (hblank '\x7b' (by decide)) (by decide)

end CommandLine

end SchemaForest
