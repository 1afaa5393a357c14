import SchemaForest.Proofs.Overriding
import SchemaForest.Proofs.TagLines

/-!
# Decoded annotations

`Annotations.ofText` makes one entry of each tag name of a comment.

1. **From tags to entries.**  The names are those of the tags in the order in which they first come,
   and under each is what its last raw text means.  As no tag reaches over a line feed, a text under
   another one overrides it (`ofText_eq_of_tags`).
2. **What raw texts are there.**  A name is a run of name characters, and a raw text is the trimmed rest
   of a line that is not blank.  All of these come out of some comment, and nothing else does
   (`Tag.exists_mem_ofText_iff`).
3. **What values are there.**  The meaning of a tag has cases for texts that are empty or have several
   lines, and no comment leads there (`possible_ofTag`).  That is all a reader of annotations has to
   provide for (`possible_of_text`).
-/

namespace SchemaForest

/-! ## Raw texts -/

/-- A text that a tag can carry: one line without blanks around it, and not empty. -/
structure IsClean (s : String) : Prop where
  ne_empty : s ≠ ""
  trimmed : Text.trim s.toList = s.toList
  oneLine : '\n' ∉ s.toList

theorem isClean_true : IsClean "true" where
  ne_empty := by decide
  trimmed := by decide +kernel
  oneLine := by decide

/-- A tag has no text or a clean one. -/
def RawTag.IsClean : RawTag → Prop
  | .flag => True
  | .text s => SchemaForest.IsClean s

/-- The text of a tag is clean too if it is read as a flag. -/
theorem RawTag.IsClean.asText {raw : RawTag} (h : raw.IsClean) : SchemaForest.IsClean raw.asText := by
  cases raw with
  | flag => exact isClean_true
  | text s => exact h

theorem RawTag.isClean_ofRest {rest : List Char} (h : '\n' ∉ rest) : (RawTag.ofRest rest).IsClean := by
  rw [RawTag.ofRest]
  split
  · trivial
  · rename_i hne
    exact {
      ne_empty := fun hempty => hne (String.ofList_inj.1 hempty)
      trimmed := by rw [String.toList_ofList, Text.trim_trim]
      oneLine := fun hmem => h (Text.mem_of_mem_trim (by rwa [String.toList_ofList] at hmem)) }

/-- What stands behind the name of a tag in its line. -/
def RawTag.rest : RawTag → List Char
  | .flag => []
  | .text s => ' ' :: s.toList

theorem RawTag.ofRest_rest {raw : RawTag} (h : raw.IsClean) : RawTag.ofRest raw.rest = raw := by
  cases raw with
  | flag => rfl
  | text s =>
    have htrim : Text.trim (' ' :: s.toList) = s.toList := by
      rw [← List.singleton_append, Text.trim_blanks_append (List.forall_mem_singleton.2 rfl), h.trimmed]
    have hne : s.toList ≠ [] := fun hnil => h.ne_empty (String.toList_eq_nil_iff.1 hnil)
    rw [RawTag.ofRest, rest, htrim, if_neg hne, String.ofList_toList]

namespace Tag

/-- The name of a tag: name characters, and at least one. -/
structure IsName (s : String) : Prop where
  ne_empty : s ≠ ""
  chars : ∀ c ∈ s.toList, isNameChar c = true

/-- Each tag of a text has a name and a clean text, if it has any. -/
theorem isName_isClean_of_mem {text : String} {tag : String × RawTag} (h : tag ∈ ofText text) :
    IsName tag.1 ∧ tag.2.IsClean := by
  rw [ofText, scan_eq_lines] at h
  obtain ⟨line, hline, hfound⟩ := List.mem_filterMap.1 h
  obtain ⟨before, name, rest, hstands, -, rfl⟩ := ofLine?_eq_some_iff.1 hfound
  have hfeed : '\n' ∉ rest := by
    intro hmem
    refine Annotation.not_mem_of_mem_lines hline ?_
    rw [hstands.split]
    exact List.mem_append_right _ (List.mem_cons_of_mem _ (List.mem_append_right _ hmem))
  refine ⟨⟨fun hempty => hstands.ne_nil (String.ofList_inj.1 hempty), ?_⟩, RawTag.isClean_ofRest hfeed⟩
  rw [String.toList_ofList]
  exact hstands.isName

/-- A comment of one tag. -/
def written (name : String) (raw : RawTag) : String :=
  String.ofList ('@' :: (name.toList ++ raw.rest))

theorem ofText_written {name : String} {raw : RawTag} (hname : IsName name) (hraw : raw.IsClean) :
    ofText (written name raw) = [(name, raw)] := by
  have hends : ∀ c ∈ raw.rest.head?, isSeparator c = true := by
    cases raw with
    | flag => rintro c ⟨⟩
    | text s => rintro c ⟨⟩; rfl
  have hstands : Stands ('@' :: (name.toList ++ raw.rest)) [] name.toList raw.rest := {
    split := rfl
    ne_nil := fun hnil => hname.ne_empty (String.toList_eq_nil_iff.1 hnil)
    isName := hname.chars
    maximal := fun c hc => isNameChar_of_isSeparator (hends c hc)
    ends := hends }
  have hfound : ofLine? ('@' :: (name.toList ++ raw.rest)) = some (name, raw) := by
    refine ofLine?_eq_some_iff.2 ⟨_, _, _, hstands, fun _ _ _ _ => Nat.zero_le _, ?_⟩
    rw [RawTag.ofRest_rest hraw, String.ofList_toList]
  have hline : '\n' ∉ '@' :: (name.toList ++ raw.rest) := by
    intro hmem
    rcases List.mem_append.1 ((List.mem_cons.1 hmem).resolve_left (by decide)) with hmem | hmem
    · exact absurd (hname.chars _ hmem) (by rw [isNameChar_lineFeed]; decide)
    · cases raw with
      | flag => cases hmem
      | text s => exact hraw.oneLine ((List.mem_cons.1 hmem).resolve_left (by decide))
  rw [ofText, written, String.toList_ofList, scan_eq_lines, Annotation.lines_of_not_mem hline,
    List.filterMap_cons_some hfound, List.filterMap_nil]

/-- The tags that come out of comments are those with a name and a clean text, if they have any. -/
theorem exists_mem_ofText_iff {name : String} {raw : RawTag} :
    (∃ text, (name, raw) ∈ ofText text) ↔ IsName name ∧ raw.IsClean := by
  constructor
  · rintro ⟨text, h⟩
    exact isName_isClean_of_mem h
  · rintro ⟨hname, hraw⟩
    exact ⟨written name raw, ofText_written hname hraw ▸ List.mem_singleton_self _⟩

end Tag

/-! ## Entries of tags -/

namespace Annotations

open Entries (keys get?)

theorem keys_ofText (text : String) : keys (ofText text) = (keys (Tag.ofText text)).eraseDups := by
  rw [ofText, Entries.keys_ofPairs, keys, List.map_map]
  rfl

/-- Under a name there is what the last tag of that name means. -/
theorem get?_ofText_eq_some_iff {text tag : String} {value : Annotation} :
    get? (ofText text) tag = some value ↔
      ∃ front raw back, Tag.ofText text = front ++ (tag, raw) :: back ∧ tag ∉ keys back ∧
        value = Annotation.ofTag tag raw := by
  rw [ofText, Entries.get?_ofPairs, ← List.map_reverse, Entries.get?_mapValues Annotation.ofTag,
    Option.map_eq_some_iff]
  constructor
  · rintro ⟨raw, hraw, rfl⟩
    obtain ⟨front, back, hsplit, hnew⟩ := Entries.get?_reverse_eq_some_iff.1 hraw
    exact ⟨front, raw, back, hsplit, hnew, rfl⟩
  · rintro ⟨front, raw, back, hsplit, hnew, rfl⟩
    exact ⟨raw, Entries.get?_reverse_eq_some_iff.2 ⟨front, back, hsplit, hnew⟩, rfl⟩

/-- The annotations of a text: the names of its tags, each once and in the order in which they first
    come, and under each what its last raw text means.  A text under another one overrides it. -/
theorem ofText_eq_of_tags :
    (∀ text, keys (ofText text) = (keys (Tag.ofText text)).eraseDups ∧ (keys (ofText text)).Nodup ∧
        ∀ tag value, get? (ofText text) tag = some value ↔
          ∃ front raw back, Tag.ofText text = front ++ (tag, raw) :: back ∧ tag ∉ keys back ∧
            value = Annotation.ofTag tag raw) ∧
      ∀ a b, ofText (a ++ "\n" ++ b) = (ofText a).override (ofText b) := by
  refine ⟨fun text => ⟨keys_ofText text, Entries.nodup_keys_ofPairs _, fun tag value =>
    get?_ofText_eq_some_iff⟩, fun a b => ?_⟩
  rw [ofText, Tag.ofText_append_line, List.map_append, Entries.ofPairs_append, ← ofText, ← ofText]

end Annotations

/-! ## Values -/

namespace Annotation

/-- The tags whose value is true whatever their text. -/
def markers : List String := ["readOnly", "writeOnly", "ignore", "deprecated", "uniqueItems"]

/-- The values that a tag of a comment can have, by its name. -/
structure Possible (tag : String) (value : Annotation) : Prop where
  ofNumeric : tag ∈ numericTags → ∃ x, value = .number x
  ofMarker : tag ∈ markers → value = .boolean true
  ofExamples : tag = "examples" → ∃ s, value = .list [s] ∧ IsClean s
  ofDefault : tag = "default" →
    (∃ b, value = .boolean b) ∨ (∃ x, value = .number x ∧ x ≠ .nan) ∨
      ∃ s, value = .string s ∧ IsClean s ∧ s ≠ "true" ∧ s ≠ "false" ∧ NumberText.value s = .nan
  ofOther : tag ∉ numericTags → tag ∉ markers → tag ≠ "examples" → tag ≠ "default" →
    value = .boolean true ∨ ∃ s, value = .string s ∧ IsClean s

theorem ofTag_of_numeric {tag : String} (h : tag ∈ numericTags) (raw : RawTag) :
    ofTag tag raw = .number (NumberText.value raw.asText) := by
  have hne : tag ≠ "examples" := by
    rintro rfl
    exact absurd h (by decide)
  unfold ofTag
  rw [if_neg hne, if_pos h]

theorem ofTag_of_marker {tag : String} {raw : RawTag} (h : tag ∈ markers) (hraw : raw.IsClean) :
    ofTag tag raw = .boolean true := by
  have htext : (raw.asText != "") = true := bne_iff_ne.2 hraw.asText.ne_empty
  have hother : tag ≠ "examples" ∧ tag ∉ numericTags := by
    have hall : ∀ tag ∈ markers, tag ≠ "examples" ∧ tag ∉ numericTags := by decide
    exact hall tag h
  have hcases : (tag = "readOnly" ∨ tag = "writeOnly" ∨ tag = "ignore") ∨
      tag = "deprecated" ∨ tag = "uniqueItems" := by
    simpa [markers, or_assoc] using h
  unfold ofTag
  rw [if_neg hother.1, if_neg hother.2, htext]
  split
  · rfl
  · rename_i hsure
    rw [if_pos (hcases.resolve_left hsure)]

/-- A clean text is its only line, and there is nothing to trim. -/
theorem ofTag_examples {raw : RawTag} (h : raw.IsClean) :
    ofTag "examples" raw = .list [raw.asText] := by
  unfold ofTag
  rw [if_pos rfl, lines_of_not_mem h.asText.oneLine, List.map_singleton, h.asText.trimmed,
    String.ofList_toList]

theorem ofDefault_cases (s : String) :
    (∃ b, ofDefault s = .boolean b) ∨ (∃ x, ofDefault s = .number x ∧ x ≠ .nan) ∨
      ofDefault s = .string s ∧ s ≠ "true" ∧ s ≠ "false" ∧ NumberText.value s = .nan := by
  rw [ofDefault]
  split
  · exact .inl ⟨true, rfl⟩
  · rename_i htrue
    split
    · exact .inl ⟨false, rfl⟩
    · rename_i hfalse
      by_cases hnan : NumberText.value s = .nan
      · exact .inr (.inr ⟨if_pos (beq_iff_eq.2 hnan), htrue, hfalse, hnan⟩)
      · exact .inr (.inl ⟨_, if_neg (mt beq_iff_eq.1 hnan), hnan⟩)

/-- A tag of a comment has one of the values that are possible by its name. -/
theorem possible_ofTag {raw : RawTag} (h : raw.IsClean) (tag : String) :
    Possible tag (ofTag tag raw) where
  ofNumeric hnumeric := ⟨_, ofTag_of_numeric hnumeric raw⟩
  ofMarker hmarker := ofTag_of_marker hmarker h
  ofExamples := by
    rintro rfl
    exact ⟨raw.asText, ofTag_examples h, h.asText⟩
  ofDefault := by
    rintro rfl
    have hdefault : ofTag "default" raw = ofDefault raw.asText := by
      unfold ofTag
      rw [if_neg (by decide), if_neg (by decide), if_neg (by decide), if_neg (by decide),
        if_pos rfl]
    rw [hdefault]
    rcases ofDefault_cases raw.asText with hb | hx | ⟨hs, htrue, hfalse, hnan⟩
    · exact .inl hb
    · exact .inr (.inl hx)
    · exact .inr (.inr ⟨raw.asText, hs, h.asText, htrue, hfalse, hnan⟩)
  ofOther hnumeric hmarker hexamples hdefault := by
    have hsure : ¬(tag = "readOnly" ∨ tag = "writeOnly" ∨ tag = "ignore") := by
      rintro (rfl | rfl | rfl) <;> exact hmarker (by decide)
    have htext : ¬(tag = "deprecated" ∨ tag = "uniqueItems") := by
      rintro (rfl | rfl) <;> exact hmarker (by decide)
    unfold ofTag
    rw [if_neg hexamples, if_neg hnumeric, if_neg hsure, if_neg htext, if_neg hdefault]
    cases raw with
    | flag => exact .inl rfl
    | text s => exact .inr ⟨s, rfl, h⟩

end Annotation

/-- What can come out of a comment.  The tags are all those with a name and no text or a clean one, so
    no raw text is empty, has blanks around it or goes over lines, and every value is one of those that
    are possible by the name of its tag. -/
theorem Annotations.possible_of_text :
    (∀ name raw, (∃ text, (name, raw) ∈ Tag.ofText text) ↔ Tag.IsName name ∧ raw.IsClean) ∧
      ∀ text tag value, (tag, value) ∈ ofText text → Annotation.Possible tag value := by
  refine ⟨fun _ _ => Tag.exists_mem_ofText_iff, fun text tag value h => ?_⟩
  have hvalue := Entries.get?_of_mem (Entries.nodup_keys_ofPairs _) h
  obtain ⟨front, raw, back, hsplit, -, rfl⟩ := get?_ofText_eq_some_iff.1 hvalue
  have hmem : (tag, raw) ∈ Tag.ofText text :=
    hsplit ▸ List.mem_append_right _ List.mem_cons_self
  exact Annotation.possible_ofTag (Tag.isName_isClean_of_mem hmem).2 tag

/-- A default that is no truth value and no number. -/
theorem Annotations.possible_of_text_default :
    ("default", .string "1 000") ∈ ofText "@minimum x\n* @default  1 000 \r\n@title" ∧
      Annotation.Possible "default" (.string "1 000") := by
  have h : ("default", .string "1 000") ∈ ofText "@minimum x\n* @default  1 000 \r\n@title" := by
    decide +kernel
  exact ⟨h, possible_of_text.2 _ _ _ h⟩

end SchemaForest
