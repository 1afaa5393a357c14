import SchemaForest.Proofs.Decoding

/-!
# The layout of comments

The lines of a comment may be indented, have stars in front, and end in blanks or in a carriage return;
nothing of that is read.

1. **One line** (`ofLine?_relaid`).  In front of the first `@` nothing counts, so a text without one can
   be put there.  Behind the line separators can be put: a name at its end is followed by a blank
   instead of nothing, which ends it as well, and what trimming leaves of the rest is the same.
2. **All lines at once.**  The tags of a text are those of its lines (`Tag.scan_eq_lines`), and neither
   what is put in front nor what is put behind has a line feed, so the lines stay lines.
3. **Line endings.**  A carriage return in front of each line feed is a layout of this kind.
-/

namespace SchemaForest

namespace Tag

open Annotation (lines)

/-! ## One line -/

theorem ofLine?_append_front {front : List Char} (h : '@' ∉ front) (line : List Char) :
    ofLine? (front ++ line) = ofLine? line := by
  induction front with
  | nil => rfl
  | cons c front ih =>
    have hc : c ≠ '@' := fun hc => h (hc ▸ List.mem_cons_self)
    rw [List.cons_append, ofLine?, if_neg fun hat => hc hat.1]
    exact ih fun hmem => h (List.mem_cons_of_mem c hmem)

section Back

variable {back : List Char} (hback : ∀ c ∈ back, isSeparator c = true)

include hback

theorem isNameChar_of_back : ∀ c ∈ back.head?, isNameChar c = false :=
  fun c hc => isNameChar_of_isSeparator (hback c (List.mem_of_mem_head? hc))

/-- Separators behind a line end a name where the line ended it, and nowhere else. -/
theorem named_append_back (s : List Char) : Named (s ++ back) ↔ Named s := by
  rw [Named, Named, takeWhile_append_of_head (isNameChar_of_back hback),
    dropWhile_append_of_head (isNameChar_of_back hback)]
  refine and_congr_right fun _ => ?_
  cases s.dropWhile isNameChar with
  | nil =>
    refine iff_of_true ?_ rfl
    rw [List.nil_append, Option.all_eq_true]
    exact fun c hc => hback c (List.mem_of_mem_head? hc)
  | cons c r => exact Iff.rfl

theorem ofRest_append_back (rest : List Char) :
    RawTag.ofRest (rest ++ back) = RawTag.ofRest rest := by
  rw [RawTag.ofRest, RawTag.ofRest,
    Text.trim_append_blanks fun c hc => isBlank_of_isSeparator (hback c hc)]

theorem ofLine?_append_back (line : List Char) : ofLine? (line ++ back) = ofLine? line := by
  induction line with
  | nil =>
    have hat : '@' ∉ back := fun h => absurd (hback '@' h) (by decide)
    have hnone := ofLine?_append_front hat []
    rwa [List.append_nil] at hnone
  | cons c s ih =>
    rw [List.cons_append, ofLine?, ofLine?, ih, takeWhile_append_of_head (isNameChar_of_back hback),
      dropWhile_append_of_head (isNameChar_of_back hback), ofRest_append_back hback]
    simp only [named_append_back hback]

end Back

/-- What stands in front of a line without an `@`, and separators behind it, do not change its tag. -/
theorem ofLine?_relaid {front back : List Char} (hfront : '@' ∉ front)
    (hback : ∀ c ∈ back, isSeparator c = true) (line : List Char) :
    ofLine? (front ++ line ++ back) = ofLine? line :=
  (ofLine?_append_back hback _).trans (ofLine?_append_front hfront line)

/-! ## All lines -/

/-- The text with something put in front of each line and something behind it, by the number of the
    line. -/
def relaid (front back : Nat → List Char) (text : String) : String :=
  String.ofList (['\n'].intercalate
    ((lines text.toList).mapIdx fun i line => front i ++ line ++ back i))

/-- The text with a carriage return in front of each line feed. -/
def withReturns (text : String) : String :=
  String.ofList (['\r', '\n'].intercalate (lines text.toList))

theorem filterMap_relaid {front back : Nat → List Char} (hfront : ∀ i, '@' ∉ front i)
    (hback : ∀ i, ∀ c ∈ back i, isSeparator c = true) (ls : List (List Char)) :
    (ls.mapIdx fun i line => front i ++ line ++ back i).filterMap ofLine? = ls.filterMap ofLine? := by
  induction ls generalizing front back with
  | nil => rfl
  | cons line ls ih =>
    rw [List.mapIdx_cons, List.filterMap_cons, List.filterMap_cons, ofLine?_relaid (hfront 0) (hback 0),
      ih (fun i => hfront (i + 1)) fun i => hback (i + 1)]

/-- Neither what is put in front nor what is put behind cuts a line. -/
theorem lines_relaid {front back : Nat → List Char} (hfront : ∀ i, '\n' ∉ front i)
    (hback : ∀ i, ∀ c ∈ back i, isSeparator c = true) (text : String) :
    lines (relaid front back text).toList =
      (lines text.toList).mapIdx fun i line => front i ++ line ++ back i := by
  rw [relaid, String.toList_ofList]
  refine Annotation.lines_intercalate ?_ ?_
  · rw [Ne, List.mapIdx_eq_nil_iff, Annotation.lines_eq_splitOn]
    exact List.splitOn_ne_nil '\n' _
  · intro l hl hmem
    obtain ⟨i, hi, rfl⟩ := List.mem_mapIdx.1 hl
    have hline := Annotation.not_mem_of_mem_lines (List.getElem_mem hi)
    rcases List.mem_append.1 hmem with hmem | hmem
    · rcases List.mem_append.1 hmem with hmem | hmem
      · exact hfront i hmem
      · exact hline hmem
    · exact absurd rfl (ne_lineFeed_of_isSeparator (hback i _ hmem))

theorem ofText_relaid {front back : Nat → List Char} (hfront : ∀ i, '@' ∉ front i ∧ '\n' ∉ front i)
    (hback : ∀ i, ∀ c ∈ back i, isSeparator c = true) (text : String) :
    ofText (relaid front back text) = ofText text := by
  rw [ofText, scan_eq_lines, lines_relaid (fun i => (hfront i).2) hback,
    filterMap_relaid (fun i => (hfront i).1) hback, ← scan_eq_lines, ← ofText]

/-- Carriage returns in front of line feeds stand behind all lines but the last. -/
theorem intercalate_returns (ls : List (List Char)) :
    ['\r', '\n'].intercalate ls = ['\n'].intercalate
      (ls.mapIdx fun i line => [] ++ line ++ if i + 1 < ls.length then ['\r'] else []) := by
  induction ls with
  | nil => rfl
  | cons line ls ih =>
    cases ls with
    | nil => simp
    | cons line' ls =>
      rw [List.intercalate_cons_cons, ih, List.mapIdx_cons, List.mapIdx_cons, List.mapIdx_cons,
        List.intercalate_cons_cons]
      simp

theorem withReturns_eq_relaid (text : String) :
    withReturns text = relaid (fun _ => [])
      (fun i => if i + 1 < (lines text.toList).length then ['\r'] else []) text := by
  rw [withReturns, relaid, intercalate_returns]

/-- With carriage returns a text has the same tags. -/
theorem ofText_withReturns (text : String) : ofText (withReturns text) = ofText text := by
  rw [withReturns_eq_relaid]
  refine ofText_relaid (fun _ => ⟨List.not_mem_nil, List.not_mem_nil⟩) (fun i c hc => ?_) text
  split at hc
  · rw [List.mem_singleton.1 hc]
    rfl
  · cases hc

end Tag

/-! ## Decoding -/

/-- The layout of a comment is not read: whatever stands in front of each line, without an `@` and
    without line feeds, and whatever blanks of the five kinds that may follow a name stand behind it,
    the tags and the annotations are the same.  So are those of a text with other line endings. -/
theorem tags_of_any_layout {front back : Nat → List Char}
    (hfront : ∀ i, '@' ∉ front i ∧ '\n' ∉ front i)
    (hback : ∀ i, ∀ c ∈ back i, c = ' ' ∨ c = '\t' ∨ c = '\r' ∨ c = '\x0b' ∨ c = '\x0c')
    (text : String) :
    Tag.ofText (Tag.relaid front back text) = Tag.ofText text ∧
      Annotations.ofText (Tag.relaid front back text) = Annotations.ofText text ∧
      Tag.ofText (Tag.withReturns text) = Tag.ofText text ∧
      Annotations.ofText (Tag.withReturns text) = Annotations.ofText text := by
  have hlayout : Tag.ofText (Tag.relaid front back text) = Tag.ofText text :=
    Tag.ofText_relaid hfront (fun i c hc => Tag.isSeparator_iff.2 (hback i c hc)) text
  have hreturns : Tag.ofText (Tag.withReturns text) = Tag.ofText text := Tag.ofText_withReturns text
  refine ⟨hlayout, ?_, hreturns, ?_⟩
  · rw [Annotations.ofText, hlayout, ← Annotations.ofText]
  · rw [Annotations.ofText, hreturns, ← Annotations.ofText]

/-- A comment with stars in front of its lines, and a tab and a carriage return behind them. -/
theorem tags_of_any_layout_starred :
    Tag.relaid (fun _ => " * ".toList) (fun _ => ['\t', '\r']) "@title A b\n@ignore" =
        " * @title A b\t\r\n * @ignore\t\r" ∧
      Annotations.ofText " * @title A b\t\r\n * @ignore\t\r" =
        [("title", .string "A b"), ("ignore", .boolean true)] := by
  have hrelaid : Tag.relaid (fun _ => " * ".toList) (fun _ => ['\t', '\r']) "@title A b\n@ignore" =
      " * @title A b\t\r\n * @ignore\t\r" := by
    decide +kernel
  have hplain : Annotations.ofText "@title A b\n@ignore" =
      [("title", .string "A b"), ("ignore", .boolean true)] := by
    decide +kernel
  have hfront : ∀ _ : Nat, '@' ∉ " * ".toList ∧ '\n' ∉ " * ".toList := fun _ => by decide
  have hback : ∀ _ : Nat, ∀ c ∈ ['\t', '\r'],
      c = ' ' ∨ c = '\t' ∨ c = '\r' ∨ c = '\x0b' ∨ c = '\x0c' := by
    intro _ c hc
    rcases List.mem_cons.1 hc with rfl | hc
    · exact .inr (.inl rfl)
    · exact .inr (.inr (.inl (List.mem_singleton.1 hc)))
  have hlayout := (tags_of_any_layout hfront hback "@title A b\n@ignore").2.1
  exact ⟨hrelaid, hrelaid ▸ hlayout.trans hplain⟩

end SchemaForest
