import SchemaForest.Proofs.Lines

/-!
# Tags line by line

`Tag.scan` reads a whole text from left to right and goes on behind the line of each tag that it finds.
The same tags come out of a scanner that sees one line at a time.

1. **The scanner of a line** (`ofLine?`) takes the first `@` with a name behind it that ends as a name
   has to: at the end of the line or in front of a separator.  `ofLine?_eq_some_iff` says so without the
   scanner, by how the line splits around its first tag.
2. **No tag reaches over a line feed.**  Line feeds are no name characters and no separators, so an `@`
   in a line starts a tag of the text exactly if it starts one of the line, whatever comes behind
   (`atStart?_append`).  That is the crux: `scan_append` follows by induction on the line, and
   `scan_eq_lines` by induction on the lines.
-/

namespace SchemaForest.Tag

open Annotation (lines intercalate_lines)

/-! ## Characters -/

theorem isNameChar_lineFeed : isNameChar '\n' = false := by decide

theorem isSeparator_iff {c : Char} :
    isSeparator c = true ↔ c = ' ' ∨ c = '\t' ∨ c = '\r' ∨ c = '\x0b' ∨ c = '\x0c' := by
  simp [isSeparator, or_assoc]

/-- No name goes on with a separator, so a run in front of one is as long as it can be. -/
theorem isNameChar_of_isSeparator {c : Char} (h : isSeparator c = true) : isNameChar c = false := by
  rcases isSeparator_iff.1 h with rfl | rfl | rfl | rfl | rfl <;> decide

theorem isBlank_of_isSeparator {c : Char} (h : isSeparator c = true) : Text.isBlank c = true := by
  rcases isSeparator_iff.1 h with rfl | rfl | rfl | rfl | rfl <;> decide

theorem ne_lineFeed_of_isSeparator {c : Char} (h : isSeparator c = true) : c ≠ '\n' := by
  rintro rfl
  exact absurd h (by decide)

/-! ## Runs in front of a text that does not go on with them -/

theorem takeWhile_append_of_head {p : Char → Bool} {tail : List Char}
    (h : ∀ c ∈ tail.head?, p c = false) (s : List Char) :
    (s ++ tail).takeWhile p = s.takeWhile p := by
  induction s with
  | nil =>
    cases tail with
    | nil => rfl
    | cons c r => exact List.takeWhile_cons_of_neg (Bool.eq_false_iff.1 (h c rfl))
  | cons c r ih => rw [List.cons_append, List.takeWhile_cons, List.takeWhile_cons, ih]

theorem dropWhile_append_of_head {p : Char → Bool} {tail : List Char}
    (h : ∀ c ∈ tail.head?, p c = false) (s : List Char) :
    (s ++ tail).dropWhile p = s.dropWhile p ++ tail := by
  have hsplit : (s ++ tail).takeWhile p ++ (s ++ tail).dropWhile p =
      s.takeWhile p ++ (s.dropWhile p ++ tail) := by
    rw [List.takeWhile_append_dropWhile, ← List.append_assoc, List.takeWhile_append_dropWhile]
  rw [takeWhile_append_of_head h] at hsplit
  exact List.append_cancel_left hsplit

/-! ## The tag of a line -/

/-- The text behind an `@` starts with a name that ends there: with the line, or with a separator. -/
def Named (s : List Char) : Prop :=
  s.takeWhile isNameChar ≠ [] ∧ (s.dropWhile isNameChar).head?.all isSeparator = true

instance (s : List Char) : Decidable (Named s) := inferInstanceAs (Decidable (_ ∧ _))

/-- The tag of a line: the one at the first `@` that has a name behind it. -/
def ofLine? : List Char → Option (String × RawTag)
  | [] => none
  | c :: s =>
    if c = '@' ∧ Named s then
      some (String.ofList (s.takeWhile isNameChar), RawTag.ofRest (s.dropWhile isNameChar))
    else ofLine? s

/-- A tag stands in a line behind `before`: an `@`, a name of as many characters as there are, and the
    rest of the line, which is empty or starts with a separator. -/
structure Stands (line before name rest : List Char) : Prop where
  split : line = before ++ '@' :: (name ++ rest)
  ne_nil : name ≠ []
  isName : ∀ c ∈ name, isNameChar c = true
  maximal : ∀ c ∈ rest.head?, isNameChar c = false
  ends : ∀ c ∈ rest.head?, isSeparator c = true

/-- A tag is the first one of a line, and the trimmed rest of the line is its raw text. -/
def IsFirst (line : List Char) (tag : String × RawTag) : Prop :=
  ∃ before name rest, Stands line before name rest ∧
    (∀ before' name' rest', Stands line before' name' rest' → before.length ≤ before'.length) ∧
    tag = (String.ofList name, RawTag.ofRest rest)

/-- At the head of a line a tag can only be the whole run of name characters and what is left. -/
theorem stands_nil_iff {s name rest : List Char} :
    Stands ('@' :: s) [] name rest ↔
      Named s ∧ name = s.takeWhile isNameChar ∧ rest = s.dropWhile isNameChar := by
  constructor
  · intro h
    have hs : s = name ++ rest := (List.cons.inj h.split).2
    have hname : name.takeWhile isNameChar = name := List.takeWhile_eq_self_iff.2 h.isName
    have htake : s.takeWhile isNameChar = name := by
      rw [hs, takeWhile_append_of_head h.maximal, hname]
    have hdrop : s.dropWhile isNameChar = rest := by
      rw [hs, dropWhile_append_of_head h.maximal, List.dropWhile_eq_nil_iff.2 h.isName, List.nil_append]
    refine ⟨⟨htake ▸ h.ne_nil, ?_⟩, htake.symm, hdrop.symm⟩
    rw [hdrop, Option.all_eq_true]
    exact h.ends
  · rintro ⟨⟨hne, hends⟩, rfl, rfl⟩
    have hends : ∀ c ∈ (s.dropWhile isNameChar).head?, isSeparator c = true := by
      rwa [Option.all_eq_true] at hends
    exact {
      split := by rw [List.takeWhile_append_dropWhile, List.nil_append]
      ne_nil := hne
      isName := fun c hc => List.mem_takeWhile_imp hc
      maximal := fun c hc => isNameChar_of_isSeparator (hends c hc)
      ends := hends }

/-- What stands behind the first character of a line stands in the rest of it. -/
theorem stands_cons_iff {c : Char} {line before name rest : List Char} :
    Stands (c :: line) (c :: before) name rest ↔ Stands line before name rest := by
  constructor <;> intro h
  · exact ⟨(List.cons.inj h.split).2, h.ne_nil, h.isName, h.maximal, h.ends⟩
  · exact ⟨congrArg (c :: ·) h.split, h.ne_nil, h.isName, h.maximal, h.ends⟩

/-- A tag stands at the head of a line, or behind its first character in the rest. -/
theorem stands_cons_cases {c : Char} {line before name rest : List Char}
    (h : Stands (c :: line) before name rest) :
    c = '@' ∧ Named line ∧ before = [] ∨
      ∃ before', before = c :: before' ∧ Stands line before' name rest := by
  cases before with
  | nil =>
    obtain rfl : c = '@' := (List.cons.inj h.split).1
    exact .inl ⟨rfl, (stands_nil_iff.1 h).1, rfl⟩
  | cons d before' =>
    obtain rfl : c = d := (List.cons.inj h.split).1
    exact .inr ⟨before', rfl, stands_cons_iff.1 h⟩

/-- The scanner of a line finds the first tag that stands in it. -/
theorem ofLine?_eq_some_iff {line : List Char} {tag : String × RawTag} :
    ofLine? line = some tag ↔ IsFirst line tag := by
  induction line with
  | nil =>
    refine iff_of_false nofun ?_
    rintro ⟨before, name, rest, h, -⟩
    exact absurd h.split (by simp)
  | cons c s ih =>
    by_cases hhead : c = '@' ∧ Named s
    · obtain ⟨rfl, hs⟩ := hhead
      have hfirst := stands_nil_iff.2 ⟨hs, rfl, rfl⟩
      rw [ofLine?, if_pos ⟨rfl, hs⟩]
      constructor
      · intro h
        exact ⟨_, _, _, hfirst, fun _ _ _ _ => Nat.zero_le _, (Option.some.inj h).symm⟩
      · rintro ⟨before, name, rest, h, hleast, rfl⟩
        obtain rfl : before = [] := List.eq_nil_of_length_eq_zero (Nat.le_zero.1 (hleast _ _ _ hfirst))
        obtain ⟨-, rfl, rfl⟩ := stands_nil_iff.1 h
        rfl
    · -- nothing stands at the head, so all that stands in the line stands behind it
      have hbehind : ∀ before name rest, Stands (c :: s) before name rest →
          ∃ before', before = c :: before' ∧ Stands s before' name rest := by
        intro before name rest h
        rcases stands_cons_cases h with ⟨rfl, hs, -⟩ | h
        · exact absurd ⟨rfl, hs⟩ hhead
        · exact h
      rw [ofLine?, if_neg hhead, ih]
      constructor
      · rintro ⟨before, name, rest, h, hleast, htag⟩
        refine ⟨c :: before, name, rest, stands_cons_iff.2 h, fun _ _ _ h' => ?_, htag⟩
        obtain ⟨before', rfl, hs⟩ := hbehind _ _ _ h'
        exact Nat.succ_le_succ (hleast _ _ _ hs)
      · rintro ⟨before, name, rest, h, hleast, htag⟩
        obtain ⟨before', rfl, hs⟩ := hbehind _ _ _ h
        exact ⟨before', name, rest, hs,
          fun _ _ _ h' => Nat.le_of_succ_le_succ (hleast _ _ _ (stands_cons_iff.2 h')), htag⟩

/-! ## Steps of the scan -/

theorem scan_cons_of_ne {c : Char} (h : c ≠ '@') (s : List Char) : scan (c :: s) = scan s := by
  rw [scan, if_neg h]

theorem scan_at_of_none {s : List Char} (h : atStart? s = none) : scan ('@' :: s) = scan s := by
  rw [scan, if_pos rfl]
  split
  · rename_i hit
    rw [h] at hit
    cases hit
  · rfl

theorem scan_at_of_some {s name value rest : List Char} (h : atStart? s = some (name, value, rest)) :
    scan ('@' :: s) = (String.ofList name, RawTag.ofRest value) :: scan rest := by
  rw [scan, if_pos rfl]
  split
  · rename_i hit
    rw [h] at hit
    cases hit
    rfl
  · rename_i hit
    rw [h] at hit
    cases hit

/-! ## Lines of a text -/

variable {s tail : List Char}

/-- What may follow a line: nothing, or a line feed and more. -/
theorem isNameChar_of_head (htail : ∀ c ∈ tail.head?, c = '\n') :
    ∀ c ∈ tail.head?, isNameChar c = false :=
  fun c hc => htail c hc ▸ isNameChar_lineFeed

/-- A name in a line starts a tag of the text, with the rest of the line as its text, and where no name
    is in the line there is none in the text.  The scan may go on with the line feed or behind it: it
    finds the same. -/
theorem atStart?_append (hs : '\n' ∉ s) (htail : ∀ c ∈ tail.head?, c = '\n') :
    (Named s ∧ ∃ after, scan after = scan tail ∧
        atStart? (s ++ tail) = some (s.takeWhile isNameChar, s.dropWhile isNameChar, after)) ∨
      ¬Named s ∧ atStart? (s ++ tail) = none := by
  rw [Named, atStart?, takeWhile_append_of_head (isNameChar_of_head htail),
    dropWhile_append_of_head (isNameChar_of_head htail)]
  by_cases hne : s.takeWhile isNameChar = []
  · exact .inr ⟨fun h => h.1 hne, if_pos hne⟩
  rw [if_neg hne]
  have hdrop : ∀ c ∈ s.dropWhile isNameChar, c ≠ '\n' := by
    rintro c hc rfl
    exact hs ((List.dropWhile_sublist isNameChar).subset hc)
  cases hrest : s.dropWhile isNameChar with
  | nil =>
    refine .inl ⟨⟨hne, rfl⟩, ?_⟩
    cases tail with
    | nil => exact ⟨[], rfl, rfl⟩
    | cons c b =>
      obtain rfl := htail c rfl
      exact ⟨b, (scan_cons_of_ne (by decide) b).symm, rfl⟩
  | cons c r =>
    rw [hrest] at hdrop
    rw [List.cons_append]
    dsimp only
    rw [if_neg (hdrop c List.mem_cons_self)]
    by_cases hsep : isSeparator c = true
    · have hr : ∀ d ∈ r, inLine d = true := fun d hd =>
        bne_iff_ne.2 (hdrop d (List.mem_cons_of_mem c hd))
      have htail' : ∀ d ∈ tail.head?, inLine d = false := fun d hd => htail d hd ▸ rfl
      refine .inl ⟨⟨hne, hsep⟩, tail, rfl, ?_⟩
      rw [if_pos hsep, takeWhile_append_of_head htail', dropWhile_append_of_head htail',
        List.takeWhile_eq_self_iff.2 hr, List.dropWhile_eq_nil_iff.2 hr, List.nil_append]
    · exact .inr ⟨fun h => hsep h.2, if_neg hsep⟩

/-- A line at the front of a text brings its own tag, and the scan goes on behind it. -/
theorem scan_append (hs : '\n' ∉ s) (htail : ∀ c ∈ tail.head?, c = '\n') :
    scan (s ++ tail) = (ofLine? s).toList ++ scan tail := by
  induction s with
  | nil => rfl
  | cons c s ih =>
    have hs' : '\n' ∉ s := fun h => hs (List.mem_cons_of_mem c h)
    rw [List.cons_append, ofLine?]
    by_cases hc : c = '@'
    · subst hc
      rcases atStart?_append hs' htail with ⟨hnamed, after, hafter, hstart⟩ | ⟨hnamed, hstart⟩
      · rw [if_pos ⟨rfl, hnamed⟩, scan_at_of_some hstart, hafter]
        rfl
      · rw [if_neg fun h => hnamed h.2, scan_at_of_none hstart, ih hs']
    · rw [if_neg fun h => hc h.1, scan_cons_of_ne hc, ih hs']

theorem scan_intercalate {ls : List (List Char)} (h : ∀ l ∈ ls, '\n' ∉ l) :
    scan (['\n'].intercalate ls) = ls.flatMap fun l => (ofLine? l).toList := by
  induction ls with
  | nil => rw [List.intercalate_nil, List.flatMap_nil, scan]
  | cons l ls ih =>
    have hl : '\n' ∉ l := h l List.mem_cons_self
    cases ls with
    | nil =>
      have hline : scan (l ++ []) = _ := scan_append hl fun c hc => absurd hc (Option.not_mem_none c)
      rw [List.append_nil, scan] at hline
      rw [List.intercalate_singleton, hline, List.flatMap_cons, List.flatMap_nil]
    | cons l' ls =>
      have hfeed : ∀ c ∈ (['\n'] ++ ['\n'].intercalate (l' :: ls)).head?, c = '\n' :=
        fun c hc => (Option.some.inj hc).symm
      rw [List.intercalate_cons_cons, List.append_assoc, scan_append hl hfeed, List.singleton_append,
        scan_cons_of_ne (by decide), ih fun l hl => h l (List.mem_cons_of_mem _ hl)]
      rfl

/-- The tags of a text are the tags of its lines, one after the other. -/
theorem scan_eq_lines (s : List Char) : scan s = (lines s).filterMap ofLine? := by
  have h := scan_intercalate fun l (hl : l ∈ lines s) => Annotation.not_mem_of_mem_lines hl
  rwa [intercalate_lines, ← List.filterMap_eq_flatMap_toList] at h

/-- Texts one under the other have their tags one after the other. -/
theorem ofText_append_line (a b : String) : ofText (a ++ "\n" ++ b) = ofText a ++ ofText b := by
  have hsplit : (a ++ "\n" ++ b).toList = a.toList ++ '\n' :: b.toList := by
    rw [String.toList_append, String.toList_append, List.append_assoc]
    rfl
  rw [ofText, hsplit, scan_eq_lines, Annotation.lines_append, List.filterMap_append, ← scan_eq_lines,
    ← scan_eq_lines, ← ofText, ← ofText]

end SchemaForest.Tag
