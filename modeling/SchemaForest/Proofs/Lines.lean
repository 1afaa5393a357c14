import Mathlib.Data.List.Basic
import Mathlib.Data.List.DropRight
import SchemaForest.Annotation.Basic

/-!
# Lines, and the blanks around a text

1. **Lines are pieces.**  `Annotation.lines` cuts a text at its line feeds (`lines_eq_splitOn`), so no
   line has a line feed, and lines with line feeds between them are cut into just these lines again.
2. **Trimming looks at both ends only.**  A trimmed text is trimmed already (`trim_trim`), and blanks
   that are put in front or behind are gone after it (`trim_blanks_append`, `trim_append_blanks`).
-/

namespace SchemaForest

/-! ## Lines -/

namespace Annotation

theorem lines_eq_splitOn (s : List Char) : lines s = s.splitOn '\n' := by
  induction s with
  | nil => rfl
  | cons c r ih =>
    rw [lines, List.splitOn_cons_eq_if_modifyHead, ih]
    by_cases h : c = '\n'
    · rw [if_pos h, if_pos (beq_iff_eq.2 h)]
    · rw [if_neg h, if_neg (mt beq_iff_eq.1 h)]
      obtain ⟨l, ls, hl⟩ := List.exists_cons_of_ne_nil (List.splitOn_ne_nil '\n' r)
      rw [hl, List.modifyHead_cons]

theorem lines_append (a b : List Char) : lines (a ++ '\n' :: b) = lines a ++ lines b := by
  rw [lines_eq_splitOn, lines_eq_splitOn, lines_eq_splitOn, List.splitOn_append_cons_self]

/-- A text without line feeds is one line. -/
theorem lines_of_not_mem {s : List Char} (h : '\n' ∉ s) : lines s = [s] := by
  rw [lines_eq_splitOn, List.splitOn_eq_singleton h]

theorem not_mem_of_mem_lines {s l : List Char} (h : l ∈ lines s) : '\n' ∉ l := by
  induction s generalizing l with
  | nil => rw [List.mem_singleton.1 h]; exact List.not_mem_nil
  | cons c r ih =>
    rw [lines_eq_splitOn, List.splitOn_cons_eq_if_modifyHead, ← lines_eq_splitOn] at h
    split at h
    · rcases List.mem_cons.1 h with rfl | h
      · exact List.not_mem_nil
      · exact ih h
    · rename_i hc
      obtain ⟨l₀, ls, hl⟩ := List.exists_cons_of_ne_nil (List.splitOn_ne_nil '\n' r)
      rw [← lines_eq_splitOn] at hl
      rw [hl, List.modifyHead_cons] at h
      rcases List.mem_cons.1 h with rfl | h
      · intro hmem
        rcases List.mem_cons.1 hmem with heq | hmem
        · exact hc (beq_iff_eq.2 heq.symm)
        · exact ih (hl ▸ List.mem_cons_self) hmem
      · exact ih (hl ▸ List.mem_cons_of_mem _ h)

/-- A text is its lines with line feeds between them. -/
theorem intercalate_lines (s : List Char) : ['\n'].intercalate (lines s) = s := by
  rw [lines_eq_splitOn, List.intercalate_splitOn]

/-- Lines with line feeds between them are the lines of what they make. -/
theorem lines_intercalate {ls : List (List Char)} (hne : ls ≠ []) (h : ∀ l ∈ ls, '\n' ∉ l) :
    lines (['\n'].intercalate ls) = ls := by
  rw [lines_eq_splitOn, List.splitOn_intercalate '\n' h hne]

end Annotation

/-! ## The blanks around a text -/

namespace Text

theorem trimEnd_eq_rdropWhile (s : List Char) : trimEnd s = s.rdropWhile isBlank := rfl

theorem trimStart_blanks_append {w : List Char} (hw : ∀ c ∈ w, isBlank c = true) (s : List Char) :
    trimStart (w ++ s) = trimStart s :=
  List.dropWhile_append_of_pos hw

theorem trimEnd_append_blanks {w : List Char} (hw : ∀ c ∈ w, isBlank c = true) (s : List Char) :
    trimEnd (s ++ w) = trimEnd s := by
  have hrev : ∀ c ∈ w.reverse, isBlank c = true := fun c hc => hw c (List.mem_reverse.1 hc)
  rw [trimEnd, List.reverse_append, List.dropWhile_append_of_pos hrev, ← trimEnd]

theorem trim_blanks_append {w : List Char} (hw : ∀ c ∈ w, isBlank c = true) (s : List Char) :
    trim (w ++ s) = trim s := by
  rw [trim, trimStart_blanks_append hw, ← trim]

theorem trim_append_blanks {w : List Char} (hw : ∀ c ∈ w, isBlank c = true) (s : List Char) :
    trim (s ++ w) = trim s := by
  rw [trim, trimStart, List.dropWhile_append]
  split
  · rename_i hblank
    have hs : s.dropWhile isBlank = [] := List.isEmpty_iff.1 hblank
    rw [List.dropWhile_eq_nil_iff.2 hw, trim, trimStart, hs]
  · rw [trimEnd_append_blanks hw, ← trimStart, ← trim]

/-- What trimming leaves is part of the text. -/
theorem mem_of_mem_trim {s : List Char} {c : Char} (h : c ∈ trim s) : c ∈ s := by
  rw [trim, trimEnd_eq_rdropWhile] at h
  exact (List.dropWhile_sublist isBlank).subset ((List.rdropWhile_prefix isBlank _).subset h)

/-- Trimming at the end leaves the first character where it is, if it leaves any. -/
theorem trim_trim (s : List Char) : trim (trim s) = trim s := by
  have hstart : trimStart (trim s) = trim s := by
    rw [trimStart, List.dropWhile_eq_self_iff]
    intro hpos
    have hfront : trim s <+: trimStart s := List.rdropWhile_prefix isBlank _
    rw [hfront.getElem hpos]
    exact List.dropWhile_get_zero_not isBlank s (hpos.trans_le hfront.length_le)
  rw [trim, hstart, trim, trimEnd_eq_rdropWhile, trimEnd_eq_rdropWhile,
    List.rdropWhile_idempotent isBlank]

end Text

end SchemaForest
