import SchemaForest.Text.Blank
import SchemaForest.Text.Word

/-!
# Tags in comments

A tag is an `@` with a name directly behind it.  The name is a run of word characters and hyphens,
and behind it the line ends or a blank follows; the rest of the line is then the raw text of the
tag.  `scan` reads a whole comment from left to right: after a tag it goes on behind the line, and
at an `@` that starts no tag it goes on with the next character.
-/

namespace SchemaForest

/-- What a tag carries as written. -/
inductive RawTag where
  /-- Nothing behind the name on its line. -/
  | flag
  | text (t : String)
deriving DecidableEq

namespace RawTag

/-- The text of a tag; a flag reads as `true`. -/
def asText : RawTag → String
  | .flag => "true"
  | .text t => t

/-- The raw tag of a line's rest: its text without the blanks around, and a flag if none is left. -/
def ofRest (rest : List Char) : RawTag :=
  let t := Text.trim rest
  if t = [] then .flag else .text (String.ofList t)

end RawTag

namespace Tag

/-- A character of a tag name. -/
def isNameChar (c : Char) : Bool := Text.isWord c || c == '-'

/-- A blank that separates a tag from its text.  The line feed is none: it ends the tag. -/
def isSeparator (c : Char) : Bool :=
  c == ' ' || c == '\t' || c == '\r' || c == '\x0b' || c == '\x0c'

/-- A character that does not end a line. -/
def inLine (c : Char) : Bool := c != '\n'

/-- The tag that starts behind an `@`, if one does: its name, the rest of its line, and the text
    behind that. -/
def atStart? (s : List Char) : Option (List Char × List Char × List Char) :=
  let name := s.takeWhile isNameChar
  if name = [] then none
  else match s.dropWhile isNameChar with
    | [] => some (name, [], [])
    | c :: r =>
      if c = '\n' then some (name, [], r)
      else if isSeparator c then some (name, c :: r.takeWhile inLine, r.dropWhile inLine)
      else none

theorem length_dropWhile_le {α : Type} (p : α → Bool) (s : List α) :
    (s.dropWhile p).length ≤ s.length := by
  induction s with
  | nil => simp
  | cons c r ih =>
    rw [List.dropWhile_cons]
    split
    · exact Nat.le_succ_of_le ih
    · exact Nat.le_refl _

/-- What is left behind a tag is no longer than what stood behind its `@`. -/
theorem length_of_atStart? {s name value rest : List Char}
    (h : atStart? s = some (name, value, rest)) : rest.length ≤ s.length := by
  unfold atStart? at h
  have hd := length_dropWhile_le isNameChar s
  dsimp only at h
  split at h
  · exact absurd h (by simp)
  · split at h
    · simp only [Option.some.injEq, Prod.mk.injEq] at h
      simp [← h.2.2]
    · rename_i c r hr
      rw [hr, List.length_cons] at hd
      split at h
      · simp only [Option.some.injEq, Prod.mk.injEq] at h
        rw [← h.2.2]; omega
      · split at h
        · simp only [Option.some.injEq, Prod.mk.injEq] at h
          have := length_dropWhile_le inLine r
          rw [← h.2.2]; omega
        · exact absurd h (by simp)

/-- The tags of a text in order: name and raw text. -/
def scan : List Char → List (String × RawTag)
  | [] => []
  | c :: s =>
    if c = '@' then
      match _hit : atStart? s with
      | some (name, value, rest) => (String.ofList name, RawTag.ofRest value) :: scan rest
      | none => scan s
    else scan s
termination_by s => s.length
decreasing_by
  · have := length_of_atStart? _hit; simp only [List.length_cons]; omega
  all_goals simp only [List.length_cons]; omega

/-- The tags of a comment. -/
def ofText (text : String) : List (String × RawTag) := scan text.toList

end Tag

end SchemaForest
