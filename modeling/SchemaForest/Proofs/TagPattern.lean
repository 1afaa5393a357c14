import SchemaForest.Proofs.TagLines
import SchemaForest.Text.Regex

/-!
# Tags as matches of a pattern

The tags of a text are described by a regular expression too: an `@` and a name in a group, and then a
blank with the rest of the line in a second group, or a line feed, or the end of the text.  The search
for it backtracks, and it takes the leftmost match that the expression prefers.

1. **A repetition of single characters** tries its longest run first.  If what follows fails wherever
   the run could go on, or works out behind the whole of it, no shorter run counts (`run_star_char`).
2. **At one place** (`run_pattern_cases`).  What follows a name fails in front of a name character, so
   names are never cut short, and what follows the rest of a line always works out.  That is the crux:
   shorter runs are tried and never count, and a match is what `atStart?` finds.
3. **All matches.**  The search goes on behind each match, as the scan goes on behind each tag, and no
   match is empty (`matchesFrom_eq_scan`).
-/

namespace SchemaForest

open Text (Regex CharSet)
open Text.Regex (Spot)

/-! ## Single characters and runs of them -/

theorem Text.CharSet.has_single (c d : Char) : (CharSet.single c).has d = (d == c) := by
  rw [CharSet.single, CharSet.has, Bool.eq_iff_iff, beq_iff_eq, Bool.and_eq_true, decide_eq_true_eq,
    decide_eq_true_eq]
  exact ⟨fun h => Char.le_antisymm h.2 h.1, fun h => h ▸ ⟨Char.le_refl _, Char.le_refl _⟩⟩

namespace Text.Regex

section Run

variable (next : Spot → Option Spot) (s : Spot)

theorem run_empty : run .empty s next = next s := rfl

theorem run_seq (a b : Regex) : run (.seq a b) s next = a.run s fun t => b.run t next := rfl

theorem run_either (a b : Regex) : run (.either a b) s next = (a.run s next).or (b.run s next) :=
  Option.orElse_eq_or

theorem run_group (i : Nat) (a : Regex) :
    run (.group i a) s next = a.run s fun t =>
      next { t with groups := (i, s.place, t.place) :: t.groups.filter (·.1 != i) } := rfl

theorem run_char_cons (set : CharSet) (b : Option Char) (c : Char) (r : List Char) (k : Nat)
    (gs : List (Nat × Nat × Nat)) :
    run (.char set) ⟨b, c :: r, k, gs⟩ next =
      if set.has c then next ⟨some c, r, k + 1, gs⟩ else none := rfl

end Run

/-- The place behind the longest run of characters that a condition holds for. -/
def Spot.skip (p : Char → Bool) (s : Spot) : Spot where
  before := (s.rest.takeWhile p).getLast?.or s.before
  rest := s.rest.dropWhile p
  place := s.place + (s.rest.takeWhile p).length
  groups := s.groups

theorem Spot.skip_of_head {p : Char → Bool} {s : Spot} (h : ∀ c ∈ s.rest.head?, p c = false) :
    s.skip p = s := by
  obtain ⟨b, rest, k, gs⟩ := s
  cases rest with
  | nil => rfl
  | cons c r =>
    have hc : ¬p c = true := Bool.eq_false_iff.1 (h c rfl)
    rw [skip, List.takeWhile_cons_of_neg hc, List.dropWhile_cons_of_neg hc]
    rfl

theorem Spot.skip_cons {p : Char → Bool} {b : Option Char} {c : Char} (h : p c = true) (r : List Char)
    (k : Nat) (gs : List (Nat × Nat × Nat)) :
    Spot.skip p ⟨b, c :: r, k, gs⟩ = Spot.skip p ⟨some c, r, k + 1, gs⟩ := by
  rw [skip, skip, List.takeWhile_cons_of_pos h, List.dropWhile_cons_of_pos h, List.length_cons,
    List.getLast?_cons]
  cases (r.takeWhile p).getLast? <;> simp [Nat.add_comm, Nat.add_left_comm]

theorem repeatMatch_char {set : CharSet} {next : Spot → Option Spot} {n : Nat} {s : Spot}
    (hn : s.rest.length < n)
    (hnext : ∀ t : Spot, (∃ c ∈ t.rest.head?, set.has c = true) →
      (next (s.skip set.has)).or (next t) = next (s.skip set.has)) :
    repeatMatch true (run (.char set)) next n s = next (s.skip set.has) := by
  induction n generalizing s with
  | zero => exact absurd hn (Nat.not_lt_zero _)
  | succ n ih =>
    obtain ⟨b, rest, k, gs⟩ := s
    rw [repeatMatch, if_pos rfl]
    cases rest with
    | nil => rfl
    | cons c r =>
      by_cases hc : set.has c = true
      · rw [Spot.skip_cons hc] at hnext ⊢
        rw [run]
        dsimp only
        rw [if_pos hc, if_pos (Nat.lt_succ_self k), ih (Nat.lt_of_succ_lt_succ hn) hnext,
          Option.orElse_eq_or]
        exact hnext ⟨b, c :: r, k, gs⟩ ⟨c, rfl, hc⟩
      · rw [run]
        dsimp only
        rw [if_neg hc, Spot.skip_of_head (by rintro d ⟨⟩; exact Bool.eq_false_iff.2 hc)]
        rfl

/-- A greedy repetition of the characters of a set goes to the end of the run, if nothing that comes
    later is to be had at the shorter runs. -/
theorem run_star_char {set : CharSet} {next : Spot → Option Spot} {s : Spot}
    (hnext : ∀ t : Spot, (∃ c ∈ t.rest.head?, set.has c = true) →
      (next (s.skip set.has)).or (next t) = next (s.skip set.has)) :
    run (.star true (.char set)) s next = next (s.skip set.has) :=
  repeatMatch_char (Nat.lt_succ_self _) hnext

end Text.Regex

namespace Tag

/-! ## The pattern -/

/-- The expression of a tag as it is written. -/
def patternText : String :=
  "@(?P<tag>[\\w-]+)(?:(?P<value>[ \\t\\r\\x0B\\x0C][^\\n]*)|\\n|$)"

def nameSet : CharSet := .union (.union .none .wordChar) (.single '-')

def separatorSet : CharSet :=
  .union (.union (.union (.union (.union .none (.single ' ')) (.single '\t')) (.single '\r'))
    (.single '\x0b')) (.single '\x0c')

def inLineSet : CharSet := .compl (.union .none (.single '\n'))

/-- What follows a name: the rest of the line, or a line feed, or nothing. -/
def endings : Regex :=
  .either
    (.seq .empty (.group 2
      (.seq (.seq .empty (.char separatorSet)) (.seq .empty (.star true (.char inLineSet))))))
    (.either (.seq .empty (.char (.single '\n'))) (.seq .empty (.anchor .textEnd)))

/-- The expression of a tag. -/
def pattern : Regex :=
  .seq
    (.seq (.seq .empty (.char (.single '@')))
      (.group 1 (.seq .empty (.seq (.seq (.char nameSet) .empty) (.star true (.char nameSet))))))
    endings

/-- The names of the groups. -/
def patternSource : Regex.Source := ⟨[], 2, [(2, "value"), (1, "tag")]⟩

theorem ofText?_pattern :
    Regex.ofText? ⟨false, false, false, false, false⟩ patternText.toList =
      some (pattern, patternSource) := by
  decide +kernel

theorem has_nameSet (c : Char) : nameSet.has c = isNameChar c := by
  simp [nameSet, CharSet.has, CharSet.has_single, isNameChar]

theorem has_separatorSet (c : Char) : separatorSet.has c = isSeparator c := by
  simp [separatorSet, CharSet.has, CharSet.has_single, isSeparator]

theorem has_inLineSet (c : Char) : inLineSet.has c = inLine c := by
  simp [inLineSet, CharSet.has, CharSet.has_single, inLine, bne]

/-! ## The pattern at one place -/

/-- The endings decide by the character behind the name. -/
theorem run_endings (b : Option Char) (rest : List Char) (k : Nat) (gs : List (Nat × Nat × Nat)) :
    endings.run ⟨b, rest, k, gs⟩ some =
      match rest with
      | [] => some ⟨b, [], k, gs⟩
      | c :: r =>
        if c = '\n' then some ⟨some c, r, k + 1, gs⟩
        else if isSeparator c then
          let t := Spot.skip inLine ⟨b, c :: r, k, gs⟩
          some { t with groups := (2, k, t.place) :: gs.filter (·.1 != 2) }
        else none := by
  have hrest : ∀ t : Spot, Regex.run (.star true (.char inLineSet)) t
      (fun u => some { u with groups := (2, k, u.place) :: u.groups.filter (·.1 != 2) }) =
        some { Spot.skip inLine t with
          groups := (2, k, (Spot.skip inLine t).place) :: t.groups.filter (·.1 != 2) } := by
    intro t
    rw [Regex.run_star_char fun _ _ => rfl, funext has_inLineSet]
    rfl
  simp only [endings, Regex.run_either, Regex.run_seq, Regex.run_empty, Regex.run_group, hrest]
  cases rest with
  | nil => rfl
  | cons c r =>
    have hend : Regex.run (.anchor .textEnd) ⟨b, c :: r, k, gs⟩ some = none := rfl
    simp only [Regex.run_char_cons, has_separatorSet, CharSet.has_single, beq_iff_eq, hend]
    by_cases hc : c = '\n'
    · subst hc
      rfl
    · have hin : inLine c = true := bne_iff_ne.2 hc
      rw [if_neg hc, if_neg hc, Option.or_none, Option.or_none, Spot.skip_cons hin]

/-- A name is taken whole: in front of one more of its characters no ending works out. -/
theorem run_pattern_at (b : Option Char) (r : List Char) (k : Nat) :
    pattern.run ⟨b, '@' :: r, k, []⟩ some =
      if r.takeWhile isNameChar = [] then none
      else
        let t := Spot.skip isNameChar ⟨some '@', r, k + 1, []⟩
        endings.run { t with groups := [(1, k + 1, t.place)] } some := by
  have hat : (CharSet.single '@').has '@' = true := rfl
  simp only [pattern, Regex.run_seq, Regex.run_empty, Regex.run_group, Regex.run_char_cons, hat,
    if_true]
  cases r with
  | nil => rfl
  | cons c r =>
    rw [Regex.run_char_cons, has_nameSet]
    by_cases hc : isNameChar c = true
    · rw [if_pos hc, if_neg (by simp [hc]), Regex.run_star_char, funext has_nameSet, ← Spot.skip_cons hc]
      · rfl
      · rintro ⟨b', rest, k', gs⟩ ⟨d, hd, hname⟩
        rw [has_nameSet] at hname
        obtain ⟨r', rfl⟩ : ∃ r', rest = d :: r' := List.head?_eq_some_iff.1 hd
        have hd : d ≠ '\n' := fun h => by rw [h, isNameChar_lineFeed] at hname; cases hname
        have hsep : ¬isSeparator d = true := fun h => by
          rw [isNameChar_of_isSeparator h] at hname; cases hname
        rw [run_endings b' (d :: r')]
        dsimp only
        rw [if_neg hd, if_neg hsep, Option.or_none]
    · rw [if_neg hc, if_pos (List.takeWhile_cons_of_neg hc)]

/-- Where no `@` stands there is no match. -/
theorem run_pattern_of_ne {rest : List Char} (h : ∀ c ∈ rest.head?, c ≠ '@') (b : Option Char)
    (k : Nat) : pattern.run ⟨b, rest, k, []⟩ some = none := by
  simp only [pattern, Regex.run_seq, Regex.run_empty]
  cases rest with
  | nil => rfl
  | cons c r => rw [Regex.run_char_cons, CharSet.has_single, if_neg (mt beq_iff_eq.1 (h c rfl))]

/-! ## What a match says -/

/-- What a match holds in the group of a name, if that group took part. -/
def captured? (text : List Char) (source : Regex.Source) (t : Spot) (name : String) :
    Option (List Char) := do
  let group ← source.names.find? (·.2 == name)
  let (start, stop) ← t.groups.lookup group.1
  some ((text.drop start).take (stop - start))

/-- The tag of a match: its name, and its trimmed text if it has one. -/
def ofMatch (text : List Char) (source : Regex.Source) (t : Spot) : String × RawTag :=
  (String.ofList ((captured? text source t "tag").getD []),
    match captured? text source t "value" with
    | some value => RawTag.ofRest value
    | none => .flag)

/-- A match without the second group is a flag. -/
theorem ofMatch_of_name {text : List Char} {t : Spot} {start stop : Nat}
    (h : t.groups = [(1, start, stop)]) :
    ofMatch text patternSource t = (String.ofList ((text.drop start).take (stop - start)), .flag) := by
  simp [ofMatch, captured?, patternSource, h, List.lookup_cons]

theorem ofMatch_of_value {text : List Char} {t : Spot} {start stop start' stop' : Nat}
    (h : t.groups = [(2, start', stop'), (1, start, stop)]) :
    ofMatch text patternSource t = (String.ofList ((text.drop start).take (stop - start)),
      RawTag.ofRest ((text.drop start').take (stop' - start'))) := by
  simp [ofMatch, captured?, patternSource, h, List.lookup_cons]

theorem drop_takeWhile {text r : List Char} {k : Nat} (h : text.drop k = r) (p : Char → Bool) :
    text.drop (k + (r.takeWhile p).length) = r.dropWhile p ∧
      (text.drop k).take (k + (r.takeWhile p).length - k) = r.takeWhile p := by
  have hsplit : r.takeWhile p ++ r.dropWhile p = r := List.takeWhile_append_dropWhile
  have hdrop : (r.takeWhile p ++ r.dropWhile p).drop (r.takeWhile p).length = r.dropWhile p :=
    List.drop_left
  have htake : (r.takeWhile p ++ r.dropWhile p).take (r.takeWhile p).length = r.takeWhile p :=
    List.take_left
  rw [hsplit] at hdrop htake
  rw [← List.drop_drop, Nat.add_sub_cancel_left, h]
  exact ⟨hdrop, htake⟩

theorem drop_succ {text r : List Char} {c : Char} {k : Nat} (h : text.drop k = c :: r) :
    text.drop (k + 1) = r := by
  rw [← List.drop_drop, h]
  rfl

/-- Where a tag starts there is a match with its name and its text, which ends where the scan goes on,
    and where none starts there is no match. -/
theorem run_pattern_cases {text r : List Char} {k : Nat} (hk : text.drop k = '@' :: r)
    (b : Option Char) :
    (∃ name value rest t, atStart? r = some (name, value, rest) ∧
        pattern.run ⟨b, '@' :: r, k, []⟩ some = some t ∧ t.rest = rest ∧ text.drop t.place = rest ∧
        k < t.place ∧ ofMatch text patternSource t = (String.ofList name, RawTag.ofRest value)) ∨
      atStart? r = none ∧ pattern.run ⟨b, '@' :: r, k, []⟩ some = none := by
  obtain ⟨hbehind, hname⟩ := drop_takeWhile (drop_succ hk) isNameChar
  rw [run_pattern_at, atStart?]
  by_cases hne : r.takeWhile isNameChar = []
  · exact .inr ⟨if_pos hne, if_pos hne⟩
  rw [if_neg hne, if_neg hne, Spot.skip, run_endings]
  dsimp only
  cases hrest : r.dropWhile isNameChar with
  | nil =>
    rw [hrest] at hbehind
    refine .inl ⟨_, _, _, _, rfl, rfl, rfl, hbehind, by dsimp only; omega, ?_⟩
    rw [ofMatch_of_name rfl, hname]
    rfl
  | cons c r' =>
    rw [hrest] at hbehind
    dsimp only
    by_cases hc : c = '\n'
    · rw [if_pos hc, if_pos hc]
      refine .inl ⟨_, _, _, _, rfl, rfl, rfl, drop_succ hbehind, by dsimp only; omega, ?_⟩
      rw [ofMatch_of_name rfl, hname]
      rfl
    · rw [if_neg hc, if_neg hc]
      by_cases hsep : isSeparator c = true
      · have hin : inLine c = true := bne_iff_ne.2 hc
        obtain ⟨hend, hvalue⟩ := drop_takeWhile hbehind inLine
        rw [List.dropWhile_cons_of_pos hin] at hend
        rw [if_pos hsep, if_pos hsep]
        refine .inl ⟨_, _, _, _, rfl, rfl, List.dropWhile_cons_of_pos hin, hend,
          by dsimp only [Spot.skip]; omega, ?_⟩
        rw [ofMatch_of_value rfl, hname]
        dsimp only [Spot.skip]
        rw [hvalue, List.takeWhile_cons_of_pos hin]
      · exact .inr ⟨if_neg hsep, if_neg hsep⟩

/-! ## The search -/

/-- What a search through the rest of a text has to find: nothing if the scan finds no tag there, and
    else a match that is the first tag and leaves what the scan goes on with. -/
def Finds (text rest : List Char) : Option (Nat × Spot) → Prop
  | none => scan rest = []
  | some (start, t) =>
    start < t.place ∧ text.drop t.place = t.rest ∧ t.rest.length < rest.length ∧
      scan rest = ofMatch text patternSource t :: scan t.rest

/-- Where nothing starts, search and scan both go on with the next character. -/
theorem Finds.cons {text r : List Char} {c : Char} {found : Option (Nat × Spot)}
    (h : Finds text r found) (hscan : scan (c :: r) = scan r) : Finds text (c :: r) found := by
  cases found with
  | none => exact hscan.trans h
  | some m =>
    obtain ⟨start, t⟩ := m
    obtain ⟨hplace, hdrop, hlength, htag⟩ := h
    exact ⟨hplace, hdrop, Nat.lt_succ_of_lt hlength, hscan.trans htag⟩

theorem finds_search {text rest : List Char} {k : Nat} (hk : text.drop k = rest) (b : Option Char) :
    Finds text rest (Regex.searchFrom.go pattern rest b k) := by
  induction rest generalizing k b with
  | nil =>
    rw [Regex.searchFrom.go, run_pattern_of_ne (by rintro c ⟨⟩)]
    show scan [] = []
    rw [scan]
  | cons c r ih =>
    have hbehind : Finds text r (Regex.searchFrom.go pattern r (some c) (k + 1)) :=
      ih (drop_succ hk) (some c)
    rw [Regex.searchFrom.go]
    by_cases hc : c = '@'
    · subst hc
      rcases run_pattern_cases hk b with
        ⟨name, value, rest, t, hstart, hrun, hrest, hdrop, hplace, htag⟩ | ⟨hstart, hrun⟩
      · rw [hrun]
        have hlength : t.rest.length < ('@' :: r).length := by
          rw [hrest]
          exact Nat.lt_succ_of_le (length_of_atStart? hstart)
        exact ⟨hplace, hdrop.trans hrest.symm, hlength, by rw [scan_at_of_some hstart, htag, hrest]⟩
      · rw [hrun]
        exact hbehind.cons (scan_at_of_none hstart)
    · rw [run_pattern_of_ne (by rintro d ⟨⟩; exact hc)]
      exact hbehind.cons (scan_cons_of_ne hc r)

/-- The matches from a place on are the tags that the scan finds there, if there are steps for each
    character that is left. -/
theorem matchesFrom_eq_scan {text : List Char} {n : Nat} {s : Spot} (hs : text.drop s.place = s.rest)
    (hn : s.rest.length < n) (last : Option Nat) :
    (Regex.matchesFrom pattern last n s).map (fun m => ofMatch text patternSource m.2) =
      scan s.rest := by
  induction n generalizing s last with
  | zero => exact absurd hn (Nat.not_lt_zero _)
  | succ n ih =>
    have hfinds := finds_search hs s.before
    rw [Regex.matchesFrom, Regex.searchFrom]
    cases hgo : Regex.searchFrom.go pattern s.rest s.before s.place with
    | none =>
      rw [hgo] at hfinds
      exact hfinds.symm
    | some m =>
      obtain ⟨start, t⟩ := m
      rw [hgo] at hfinds
      obtain ⟨hplace, hdrop, hlength, hscan⟩ := hfinds
      have hne : ¬(start = t.place ∧ last = some start) := fun h => absurd h.1 (Nat.ne_of_lt hplace)
      have hsteps : t.rest.length < n := by omega
      dsimp only
      rw [if_neg hne, List.map_cons, hscan]
      refine congrArg (ofMatch text patternSource t :: ·) ?_
      exact ih (s := { t with groups := [] }) hdrop hsteps (some t.place)

/-- The tags of a text are the matches of the pattern in it. -/
theorem findAll_eq_scan (text : List Char) :
    (pattern.findAll text).map (fun m => ofMatch text patternSource m.2) = scan text :=
  matchesFrom_eq_scan (s := ⟨none, text, 0, []⟩) rfl (by dsimp only; omega) none

/-- The tags of a text, told by its lines: every line has the tag at its first `@` that is followed by a
    whole name and then by the end of the line or a separator, with the trimmed rest of the line as its
    text, or no tag.  So texts one under the other have their tags one after the other.  And told by
    the pattern: the tags are its matches in the text. -/
theorem ofText_eq_tags_of_lines :
    (∀ text, ofText text = (text.toList.splitOn '\n').filterMap ofLine?) ∧
      (∀ line tag, ofLine? line = some tag ↔ IsFirst line tag) ∧
      (∀ a b, ofText (a ++ "\n" ++ b) = ofText a ++ ofText b) ∧
      ∃ e source, Regex.ofText? ⟨false, false, false, false, false⟩ patternText.toList =
          some (e, source) ∧
        ∀ text, ofText text =
          (e.findAll text.toList).map fun m => ofMatch text.toList source m.2 := by
  refine ⟨fun text => ?_, fun _ _ => ofLine?_eq_some_iff, ofText_append_line, ?_⟩
  · rw [ofText, scan_eq_lines, Annotation.lines_eq_splitOn]
  · exact ⟨pattern, patternSource, ofText?_pattern, fun text => (findAll_eq_scan text.toList).symm⟩

example : ofText "a@b.c @foo, @@x-y v @w \n@z" = [("x-y", .text "v @w"), ("z", .flag)] := by
  decide +kernel

end Tag

end SchemaForest
