import SchemaForest.Json.Reader
import SchemaForest.Proofs.DecimalLiterals
import SchemaForest.Proofs.Fallible

/-!
# The texts of values

What the text of a JSON value is, told without a reader: a grammar of words (`Spells`).  A text is a
document if it is one value with nothing but blanks around it (`IsDocument`).

1. **The grammar.**  A container is spelled from its opening bracket on; what is still to come of it is
   a part of its own, with the separator in front of the next member and the bracket at the end.  A
   number has no mark at its end, so where it ends depends on what follows (`Stops`).
2. **Steps over lexemes.**  A step leaves a text behind, and with it a proof that it is shorter.
   `leaves` forgets the proof, so that equations between steps can be stated.  What a step goes over is
   a lexeme (`exists_isUnsigned`, `exists_isQuoted`), and over a lexeme a step goes to its end and no
   further (`leaves_stepUnsigned_append`, `leaves_stepString_append`).
-/

namespace SchemaForest.Json

open Fallible
open Decimal (IsDigits IsExponent signs takeSign exists_sign span_digits)

/-! ## The grammar -/

/-- Blanks, or nothing. -/
def IsBlank (g : List Char) : Prop := ∀ c ∈ g, isGap c = true

/-- The whole part of a number: digits, and no zero in front of others. -/
structure IsWhole (ds : List Char) : Prop extends IsDigits ds where
  plain : ds.head? = some '0' → ds.length = 1

/-- A number without its sign. -/
inductive IsUnsigned : List Char → Prop
  | whole {ds e : List Char} (whole : IsWhole ds) (exponent : IsExponent e) : IsUnsigned (ds ++ e)
  | fraction {ds fs e : List Char} (whole : IsWhole ds) (fraction : IsDigits fs)
    (exponent : IsExponent e) : IsUnsigned (ds ++ '.' :: (fs ++ e))

/-- Four hexadecimal digits. -/
structure IsHex (h : List Char) : Prop where
  length : h.length = 4
  digits : ∀ c ∈ h, Decimal.isDigitOf 16 c = true

/-- A character that stands in a string for itself. -/
def IsPlain (c : Char) : Prop := c ≠ '"' ∧ c ≠ '\\' ∧ 32 ≤ c.toNat

/-- The characters that stand behind a backslash for one character. -/
def shortEscapes : List Char := ['"', '\\', '/', 'b', 'f', 'n', 'r', 't']

/-- What stands behind the backslash of an escape. -/
inductive IsEscape : List Char → Prop
  | short {c : Char} (short : c ∈ shortEscapes) : IsEscape [c]
  | unicode {h : List Char} (hex : IsHex h) : IsEscape ('u' :: h)

/-- A string behind its opening quote. -/
inductive IsQuoted : List Char → Prop
  | close : IsQuoted ['"']
  | plain {c : Char} {q : List Char} (plain : IsPlain c) (rest : IsQuoted q) : IsQuoted (c :: q)
  | escape {e q : List Char} (escape : IsEscape e) (rest : IsQuoted q) : IsQuoted ('\\' :: (e ++ q))

/-- What stands in front of a part of a container: blanks, and a comma among them unless the part is
    the first. -/
inductive IsSeparator : Bool → List Char → Prop
  | first {g : List Char} (blank : IsBlank g) : IsSeparator true g
  | next {g g' : List Char} (blank : IsBlank g) (blank' : IsBlank g') :
    IsSeparator false (g ++ ',' :: g')

/-- What a piece of a text spells. -/
inductive Part where
  | value
  /-- The items of an array, from the first or a later one on, and the closing bracket. -/
  | items (first : Bool)
  /-- The fields of an object, from the first or a later one on, and the closing brace. -/
  | fields (first : Bool)

/-- The words that are values. -/
def words : List (List Char) := [['n', 'u', 'l', 'l'], ['t', 'r', 'u', 'e'], ['f', 'a', 'l', 's', 'e']]

/-- The grammar of values. -/
inductive Spells : Part → List Char → Prop
  | word {w : List Char} (word : w ∈ words) : Spells .value w
  | positive {n : List Char} (number : IsUnsigned n) : Spells .value n
  | negative {n : List Char} (number : IsUnsigned n) : Spells .value ('-' :: n)
  | string {q : List Char} (quoted : IsQuoted q) : Spells .value ('"' :: q)
  | array {r : List Char} (items : Spells (.items true) r) : Spells .value ('[' :: r)
  | object {r : List Char} (fields : Spells (.fields true) r) : Spells .value ('\x7b' :: r)
  | endItems {first : Bool} {g : List Char} (blank : IsBlank g) :
    Spells (.items first) (g ++ [']'])
  | item {first : Bool} {sep v r : List Char} (separator : IsSeparator first sep)
    (value : Spells .value v) (rest : Spells (.items false) r) :
    Spells (.items first) (sep ++ (v ++ r))
  | endFields {first : Bool} {g : List Char} (blank : IsBlank g) :
    Spells (.fields first) (g ++ ['\x7d'])
  | field {first : Bool} {sep q g g' v r : List Char} (separator : IsSeparator first sep)
    (name : IsQuoted q) (blank : IsBlank g) (blank' : IsBlank g') (value : Spells .value v)
    (rest : Spells (.fields false) r) :
    Spells (.fields first) (sep ++ '"' :: (q ++ (g ++ ':' :: (g' ++ (v ++ r)))))

/-- A text that is one value with nothing but blanks around it. -/
def IsDocument (s : List Char) : Prop :=
  ∃ g v g', IsBlank g ∧ Spells .value v ∧ IsBlank g' ∧ s = g ++ (v ++ g')

/-- Nothing here continues a number. -/
def Stops (t : List Char) : Prop :=
  ∀ c ∈ t.head?, c.isDigit = false ∧ c ≠ '.' ∧ ¬(c = 'e' ∨ c = 'E')

theorem Stops.digit {t : List Char} (h : Stops t) : ∀ c ∈ t.head?, c.isDigit = false :=
  fun c hc => (h c hc).1

theorem stops_cons {c : Char} {t : List Char}
    (h : c.isDigit = false ∧ c ≠ '.' ∧ ¬(c = 'e' ∨ c = 'E')) : Stops (c :: t) := by
  rintro _ ⟨⟩
  exact h

/-! ## What a step leaves -/

/-- The text that a step leaves behind, without the proof that it is shorter. -/
def leaves {P : List Char → Prop} (x : Except SyntaxError {r : List Char // P r}) :
    Except SyntaxError (List Char) := x.map Subtype.val

/-- What was read and the text that is left behind, without the proof that it is shorter. -/
def bare {α : Type} {P : List Char → Prop} (x : Except SyntaxError (α × {r : List Char // P r})) :
    Except SyntaxError (α × List Char) := x.map fun (a, t) => (a, t.val)

section Leaves

variable {α : Type} {P Q : List Char → Prop}

theorem leaves_map (f : {r : List Char // P r} → {r : List Char // Q r})
    (h : ∀ t, (f t).val = t.val) (x : Except SyntaxError {r : List Char // P r}) :
    leaves (x.map f) = leaves x := by
  cases x with
  | ok t => exact congrArg Except.ok (h t)
  | error e => rfl

theorem of_leaves {x : Except SyntaxError {r : List Char // P r}} {t : List Char}
    (h : leaves x = .ok t) : P t := by
  obtain ⟨r, -, rfl⟩ := map_eq_ok_iff.1 h
  exact r.property

theorem leaves_map_snd_eq_ok_iff {f : {r : List Char // P r} → {r : List Char // Q r}}
    (h : ∀ t, (f t).val = t.val) {x : Except SyntaxError (α × {r : List Char // P r})}
    {t : List Char} : leaves (x.map fun p => f p.2) = .ok t ↔ ∃ a, bare x = .ok (a, t) := by
  cases x with
  | error e => exact iff_of_false (fun h => nomatch h) fun ⟨_, h⟩ => nomatch h
  | ok p =>
    constructor
    · intro hp
      have ht : p.2.val = t := (h p.2).symm.trans (Except.ok.inj hp)
      exact ⟨p.1, by rw [← ht]; rfl⟩
    · rintro ⟨a, hp⟩
      exact congrArg Except.ok ((h p.2).trans (Prod.mk.inj (Except.ok.inj hp)).2)

end Leaves

/-! ## Blanks and words -/

theorem skipGaps_append {g : List Char} (h : IsBlank g) (s : List Char) :
    skipGaps (g ++ s) = skipGaps s := List.dropWhile_append_of_pos h

theorem skipGaps_of_head {s : List Char} (h : ∀ c ∈ s.head?, isGap c = false) : skipGaps s = s := by
  cases s with
  | nil => rfl
  | cons c r => exact List.dropWhile_cons_of_neg (by rw [h c rfl]; exact Bool.false_ne_true)

/-- Blanks are skipped up to the next character. -/
theorem skipGaps_blank {g : List Char} (hg : IsBlank g) {c : Char} (hc : isGap c = false)
    (r : List Char) : skipGaps (g ++ c :: r) = c :: r := by
  rw [skipGaps_append hg]
  exact skipGaps_of_head (by rintro _ ⟨⟩; exact hc)

/-- What is skipped are blanks. -/
theorem exists_skipGaps (s : List Char) : ∃ g, IsBlank g ∧ s = g ++ skipGaps s :=
  ⟨s.takeWhile isGap, fun _ hc => List.mem_takeWhile_imp hc, List.takeWhile_append_dropWhile.symm⟩

theorem leaves_word_eq_ok_iff {w s t : List Char} : leaves (word w s) = .ok t ↔ s = w ++ t := by
  induction w generalizing s with
  | nil => exact ⟨Except.ok.inj, congrArg Except.ok⟩
  | cons a w ih =>
    cases s with
    | nil => exact iff_of_false (fun h => nomatch h) fun h => nomatch h
    | cons c r =>
      rw [word, List.cons_append, List.cons.injEq, ← ih]
      split
      · rename_i hac
        rw [leaves_map (Rest.cons c) fun _ => rfl]
        exact ⟨fun h => ⟨hac.symm, h⟩, And.right⟩
      · rename_i hac
        exact iff_of_false (fun h => nomatch h) fun h => hac h.1.symm

/-! ## Numbers -/

theorem takeSign_of_ne {s : List Char} (hminus : ∀ t, s ≠ '-' :: t) (hplus : ∀ t, s ≠ '+' :: t) :
    takeSign s = (false, s) := by
  unfold takeSign
  split
  · exact absurd rfl (hminus _)
  · exact absurd rfl (hplus _)
  · rfl

theorem takeSign_eq_of_mem {sign r : List Char} (hsign : sign ∈ signs)
    (h : ∀ c ∈ r.head?, c ≠ '+' ∧ c ≠ '-') : takeSign (sign ++ r) = (sign == ['-'], r) := by
  simp only [signs, List.mem_cons, List.not_mem_nil, or_false] at hsign
  rcases hsign with rfl | rfl | rfl
  · refine takeSign_of_ne ?_ ?_
    · rintro t rfl
      exact (h _ rfl).2 rfl
    · rintro t rfl
      exact (h _ rfl).1 rfl
  · rfl
  · rfl

/-- Digits stand behind a sign, and what is behind the digits does not matter. -/
theorem takeSign_digits {sign ds : List Char} (hsign : sign ∈ signs) (hds : IsDigits ds)
    (t : List Char) : takeSign (sign ++ (ds ++ t)) = (sign == ['-'], ds ++ t) := by
  refine takeSign_eq_of_mem hsign fun c hc => ?_
  rw [List.head?_append_of_ne_nil _ hds.ne_nil] at hc
  exact hds.ne_sign c hc

theorem leaves_exponentDigits {s : List Char} (ds : Rest s) :
    leaves (match ds.val.takeWhile Char.isDigit with
      | [] => .error .badNumber
      | _ => .ok (⟨ds.val.dropWhile Char.isDigit,
          Nat.le_trans (length_dropWhile_le _ _) ds.property⟩ : Rest s)) =
      if ds.val.takeWhile Char.isDigit = [] then .error .badNumber
      else .ok (ds.val.dropWhile Char.isDigit) := by
  split
  · rename_i hnil
    rw [if_pos hnil]
    rfl
  · rename_i hne
    rw [if_neg hne]
    rfl

theorem leaves_stepExponent (s : List Char) :
    leaves (stepExponent s) =
      if (takeSign s).2.takeWhile Char.isDigit = [] then .error .badNumber
      else .ok ((takeSign s).2.dropWhile Char.isDigit) := by
  have hsign : ∀ ds : Rest s, ds.val = (takeSign s).2 →
      (if ds.val.takeWhile Char.isDigit = [] then .error .badNumber
        else .ok (ds.val.dropWhile Char.isDigit) : Except SyntaxError (List Char)) =
      if (takeSign s).2.takeWhile Char.isDigit = [] then .error .badNumber
      else .ok ((takeSign s).2.dropWhile Char.isDigit) := by
    intro ds hds
    rw [hds]
  refine (leaves_exponentDigits _).trans (hsign _ ?_)
  split
  · rfl
  · rfl
  · rename_i hminus hplus
    rw [takeSign_of_ne hminus hplus]

theorem leaves_stepExponentPart_cons (c : Char) (r : List Char) :
    leaves (stepExponentPart (c :: r)) =
      if c = 'e' ∨ c = 'E' then leaves (stepExponent r) else .ok (c :: r) := by
  rw [stepExponentPart]
  split
  · exact leaves_map (Rest.cons c) (fun _ => rfl) _
  · rfl

theorem isDigits_takeWhile {s : List Char} (h : s.takeWhile Char.isDigit ≠ []) :
    IsDigits (s.takeWhile Char.isDigit) := ⟨h, fun _ hc => List.mem_takeWhile_imp hc⟩

theorem exists_isExponent {s t : List Char} (h : leaves (stepExponentPart s) = .ok t) :
    ∃ e, IsExponent e ∧ s = e ++ t := by
  cases s with
  | nil =>
    obtain rfl := Except.ok.inj h
    exact ⟨[], .none, rfl⟩
  | cons c r =>
    rw [leaves_stepExponentPart_cons] at h
    split_ifs at h with hletter
    · rw [leaves_stepExponent] at h
      split_ifs at h with hnil
      obtain ⟨sign, hsign, hr⟩ := exists_sign r
      obtain rfl := Except.ok.inj h
      refine ⟨_, .some (by simpa using hletter) hsign (isDigits_takeWhile hnil), ?_⟩
      rw [List.cons_append, List.append_assoc, List.takeWhile_append_dropWhile, ← hr]
    · obtain rfl := Except.ok.inj h
      exact ⟨[], .none, rfl⟩

theorem leaves_stepExponentPart {e t : List Char} (he : IsExponent e) (ht : Stops t) :
    leaves (stepExponentPart (e ++ t)) = .ok t := by
  cases he with
  | none =>
    cases t with
    | nil => rfl
    | cons c r => rw [List.nil_append, leaves_stepExponentPart_cons, if_neg (ht c rfl).2.2]
  | @some letter sign ds hletter hsign hds =>
    have hletter : letter = 'e' ∨ letter = 'E' := by simpa using hletter
    obtain ⟨htake, hdrop⟩ := span_digits hds.digits ht.digit
    rw [List.cons_append, leaves_stepExponentPart_cons, if_pos hletter, leaves_stepExponent,
      List.append_assoc, takeSign_digits hsign hds, htake, hdrop, if_neg hds.ne_nil]

theorem not_isDigit_point (s : List Char) : ∀ c ∈ ('.' :: s).head?, c.isDigit = false := by
  rintro c ⟨⟩
  rfl

/-- What can stand behind the whole part of a number. -/
theorem head_exponent {e t : List Char} (he : IsExponent e) (ht : Stops t) :
    ∀ c ∈ (e ++ t).head?, c.isDigit = false ∧ c ≠ '.' := by
  cases he with
  | none => exact fun c hc => ⟨(ht c hc).1, (ht c hc).2.1⟩
  | some hletter hsign hds =>
    intro c hc
    exact (IsExponent.some hletter hsign hds).head_ne c hc

/-- What is left behind the whole part, once its exponent and its fraction are stepped over. -/
def stepBehindWhole : List Char → Except SyntaxError (List Char)
  | '.' :: r =>
    if r.takeWhile Char.isDigit = [] then .error .badNumber
    else leaves (stepExponentPart (r.dropWhile Char.isDigit))
  | s => leaves (stepExponentPart s)

theorem leaves_stepUnsigned (s : List Char) :
    leaves (stepUnsigned s) =
      if s.takeWhile Char.isDigit = [] then .error .badNumber
      else if (s.takeWhile Char.isDigit).head? = some '0' ∧
        (s.takeWhile Char.isDigit).length ≠ 1 then .error .badNumber
      else stepBehindWhole (s.dropWhile Char.isDigit) := by
  rw [stepUnsigned]
  dsimp only
  split
  · rfl
  · split
    · rfl
    · split
      · rename_i r hpoint
        have hrest : stepBehindWhole (s.dropWhile Char.isDigit) = stepBehindWhole ('.' :: r) :=
          congrArg stepBehindWhole hpoint
        rw [hrest, stepBehindWhole]
        split
        · rfl
        · cases stepExponentPart (r.dropWhile Char.isDigit) <;> rfl
      · rename_i hpoint
        rw [stepBehindWhole]
        · cases stepExponentPart (s.dropWhile Char.isDigit) <;> rfl
        · exact hpoint

theorem stepBehindWhole_of_head {s : List Char} (h : ∀ c ∈ s.head?, c ≠ '.') :
    stepBehindWhole s = leaves (stepExponentPart s) := by
  unfold stepBehindWhole
  split
  · exact absurd rfl (h _ rfl)
  · rfl

theorem exists_isUnsigned {s t : List Char} (h : leaves (stepUnsigned s) = .ok t) :
    ∃ n, IsUnsigned n ∧ s = n ++ t := by
  rw [leaves_stepUnsigned] at h
  split_ifs at h with hnil hzero
  have hwhole : IsWhole (s.takeWhile Char.isDigit) :=
    ⟨isDigits_takeWhile hnil, fun hhead => by_contra fun hone => hzero ⟨hhead, hone⟩⟩
  have hs := List.takeWhile_append_dropWhile (p := Char.isDigit) (l := s)
  generalize s.dropWhile Char.isDigit = rest at h hs
  unfold stepBehindWhole at h
  split at h
  · split_ifs at h with hfraction
    rename_i r
    obtain ⟨e, he, hrest⟩ := exists_isExponent h
    refine ⟨_, .fraction hwhole (isDigits_takeWhile hfraction) he, ?_⟩
    rw [List.append_assoc, List.cons_append, List.append_assoc, ← hrest,
      List.takeWhile_append_dropWhile, hs]
  · obtain ⟨e, he, rfl⟩ := exists_isExponent h
    refine ⟨_, .whole hwhole he, ?_⟩
    rw [List.append_assoc, hs]

theorem leaves_stepUnsigned_append {n t : List Char} (hn : IsUnsigned n) (ht : Stops t) :
    leaves (stepUnsigned (n ++ t)) = .ok t := by
  cases hn with
  | @whole ds e hds he =>
    have hhead := head_exponent he ht
    obtain ⟨htake, hdrop⟩ := span_digits hds.digits fun c hc => (hhead c hc).1
    rw [List.append_assoc, leaves_stepUnsigned, htake, hdrop, if_neg hds.ne_nil,
      if_neg fun h => h.2 (hds.plain h.1), stepBehindWhole_of_head fun c hc => (hhead c hc).2,
      leaves_stepExponentPart he ht]
  | @fraction ds fs e hds hfs he =>
    have happend : ds ++ '.' :: (fs ++ e) ++ t = ds ++ '.' :: (fs ++ (e ++ t)) := by
      simp only [List.append_assoc, List.cons_append]
    obtain ⟨htake, hdrop⟩ := span_digits hds.digits (not_isDigit_point (fs ++ (e ++ t)))
    obtain ⟨htake', hdrop'⟩ := span_digits hfs.digits fun c hc => (head_exponent he ht c hc).1
    rw [happend, leaves_stepUnsigned, htake, hdrop, if_neg hds.ne_nil,
      if_neg fun h => h.2 (hds.plain h.1), stepBehindWhole, htake', hdrop', if_neg hfs.ne_nil,
      leaves_stepExponentPart he ht]

/-! ## Strings -/

theorem bare_hexUnit_eq_ok_iff {s t : List Char} {n : Nat} :
    bare (hexUnit s) = .ok (n, t) ↔ ∃ h, IsHex h ∧ n = Decimal.ofDigits 16 h ∧ s = h ++ t := by
  constructor
  · intro heq
    unfold hexUnit at heq
    split at heq
    · rename_i a b c d r
      split at heq
      · rename_i hall
        obtain ⟨rfl, rfl⟩ := Prod.mk.inj (Except.ok.inj heq)
        exact ⟨[a, b, c, d], ⟨rfl, List.all_eq_true.1 hall⟩, rfl, rfl⟩
      · cases heq
    · dsimp only at heq
      split at heq
      · cases heq
      · cases heq
  · rintro ⟨h, hhex, rfl, rfl⟩
    obtain ⟨a, b, c, d, rfl⟩ : ∃ a b c d, h = [a, b, c, d] := by
      match h, hhex.length with
      | [a, b, c, d], _ => exact ⟨a, b, c, d, rfl⟩
    rw [List.cons_append, List.cons_append, List.cons_append, List.cons_append, List.nil_append,
      hexUnit, if_pos (List.all_eq_true.2 hhex.digits)]
    rfl

theorem isSome_shortEscape?_iff {c : Char} : (shortEscape? c).isSome ↔ c ∈ shortEscapes := by
  unfold shortEscape?
  split
  case h_9 =>
    refine iff_of_false (fun h => nomatch h) fun h => ?_
    simp only [shortEscapes, List.mem_cons, List.not_mem_nil, or_false] at h
    rcases h with rfl | rfl | rfl | rfl | rfl | rfl | rfl | rfl <;> contradiction
  all_goals exact iff_of_true rfl (by decide)

theorem leaves_stepEscape_eq_ok_iff {s t : List Char} :
    leaves (stepEscape s) = .ok t ↔ ∃ e, IsEscape e ∧ s = e ++ t := by
  cases s with
  | nil =>
    refine iff_of_false (by rintro ⟨⟩) ?_
    rintro ⟨e, he, h⟩
    cases he <;> cases h
  | cons c r =>
    rw [stepEscape]
    have hu : 'u' ∉ shortEscapes := by decide
    split
    · rename_i hc
      subst hc
      refine (leaves_map_snd_eq_ok_iff (f := Rest.cons 'u') fun _ => rfl).trans ?_
      constructor
      · rintro ⟨n, hn⟩
        obtain ⟨h, hhex, -, rfl⟩ := bare_hexUnit_eq_ok_iff.1 hn
        exact ⟨_, .unicode hhex, rfl⟩
      · rintro ⟨_, he | he, h⟩
        · exact absurd ((List.cons.inj h).1 ▸ he) hu
        · exact ⟨_, bare_hexUnit_eq_ok_iff.2 ⟨_, he, rfl, (List.cons.inj h).2⟩⟩
    · rename_i hc
      split
      · rename_i hshort
        constructor
        · intro h
          exact ⟨[c], .short (isSome_shortEscape?_iff.1 hshort),
            congrArg (c :: ·) (Except.ok.inj h)⟩
        · rintro ⟨_, he | he, h⟩
          · exact congrArg Except.ok (List.cons.inj h).2
          · exact absurd (List.cons.inj h).1 hc
      · rename_i hshort
        refine iff_of_false (by rintro ⟨⟩) ?_
        rintro ⟨_, he | he, h⟩
        · exact hshort (isSome_shortEscape?_iff.2 ((List.cons.inj h).1 ▸ he))
        · exact hc (List.cons.inj h).1

/-- A string is closed, or goes on behind a character or an escape. -/
theorem leaves_stepString_cons (c : Char) (r : List Char) :
    leaves (stepString (c :: r)) =
      if c = '"' then .ok r
      else if c = '\\' then leaves (stepEscape r) >>= fun t => leaves (stepString t)
      else if c.toNat < 32 then .error .rawControl
      else leaves (stepString r) := by
  rw [stepString]
  split
  · rfl
  · split
    · cases stepEscape r with
      | error e => rfl
      | ok t =>
        exact leaves_map (fun t' : Rest t.val => (t'.widen t.property).cons c) (fun _ => rfl)
          (stepString t.val)
    · split
      · rfl
      · exact leaves_map (Rest.cons c) (fun _ => rfl) _

theorem exists_isQuoted : ∀ {s t : List Char}, leaves (stepString s) = .ok t →
    ∃ q, IsQuoted q ∧ s = q ++ t
  | [], t, h => by
    rw [stepString] at h
    cases h
  | c :: r, t, h => by
    rw [leaves_stepString_cons] at h
    split_ifs at h with hquote hback hcontrol
    · obtain rfl := Except.ok.inj h
      exact ⟨_, .close, by rw [hquote]; rfl⟩
    · obtain ⟨r', hescape, hrest⟩ := bind_eq_ok_iff.1 h
      obtain ⟨e, he, rfl⟩ := leaves_stepEscape_eq_ok_iff.1 hescape
      obtain ⟨q, hq, rfl⟩ := exists_isQuoted hrest
      exact ⟨_, .escape he hq, by rw [hback, List.cons_append, List.append_assoc]⟩
    · obtain ⟨q, hq, rfl⟩ := exists_isQuoted h
      exact ⟨_, .plain ⟨hquote, hback, Nat.le_of_not_lt hcontrol⟩ hq, rfl⟩
termination_by s => s.length

theorem leaves_stepString_append {q : List Char} (hq : IsQuoted q) (t : List Char) :
    leaves (stepString (q ++ t)) = .ok t := by
  induction hq with
  | close =>
    rw [List.cons_append, leaves_stepString_cons, if_pos rfl]
    rfl
  | plain hc _ ih =>
    rw [List.cons_append, leaves_stepString_cons, if_neg hc.1, if_neg hc.2.1,
      if_neg (Nat.not_lt_of_le hc.2.2), ih]
  | escape he _ ih =>
    rw [List.cons_append, leaves_stepString_cons, if_neg (by decide), if_pos rfl,
      List.append_assoc, leaves_stepEscape_eq_ok_iff.2 ⟨_, he, rfl⟩]
    exact ih

end SchemaForest.Json
