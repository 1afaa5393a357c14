import Mathlib.Data.List.TakeWhile
import SchemaForest.Proofs.Numerals

/-!
# Decimal literals

Which texts without a mark stand for a number is the meeting of two filters: a reader that knows every
usual spelling of a number, words among them, and in front of it a test of the characters.  What they
let through together is a small grammar (`Decimal.IsLiteral`).

1. **The grammar**: an optional sign, digits with an optional point before, among or behind them, and an
   optional exponent with a sign and digits of its own.
2. **The reader of literals takes the grammar.**  It cuts a text where the digits end, so it is enough to
   know what can follow: a point and more digits, or an exponent, and neither starts with a digit
   (`isSome_ofUnsigned?_point`, `isSome_ofUnsigned?_whole`, put together in
   `isSome_ofLiteral?_iff`).
3. **The test of characters takes words away and literals never**: all words have an `n`, and no literal
   has one (`ne_n_of_isDecimalChar`, `isDecimalChar_of_isLiteral`).

So besides the empty text and `Infinity` only literals are numbers (`value_of_unmarked`).
-/

namespace SchemaForest

namespace Decimal

/-! ## The grammar -/

/-- A run of digits, and at least one. -/
structure IsDigits (ds : List Char) : Prop where
  ne_nil : ds ≠ []
  digits : ∀ c ∈ ds, c.isDigit = true

/-- What can stand in front of digits: nothing or a sign. -/
def signs : List (List Char) := [[], ['+'], ['-']]

/-- Digits with an optional point. -/
inductive IsMantissa : List Char → Prop
  | whole {ds : List Char} (whole : IsDigits ds) : IsMantissa ds
  | point {ds : List Char} (whole : IsDigits ds) : IsMantissa (ds ++ ['.'])
  | fraction {ds fs : List Char} (whole : IsDigits ds) (fraction : IsDigits fs) :
    IsMantissa (ds ++ '.' :: fs)
  | bare {fs : List Char} (fraction : IsDigits fs) : IsMantissa ('.' :: fs)

/-- An exponent, or nothing in its place. -/
inductive IsExponent : List Char → Prop
  | none : IsExponent []
  | some {letter : Char} {sign ds : List Char} (letter_mem : letter ∈ ['e', 'E'])
    (sign_mem : sign ∈ signs) (digits : IsDigits ds) : IsExponent (letter :: (sign ++ ds))

/-- A decimal literal. -/
inductive IsLiteral : List Char → Prop
  | intro {sign body exponent : List Char} (sign_mem : sign ∈ signs) (body_ok : IsMantissa body)
    (exponent_ok : IsExponent exponent) : IsLiteral (sign ++ (body ++ exponent))

/-! ## Signs -/

/-- A sign is taken off, if there is one. -/
theorem exists_sign (s : List Char) : ∃ sign ∈ signs, s = sign ++ (takeSign s).2 := by
  unfold takeSign
  split
  · exact ⟨['-'], by decide, rfl⟩
  · exact ⟨['+'], by decide, rfl⟩
  · exact ⟨[], by decide, rfl⟩

/-- Only one sign is taken off. -/
theorem takeSign_append {sign r : List Char} (hsign : sign ∈ signs)
    (h : ∀ c ∈ r.head?, c ≠ '+' ∧ c ≠ '-') : (takeSign (sign ++ r)).2 = r := by
  simp only [signs, List.mem_cons, List.not_mem_nil, or_false] at hsign
  rcases hsign with rfl | rfl | rfl
  · cases r with
    | nil => rfl
    | cons c r =>
      obtain ⟨hplus, hminus⟩ := h c rfl
      unfold takeSign
      split
      · rename_i heq
        exact absurd (List.cons.inj heq).1 hminus
      · rename_i heq
        exact absurd (List.cons.inj heq).1 hplus
      · rfl
  · rfl
  · rfl

theorem ne_sign_of_isDigit {c : Char} (h : c.isDigit = true) : c ≠ '+' ∧ c ≠ '-' := by
  constructor <;> rintro rfl <;> cases h

theorem IsDigits.ne_sign {ds : List Char} (h : IsDigits ds) :
    ∀ c ∈ ds.head?, c ≠ '+' ∧ c ≠ '-' := fun c hc =>
  ne_sign_of_isDigit (h.digits c (List.mem_of_mem_head? hc))

theorem isDigits_iff {ds : List Char} :
    IsDigits ds ↔ ds ≠ [] ∧ ds.all Char.isDigit = true := by
  rw [List.all_eq_true]
  exact ⟨fun h => ⟨h.ne_nil, h.digits⟩, fun h => ⟨h.1, h.2⟩⟩

/-! ## The reader of literals -/

/-- A text is cut where its digits end. -/
theorem span_digits {ds tail : List Char} (hds : ∀ c ∈ ds, c.isDigit = true)
    (htail : ∀ c ∈ tail.head?, c.isDigit = false) :
    (ds ++ tail).takeWhile Char.isDigit = ds ∧ (ds ++ tail).dropWhile Char.isDigit = tail := by
  rw [List.takeWhile_append_of_pos hds, List.dropWhile_append_of_pos hds]
  cases tail with
  | nil => exact ⟨List.append_nil ds, rfl⟩
  | cons c r =>
    have hc : ¬ c.isDigit = true := Bool.eq_false_iff.1 (htail c rfl)
    rw [List.takeWhile_cons_of_neg hc, List.dropWhile_cons_of_neg hc]
    exact ⟨List.append_nil ds, rfl⟩

/-- Every text can be cut there. -/
theorem exists_digits (s : List Char) :
    ∃ ds rest, s = ds ++ rest ∧ (∀ c ∈ ds, c.isDigit = true) ∧
      ∀ c ∈ rest.head?, c.isDigit = false := by
  refine ⟨s.takeWhile Char.isDigit, s.dropWhile Char.isDigit, List.takeWhile_append_dropWhile.symm,
    fun c hc => List.mem_takeWhile_imp hc, fun c hc => ?_⟩
  have hhead := List.head?_dropWhile_not Char.isDigit s
  rw [Option.mem_def.1 hc] at hhead
  exact hhead

theorem isSome_exponentPart?_iff {s : List Char} :
    (exponentPart? s).isSome = true ↔ IsExponent s := by
  constructor
  · intro h
    cases s with
    | nil => exact .none
    | cons c r =>
      rw [exponentPart?] at h
      obtain ⟨sign, hsign, hr⟩ := exists_sign r
      dsimp only at h
      by_cases hletter : c = 'e' ∨ c = 'E'
      · rw [if_pos hletter] at h
        by_cases hdigits : (takeSign r).2 ≠ [] ∧ (takeSign r).2.all Char.isDigit = true
        · rw [hr]
          exact .some (by simpa using hletter) hsign (isDigits_iff.2 hdigits)
        · rw [if_neg hdigits] at h
          cases h
      · rw [if_neg hletter] at h
        cases h
  · intro h
    cases h with
    | none => rfl
    | @some letter sign ds hletter hsign hdigits =>
      have hletter : letter = 'e' ∨ letter = 'E' := by simpa using hletter
      have htake := takeSign_append hsign hdigits.ne_sign
      rw [exponentPart?, if_pos hletter]
      dsimp only
      rw [htake, if_pos (isDigits_iff.1 hdigits)]
      rfl

theorem IsExponent.head_ne {s : List Char} (h : IsExponent s) :
    ∀ c ∈ s.head?, c.isDigit = false ∧ c ≠ '.' := by
  intro c hc
  cases h with
  | none => cases hc
  | some hletter =>
    obtain rfl := Option.some.inj hc
    simp only [List.mem_cons, List.not_mem_nil, or_false] at hletter
    rcases hletter with rfl | rfl <;> decide

/-- Digits and no point. -/
theorem isSome_ofUnsigned?_whole {ds rest : List Char} (hds : ∀ c ∈ ds, c.isDigit = true)
    (hrest : ∀ c ∈ rest.head?, c.isDigit = false ∧ c ≠ '.') :
    (ofUnsigned? (ds ++ rest)).isSome = true ↔ ds ≠ [] ∧ IsExponent rest := by
  obtain ⟨htake, hdrop⟩ := span_digits hds fun c hc => (hrest c hc).1
  have hpoint : fractionPart rest = ([], rest) := by
    unfold fractionPart
    split
    · exact absurd rfl (hrest _ rfl).2
    · rfl
  rw [ofUnsigned?, htake, hdrop, hpoint, ← isSome_exponentPart?_iff]
  by_cases hnil : ds = []
  · simp [hnil]
  · simp [hnil]

/-- Digits on either side of a point, and it may be that on one side there are none. -/
theorem isSome_ofUnsigned?_point {ds fs rest : List Char} (hds : ∀ c ∈ ds, c.isDigit = true)
    (hfs : ∀ c ∈ fs, c.isDigit = true) (hrest : ∀ c ∈ rest.head?, c.isDigit = false) :
    (ofUnsigned? (ds ++ '.' :: (fs ++ rest))).isSome = true ↔
      (ds ≠ [] ∨ fs ≠ []) ∧ IsExponent rest := by
  have hhead : ∀ c ∈ ('.' :: (fs ++ rest)).head?, c.isDigit = false := by
    rintro c ⟨⟩
    rfl
  obtain ⟨htake, hdrop⟩ := span_digits hds hhead
  obtain ⟨htakeFraction, hdropFraction⟩ := span_digits hfs hrest
  rw [ofUnsigned?, htake, hdrop, fractionPart, htakeFraction, hdropFraction,
    ← isSome_exponentPart?_iff]
  by_cases hnil : ds = [] ∧ fs = []
  · simp [hnil.1, hnil.2]
  · rw [← not_and_or]
    simp [hnil]

/-- Without its sign a literal is read if it is digits with an optional point and an exponent. -/
theorem isSome_ofUnsigned?_iff {s : List Char} :
    (ofUnsigned? s).isSome = true ↔
      ∃ body exponent, s = body ++ exponent ∧ IsMantissa body ∧ IsExponent exponent := by
  constructor
  · intro h
    obtain ⟨ds, rest, rfl, hds, hrest⟩ := exists_digits s
    by_cases hpoint : ∃ r, rest = '.' :: r
    · obtain ⟨r, rfl⟩ := hpoint
      obtain ⟨fs, exponent, rfl, hfs, hend⟩ := exists_digits r
      obtain ⟨hne, hexponent⟩ := (isSome_ofUnsigned?_point hds hfs hend).1 h
      refine ⟨ds ++ '.' :: fs, exponent, by simp, ?_, hexponent⟩
      -- Which of the two are there decides the form.
      by_cases hdsnil : ds = []
      · subst hdsnil
        exact .bare ⟨hne.resolve_left fun hne => hne rfl, hfs⟩
      · by_cases hfsnil : fs = []
        · subst hfsnil
          exact .point ⟨hdsnil, hds⟩
        · exact .fraction ⟨hdsnil, hds⟩ ⟨hfsnil, hfs⟩
    · have hplain : ∀ c ∈ rest.head?, c.isDigit = false ∧ c ≠ '.' := by
        intro c hc
        refine ⟨hrest c hc, ?_⟩
        rintro rfl
        obtain ⟨r, hr⟩ := List.head?_eq_some_iff.1 hc
        exact hpoint ⟨r, hr⟩
      obtain ⟨hne, hexponent⟩ := (isSome_ofUnsigned?_whole hds hplain).1 h
      exact ⟨ds, rest, rfl, .whole ⟨hne, hds⟩, hexponent⟩
  · rintro ⟨body, exponent, rfl, hbody, hexponent⟩
    have hhead := hexponent.head_ne
    have hdigit : ∀ c ∈ exponent.head?, c.isDigit = false := fun c hc => (hhead c hc).1
    have hnone : ∀ c ∈ ([] : List Char), c.isDigit = true := fun c hc => nomatch hc
    cases hbody with
    | whole hds => exact (isSome_ofUnsigned?_whole hds.digits hhead).2 ⟨hds.ne_nil, hexponent⟩
    | @point ds hds =>
      rw [List.append_assoc]
      exact (isSome_ofUnsigned?_point hds.digits hnone hdigit).2 ⟨Or.inl hds.ne_nil, hexponent⟩
    | @fraction ds fs hds hfs =>
      rw [List.append_assoc]
      exact (isSome_ofUnsigned?_point hds.digits hfs.digits hdigit).2 ⟨Or.inl hds.ne_nil, hexponent⟩
    | bare hfs =>
      exact (isSome_ofUnsigned?_point hnone hfs.digits hdigit).2 ⟨Or.inr hfs.ne_nil, hexponent⟩

theorem IsMantissa.head_ne_sign {body : List Char} (h : IsMantissa body) (rest : List Char) :
    ∀ c ∈ (body ++ rest).head?, c ≠ '+' ∧ c ≠ '-' := by
  have hdigits : ∀ {ds : List Char} (rest : List Char), IsDigits ds →
      ∀ c ∈ (ds ++ rest).head?, c ≠ '+' ∧ c ≠ '-' := by
    intro ds rest hds c hc
    rw [List.head?_append_of_ne_nil _ hds.ne_nil] at hc
    exact hds.ne_sign c hc
  cases h with
  | whole hds => exact hdigits rest hds
  | point hds =>
    rw [List.append_assoc]
    exact hdigits _ hds
  | fraction hds =>
    rw [List.append_assoc]
    exact hdigits _ hds
  | bare =>
    rintro c hc
    obtain rfl := Option.some.inj hc
    decide

/-- The reader takes the literals and nothing else. -/
theorem isSome_ofLiteral?_iff {s : List Char} : (ofLiteral? s).isSome = true ↔ IsLiteral s := by
  have hunsigned : (ofLiteral? s).isSome = (ofUnsigned? (takeSign s).2).isSome := by
    rw [ofLiteral?]
    exact Option.isSome_map
  rw [hunsigned]
  constructor
  · intro h
    obtain ⟨body, exponent, heq, hbody, hexponent⟩ := isSome_ofUnsigned?_iff.1 h
    obtain ⟨sign, hsign, hs⟩ := exists_sign s
    rw [hs, heq]
    exact .intro hsign hbody hexponent
  · rintro ⟨hsign, hbody, hexponent⟩
    rw [takeSign_append hsign (hbody.head_ne_sign _)]
    exact isSome_ofUnsigned?_iff.2 ⟨_, _, rfl, hbody, hexponent⟩

end Decimal

namespace NumberText

open Decimal (signs IsLiteral IsDigits isDigits_iff takeSign exists_sign takeSign_append)

/-! ## The characters of literals -/

theorem isDecimalChar_iff {c : Char} :
    isDecimalChar c = true ↔ c.isDigit = true ∨ c ∈ ['.', 'e', 'E', '+', '-'] := by
  simp [isDecimalChar, or_assoc]

theorem isDecimalChar_of_isDigits {ds : List Char} (h : IsDigits ds) :
    ∀ c ∈ ds, isDecimalChar c = true := fun c hc => isDecimalChar_iff.2 (Or.inl (h.digits c hc))

theorem isDecimalChar_of_sign {sign : List Char} (h : sign ∈ signs) :
    ∀ c ∈ sign, isDecimalChar c = true := by
  have hall : ∀ sign ∈ signs, sign.all isDecimalChar = true := by decide
  exact List.all_eq_true.1 (hall sign h)

/-- A literal passes the test of characters. -/
theorem isDecimalChar_of_isLiteral {t : List Char} (h : IsLiteral t) :
    ∀ c ∈ t, isDecimalChar c = true := by
  obtain ⟨hsign, hbody, hexponent⟩ := h
  refine List.forall_mem_append.2 ⟨isDecimalChar_of_sign hsign, List.forall_mem_append.2 ⟨?_, ?_⟩⟩
  · cases hbody with
    | whole hds => exact isDecimalChar_of_isDigits hds
    | point hds =>
      exact List.forall_mem_append.2
        ⟨isDecimalChar_of_isDigits hds, List.forall_mem_singleton.2 (by decide)⟩
    | fraction hds hfs =>
      exact List.forall_mem_append.2 ⟨isDecimalChar_of_isDigits hds,
        List.forall_mem_cons.2 ⟨by decide, isDecimalChar_of_isDigits hfs⟩⟩
    | bare hfs => exact List.forall_mem_cons.2 ⟨by decide, isDecimalChar_of_isDigits hfs⟩
  · cases hexponent with
    | none => exact fun c hc => nomatch hc
    | some hletter hsign hds =>
      have hall : ∀ c ∈ ['e', 'E'], isDecimalChar c = true := List.all_eq_true.1 (by decide)
      exact List.forall_mem_cons.2 ⟨hall _ hletter,
        List.forall_mem_append.2 ⟨isDecimalChar_of_sign hsign, isDecimalChar_of_isDigits hds⟩⟩

/-- No character that passes the test is an `n`, large or small. -/
theorem ne_n_of_isDecimalChar {c : Char} (h : isDecimalChar c = true) : c.toLower ≠ 'n' := by
  rcases isDecimalChar_iff.1 h with hdigit | hother
  · have hc : Char.ofNat c.toNat = c := Char.ofNat_toNat c
    obtain ⟨hlow, hhigh⟩ : 48 ≤ c.toNat ∧ c.toNat ≤ 57 := by
      simpa [Char.isDigit, UInt32.le_iff_toNat_le] using hdigit
    generalize c.toNat = n at hc hlow hhigh
    subst hc
    interval_cases n <;> decide
  · simp only [List.mem_cons, List.not_mem_nil, or_false] at hother
    rcases hother with rfl | rfl | rfl | rfl | rfl <;> decide

/-- The words that are usual for numbers. -/
def words : List (List Char) := ["inf".toList, "infinity".toList, "nan".toList]

/-- No such word passes the test, in whatever letters. -/
theorem not_isDecimalChar_of_word {word : List Char} (h : word.map Char.toLower ∈ words) :
    ∃ c ∈ word, ¬ isDecimalChar c = true := by
  have hall : ∀ w ∈ words, 'n' ∈ w := by decide
  obtain ⟨c, hc, hn⟩ := List.mem_map.1 (hall _ h)
  exact ⟨c, hc, fun hchar => ne_n_of_isDecimalChar hchar hn⟩

/-- Of texts that pass the test the usual spellings are the literals. -/
theorem spelled?_eq_none_iff {t : List Char} (h : ∀ c ∈ t, isDecimalChar c = true) :
    spelled? t = none ↔ ¬ IsLiteral t := by
  rw [← Decimal.isSome_ofLiteral?_iff, spelled?]
  cases Decimal.ofLiteral? t with
  | some d => simp
  | none =>
    -- What is left is no literal, and a word it is not either.
    obtain ⟨sign, -, ht⟩ := exists_sign t
    have hword : (takeSign t).2.map Char.toLower ∉ words := by
      intro hword
      obtain ⟨c, hc, hchar⟩ := not_isDecimalChar_of_word hword
      refine hchar (h c ?_)
      rw [ht]
      exact List.mem_append_right sign hc
    simp only [words, List.mem_cons, List.not_mem_nil, or_false, not_or] at hword
    obtain ⟨hinf, hinfinity, hnan⟩ := hword
    dsimp only
    rw [named?, if_neg (not_or.2 ⟨hinf, hinfinity⟩), if_neg hnan]
    simp

/-! ## Numbers without a mark -/

/-- No literal stands for the number that is none. -/
theorem spelled?_ne_nan {t : List Char} (h : IsLiteral t) : spelled? t ≠ some .nan := by
  obtain ⟨⟨negative, d⟩, hd⟩ := Option.isSome_iff_exists.1 (Decimal.isSome_ofLiteral?_iff.2 h)
  rw [spelled?, hd]
  intro heq
  cases heq

/-- `Infinity` with any sign is taken in front of all else. -/
theorem ofTrimmed_infinity_ne_nan {sign : List Char} (h : sign ∈ signs) :
    ofTrimmed (sign ++ "Infinity".toList) ≠ .nan := by
  simp only [signs, List.mem_cons, List.not_mem_nil, or_false] at h
  rcases h with rfl | rfl | rfl <;> exact fun heq => nomatch heq

/-- Any other text without a mark is a number if it passes the test and has a usual spelling of one. -/
theorem ofTrimmed_of_unmarked {t : List Char} (h : ∀ base rest, ¬ Marked t base rest)
    (hempty : t ≠ []) (hinfinity : ¬ ∃ sign ∈ signs, t = sign ++ "Infinity".toList) :
    ofTrimmed t = if t.all isDecimalChar then (spelled? t).getD .nan else .nan := by
  have hradix := radix?_eq_none_iff.2 h
  have hplain : ¬ (t = "Infinity".toList ∨ t = "+Infinity".toList) := by
    rintro (ht | ht)
    · exact hinfinity ⟨[], by decide, ht⟩
    · exact hinfinity ⟨['+'], by decide, ht⟩
  have hminus : t ≠ "-Infinity".toList := fun ht => hinfinity ⟨['-'], by decide, ht⟩
  rw [ofTrimmed, if_neg hempty, if_neg hplain, if_neg hminus, hradix]

/-- Without a mark the numbers are the empty text, `Infinity` and the literals. -/
theorem ofTrimmed_ne_nan_iff {t : List Char} (h : ∀ base rest, ¬ Marked t base rest) :
    ofTrimmed t ≠ .nan ↔
      t = [] ∨ (∃ sign ∈ signs, t = sign ++ "Infinity".toList) ∨ IsLiteral t := by
  by_cases hempty : t = []
  · subst hempty
    exact ⟨fun _ => Or.inl rfl, fun _ heq => nomatch heq⟩
  by_cases hinfinity : ∃ sign ∈ signs, t = sign ++ "Infinity".toList
  · refine ⟨fun _ => Or.inr (Or.inl hinfinity), fun _ => ?_⟩
    obtain ⟨sign, hsign, rfl⟩ := hinfinity
    exact ofTrimmed_infinity_ne_nan hsign
  rw [ofTrimmed_of_unmarked h hempty hinfinity]
  constructor
  · intro hne
    have hchars : t.all isDecimalChar = true := by
      by_contra hchars
      exact hne (if_neg hchars)
    rw [if_pos hchars] at hne
    refine Or.inr (Or.inr (not_not.1 fun hliteral => hne ?_))
    rw [(spelled?_eq_none_iff (List.all_eq_true.1 hchars)).2 hliteral, Option.getD_none]
  · rintro (ht | ht | hliteral)
    · exact absurd ht hempty
    · exact absurd ht hinfinity
    · have hchars := isDecimalChar_of_isLiteral hliteral
      rw [if_pos (List.all_eq_true.2 hchars)]
      cases hspelled : spelled? t with
      | none => exact absurd hliteral ((spelled?_eq_none_iff hchars).1 hspelled)
      | some x =>
        have hx := spelled?_ne_nan hliteral
        rw [hspelled] at hx
        exact fun heq => hx (congrArg some heq)

/-- A word has one sign only, so what is left without it is told by the text. -/
theorem word_eq_of_append {sign sign' word : List Char} (hsign : sign ∈ signs) (hsign' : sign' ∈ signs)
    (hword : word.map Char.toLower ∈ words) (h : sign ++ word = sign' ++ "Infinity".toList) :
    word = "Infinity".toList := by
  have hall : ∀ w ∈ words, w.head? ≠ some '+' ∧ w.head? ≠ some '-' := by decide
  obtain ⟨hplus, hminus⟩ := hall _ hword
  rw [List.head?_map] at hplus hminus
  have hhead : ∀ c ∈ word.head?, c ≠ '+' ∧ c ≠ '-' := by
    intro c hc
    rw [Option.mem_def.1 hc] at hplus hminus
    constructor
    · rintro rfl
      exact hplus rfl
    · rintro rfl
      exact hminus rfl
  have hinfinity : ∀ c ∈ "Infinity".toList.head?, c ≠ '+' ∧ c ≠ '-' := by
    rintro c ⟨⟩
    decide
  rw [← takeSign_append hsign hhead, h, takeSign_append hsign' hinfinity]

/-- A text without a mark stands for a number if and only if it is empty, or `Infinity` with an optional
    sign, or a decimal literal, blanks around it aside.  No other word for a number is one here, in
    whatever letters. -/
theorem value_of_unmarked {s : String} (h : ∀ base rest, ¬ Marked (Text.trim s.toList) base rest) :
    (value s ≠ .nan ↔ Text.trim s.toList = [] ∨
      (∃ sign ∈ signs, Text.trim s.toList = sign ++ "Infinity".toList) ∨
      IsLiteral (Text.trim s.toList)) ∧
    ∀ sign ∈ signs, ∀ word, Text.trim s.toList = sign ++ word → word.map Char.toLower ∈ words →
      word ≠ "Infinity".toList → value s = .nan := by
  have hiff := ofTrimmed_ne_nan_iff h
  refine ⟨hiff, ?_⟩
  intro sign hsign word ht hword hne
  by_contra hvalue
  rcases hiff.1 hvalue with hempty | ⟨sign', hsign', ht'⟩ | hliteral
  · obtain ⟨c, hc, -⟩ := not_isDecimalChar_of_word hword
    rw [ht] at hempty
    rw [(List.append_eq_nil_iff.1 hempty).2] at hc
    cases hc
  · exact hne (word_eq_of_append hsign hsign' hword (ht.symm.trans ht'))
  · obtain ⟨c, hc, hchar⟩ := not_isDecimalChar_of_word hword
    refine hchar (isDecimalChar_of_isLiteral hliteral c ?_)
    rw [ht]
    exact List.mem_append_right sign hc

/-- A literal with all its parts among blanks is a number, and a word in capitals is none. -/
theorem value_of_unmarked_texts :
    (∀ base rest, ¬ Marked (Text.trim "\u2003-.5E+07\n".toList) base rest) ∧
      value "\u2003-.5E+07\n" ≠ .nan ∧
    (∀ base rest, ¬ Marked (Text.trim "-INFINITY".toList) base rest) ∧ value "-INFINITY" = .nan := by
  have hliteral :=
    radix?_eq_none_iff.1 (by decide : radix? (Text.trim "\u2003-.5E+07\n".toList) = none)
  have hword := radix?_eq_none_iff.1 (by decide : radix? (Text.trim "-INFINITY".toList) = none)
  obtain ⟨hnumber, -⟩ := value_of_unmarked hliteral
  obtain ⟨-, hnone⟩ := value_of_unmarked hword
  refine ⟨hliteral, hnumber.2 (Or.inr (Or.inr ?_)), hword,
    hnone ['-'] (by decide) "INFINITY".toList (by decide) (by decide) (by decide)⟩
  have hparts : Text.trim "\u2003-.5E+07\n".toList =
      ['-'] ++ ('.' :: "5".toList ++ 'E' :: (['+'] ++ "07".toList)) := by decide
  rw [hparts]
  exact .intro (by decide) (.bare (isDigits_iff.2 (by decide)))
    (.some (by decide) (by decide) (isDigits_iff.2 (by decide)))

-- Near misses: an exponent without digits or without a mantissa, a point alone, a second sign.
example : ∀ s ∈ ["1e", ".e1", "+.", "1e+-2", "é1", "- 1"], value s = .nan := by decide

end NumberText

end SchemaForest
