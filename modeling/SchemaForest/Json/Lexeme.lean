import SchemaForest.Json.Draft
import SchemaForest.Number.Decimal

/-!
# Words, strings and numbers of JSON texts

Each reader takes the text from where the lexeme begins and returns what it denotes with the text
behind it.  That text is never longer than what was given, which `Rest` records, so that whoever
reads on comes to an end.

A value that nobody looks at is stepped over.  Stepping is more tolerant than reading: it checks
the form of numbers and escapes, but neither their range nor the pairing of surrogates.
-/

namespace SchemaForest.Json

/-- A text that is left behind a lexeme of `s`. -/
abbrev Rest (s : List Char) := { r : List Char // r.length ≤ s.length }

/-- The rest of a longer text. -/
def Rest.widen {r s : List Char} (h : r.length ≤ s.length) (t : Rest r) : Rest s :=
  ⟨t.val, Nat.le_trans t.property h⟩

/-- The rest of a text with one more character in front. -/
def Rest.cons (c : Char) {s : List Char} (t : Rest s) : Rest (c :: s) :=
  t.widen (Nat.le_succ _)

/-- A text that is left behind at least one character of `s`. -/
abbrev After (s : List Char) := { r : List Char // r.length < s.length }

/-- The rest of a longer text. -/
def After.widen {r s : List Char} (h : r.length ≤ s.length) (t : After r) : After s :=
  ⟨t.val, Nat.lt_of_lt_of_le t.property h⟩

/-- The rest of a text with one more character in front. -/
def After.cons (c : Char) {s : List Char} (t : After s) : After (c :: s) :=
  t.widen (Nat.le_succ _)

/-- A lexeme behind one character leaves less than the whole. -/
def After.ofRest (c : Char) {r : List Char} (t : Rest r) : After (c :: r) :=
  ⟨t.val, Nat.lt_succ_of_le t.property⟩

/-! ## Blanks and words -/

/-- A blank between lexemes. -/
def isGap (c : Char) : Bool := c == ' ' || c == '\n' || c == '\t' || c == '\r'

/-- The text without the blanks in front. -/
def skipGaps (s : List Char) : List Char := s.dropWhile isGap

theorem length_dropWhile_le (p : Char → Bool) (s : List Char) :
    (s.dropWhile p).length ≤ s.length := by
  induction s with
  | nil => simp
  | cons c r ih =>
    rw [List.dropWhile_cons]
    split
    · exact Nat.le_succ_of_le ih
    · exact Nat.le_refl _

theorem length_skipGaps_le (s : List Char) : (skipGaps s).length ≤ s.length :=
  length_dropWhile_le _ s

/-- The text behind the characters of a word. -/
def word (w : List Char) (s : List Char) : Except SyntaxError (Rest s) :=
  match w, s with
  | [], s => .ok ⟨s, Nat.le_refl _⟩
  | _ :: _, [] => .error .endInValue
  | a :: w, c :: r => if a = c then (word w r).map (Rest.cons c) else .error .unknownWord

/-! ## Strings -/

/-- Four hexadecimal digits.  Fewer than four bytes to the end of the text is an end inside the
    string, whatever they are. -/
def hexUnit (s : List Char) : Except SyntaxError (Nat × Rest s) :=
  match s with
  | a :: b :: c :: d :: r =>
    if [a, b, c, d].all (Decimal.isDigitOf 16) then
      .ok (Decimal.ofDigits 16 [a, b, c, d], ⟨r, by simp only [List.length_cons]; omega⟩)
    else .error .badEscape
  | short =>
    let size := short.foldr (fun c size => c.utf8Size + size) 0
    if size < 4 then .error .endInString else .error .badEscape

/-- The character of an escape behind `\u`.  A leading surrogate has to be followed by the escape of
    a trailing one. -/
def unicodeEscape (s : List Char) : Except SyntaxError (Char × Rest s) := do
  let (n, r) ← hexUnit s
  if 0xDC00 ≤ n ∧ n ≤ 0xDFFF then .error .loneSurrogate
  else if 0xD800 ≤ n ∧ n ≤ 0xDBFF then
    match hr : r.val with
    | [] => .error .endInString
    | '\\' :: [] => .error .endInString
    | '\\' :: 'u' :: t =>
      let (m, r') ← hexUnit t
      if 0xDC00 ≤ m ∧ m ≤ 0xDFFF then
        .ok (Char.ofNat (0x10000 + (n - 0xD800) * 0x400 + (m - 0xDC00)),
          r'.widen (by
            have := r.property
            rw [hr] at this
            simp only [List.length_cons] at this
            omega))
      else .error .loneSurrogate
    | _ => .error .halfSurrogate
  else .ok (Char.ofNat n, r)

/-- The characters of the short escapes. -/
def shortEscape? : Char → Option Char
  | '"' => some '"'
  | '\\' => some '\\'
  | '/' => some '/'
  | 'b' => some '\x08'
  | 'f' => some '\x0c'
  | 'n' => some '\n'
  | 'r' => some '\r'
  | 't' => some '\t'
  | _ => none

/-- The character of an escape behind its backslash. -/
def escape (s : List Char) : Except SyntaxError (Char × Rest s) :=
  match s with
  | [] => .error .endInString
  | c :: r =>
    if c = 'u' then (unicodeEscape r).map fun (x, t) => (x, t.cons c)
    else match shortEscape? c with
      | some x => .ok (x, ⟨r, Nat.le_succ _⟩)
      | none => .error .badEscape

/-- The characters of a string behind its opening quote. -/
def stringBody (s : List Char) : Except SyntaxError (List Char × Rest s) :=
  match s with
  | [] => .error .endInString
  | c :: r =>
    if c = '"' then .ok ([], ⟨r, Nat.le_succ _⟩)
    else if c = '\\' then
      match escape r with
      | .error e => .error e
      | .ok (x, t) =>
        (stringBody t.val).map fun (xs, t') => (x :: xs, (t'.widen t.property).cons c)
    else if c.toNat < 32 then .error .rawControl
    else (stringBody r).map fun (xs, t) => (c :: xs, t.cons c)
termination_by s.length
decreasing_by
  · have := t.property; simp only [List.length_cons]; omega
  · simp only [List.length_cons]; omega

/-- Steps over an escape behind its backslash. -/
def stepEscape (s : List Char) : Except SyntaxError (Rest s) :=
  match s with
  | [] => .error .endInString
  | c :: r =>
    if c = 'u' then (hexUnit r).map fun (_, t) => t.cons c
    else if (shortEscape? c).isSome then .ok ⟨r, Nat.le_succ _⟩
    else .error .badEscape

/-- Steps over the characters of a string behind its opening quote. -/
def stepString (s : List Char) : Except SyntaxError (Rest s) :=
  match s with
  | [] => .error .endInString
  | c :: r =>
    if c = '"' then .ok ⟨r, Nat.le_succ _⟩
    else if c = '\\' then
      match stepEscape r with
      | .error e => .error e
      | .ok t => (stepString t.val).map fun t' => (t'.widen t.property).cons c
    else if c.toNat < 32 then .error .rawControl
    else (stepString r).map (Rest.cons c)
termination_by s.length
decreasing_by
  · have := t.property; simp only [List.length_cons]; omega
  · simp only [List.length_cons]; omega

/-! ## Numbers -/

/-- The significand holds the first digits of a number, as long as they fit sixty-four bits. -/
def significandBound : Nat := 1 <<< 64

/-- Appends digits to a significand while it fits; the second part counts the digits that did
    not. -/
def takeDigits (significand : Nat) : List Char → Nat × Nat
  | [] => (significand, 0)
  | c :: r =>
    let n := significand * 10 + (c.toNat - 48)
    if n < significandBound then takeDigits n r else (significand, r.length + 1)

/-- A power of ten within the range of binary64. -/
def powerOfTen (n : Nat) : Double := .ofNat (Nat.pow 10 n)

/-- A significand times a power of ten: one multiplication or division by a power that is itself a
    number.  Below the range of these powers the value is brought down step by step. -/
def scale (x : Double) (e : Int) : Except SyntaxError Double :=
  if 308 < e then if x = .zero then .ok x else .error .numberOutOfRange
  else if 0 ≤ e then
    let y := x.mul (powerOfTen e.toNat)
    if y.isFinite then .ok y else .error .numberOutOfRange
  else if -308 ≤ e then .ok (x.div (powerOfTen (-e).toNat))
  else if x = .zero then .ok x
  else scale (x.div (powerOfTen 308)) (e + 308)
termination_by (-e).toNat
decreasing_by omega

/-- The greatest exponent that is still counted. -/
def exponentBound : Nat := 1 <<< 31

/-- The exponent behind the digits of a number, and the number that it makes of them. -/
def withExponent (significand : Nat) (start : Int) (s : List Char) :
    Except SyntaxError (Double × Rest s) :=
  match s with
  | c :: r =>
    if c = 'e' ∨ c = 'E' then
      let (negative, ds) : Bool × Rest r := match r with
        | '-' :: t => (true, ⟨t, Nat.le_succ _⟩)
        | '+' :: t => (false, ⟨t, Nat.le_succ _⟩)
        | t => (false, ⟨t, Nat.le_refl _⟩)
      let rest : Rest (c :: r) :=
        ⟨ds.val.dropWhile Char.isDigit, Nat.le_succ_of_le
          (Nat.le_trans (length_dropWhile_le _ _) ds.property)⟩
      match ds.val with
      | [] => .error .endInValue
      | d :: _ =>
        if d.isDigit then
          let e := Decimal.ofDigits 10 (ds.val.takeWhile Char.isDigit)
          if exponentBound ≤ e then
            if significand ≠ 0 ∧ ¬negative then .error .numberOutOfRange else .ok (.zero, rest)
          else
            (scale (.ofNat significand) (if negative then start - e else start + e)).map (·, rest)
        else .error .badNumber
    else (scale (.ofNat significand) start).map (·, ⟨c :: r, Nat.le_refl _⟩)
  | [] => (scale (.ofNat significand) start).map (·, ⟨[], Nat.le_refl _⟩)

theorem length_dropWhile_lt {p : Char → Bool} {s : List Char} (h : s.takeWhile p ≠ []) :
    (s.dropWhile p).length < s.length := by
  cases s with
  | nil => exact absurd rfl h
  | cons c r =>
    rw [List.dropWhile_cons]
    split
    · exact Nat.lt_succ_of_le (length_dropWhile_le p r)
    · rename_i hc
      rw [List.takeWhile_cons] at h
      simp [hc] at h

/-- An unsigned number: a whole number that fits, or the number nearest to its digits. -/
def unsigned (s : List Char) : Except SyntaxError ((Nat ⊕ Double) × After s) :=
  let digits := s.takeWhile Char.isDigit
  if hd : digits = [] then .error (if s = [] then .endInValue else .badNumber)
  else if digits.head? = some '0' ∧ digits.length ≠ 1 then .error .badNumber
  else
    let behind : After s := ⟨s.dropWhile Char.isDigit, length_dropWhile_lt hd⟩
    let (significand, dropped) := takeDigits 0 digits
    match hb : behind.val with
    | '.' :: r =>
      let fraction := r.takeWhile Char.isDigit
      if fraction = [] then .error (if r = [] then .endInValue else .badNumber)
      else
        let (significand', unused) := takeDigits significand fraction
        (withExponent significand' ((dropped : Int) - ((fraction.length : Int) - unused))
          (r.dropWhile Char.isDigit)).map fun (x, t) =>
            (.inr x, ⟨t.val, by
              have h₁ := behind.property
              have h₂ := length_dropWhile_le Char.isDigit r
              have h₃ := t.property
              rw [hb, List.length_cons] at h₁
              omega⟩)
    | rest =>
      let exponential := match rest with
        | c :: _ => c == 'e' || c == 'E'
        | [] => false
      if dropped = 0 ∧ !exponential then .ok (.inl significand, behind)
      else (withExponent significand dropped behind.val).map fun (x, t) =>
        (.inr x, ⟨t.val, Nat.lt_of_le_of_lt t.property behind.property⟩)

/-- The draft of a number with the given sign.  A negative zero and a whole number below the
    sixty-four bit integers are floating point numbers. -/
def numberDraft (negative : Bool) : Nat ⊕ Double → Draft
  | .inl n =>
    if !negative then .integer n
    else if n = 0 ∨ 1 <<< 63 < n then .float (Double.ofNat n).neg
    else .integer (-(n : Int))
  | .inr x => .float (if negative then x.neg else x)

/-- Steps over the exponent of a number behind its letter. -/
def stepExponent (s : List Char) : Except SyntaxError (Rest s) :=
  let ds : Rest s := match s with
    | '-' :: t => ⟨t, Nat.le_succ _⟩
    | '+' :: t => ⟨t, Nat.le_succ _⟩
    | t => ⟨t, Nat.le_refl _⟩
  match ds.val.takeWhile Char.isDigit with
  | [] => .error .badNumber
  | _ => .ok ⟨ds.val.dropWhile Char.isDigit,
      Nat.le_trans (length_dropWhile_le _ _) ds.property⟩

/-- Steps over an exponent, if one begins here. -/
def stepExponentPart (s : List Char) : Except SyntaxError (Rest s) :=
  match s with
  | c :: r =>
    if c = 'e' ∨ c = 'E' then (stepExponent r).map (Rest.cons c) else .ok ⟨c :: r, Nat.le_refl _⟩
  | [] => .ok ⟨[], Nat.le_refl _⟩

/-- Steps over an unsigned number. -/
def stepUnsigned (s : List Char) : Except SyntaxError (After s) :=
  let digits := s.takeWhile Char.isDigit
  if hd : digits = [] then .error .badNumber
  else if digits.head? = some '0' ∧ digits.length ≠ 1 then .error .badNumber
  else
    let behind : After s := ⟨s.dropWhile Char.isDigit, length_dropWhile_lt hd⟩
    match hb : behind.val with
    | '.' :: r =>
      if r.takeWhile Char.isDigit = [] then .error .badNumber
      else (stepExponentPart (r.dropWhile Char.isDigit)).map fun t => ⟨t.val, by
        have h₁ := behind.property
        have h₂ := length_dropWhile_le Char.isDigit r
        have h₃ := t.property
        rw [hb, List.length_cons] at h₁
        omega⟩
    | _ => (stepExponentPart behind.val).map fun t =>
      ⟨t.val, Nat.lt_of_le_of_lt t.property behind.property⟩

end SchemaForest.Json
