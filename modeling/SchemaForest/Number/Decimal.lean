import SchemaForest.Number.Double

/-!
# Decimal numbers and their texts

1. A `Decimal` is a natural times a power of ten; `toDouble` rounds it once.
2. `Decimal.ofLiteral?` reads an ordinary decimal literal: digits with an optional point among or
   beside them, and an optional exponent.
3. `shortest` finds the fewest digits that read back as a given number, and of the candidates with
   that many digits the nearest one.
4. A `Layout` says how digits and exponent are set as text; `plain`, `withExponent` and
   `unsignedExponent` are the three layouts of this library.
-/

namespace SchemaForest

/-- The number `digits * 10 ^ exponent`. -/
structure Decimal where
  digits : Nat
  exponent : Int
deriving DecidableEq

namespace Decimal

/-! ## Digits -/

/-- The value of a digit in bases up to sixteen. -/
def digitValue? (c : Char) : Option Nat :=
  if '0' ≤ c ∧ c ≤ '9' then some (c.toNat - 48)
  else if 'a' ≤ c ∧ c ≤ 'f' then some (c.toNat - 87)
  else if 'A' ≤ c ∧ c ≤ 'F' then some (c.toNat - 55)
  else none

/-- Whether a character is a digit of the base. -/
def isDigitOf (base : Nat) (c : Char) : Bool := (digitValue? c).any (· < base)

/-- The number that a run of digits denotes in a base; the first digit counts most. -/
def ofDigits (base : Nat) (cs : List Char) : Nat :=
  cs.foldl (fun n c => n * base + (digitValue? c).getD 0) 0

/-- How many decimal digits a number has; zero has one. -/
def digitCount (n : Nat) : Nat := (Nat.toDigits 10 n).length

/-! ## Rounding -/

/-- The ratio of a decimal: numerator and denominator. -/
def ratio (d : Decimal) : Nat × Nat :=
  if 0 ≤ d.exponent then (d.digits * Nat.pow 10 d.exponent.toNat, 1)
  else (d.digits, Nat.pow 10 (-d.exponent).toNat)

/-- The rank nearest to a decimal.  What has more than 310 digits before the point is past the
    range, and what has more than 330 zeros behind it is nearer to zero than to any other number, so
    no power of ten grows beyond the length of the digits. -/
def nearestRank (d : Decimal) : Nat :=
  let places := (digitCount d.digits : Int) + d.exponent
  if d.digits = 0 ∨ places < -330 then 0
  else if 310 < places then infinityRank
  else Double.nearestRank d.ratio.1 d.ratio.2

theorem nearestRank_le (d : Decimal) : d.nearestRank ≤ infinityRank := by
  unfold nearestRank
  dsimp only
  split
  · exact Nat.zero_le _
  · split
    · exact Nat.le_refl _
    · exact Double.nearestRank_le _ _

/-- The number nearest to a decimal with the given sign. -/
def toDouble (negative : Bool) (d : Decimal) : Double :=
  .signed negative ⟨d.nearestRank, Nat.lt_succ_of_le d.nearestRank_le⟩

/-! ## Literals -/

/-- A sign in front of a text, and the text behind it. -/
def takeSign : List Char → Bool × List Char
  | '-' :: r => (true, r)
  | '+' :: r => (false, r)
  | s => (false, s)

/-- The exponent behind the digits: nothing, or a letter, an optional sign and at least one digit,
    up to the end of the text. -/
def exponentPart? (s : List Char) : Option Int :=
  match s with
  | [] => some 0
  | c :: r =>
    if c = 'e' ∨ c = 'E' then
      let (negative, ds) := takeSign r
      if ds ≠ [] ∧ ds.all Char.isDigit then
        some (if negative then -(ofDigits 10 ds : Int) else (ofDigits 10 ds : Int))
      else none
    else none

/-- The fraction behind the whole part: the digits after a point, if there is one, and the rest. -/
def fractionPart : List Char → List Char × List Char
  | '.' :: r => (r.takeWhile Char.isDigit, r.dropWhile Char.isDigit)
  | s => ([], s)

/-- An unsigned literal.  The point may stand before, among or after the digits, but one digit there
    has to be. -/
def ofUnsigned? (s : List Char) : Option Decimal :=
  let whole := s.takeWhile Char.isDigit
  let (fraction, rest) := fractionPart (s.dropWhile Char.isDigit)
  if whole = [] ∧ fraction = [] then none
  else (exponentPart? rest).map fun e =>
    ⟨ofDigits 10 (whole ++ fraction), e - (fraction.length : Int)⟩

/-- A literal with an optional sign: whether it is negative, and its magnitude. -/
def ofLiteral? (s : List Char) : Option (Bool × Decimal) :=
  let (negative, r) := takeSign s
  (ofUnsigned? r).map (negative, ·)

/-! ## Shortest digits -/

/-- Which of two equally near candidates is taken. -/
inductive Tie where
  /-- The one with an even last digit. -/
  | even
  /-- The greater one. -/
  | up
deriving DecidableEq

/-- Whether a decimal reads back as the number of a rank. -/
def readsBack (rank : Nat) (d : Decimal) : Bool := d.nearestRank == rank

/-- The multiple of `10 ^ exponent` at or below the value of a rank, and twice the rest as a ratio
    to `10 ^ exponent`: less than, equal to or greater than one half of the grid. -/
def gridFloor (rank : Nat) (exponent : Int) : Nat × Ordering :=
  let (num, den) :=
    if 0 ≤ exponent then (Double.units rank, Double.unitsPerOne * Nat.pow 10 exponent.toNat)
    else (Double.units rank * Nat.pow 10 (-exponent).toNat, Double.unitsPerOne)
  (num / den, compare (2 * (num % den)) den)

/-- The candidate on one decimal grid: of the two neighbours of the value those that read back, and
    of these the nearer. -/
def onGrid (tie : Tie) (rank : Nat) (exponent : Int) : Option Decimal :=
  let (below, side) := gridFloor rank exponent
  let low : Decimal := ⟨below, exponent⟩
  let high : Decimal := ⟨below + 1, exponent⟩
  match readsBack rank low, readsBack rank high with
  | false, false => none
  | true, false => some low
  | false, true => some high
  | true, true =>
    match side with
    | .lt => some low
    | .gt => some high
    | .eq => match tie with
      | .up => some high
      | .even => some (if below % 2 = 0 then low else high)

/-- A power of ten that the value of a rank does not reach. -/
def ceilingExponent (rank : Nat) : Int :=
  let u := Double.units rank
  if Double.unitsPerOne ≤ u then (digitCount (u / Double.unitsPerOne) : Int)
  else 1 - (digitCount (Double.unitsPerOne / u) : Int)

/-- The decimal with the fewest digits that reads back as the number of a rank.  The grids are
    tried from the coarsest; the nineteenth is fine enough for every number. -/
def shortest (tie : Tie) (rank : Nat) : Decimal :=
  if rank = 0 then ⟨0, 0⟩
  else
    let top := ceilingExponent rank
    ((List.range 20).findSome? fun (k : Nat) => onGrid tie rank (top - k)).getD ⟨0, 0⟩

/-! ## Layout -/

/-- How a number is set as text. -/
structure Layout where
  /-- The choice between two equally near candidates. -/
  tie : Tie
  /-- Which scientific exponents are written with a point alone. -/
  positional : Int → Bool
  /-- Whether a whole number ends in `.0`. -/
  wholeMark : Bool
  /-- Whether a positive exponent has a sign. -/
  plusSign : Bool

/-- No exponent at all, and no mark on whole numbers. -/
def plain : Layout := ⟨.up, fun _ => true, false, true⟩

/-- Exponents outside -5 to 15 are written with their sign, and whole numbers end in `.0`. -/
def withExponent : Layout := ⟨.even, fun e => -5 ≤ e && e ≤ 15, true, true⟩

/-- Exponents outside -4 to 15 are written, a positive one without a sign, and whole numbers end in
    `.0`. -/
def unsignedExponent : Layout := ⟨.up, fun e => -4 ≤ e && e ≤ 15, true, false⟩

/-- The digits with a point: zeros fill up on either side. -/
def setPositional (wholeMark : Bool) (d : Decimal) : List Char :=
  let ds := Nat.toDigits 10 d.digits
  let mark := if wholeMark then ['.', '0'] else []
  if 0 ≤ d.exponent then ds ++ List.replicate d.exponent.toNat '0' ++ mark
  else
    let places := (-d.exponent).toNat
    if ds.length ≤ places then '0' :: '.' :: List.replicate (places - ds.length) '0' ++ ds
    else ds.take (ds.length - places) ++ '.' :: ds.drop (ds.length - places)

/-- One digit before the point, and the exponent. -/
def setScientific (plusSign : Bool) (d : Decimal) : List Char :=
  let ds := Nat.toDigits 10 d.digits
  let e := d.exponent + (ds.length : Int) - 1
  let fraction := if ds.length = 1 then [] else '.' :: ds.drop 1
  let sign := if e < 0 then ['-'] else if plusSign then ['+'] else []
  ds.take 1 ++ fraction ++ 'e' :: sign ++ Nat.toDigits 10 e.natAbs

/-- The text of a number. -/
def Layout.write (layout : Layout) : Double → List Char
  | .nan => ['N', 'a', 'N']
  | .signed negative rank =>
    let sign := if negative then ['-'] else []
    if rank.val = infinityRank then sign ++ ['i', 'n', 'f']
    else
      let d := shortest layout.tie rank.val
      let e := d.exponent + (digitCount d.digits : Int) - 1
      sign ++ if layout.positional e then setPositional layout.wholeMark d
        else setScientific layout.plusSign d

example : plain.write (Double.ofRatio false 1 10) = ['0', '.', '1'] := by decide +kernel
example : withExponent.write (Double.ofNat (Nat.pow 10 16)) = ['1', 'e', '+', '1', '6'] := by
  decide +kernel
example : withExponent.write (Double.ofNat 3) = ['3', '.', '0'] := by decide +kernel
example : withExponent.write (.signed false 1) = ['5', 'e', '-', '3', '2', '4'] := by
  decide +kernel
example : unsignedExponent.write (Double.ofNat (Nat.pow 10 16)) = ['1', 'e', '1', '6'] := by
  decide +kernel
example : plain.write Double.negZero = ['-', '0'] := by decide +kernel

end Decimal

end SchemaForest
