import SchemaForest.Number.Double

/-!
# Real numbers on a binary grid

A real number is kept as an integer that counts steps of `1 / one`, where `one` is a power of two.
Everything here is computed to within a few hundred steps; on a grid of `2 ^ 256` steps this leaves
more than enough digits for one rounding to binary64.

1. Series for the exponential, the sine and cosine, and the two arcus tangens, for small arguments.
2. The constants that reduce other arguments to small ones.
3. Logarithm, exponential and arcus tangens of any argument.
-/

namespace SchemaForest.Grid

/-- The grid of most calculations. -/
def one : Int := Int.pow 2 256

/-- How many terms of a series are summed whose terms fall at least by the factor three. -/
def termCount (one : Int) : Nat := one.natAbs.log2 / 3 + 2

/-- The integer root of a degree: the greatest whose power is not above, one binary digit after the
    other from the top. -/
def rootOf (degree n : Nat) : Nat :=
  (List.range (n.log2 / degree + 1)).foldr
    (fun k root => if Nat.pow (root + 1 <<< k) degree ≤ n then root + 1 <<< k else root) 0

/-- The square root. -/
def sqrt (x : Int) : Int := rootOf 2 (x * one).toNat

/-! ## Series -/

/-- `1 + x / 1 + x ^ 2 / 2 + …`, each term from the one before. -/
def expSeries (x : Int) : Int :=
  (List.range 80).foldr (fun (k : Nat) sum => one + x * sum / (one * (k + 1))) one

/-- `1 - x ^ 2 / ((s + 1) (s + 2)) + …`: the cosine for `s = 0`, and for `s = 1` the sine divided by
    its argument. -/
def waveSeries (s : Nat) (x : Int) : Int :=
  let square := x * x / one
  (List.range 50).foldr (fun (k : Nat) sum =>
    one - square * sum / (one * ((2 * k + s + 1) * (2 * k + s + 2) : Nat))) one

/-- `x + t x ^ 3 / 3 + x ^ 5 / 5 + …` for arguments up to one third, where `t` is one for the
    hyperbolic arcus tangens and minus one for the other. -/
def arcSeries (one t x : Int) : Int :=
  let square := t * x * x / one
  x * ((List.range (termCount one)).foldr (fun (k : Nat) sum =>
    one / (2 * k + 1 : Nat) + square * sum / one) 0) / one

/-! ## Constants -/

/-- A quarter turn, the fourth part of a circle, on a grid. -/
def quarterOn (one : Int) : Int :=
  2 * (4 * arcSeries one (-1) (one / 5) - arcSeries one (-1) (one / 239))

/-- A quarter turn. -/
def quarter : Int := quarterOn one

/-- The natural logarithm of two. -/
def log2 : Int := 2 * arcSeries one 1 (one / 3)

/-! ## Any argument -/

/-- The natural logarithm of a positive ratio. -/
def log (num den : Nat) : Int :=
  let e := (num.log2 : Int) - den.log2
  let a : Int := (num <<< (-e).toNat : Nat)
  let b : Int := (den <<< e.toNat : Nat)
  e * log2 + 2 * arcSeries one 1 ((a - b) * one / (a + b))

/-- The natural logarithm of ten. -/
def log10 : Int := log 10 1

/-- The exponential as a ratio. -/
def exp (x : Int) : Nat × Nat :=
  let k := x / log2
  ((expSeries (x - k * log2)).toNat <<< k.toNat, one.toNat <<< (-k).toNat)

/-- The arcus tangens of a number between zero and one, by halving the angle twice. -/
def arcTanUnit (x : Int) : Int :=
  let half (x : Int) : Int := x * one / (one + sqrt (one + x * x / one))
  4 * arcSeries one (-1) (half (half x))

/-- The arcus tangens of a ratio of two numbers that are not negative, also of one to zero. -/
def arcTan (num den : Int) : Int :=
  if num = 0 then 0
  else if num ≤ den then arcTanUnit (num * one / den)
  else quarter - arcTanUnit (den * one / num)

/-- Sine and cosine of so many units of `2⁻¹⁰⁷⁴`.  The argument is reduced on a finer grid, since it
    may be as great as `2 ^ 1024`. -/
def wave (units : Nat) : Int × Int :=
  let bits := 1400
  let turn := quarterOn (Int.pow 2 bits)
  let x : Int := (units <<< (bits - 1074) : Nat)
  let r := x % turn / Int.pow 2 (bits - 256)
  let sine := r * waveSeries 1 r / one
  let cosine := waveSeries 0 r
  match (x / turn % 4).toNat with
  | 0 => (sine, cosine)
  | 1 => (cosine, -sine)
  | 2 => (-sine, -cosine)
  | _ => (-cosine, sine)

end SchemaForest.Grid
