/-!
# Binary64 numbers

A binary64 number other than the one that is no number is a sign and a **rank**: the magnitudes in
ascending order are numbered from zero, so that rank 0 is zero, rank 1 the least positive number,
and the last rank infinity.

1. `units` gives the value of a rank as a multiple of the least positive number, `2⁻¹⁰⁷⁴`.
2. `nearestRank` rounds a ratio to the nearest rank; a tie goes to the even rank, and what lies
   past the range to infinity.
3. The arithmetic below computes the exact result over the integers and rounds once.
-/

namespace SchemaForest

/-- The rank of infinity. -/
def infinityRank : Nat := 2047 <<< 52

/-- A binary64 number. -/
inductive Double where
  /-- The result of an operation that has none. -/
  | nan
  /-- A sign and the rank of the magnitude. -/
  | signed (negative : Bool) (rank : Fin (infinityRank + 1))
deriving DecidableEq

namespace Double

/-! ## Ranks and their values -/

/-- The exponent of two that one unit in the last place stands for, counted from the least positive
    number: the first two binades share the finest spacing. -/
def binade (rank : Nat) : Nat := rank / (1 <<< 52) - 1

/-- The value of a rank, as a multiple of the least positive number. -/
def units (rank : Nat) : Nat :=
  if rank < 1 <<< 53 then rank else (1 <<< 52 + rank % (1 <<< 52)) <<< binade rank

/-- How many times the least positive number goes into one. -/
def unitsPerOne : Nat := 1 <<< 1074

/-- The quotient of two naturals, rounded to the nearest; a tie goes to the even neighbour. -/
def roundDiv (n d : Nat) : Nat :=
  let q := n / d
  let twice := 2 * (n % d)
  if twice < d then q else if d < twice then q + 1 else q + q % 2

/-- The rank nearest to the ratio `num / den`.  The quotient is cut to fifty-three binary digits,
    and the carry out of the last of them runs into the next binade by itself. -/
def nearestRank (num den : Nat) : Nat :=
  let scaled := num * unitsPerOne
  let shift := (scaled / den).log2 - 52
  min (shift <<< 52 + roundDiv scaled (den <<< shift)) infinityRank

/-- The nearest number to a ratio, with the given sign. -/
def ofRatio (negative : Bool) (num den : Nat) : Double :=
  .signed negative ⟨nearestRank num den, by unfold nearestRank; dsimp only; omega⟩

/-- The nearest number to a natural. -/
def ofNat (n : Nat) : Double := ofRatio false n 1

/-- The nearest number to an integer; zero is positive. -/
def ofInt (i : Int) : Double := ofRatio (i < 0) i.natAbs 1

def zero : Double := .signed false 0
def negZero : Double := .signed true 0
def infinity : Double := .signed false (Fin.last _)
def negInfinity : Double := .signed true (Fin.last _)

/-! ## Classes -/

def isNan (x : Double) : Bool := x == .nan

/-- Neither an infinity nor the number that is none. -/
def isFinite : Double → Bool
  | .nan => false
  | .signed _ r => r.val != infinityRank

/-- The value of a finite number as an integer multiple of the least positive number. -/
def toUnits? : Double → Option Int
  | .nan => none
  | .signed s r => if r.val = infinityRank then none
      else some (if s then -(units r : Int) else (units r : Int))

/-- The sixty-four bits of the interchange format: the sign on top of the rank.  The number that is
    none has its quiet form. -/
def bits : Double → Nat
  | .nan => 0x7ff8000000000000
  | .signed s r => (if s then 1 <<< 63 else 0) + r.val

/-! ## Order -/

/-- An integer that orders the numbers: both zeros are 0. -/
def orderKey : Double → Option Int
  | .nan => none
  | .signed s r => some (if s then -(r.val : Int) else (r.val : Int))

/-- Numeric order. -/
def lt (x y : Double) : Bool :=
  match x.orderKey, y.orderKey with
  | some a, some b => a < b
  | _, _ => false

/-! ## Arithmetic -/

def neg : Double → Double
  | .nan => .nan
  | .signed s r => .signed (!s) r

def abs : Double → Double
  | .nan => .nan
  | .signed _ r => .signed false r

/-- The nearest number to an integer multiple of the least positive number, divided by `den`; an
    exact zero takes the sign `zeroSign`. -/
def ofUnits (zeroSign : Bool) (i : Int) (den : Nat) : Double :=
  ofRatio (if i = 0 then zeroSign else i < 0) i.natAbs (unitsPerOne * den)

/-- Addition.  A sum that vanishes is positive unless both operands are negative. -/
def add (x y : Double) : Double :=
  match x, y with
  | .nan, _ | _, .nan => .nan
  | .signed s r, .signed t q =>
    match (Double.signed s r).toUnits?, (Double.signed t q).toUnits? with
    | some a, some b => ofUnits (s && t) (a + b) 1
    | none, some _ => .signed s r
    | some _, none => .signed t q
    | none, none => if s = t then .signed s r else .nan

def sub (x y : Double) : Double := add x y.neg

/-- Multiplication. -/
def mul (x y : Double) : Double :=
  match x, y with
  | .nan, _ | _, .nan => .nan
  | .signed s r, .signed t q =>
    let sign := s != t
    if r.val = infinityRank ∨ q.val = infinityRank then
      if r.val = 0 ∨ q.val = 0 then .nan else .signed sign (Fin.last _)
    else ofRatio sign (units r * units q) (unitsPerOne * unitsPerOne)

/-- Division.  A finite number over zero is an infinity. -/
def div (x y : Double) : Double :=
  match x, y with
  | .nan, _ | _, .nan => .nan
  | .signed s r, .signed t q =>
    let sign := s != t
    if r.val = infinityRank then
      if q.val = infinityRank then .nan else .signed sign (Fin.last _)
    else if q.val = infinityRank then .signed sign 0
    else if q.val = 0 then
      if r.val = 0 then .nan else .signed sign (Fin.last _)
    else ofRatio sign (units r) (units q)

/-- The remainder of a division that is cut toward zero; it takes the sign of the dividend. -/
def rem (x y : Double) : Double :=
  match x, y with
  | .nan, _ | _, .nan => .nan
  | .signed s r, .signed _ q =>
    if r.val = infinityRank ∨ q.val = 0 then .nan
    else if q.val = infinityRank then .signed s r
    else ofRatio s (units r % units q) unitsPerOne

/-- The square root, rounded to the nearest: one binary digit more than is kept, and a last digit
    that tells whether anything was cut off. -/
def sqrt : Double → Double
  | .nan => .nan
  | .signed s r =>
    if r.val = 0 then .signed s r
    else if s then .nan
    else if r.val = infinityRank then .signed s r
    else
      -- `units r / 2 ^ 1074`, times `2 ^ 1200 * 2 ^ 1200` to keep enough digits
      let n := units r <<< (2 * 1200 - 1074)
      let root := natSqrt n
      let sticky := if root * root = n then 0 else 1
      ofRatio false (2 * root + sticky) (2 <<< 1200)
where
  /-- The integer square root, one binary digit after the other from the top. -/
  natSqrt (n : Nat) : Nat :=
    (List.range (n.log2 / 2 + 1)).foldr
      (fun k root => if (root + 1 <<< k) * (root + 1 <<< k) ≤ n then root + 1 <<< k else root) 0

/-! ## Whole parts -/

/-- The greatest integer that is not above a finite number. -/
def floor? (x : Double) : Option Int := x.toUnits?.map (Int.fdiv · (unitsPerOne : Int))

/-- The least integer that is not below a finite number. -/
def ceil? (x : Double) : Option Int := x.toUnits?.map fun u => -(Int.fdiv (-u) (unitsPerOne : Int))

/-- The nearest integer to a finite number; a half goes away from zero. -/
def round? (x : Double) : Option Int :=
  x.toUnits?.map fun u =>
    let half := (2 * u.natAbs + unitsPerOne) / (2 * unitsPerOne)
    if u < 0 then -(half : Int) else (half : Int)

/-- The integer part of a finite number. -/
def trunc? (x : Double) : Option Int := x.toUnits?.map (Int.tdiv · (unitsPerOne : Int))

/-! ## Small laws -/

theorem nearestRank_le (num den : Nat) : nearestRank num den ≤ infinityRank := by
  unfold nearestRank; dsimp only; omega

example : ofNat 0 = zero ∧ (ofNat 1).bits = 0x3ff0000000000000 := by decide +kernel
example : (ofRatio false 1 10).bits = 0x3fb999999999999a := by decide +kernel
example : (ofNat (1 <<< 53 + 1)).bits = (ofNat (1 <<< 53)).bits := by decide +kernel
example : (sqrt (ofNat 2)).bits = 0x3ff6a09e667f3bcd := by decide +kernel
example : (add (ofRatio false 1 10) (ofRatio false 2 10)).bits = 0x3fd3333333333334 := by
  decide +kernel

end Double

end SchemaForest
