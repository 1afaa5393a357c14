import SchemaForest.Number.Grid

/-!
# Elementary functions on binary64

Each function is computed on a fine grid and rounded once.  Where the value of a function differs from
its argument, or from one, by less than half a unit in the last place, the argument or one is given
right away; so the grid never meets a number that is too small for it.
-/

namespace SchemaForest.Double

/-- The number on the grid that a finite number is, cut to whole steps. -/
def gridOfUnits (u : Int) : Int := u * Grid.one / unitsPerOne

/-- The nearest number to a number on the grid. -/
def ofGrid (x : Int) : Double := ofRatio (x < 0) x.natAbs Grid.one.toNat

/-- A whole number so far from zero that the exponential of every greater one is out of range. -/
def expBound : Int := 800 * Grid.one

/-- Whether a number of units is so small that a function with slope one hardly leaves it. -/
def isTiny (u : Int) : Bool := u.natAbs < 1 <<< (1074 - 60)

/-- A function by its values for units, for the infinities, and for what is no number. -/
def byUnits (x : Double) (infinite : Bool → Double) (finite : Int → Double) : Double :=
  match x with
  | .nan => .nan
  | .signed s r =>
    match toUnits? (.signed s r) with
    | some u => finite u
    | none => infinite s

/-- A function that hardly leaves arguments near zero. -/
def nearIdentity (x : Double) (infinite : Bool → Double) (finite : Int → Double) : Double :=
  byUnits x infinite fun u => if isTiny u then x else finite u

/-- The infinity of a sign. -/
def infinityOf (negative : Bool) : Double := if negative then negInfinity else infinity

/-! ## Exponentials -/

/-- The exponential of a number on the grid. -/
def expOfGrid (x : Int) : Double :=
  if expBound < x then infinity
  else if x < -expBound then zero
  else
    let (num, den) := Grid.exp x
    ofRatio false num den

/-- The power of a base whose logarithm is given. -/
def expWith (logarithm : Int) (x : Double) : Double :=
  byUnits x (fun negative => if negative then zero else infinity) fun u =>
    expOfGrid (u * logarithm / unitsPerOne)

def exp (x : Double) : Double := expWith Grid.one x
def exp2 (x : Double) : Double := expWith Grid.log2 x
def exp10 (x : Double) : Double := expWith Grid.log10 x

/-- The exponential less one. -/
def expm1 (x : Double) : Double :=
  nearIdentity x (fun negative => if negative then ofInt (-1) else infinity) fun u =>
    let y := gridOfUnits u
    if expBound < y then infinity
    else if y < -expBound then ofInt (-1)
    else
      let (num, den) := Grid.exp y
      ofRatio (num < den) ((num : Int) - den).natAbs den

/-- A function of the exponential of the distance from zero, with the sign of the argument. -/
def hyperbolic (x far : Double) (ratio : Nat → Nat → Nat × Nat) : Double :=
  nearIdentity x (fun negative => if negative then far.neg else far) fun u =>
    let y := gridOfUnits u.natAbs
    let (num, den) := Grid.exp (min y expBound)
    let (a, b) := ratio num den
    if expBound < y then (if u < 0 then far.neg else far) else ofRatio (u < 0) a b

def sinh (x : Double) : Double :=
  hyperbolic x infinity fun a b => (a * a - b * b, 2 * a * b)

def tanh (x : Double) : Double :=
  hyperbolic x (ofInt 1) fun a b => (a * a - b * b, a * a + b * b)

def cosh (x : Double) : Double :=
  byUnits x (fun _ => infinity) fun u =>
    let y := gridOfUnits u.natAbs
    if expBound < y then infinity
    else
      let (a, b) := Grid.exp y
      ofRatio false (a * a + b * b) (2 * a * b)

/-! ## Logarithms -/

/-- The logarithm to the base whose logarithm is given. -/
def logWith (logarithm : Int) (x : Double) : Double :=
  byUnits x (fun negative => if negative then nan else infinity) fun u =>
    if u = 0 then negInfinity
    else if u < 0 then nan
    else
      let l := Grid.log u.natAbs unitsPerOne
      ofRatio (l < 0) l.natAbs logarithm.natAbs

def log (x : Double) : Double := logWith Grid.one x
def log2 (x : Double) : Double := logWith Grid.log2 x
def log10 (x : Double) : Double := logWith Grid.log10 x

/-- The logarithm of one more. -/
def log1p (x : Double) : Double :=
  nearIdentity x (fun negative => if negative then nan else infinity) fun u =>
    let v := u + unitsPerOne
    if v = 0 then negInfinity
    else if v < 0 then nan
    else ofGrid (Grid.log v.natAbs unitsPerOne)

def asinh (x : Double) : Double :=
  nearIdentity x infinityOf fun u =>
    let y := gridOfUnits u.natAbs
    let l := Grid.log (y + Grid.sqrt (y * y / Grid.one + Grid.one)).toNat Grid.one.toNat
    ofGrid (if u < 0 then -l else l)

def acosh (x : Double) : Double :=
  byUnits x (fun negative => if negative then nan else infinity) fun u =>
    let y := gridOfUnits u
    if y < Grid.one then nan
    else ofGrid (Grid.log (y + Grid.sqrt (y * y / Grid.one - Grid.one)).toNat Grid.one.toNat)

def atanh (x : Double) : Double :=
  nearIdentity x (fun _ => nan) fun u =>
    let a : Int := unitsPerOne
    if a < u.natAbs then nan
    else if u = a then infinity
    else if u = -a then negInfinity
    else
      let l := Grid.log (a + u).toNat (a - u).toNat
      ofRatio (l < 0) l.natAbs (2 * Grid.one.toNat)

/-! ## Angles -/

def sin (x : Double) : Double :=
  nearIdentity x (fun _ => nan) fun u =>
    let s := (Grid.wave u.natAbs).1
    ofGrid (if u < 0 then -s else s)

def cos (x : Double) : Double :=
  byUnits x (fun _ => nan) fun u => ofGrid (Grid.wave u.natAbs).2

def tan (x : Double) : Double :=
  nearIdentity x (fun _ => nan) fun u =>
    let (s, c) := Grid.wave u.natAbs
    ofRatio (decide (s * c < 0) != decide (u < 0)) s.natAbs c.natAbs

/-- The angle whose tangens is the ratio of two numbers, in the right one of four quarters. -/
def atan2 (y x : Double) : Double :=
  match y, x with
  | .nan, _ | _, .nan => .nan
  | .signed s r, .signed t q =>
    -- infinities count as one, beside them everything finite as zero
    let far := r.val == infinityRank || q.val == infinityRank
    let weight (rank : Nat) : Nat :=
      if far then if rank = infinityRank then 1 else 0 else units rank
    let a := weight r.val
    let b := weight q.val
    let signedZero := if s then negZero else zero
    if t = false ∧ a <<< 60 < b then
      if far then signedZero else ofRatio s a b
    else if t = false ∧ a = 0 then signedZero
    else
      let angle := Grid.arcTan a b
      ofRatio s (if t then 2 * Grid.quarter - angle else angle).natAbs Grid.one.toNat

def atan (x : Double) : Double := atan2 x (ofInt 1)

/-- The sides of a right triangle with the longest side one, and one side given in units. -/
def otherSide (u : Int) : Int :=
  let y := gridOfUnits u
  Grid.sqrt (Grid.one - y * y / Grid.one)

def asin (x : Double) : Double :=
  nearIdentity x (fun _ => nan) fun u =>
    if unitsPerOne < u.natAbs then nan
    else
      let angle := Grid.arcTan (gridOfUnits u.natAbs) (otherSide u)
      ofGrid (if u < 0 then -angle else angle)

def acos (x : Double) : Double :=
  byUnits x (fun _ => nan) fun u =>
    if unitsPerOne < u.natAbs then nan
    else
      let angle := Grid.arcTan (gridOfUnits u.natAbs) (otherSide u)
      ofGrid (Grid.quarter - if u < 0 then -angle else angle)

/-! ## Roots and powers -/

/-- The root of a ratio with a denominator `2 ^ (degree * k)`: one binary digit more than is kept,
    and a last digit that tells whether anything was cut off. -/
def ofRoot (negative : Bool) (degree k n : Nat) : Double :=
  let root := Grid.rootOf degree (n <<< (degree * 128))
  let sticky := if Nat.pow root degree = n <<< (degree * 128) then 0 else 1
  ofRatio negative (2 * root + sticky) (2 <<< (k + 128))

def cbrt (x : Double) : Double :=
  byUnits x infinityOf fun u =>
    if u = 0 then x else ofRoot (u < 0) 3 400 (u.natAbs <<< (1200 - 1074))

/-- The longest side of a right triangle. -/
def hypot (x y : Double) : Double :=
  match x.toUnits?, y.toUnits? with
  | some u, some v => ofRoot false 2 1074 (u * u + v * v).natAbs
  | none, _ => if x.isNan ∧ y.abs ≠ infinity then nan else infinity
  | _, none => if y.isNan then nan else infinity

/-- Whether a number of units is whole, and then whether it is odd. -/
def wholeParity? (u : Int) : Option Bool :=
  if u % unitsPerOne = 0 then some (u / unitsPerOne % 2 ≠ 0) else none

/-- The power of a positive number.  A power with a small whole exponent is exact before it is
    rounded, since it may lie halfway between two numbers. -/
def powUnits (u : Nat) (v : Int) : Double :=
  let e := v / unitsPerOne
  if v % unitsPerOne = 0 ∧ e.natAbs ≤ 64 then
    let a := Nat.pow u e.natAbs
    let b := Nat.pow unitsPerOne e.natAbs
    if 0 ≤ e then ofRatio false a b else ofRatio false b a
  else expOfGrid (v * Grid.log u unitsPerOne / unitsPerOne)

/-- The power of a number. -/
def pow (x y : Double) : Double :=
  let inverse (d : Double) : Double := (ofInt 1).div d
  match x, y with
  | x, .signed t q =>
    if q.val = 0 then ofInt 1
    else match x with
    | .nan => .nan
    | .signed s r =>
      let greater := units r.val > unitsPerOne
      match toUnits? (.signed t q) with
      | none =>
        if units r.val = unitsPerOne then ofInt 1
        else if greater != t then infinity else zero
      | some v =>
        let parity := wholeParity? v
        let sign := s && parity == some true
        if r.val = 0 ∨ r.val = infinityRank then
          let d : Double := .signed sign r
          if t then inverse d else d
        else if s ∧ parity = none then .nan
        else
          let p := powUnits (units r.val) v
          if sign then p.neg else p
  | x, .nan => if x = ofInt 1 then x else .nan

/-! ## Whole and broken parts -/

/-- A whole number with the sign that its argument had. -/
def ofWhole (negative : Bool) (i : Int) : Double := ofRatio negative i.natAbs 1

/-- The argument without its broken part. -/
def trunc (x : Double) : Double :=
  byUnits x infinityOf fun u => ofWhole (x.bits ≥ 1 <<< 63) (u.tdiv unitsPerOne)

/-- The nearest whole number; a half goes to the even one. -/
def rint (x : Double) : Double :=
  byUnits x infinityOf fun u => ofWhole (x.bits ≥ 1 <<< 63) (roundDiv u.natAbs unitsPerOne)

/-- A number between one half and one, and the exponent of two that it is multiplied with. -/
def frexp (x : Double) : Double × Int :=
  match x with
  | .nan => (.nan, 0)
  | .signed s r =>
    if r.val = 0 ∨ r.val = infinityRank then (x, 0)
    else
      let bits := (units r.val).log2 + 1
      (ofRatio s (units r.val) (1 <<< bits), (bits : Int) - 1074)

/-- A number times a power of two. -/
def ldexp (x : Double) (e : Int) : Double :=
  match x with
  | .nan => .nan
  | .signed s r =>
    if r.val = infinityRank then x
    else
      let e := max (-5000) (min e 5000)
      ofRatio s (units r.val <<< e.toNat) (unitsPerOne <<< (-e).toNat)

/-- The exponent of the greatest power of two that is not above a number. -/
def logb (x : Double) : Double :=
  byUnits x (fun _ => infinity) fun u =>
    if u = 0 then negInfinity else ofInt ((u.natAbs.log2 : Int) - 1074)

/-- The number between one and two that a power of two makes a number of. -/
def significand (x : Double) : Double :=
  match x with
  | .nan => .nan
  | .signed s r =>
    if r.val = 0 ∨ r.val = infinityRank then x
    else ofRatio s (units r.val) (1 <<< (units r.val).log2)

/-- A number with the sign of another. -/
def copySign (x y : Double) : Double :=
  match x, y with
  | .signed _ r, .signed t _ => .signed t r
  | x, _ => x

/-- The neighbour of a number on the way to another. -/
def nextToward (x y : Double) : Double :=
  match x, y with
  | .nan, _ | _, .nan => .nan
  | .signed s r, .signed t q =>
    if (Double.signed s r).orderKey = (Double.signed t q).orderKey then .signed t q
    else if r.val = 0 then ofUnits false (if t then -1 else 1) 1
    else
      let grows := (if s then y.lt x else x.lt y)
      let rank := if grows then r.val + 1 else r.val - 1
      .signed s ⟨min rank infinityRank, by omega⟩

/-- A product and a sum, rounded once. -/
def mulAdd (x y z : Double) : Double :=
  match x.toUnits?, y.toUnits?, z.toUnits? with
  | some a, some b, some c =>
    if a * b = 0 ∨ c = 0 then (x.mul y).add z
    else ofUnits false (a * b + c * unitsPerOne) unitsPerOne
  | _, _, _ => (x.mul y).add z

/-- How much a number exceeds another, if it does. -/
def excess (x y : Double) : Double :=
  if x.isNan || y.isNan then .nan else if y.lt x then x.sub y else zero

/-- The lesser of two numbers; what is no number does not count. -/
def least (x y : Double) : Double :=
  if x.isNan then y else if y.isNan then x else if y.lt x then y else x

/-- The greater of two numbers; what is no number does not count. -/
def greatest (x y : Double) : Double :=
  if x.isNan then y else if y.isNan then x else if x.lt y then y else x

/-- The remainder of a division that is rounded to the nearest; a half goes to the even quotient. -/
def nearRem (x y : Double) : Double :=
  match x, y with
  | .nan, _ | _, .nan => .nan
  | .signed s r, .signed _ q =>
    if r.val = infinityRank ∨ q.val = 0 then .nan
    else if q.val = infinityRank then x
    else
      let a := units r.val
      let b := units q.val
      let d : Int := (a : Int) - roundDiv a b * b
      ofUnits s (if s then -d else d) 1

end SchemaForest.Double
