import SchemaForest.Calendar
import SchemaForest.Filter.Primitive

/-!
# Time under filters

Moments are numbers of seconds since the start of the year 1970, or arrays of their parts: year,
month from zero, day, hour, minute, second, day of the week from Sunday, day of the year from zero.
There is one clock, without zones.
-/

namespace SchemaForest.Filter.Primitive

/-- The error of a value that is no moment. -/
def untimely {α : Type} (v : Value) : Except Failure α :=
  .error (.ofText ("cannot convert " ++ v.text ++ " to time"))

/-- A million of something, as a floating point number. -/
def million : Double := .ofNat 1000000

/-- The microseconds that a number of seconds stands for. -/
def microseconds (v : Value) : Except Failure Int :=
  match v with
  | .word i => .ok (i.toInt * 1000000)
  | v => (double v).map fun x => (roundedWord Double.trunc? (x.mul million)).toInt

/-- The moment of a number of microseconds. -/
def momentAt (v : Value) (micros : Int) : Except Failure Moment :=
  let m := Moment.ofMicroseconds micros
  if m.isCounted then .ok m else untimely v

/-- The value of a number of seconds that may be broken. -/
def seconds (whole : Int) (fraction : Nat) : Value :=
  if fraction = 0 then .ofInt whole
  else .double ((Double.ofInt (whole * 1000000 + fraction)).div million)

/-- The moment of an array of its parts. -/
def momentOfParts (v : Value) : Except Failure Moment :=
  match v with
  | .array (.word year :: .word month :: .word day :: .word hour :: .word minute :: second :: _) => do
    let micros ← microseconds second
    let date : Date := ⟨year.toInt, (month.toInt + 1).toNat, day.toInt.toNat⟩
    let s := micros / 1000000
    if date.isValid && 0 ≤ month && 0 ≤ hour && hour < 24 && 0 ≤ minute && minute < 60 && 0 ≤ s &&
        s < 60 then
      .ok (.ofTime date hour.toInt.toNat minute.toInt.toNat s.toNat (micros % 1000000).toNat)
    else untimely v
  | v => untimely v

/-- The moment of a value. -/
def moment (v : Value) : Except Failure Moment :=
  match v with
  | .array _ => momentOfParts v
  | v => do momentAt v (← microseconds v)

/-- The parts of a moment. -/
def partsOf (m : Moment) : Value :=
  .array [.ofInt m.date.year, .ofNat (m.date.month - 1), .ofNat m.date.day, .ofNat m.hour,
    .ofNat m.minute, seconds m.second m.fraction, .ofNat m.date.weekday, .ofNat m.date.dayOfYear]

/-- The text of a moment by a format. -/
def formatted (v format : Value) : Except Failure Value :=
  match format with
  | .string f => do
    let m ← moment v
    match m.format f.toList with
    | some t => .ok (.string (String.ofList t))
    | none => .error (.ofText ("cannot format " ++ v.text ++ " with " ++ format.text))
  | f => expected "string" f

/-- The parts of the moment that a text names by a format. -/
def parsed (v format : Value) : Except Failure Value :=
  match v, format with
  | .string s, .string f =>
    match Moment.ofText? f.toList s.toList with
    | some m => .ok (partsOf m)
    | none => .error (.ofText ("cannot parse " ++ v.text ++ " with " ++ format.text))
  | .string _, f => expected "string" f
  | v, _ => expected "string" v

/-- Primitives on moments. -/
def temporal : List Primitive :=
  [ of0 "todateiso8601" fun v => do
      let m ← momentAt v (← microseconds v)
      .ok (.string (String.ofList m.standardText)),
    of0 "fromdateiso8601" fun v =>
      match v with
      | .string s =>
        match Moment.ofStandardText? s.toList with
        | some n => .ok (seconds (n / 1000000) (n % 1000000).toNat)
        | none => .error (.ofText ("cannot parse " ++ v.text ++ " as ISO-8601 timestamp"))
      | v => expected "string" v,
    of0 "gmtime" fun v => do .ok (partsOf (← momentAt v (← microseconds v))),
    of0 "localtime" fun v => do .ok (partsOf (← momentAt v (← microseconds v))),
    of0 "mktime" fun v => do
      let n := (← momentOfParts v).microseconds
      .ok (seconds (n / 1000000) (n % 1000000).toNat),
    of1 "strftime" formatted,
    of1 "strflocaltime" formatted,
    of1 "strptime" parsed ]

end SchemaForest.Filter.Primitive
