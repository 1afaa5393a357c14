import SchemaForest.Number.Decimal

/-!
# Calendar

Moments as microseconds since the start of the year 1970, and the dates of the Gregorian calendar
that name them.

1. `Date.ofDays` and `Date.days` count days in both directions.
2. `Moment` is a date with a time of day; `Moment.ofMicroseconds` and `Moment.microseconds`.
3. `Moment.format` and `Moment.ofText?` write and read moments by a format with percent signs,
   `Moment.standardText` and `Moment.ofStandardText?` in the usual form.
-/

namespace SchemaForest

/-- A day of the calendar; months and days count from one. -/
structure Date where
  year : Int
  month : Nat
  day : Nat
deriving DecidableEq

namespace Date

/-- Whether a year has a day more. -/
def isLeap (year : Int) : Bool := year % 4 == 0 && (year % 100 != 0 || year % 400 == 0)

/-- The number of days of a month. -/
def daysInMonth (year : Int) (month : Nat) : Nat :=
  if month = 2 then if isLeap year then 29 else 28
  else if month = 4 ∨ month = 6 ∨ month = 9 ∨ month = 11 then 30 else 31

/-- The number of days in front of a year, counted from the start of the year 1970. -/
def daysBeforeYear (year : Int) : Int :=
  let y := year - 1
  365 * (year - 1970) + (y / 4 - y / 100 + y / 400) - (1969 / 4 - 1969 / 100 + 1969 / 400)

/-- The place of a day in its year, from zero. -/
def dayOfYear (d : Date) : Nat :=
  (List.range (d.month - 1)).foldr (fun m days => daysInMonth d.year (m + 1) + days) (d.day - 1)

/-- The number of days since the start of the year 1970. -/
def days (d : Date) : Int := daysBeforeYear d.year + d.dayOfYear

/-- The month and day of a place in a year. -/
def ofDayOfYear (year : Int) (place : Nat) : Date :=
  go place 1 12
where
  /-- Goes over the months that are left. -/
  go (place month : Nat) : Nat → Date
    | 0 => ⟨year, 12, place + 1⟩
    | n + 1 =>
      let length := daysInMonth year month
      if place < length then ⟨year, month, place + 1⟩ else go (place - length) (month + 1) n

/-- The day that lies so many days behind the start of the year 1970.  An average year gives the
    year up to one. -/
def ofDays (n : Int) : Date :=
  let guess := 1970 + n * 400 / 146097
  let year := if n < daysBeforeYear guess then guess - 1
    else if daysBeforeYear (guess + 1) ≤ n then guess + 1 else guess
  ofDayOfYear year (n - daysBeforeYear year).toNat

/-- The day of the week, where Sunday is zero. -/
def weekday (d : Date) : Nat := ((d.days + 4) % 7).toNat

/-- Whether the calendar has a day. -/
def isValid (d : Date) : Bool :=
  1 ≤ d.month && d.month ≤ 12 && 1 ≤ d.day && d.day ≤ daysInMonth d.year d.month

end Date

/-- A day and the microseconds that are past of it. -/
structure Moment where
  date : Date
  micros : Nat

namespace Moment

/-- The microseconds of a day. -/
def microsPerDay : Nat := 86400000000

/-- The moment so many microseconds behind the start of the year 1970. -/
def ofMicroseconds (n : Int) : Moment :=
  ⟨.ofDays (n / microsPerDay), (n % microsPerDay).toNat⟩

/-- The microseconds since the start of the year 1970. -/
def microseconds (m : Moment) : Int := m.date.days * microsPerDay + m.micros

/-- The years that moments are counted in. -/
def isCounted (m : Moment) : Bool := -262143 ≤ m.date.year && m.date.year ≤ 262142

def hour (m : Moment) : Nat := m.micros / 3600000000
def minute (m : Moment) : Nat := m.micros / 60000000 % 60
def second (m : Moment) : Nat := m.micros / 1000000 % 60
def fraction (m : Moment) : Nat := m.micros % 1000000

/-- The moment of a day at a time. -/
def ofTime (d : Date) (hour minute second fraction : Nat) : Moment :=
  ⟨d, ((hour * 60 + minute) * 60 + second) * 1000000 + fraction⟩

/-! ## Names -/

def weekdayNames : List String :=
  ["Sunday", "Monday", "Tuesday", "Wednesday", "Thursday", "Friday", "Saturday"]

def monthNames : List String :=
  ["January", "February", "March", "April", "May", "June", "July", "August", "September",
    "October", "November", "December"]

/-! ## Writing -/

/-- A number in at least so many places. -/
def padded (fill : Char) (places n : Nat) : List Char :=
  let ds := Nat.toDigits 10 n
  List.replicate (places - ds.length) fill ++ ds

/-- A year in at least four places. -/
def yearText (y : Int) : List Char :=
  if y < 0 then '-' :: padded '0' 4 y.natAbs
  else if 9999 < y then '+' :: Nat.toDigits 10 y.natAbs
  else padded '0' 4 y.natAbs

/-- The hour on a dial with twelve hours. -/
def dialHour (m : Moment) : Nat := if m.hour % 12 = 0 then 12 else m.hour % 12

/-- The text of one letter behind a percent sign. -/
def field? (m : Moment) (c : Char) : Option (List Char) :=
  let two := padded '0' 2
  let year := yearText m.date.year
  let clock := two m.hour ++ ':' :: two m.minute
  let weekday := (weekdayNames.getD m.date.weekday "").toList
  let month := (monthNames.getD (m.date.month - 1) "").toList
  match c with
  | 'Y' => some year
  | 'C' => some (two (m.date.year / 100).natAbs)
  | 'y' => some (two (m.date.year % 100).natAbs)
  | 'm' => some (two m.date.month)
  | 'd' => some (two m.date.day)
  | 'e' => some (padded ' ' 2 m.date.day)
  | 'H' => some (two m.hour)
  | 'k' => some (padded ' ' 2 m.hour)
  | 'I' => some (two m.dialHour)
  | 'l' => some (padded ' ' 2 m.dialHour)
  | 'M' => some (two m.minute)
  | 'S' => some (two m.second)
  | 'f' => some (padded '0' 9 (m.fraction * 1000))
  | 'p' => some (if m.hour < 12 then ['A', 'M'] else ['P', 'M'])
  | 'P' => some (if m.hour < 12 then ['a', 'm'] else ['p', 'm'])
  | 'j' => some (padded '0' 3 (m.date.dayOfYear + 1))
  | 'A' => some weekday
  | 'a' => some (weekday.take 3)
  | 'B' => some month
  | 'b' | 'h' => some (month.take 3)
  | 'u' => some (Nat.toDigits 10 (if m.date.weekday = 0 then 7 else m.date.weekday))
  | 'w' => some (Nat.toDigits 10 m.date.weekday)
  | 'U' => some (two ((m.date.dayOfYear + 7 - m.date.weekday) / 7))
  | 'W' => some (two ((m.date.dayOfYear + 7 - (m.date.weekday + 6) % 7) / 7))
  | 'F' => some (year ++ '-' :: two m.date.month ++ '-' :: two m.date.day)
  | 'D' | 'x' =>
    some (two m.date.month ++ '/' :: two m.date.day ++ '/' :: two (m.date.year % 100).natAbs)
  | 'T' | 'X' => some (clock ++ ':' :: two m.second)
  | 'R' => some clock
  | 'r' =>
    some (two m.dialHour ++ ':' :: two m.minute ++ ':' :: two m.second ++
      if m.hour < 12 then [' ', 'A', 'M'] else [' ', 'P', 'M'])
  | 'c' =>
    some (weekday.take 3 ++ ' ' :: month.take 3 ++ ' ' :: padded ' ' 2 m.date.day ++ ' ' :: clock ++
      ':' :: two m.second ++ ' ' :: year)
  | 's' =>
    let n := m.microseconds / 1000000
    some ((if n < 0 then ['-'] else []) ++ Nat.toDigits 10 n.natAbs)
  | 'Z' => some ['U', 'T', 'C']
  | 'z' => some ['+', '0', '0', '0', '0']
  | 't' => some ['\t']
  | 'n' => some ['\n']
  | '%' => some ['%']
  | _ => none

/-- The text of a moment by a format. -/
def format (m : Moment) : List Char → Option (List Char)
  | [] => some []
  | '%' :: c :: r => do
    let t ← m.field? c
    let rest ← format m r
    some (t ++ rest)
  | ['%'] => none
  | c :: r => (format m r).map (c :: ·)

/-- The usual text of a moment; broken seconds have six places. -/
def standardText (m : Moment) : List Char :=
  let front := ((m.field? 'F').getD []) ++ 'T' :: ((m.field? 'T').getD [])
  if m.fraction = 0 then front ++ ['Z'] else front ++ '.' :: padded '0' 6 m.fraction ++ ['Z']

/-! ## Reading -/

/-- A number of at most so many digits, and the text behind it. -/
def digits? (places : Nat) (s : List Char) : Option (Nat × List Char) :=
  let ds := (s.take places).takeWhile Char.isDigit
  if ds = [] then none else some (Decimal.ofDigits 10 ds, s.drop ds.length)

/-- The place of the name that stands in front, whole or by its first three letters, and the text
    behind it. -/
def name? (names : List String) (s : List Char) : Option (Nat × List Char) :=
  let lower (cs : List Char) : List Char := cs.map Char.toLower
  names.zipIdx.findSome? fun (n, i) =>
    let n := lower n.toList
    if n == lower (s.take n.length) then some (i, s.drop n.length)
    else if n.take 3 == lower (s.take 3) then some (i, s.drop 3)
    else none

/-- What has been read of a moment. -/
structure Reading where
  year : Option Int
  month : Option Nat
  day : Option Nat
  dayOfYear : Option Nat
  hour : Nat
  minute : Nat
  second : Nat
  afternoon : Option Bool
  /-- Seconds that the clock is ahead. -/
  ahead : Int
  seconds : Option Int

/-- A distance from the standard clock: a sign, hours and minutes. -/
def ahead? (s : List Char) : Option (Int × List Char) :=
  let behind (sign : Int) (r : List Char) : Option (Int × List Char) := do
    let (h, r) ← digits? 2 r
    let r := match r with
      | ':' :: r => r
      | r => r
    let (m, r) ← digits? 2 r
    if 60 ≤ m then none else some (sign * (h * 3600 + m * 60 : Nat), r)
  match s with
  | '+' :: r => behind 1 r
  | '-' :: r => behind (-1) r
  | _ => none

/-- Reads by a format, with a bound on the steps. -/
def read? (steps : Nat) (m : Reading) (format s : List Char) : Option (Reading × List Char) :=
  match steps with
  | 0 => none
  | n + 1 =>
    let number (places : Nat) (set : Nat → Reading) (format : List Char) :
        Option (Reading × List Char) := do
      let (k, s) ← digits? places (s.dropWhile Char.isWhitespace)
      read? n (set k) format s
    match format with
    | [] => some (m, s)
    | '%' :: 'Y' :: r =>
      match s with
      | '-' :: s => do
        let (k, s) ← digits? 4 s
        read? n { m with year := some (-(k : Int)) } r s
      | _ => number 4 (fun k => { m with year := some (k : Int) }) r
    | '%' :: 'y' :: r =>
      number 2 (fun k => { m with year := some ((if k < 70 then 2000 + k else 1900 + k : Nat) : Int) }) r
    | '%' :: 'm' :: r => number 2 (fun k => { m with month := some k }) r
    | '%' :: 'd' :: r | '%' :: 'e' :: r => number 2 (fun k => { m with day := some k }) r
    | '%' :: 'j' :: r => number 3 (fun k => { m with dayOfYear := some k }) r
    | '%' :: 'H' :: r | '%' :: 'k' :: r => number 2 (fun k => { m with hour := k }) r
    | '%' :: 'I' :: r | '%' :: 'l' :: r => number 2 (fun k => { m with hour := k }) r
    | '%' :: 'M' :: r => number 2 (fun k => { m with minute := k }) r
    | '%' :: 'S' :: r => number 2 (fun k => { m with second := k }) r
    | '%' :: 's' :: r => number 18 (fun k => { m with seconds := some (k : Int) }) r
    | '%' :: 'p' :: r =>
      match (s.take 2).map Char.toLower with
      | ['a', 'm'] => read? n { m with afternoon := some false } r (s.drop 2)
      | ['p', 'm'] => read? n { m with afternoon := some true } r (s.drop 2)
      | _ => none
    | '%' :: 'B' :: r | '%' :: 'b' :: r | '%' :: 'h' :: r => do
      let (i, s) ← name? monthNames s
      read? n { m with month := some (i + 1) } r s
    | '%' :: 'A' :: r | '%' :: 'a' :: r => do
      let (_, s) ← name? weekdayNames s
      read? n m r s
    | '%' :: 'F' :: r => read? n m ("%Y-%m-%d".toList ++ r) s
    | '%' :: 'D' :: r => read? n m ("%m/%d/%y".toList ++ r) s
    | '%' :: 'T' :: r => read? n m ("%H:%M:%S".toList ++ r) s
    | '%' :: 'R' :: r => read? n m ("%H:%M".toList ++ r) s
    | '%' :: 'z' :: r => do
      let (a, s) ← ahead? s
      read? n { m with ahead := a } r s
    | '%' :: 'Z' :: r => read? n m r (s.dropWhile fun c => !c.isWhitespace)
    | '%' :: '%' :: r =>
      match s with
      | '%' :: s => read? n m r s
      | _ => none
    | '%' :: _ => none
    | c :: r =>
      if c.isWhitespace then read? n m r (s.dropWhile Char.isWhitespace)
      else
        match s with
        | d :: s => if c = d then read? n m r s else none
        | [] => none

/-- The moment of what has been read, if it is one. -/
def Reading.moment? (m : Reading) : Option Moment := do
  match m.seconds with
  | some n => some (.ofMicroseconds (n * 1000000))
  | none =>
    let year ← m.year
    let date : Date ←
      match m.month, m.day, m.dayOfYear with
      | some month, some day, _ => some ⟨year, month, day⟩
      | _, _, some k => if 1 ≤ k ∧ k ≤ 365 + (if Date.isLeap year then 1 else 0) then
          some (.ofDayOfYear year (k - 1)) else none
      | _, _, _ => none
    let hour :=
      match m.afternoon with
      | some after => m.hour % 12 + if after then 12 else 0
      | none => m.hour
    if date.isValid && hour < 24 && m.minute < 60 && m.second < 60 then
      some (ofTime date hour m.minute m.second 0)
    else none

/-- Nothing read yet. -/
def Reading.start : Reading := ⟨none, none, none, none, 0, 0, 0, none, 0, none⟩

/-- The moment of a text by a format that takes all of it. -/
def ofText? (format s : List Char) : Option Moment :=
  match read? (8 * (format.length + 1)) .start format s with
  | some (m, []) => m.moment?
  | _ => none

/-- The microseconds of the usual text of a moment: a date, a time, maybe a fraction of a second, and
    the distance from the standard clock. -/
def ofStandardText? (s : List Char) : Option Int := do
  let day ← ofText? "%F".toList (s.take 10)
  let sep ← s[10]?
  let time ← read? 20 .start "%T".toList ((s.drop 11).take 8)
  if sep.toLower ≠ 't' ∧ sep ≠ ' ' then none
  else if s.length < 20 ∨ time.2 ≠ [] ∨ 24 ≤ time.1.hour ∨ 60 ≤ time.1.minute ∨ 60 ≤ time.1.second
    then none
  else
    let m := ofTime day.date time.1.hour time.1.minute time.1.second 0
    let (fraction, r) ←
      match s.drop 19 with
      | '.' :: r =>
        let ds := r.takeWhile Char.isDigit
        if ds = [] then none
        else some (Decimal.ofDigits 10 ((ds ++ List.replicate 6 '0').take 6), r.drop ds.length)
      | r => some (0, r)
    let ahead ←
      match r with
      | ['Z'] | ['z'] => some 0
      | r =>
        match ahead? r with
        | some (a, []) => some a
        | _ => none
    some (m.microseconds + fraction - ahead * 1000000)

end Moment

end SchemaForest
