/-!
# ApiTree.Time.Basic

Dates of the Gregorian calendar from the year 1 to the year 9999, and points in
time with a precision of microseconds and, if it is known, the distance from
universal time.
-/

namespace ApiTree

/-- A date. -/
structure Date where
  year : Nat
  month : Nat
  day : Nat
deriving DecidableEq, Repr, Inhabited

/-- A point in time; the zone is the number of seconds east of universal
time. -/
structure Moment where
  date : Date
  hour : Nat
  minute : Nat
  second : Nat
  micro : Nat := 0
  zone : Option Int := none
deriving DecidableEq, Repr, Inhabited

namespace Date

/-- Whether a year has a leap day. -/
def isLeap (year : Nat) : Bool := year % 4 == 0 && (year % 100 != 0 || year % 400 == 0)

/-- The number of days of a month. -/
def daysIn (year month : Nat) : Nat :=
  if month == 2 then (if isLeap year then 29 else 28)
  else if [4, 6, 9, 11].contains month then 30 else 31

/-- The days of the years before a year, counted from the year 1. -/
def daysBefore (year : Nat) : Nat :=
  let y := year - 1
  365 * y + y / 4 - y / 100 + y / 400

/-- The number of the day, the first of January 1970 being zero. -/
def number (d : Date) : Int :=
  let months := (List.range (d.month - 1)).foldl (fun n m => n + daysIn d.year (m + 1)) 0
  (daysBefore d.year + months + d.day : Nat) - 719163

/-- The month and the day of the `n`th day of a year, counted from zero, among
`left` months from `month` on. -/
def ofYearDay (year : Nat) : Nat → Nat → Nat → Date
  | 0, month, n => ⟨year, month, n + 1⟩
  | left + 1, month, n =>
    let days := daysIn year month
    if n < days then ⟨year, month, n + 1⟩ else ofYearDay year left (month + 1) (n - days)

/-- The date of a day number, if it lies in the years 1 to 9999. -/
def ofNumber? (n : Int) : Option Date :=
  let n := n + 719162
  if n < 0 then none
  else
    let n := n.toNat
    let guess := n * 400 / 146097 + 1
    let year := if n < daysBefore guess then guess - 1
      else if daysBefore (guess + 1) ≤ n then guess + 1 else guess
    if year ≤ 9999 then some (ofYearDay year 11 1 (n - daysBefore year)) else none

/-- A number with at least `width` digits. -/
def padded (width n : Nat) : String :=
  let ds := (toString n).toList
  String.ofList (List.replicate (width - ds.length) '0' ++ ds)

/-- The written form of a date. -/
def text (d : Date) : String :=
  padded 4 d.year ++ "-" ++ padded 2 d.month ++ "-" ++ padded 2 d.day

end Date

namespace Moment

/-- Why there is no such point in time. -/
inductive Mistake where
  | year (n : Nat)
  | month
  | day
  | hour
  | minute
  | second
  /-- A zone a day or more away from universal time. -/
  | zone (seconds : Int)
deriving DecidableEq, Repr

/-- A number of seconds as days and the seconds of a day. -/
def Mistake.duration (seconds : Int) : String :=
  let rest := seconds % 86400
  "datetime.timedelta(days=" ++ toString (seconds / 86400) ++
    (if rest = 0 then "" else ", seconds=" ++ toString rest) ++ ")"

/-- The wording of a mistake. -/
def Mistake.text : Mistake → String
  | .year n => "year " ++ toString n ++ " is out of range"
  | .month => "month must be in 1..12"
  | .day => "day is out of range for month"
  | .hour => "hour must be in 0..23"
  | .minute => "minute must be in 0..59"
  | .second => "second must be in 0..59"
  | .zone n =>
    "offset must be a timedelta strictly between -timedelta(hours=24) and " ++
      "timedelta(hours=24), not " ++ duration n ++ "."

/-- What is wrong with a date. -/
def mistakeIn? (d : Date) : Option Mistake :=
  if d.year < 1 ∨ 9999 < d.year then some (.year d.year)
  else if d.month < 1 ∨ 12 < d.month then some .month
  else if d.day < 1 ∨ Date.daysIn d.year d.month < d.day then some .day
  else none

/-- What is wrong with a point in time; a zone is looked at first. -/
def mistake? (m : Moment) : Option Mistake :=
  match m.zone.filter (86400 ≤ ·.natAbs) with
  | some z => some (.zone z)
  | none =>
    (mistakeIn? m.date).orElse fun _ =>
      if 23 < m.hour then some .hour
      else if 59 < m.minute then some .minute
      else if 59 < m.second then some .second
      else none

/-- The seconds from the start of 1970, as a clock at the place shows them. -/
def localSeconds (m : Moment) : Int :=
  m.date.number * 86400 + (m.hour * 3600 + m.minute * 60 + m.second : Nat)

/-- The microseconds from the start of 1970; a point in time without a zone is
taken for universal time. -/
def micros (m : Moment) : Int := (m.localSeconds - m.zone.getD 0) * 1000000 + m.micro

/-- The point in time at a number of microseconds from the start of 1970, as a
clock shows it. -/
def ofMicros? (n : Int) (zone : Option Int) : Option Moment :=
  let seconds := n / 1000000
  (Date.ofNumber? (seconds / 86400)).map fun date =>
    let rest := (seconds % 86400).toNat
    ⟨date, rest / 3600, rest / 60 % 60, rest % 60, (n % 1000000).toNat, zone⟩

/-- The order of two points in time.  If the zone of one of them is not known, what
their clocks show counts. -/
def order (a b : Moment) : Ordering :=
  if a.zone.isSome && b.zone.isSome then compare a.micros b.micros
  else compare (a.localSeconds * 1000000 + a.micro) (b.localSeconds * 1000000 + b.micro)

/-- Whether it is midnight. -/
def isMidnight (m : Moment) : Bool :=
  m.hour == 0 && m.minute == 0 && m.second == 0 && m.micro == 0

/-- The time of the day, with its fraction if there is one. -/
def clockText (m : Moment) : String :=
  Date.padded 2 m.hour ++ ":" ++ Date.padded 2 m.minute ++ ":" ++ Date.padded 2 m.second ++
    (if m.micro = 0 then "" else "." ++ Date.padded 6 m.micro)

/-- A zone as hours and minutes with a sign. -/
def zoneText (seconds : Int) : String :=
  let n := seconds.natAbs
  (if seconds < 0 then "-" else "+") ++ Date.padded 2 (n / 3600) ++ ":" ++
    Date.padded 2 (n / 60 % 60) ++ (if n % 60 = 0 then "" else ":" ++ Date.padded 2 (n % 60))

end Moment
end ApiTree
