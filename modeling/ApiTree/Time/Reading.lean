import ApiTree.Number.Arithmetic
import ApiTree.Number.Numeral
import ApiTree.Time.Basic

/-!
# ApiTree.Time.Reading

Reading dates and points in time: as texts of a date, a time of the day and a
zone, and as numbers of seconds or milliseconds from the start of 1970.
-/

namespace ApiTree

namespace Numeral

/-- An integer of at most 64 bits, or a fraction, in digits with a sign. -/
inductive Plain where
  | whole (n : Int)
  | fraction (x : Double)
deriving DecidableEq, Repr

/-- The value of digits after the point, added one after the other. -/
def placesFrom (x : Double) : Nat → List Char → Double
  | _, [] => x
  | power, c :: cs =>
    placesFrom (x.add (.ofRatio false (c.toNat - 48) power)) (power * 10) cs

/-- The number that a text writes with a sign, digits, and perhaps a point. -/
def plain? (cs : List Char) : Option Plain :=
  let (negative, cs) := signed cs
  let whole := cs.takeWhile Char.isDigit
  let n := ofDigits 10 whole
  if whole.isEmpty || powerOf 2 63 ≤ n then none
  else match cs.drop whole.length with
    | [] => some (.whole (withSign negative n))
    | '.' :: places =>
      if places.all Char.isDigit then
        let x := placesFrom (.ofInt n) 10 places
        some (.fraction (if negative then x.neg else x))
      else none
    | _ => none

end Numeral

namespace Double

/-- The greatest integer that is not above a number, within 64 bits. -/
def floorInt : Double → Int
  | .nan => 0
  | .infinite s => if s then -powerOf 2 63 else powerOf 2 63 - 1
  | .finite s m e =>
    let signed : Int := if s then -(m : Int) else m
    let n := if 0 ≤ e then signed * powerOf 2 e else signed / powerOf 2 (-e)
    max (-powerOf 2 63) (min (powerOf 2 63 - 1) n)

/-- The part of a number after the point, in millionths, rounded with a half away
from zero. -/
def millionths : Double → Nat
  | .finite _ m e =>
    if 0 ≤ e then 0
    else
      let rest := m % powerOf 2 (-e)
      match mul (ofRatio false rest (powerOf 2 (-e))) (ofInt 1000000) with
      | .finite _ m e => if 0 ≤ e then m * powerOf 2 e else (2 * m / powerOf 2 (-e) + 1) / 2
      | _ => 0
  | _ => 0

end Double

namespace Date

/-- A number of two digits at the front of a text, and the rest. -/
def twoDigits? : List Char → Option (Nat × List Char)
  | a :: b :: rest =>
    if a.isDigit && b.isDigit then some (Numeral.ofDigits 10 [a, b], rest) else none
  | _ => none

/-- A date of the years 0 to 9999 at the front of a text, and the rest. -/
def front? (cs : List Char) : Option (Date × List Char) := do
  let year := cs.take 4
  if year.length < 4 || !year.all Char.isDigit then none
  else
    let '-' :: cs := cs.drop 4 | none
    let (month, cs) ← twoDigits? cs
    let '-' :: cs := cs | none
    let (day, cs) ← twoDigits? cs
    let d : Date := ⟨Numeral.ofDigits 10 year, month, day⟩
    if 1 ≤ month && month ≤ 12 && 1 ≤ day && day ≤ daysIn d.year month then return (d, cs) else none

end Date

namespace Moment

/-- The greatest number that counts seconds; above it, milliseconds are
counted. -/
def mostSeconds : Nat := 20000000000

/-- The first second of the year 1600, counted from the start of 1970. -/
def firstSecond : Int := -11676096000

/-- The last second of the year 9999. -/
def lastSecond : Int := 253402300799

/-- The whole seconds and the microseconds of a number of seconds or
milliseconds. -/
def secondsOf (n : Int) : Int × Nat :=
  if mostSeconds < n.natAbs then (n / 1000, (n % 1000).toNat * 1000) else (n, 0)

/-- The point in time at a number of seconds or milliseconds from the start of
1970, in universal time. -/
def ofNumber? (n : Int) (micros : Nat) : Option Moment :=
  let (seconds, more) := secondsOf n
  let seconds := seconds + ((micros + more) / 1000000 : Nat)
  if seconds < firstSecond || lastSecond < seconds then none
  else ofMicros? (seconds * 1000000 + ((micros + more) % 1000000 : Nat)) (some 0)

/-- The point in time that a fraction stands for. -/
def ofDouble? : Double → Option Moment
  | .nan => none
  | x => ofNumber? x.floorInt x.millionths

/-- The time of the day at the front of a text: hour, minute, second and
microsecond, and the rest.  Places after the sixth are dropped. -/
def clock? (cs : List Char) : Option (Nat × Nat × Nat × Nat × List Char) := do
  let (hour, cs) ← Date.twoDigits? cs
  let ':' :: cs := cs | none
  let (minute, cs) ← Date.twoDigits? cs
  if 23 < hour || 59 < minute then none
  else match cs with
    | ':' :: cs =>
      let (second, cs) ← Date.twoDigits? cs
      if 59 < second then none
      else match cs with
        | c :: rest =>
          if c == '.' || c == ',' then
            let places := rest.takeWhile Char.isDigit
            if places.isEmpty then none
            else
              let kept := places.take 6
              let micro := Numeral.ofDigits 10 kept * powerOf 10 (6 - kept.length)
              return (hour, minute, second, micro, rest.drop places.length)
          else return (hour, minute, second, 0, cs)
        | [] => return (hour, minute, second, 0, [])
    | cs => return (hour, minute, 0, 0, cs)

/-- A distance from universal time in hours and minutes. -/
def distance? (negative : Bool) (cs : List Char) : Option Int := do
  let (hours, cs) ← Date.twoDigits? cs
  let (minutes, cs) ← match cs with
    | ':' :: cs => Date.twoDigits? cs
    | cs => Date.twoDigits? cs
  if !cs.isEmpty || 60 ≤ minutes || 24 ≤ hours then none
  else return Numeral.withSign negative (hours * 3600 + minutes * 60)

/-- The zone that a text writes after a time of the day, if it is one. -/
def zone? : List Char → Option (Option Int)
  | [] => some none
  | c :: cs =>
    if c == 'Z' || c == 'z' then (if cs.isEmpty then some (some 0) else none)
    else if c == '+' then (distance? false cs).map some
    else if c == '-' || c == '−' then (distance? true cs).map some
    else none

/-- The point in time that a text writes with a date and a time of the day. -/
def written? (cs : List Char) : Option Moment := do
  let (date, cs) ← Date.front? cs
  let c :: cs := cs | none
  if c ∉ ['T', 't', ' ', '_'] then none
  else
    let (hour, minute, second, micro, cs) ← clock? cs
    return { date, hour, minute, second, micro, zone := ← zone? cs }

/-- The point in time that a text stands for. -/
def read? (s : String) : Option Moment :=
  match written? s.toList, Numeral.plain? s.toList with
  | some m, _ => some m
  | none, some (.whole n) => ofNumber? n 0
  | none, some (.fraction x) => ofDouble? x
  | none, none => none

end Moment

namespace Date

/-- The date that a text stands for: written as a date, or as the number of its
first second. -/
def read? (s : String) : Option Date :=
  match front? s.toList with
  | some (d, []) => some d
  | _ =>
    match Numeral.plain? s.toList with
    | some (.whole n) =>
      (Moment.ofNumber? n 0).bind fun m =>
        if m.hour == 0 && m.minute == 0 && m.second == 0 then some m.date else none
    | _ => none

end Date
end ApiTree
