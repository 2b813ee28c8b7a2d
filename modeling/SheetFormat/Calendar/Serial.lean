import SheetFormat.Calendar.Date
import SheetFormat.Number.Binary64

/-! Serial numbers of days. In the system of 1900 the serial 0 is written as a zeroth of January,
and the serial 60 is a 29th of February that the calendar does not have. -/

namespace SheetFormat

inductive DateSystem where
  | since1900
  | since1904
  deriving DecidableEq

structure TimeOfDay where
  hour : Nat
  minute : Nat
  second : Nat
  nanosecond : Nat
  deriving DecidableEq

namespace TimeOfDay

/-- The last second of a minute may be followed by a leap second. -/
def isValid (t : TimeOfDay) : Bool :=
  t.hour < 24 && t.minute < 60 && t.second < 60 &&
    t.nanosecond < (if t.second = 59 then 2000000000 else 1000000000)

def secondOfDay (t : TimeOfDay) : Nat := (t.hour * 60 + t.minute) * 60 + t.second

def ofSecond (s : Nat) : TimeOfDay := ⟨s / 3600, s % 3600 / 60, s % 60, 0⟩

end TimeOfDay

def secondsPerDay : Nat := 86400

/-- The first serial after the year 9999 of the system of 1900. -/
def serialLimit : Nat := 2958466

namespace DateSystem

def epochYear : DateSystem → Nat
  | since1900 => 1900
  | since1904 => 1904

def epoch : DateSystem → Date
  | since1900 => ⟨1899, 12, 31⟩
  | since1904 => ⟨1904, 1, 1⟩

/-- The serial of the day that the calendar does not have. -/
def extraDay : Nat := 60

def dateOfDay? (s : DateSystem) (day : Int) : Option Date :=
  if day < 0 then none
  else
    match s with
    | since1900 =>
      if day = 0 then some ⟨1900, 1, 0⟩
      else if day = extraDay then some ⟨1900, 2, 29⟩
      else s.epoch.later? (if extraDay < day then day - 1 else day).toNat
    | since1904 => s.epoch.later? day.toNat

def dayOfDate? (s : DateSystem) (d : Date) : Option Nat :=
  if s = since1900 ∧ d = ⟨1900, 2, 29⟩ then some extraDay
  else if d.isValid then
    let days := d.number - s.epoch.number
    if days < 0 then none
    else some (if s = since1900 ∧ extraDay ≤ days then days.toNat + 1 else days.toNat)
  else none

def weekdayOfDay (s : DateSystem) (day : Int) : Nat :=
  match s with
  | since1900 => ((day + 6) % 7).toNat
  | since1904 => ((day + 5) % 7).toNat

end DateSystem

def isDateSerial (x : Binary64) : Bool :=
  x.isFinite && !x.lt 0 && x.lt (.ofNat serialLimit)

def serialToDate (s : DateSystem) (x : Binary64) : Option Date :=
  if isDateSerial x then s.dateOfDay? x.floor.toInt64 else none

def serialToTime (x : Binary64) : TimeOfDay :=
  let seconds := (x.fract.abs * .ofNat secondsPerDay).round.toNat64
  .ofSecond (min seconds (secondsPerDay - 1))

/-- The weekday from 1 for Sunday to 7 for Saturday. -/
def serialToWeekday (s : DateSystem) (x : Binary64) : Nat := s.weekdayOfDay x.floor.toInt64 + 1

def dateToSerial (s : DateSystem) (d : Date) : Option Binary64 := (s.dayOfDate? d).map .ofNat

/-- The part of the day that has passed; a leap second has no length. -/
def timeToSerial (t : TimeOfDay) : Binary64 :=
  (.ofNat t.secondOfDay + .ofNat (min t.nanosecond 999999999) / 1000000000) / .ofNat secondsPerDay

def dateTimeToSerial (s : DateSystem) (d : Date) (t : TimeOfDay) : Option Binary64 :=
  (dateToSerial s d).map (· + timeToSerial t)

end SheetFormat
