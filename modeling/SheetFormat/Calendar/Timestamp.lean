import SheetFormat.Calendar.Serial

/-! The date and clock fields of a serial, all taken from one rounded count of ticks. -/

namespace SheetFormat

attribute [local instance (2000)] instPowNat

structure Timestamp where
  date : Date
  weekday : Nat
  hour : Nat
  minute : Nat
  second : Nat
  subsecond : Nat
  subsecondDigits : Nat
  totalSeconds : Nat
  deriving DecidableEq

namespace Timestamp

def day (digits ticks : Nat) : Nat := ticks / (secondsPerDay * 10 ^ digits)

def ofTicks (s : DateSystem) (digits ticks : Nat) (date : Date) : Timestamp :=
  let scale := 10 ^ digits
  let ofDay := ticks % (secondsPerDay * scale)
  let seconds := ofDay / scale
  { date
    weekday := s.weekdayOfDay (day digits ticks)
    hour := seconds / 3600
    minute := seconds % 3600 / 60
    second := seconds % 60
    subsecond := ofDay % scale
    subsecondDigits := digits
    totalSeconds := ticks / scale }

def ofTicks? (s : DateSystem) (digits ticks : Nat) : Option Timestamp :=
  (s.dateOfDay? (day digits ticks)).map (ofTicks s digits ticks)

def ticks (digits : Nat) (x : Binary64) : Nat :=
  (x * .ofNat (secondsPerDay * 10 ^ digits)).round.toNat64

def ofSerial (s : DateSystem) (digits : Nat) (x : Binary64) : Option Timestamp :=
  if isDateSerial x then ofTicks? s (min digits 3) (ticks (min digits 3) x) else none

theorem hour_lt (s : DateSystem) (digits t : Nat) (d : Date) :
    (ofTicks s digits t d).hour < 24 := by
  simp only [ofTicks, secondsPerDay]
  have hs : 0 < 10 ^ digits := Nat.pow_pos (by decide)
  have hm := Nat.mod_lt t (y := 86400 * 10 ^ digits) (Nat.mul_pos (by decide) hs)
  rw [Nat.mul_comm] at hm
  have := Nat.div_lt_of_lt_mul hm
  rw [Nat.mul_comm] at this
  omega

theorem minute_lt (s : DateSystem) (digits t : Nat) (d : Date) :
    (ofTicks s digits t d).minute < 60 := by
  simp only [ofTicks]
  omega

theorem second_lt (s : DateSystem) (digits t : Nat) (d : Date) :
    (ofTicks s digits t d).second < 60 := by
  simp only [ofTicks]
  omega

end Timestamp

end SheetFormat
