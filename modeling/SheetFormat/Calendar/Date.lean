/-! Dates of the Gregorian calendar in both directions of time, numbered from the first of January
of the year one. -/

namespace SheetFormat

structure Date where
  year : Int
  month : Nat
  day : Nat
  deriving DecidableEq

namespace Date

def isLeap (year : Int) : Bool := year % 4 = 0 && (year % 100 ≠ 0 || year % 400 = 0)

def monthLengths (leap : Bool) : List Nat :=
  [31, if leap then 29 else 28, 31, 30, 31, 30, 31, 31, 30, 31, 30, 31]

def monthLength (year : Int) (month : Nat) : Nat :=
  if month = 0 then 0 else (monthLengths (isLeap year)).getD (month - 1) 0

def firstYear : Int := -262143

def lastYear : Int := 262142

def isValid (d : Date) : Bool :=
  firstYear ≤ d.year && d.year ≤ lastYear && 1 ≤ d.day && d.day ≤ monthLength d.year d.month

def daysBeforeYear (year : Int) : Int :=
  365 * (year - 1) + (year - 1) / 4 - (year - 1) / 100 + (year - 1) / 400

def daysBeforeMonth (year : Int) (month : Nat) : Nat :=
  ((monthLengths (isLeap year)).take (month - 1)).foldr (· + ·) 0

def number (d : Date) : Int :=
  daysBeforeYear d.year + daysBeforeMonth d.year d.month + d.day - 1

/-- The year of a day, by cycles of 400, 100, 4 and 1 years; the last year of a cycle of 100 or
of 4 can be a day longer. -/
def yearOf (n : Int) : Int :=
  let inFourHundred := n % 146097
  let centuries := min (inFourHundred / 36524) 3
  let inCentury := inFourHundred - 36524 * centuries
  let inFour := inCentury % 1461
  let years := min (inFour / 365) 3
  400 * (n / 146097) + 100 * centuries + 4 * (inCentury / 1461) + years + 1

def monthOf (month day : Nat) : List Nat → Nat × Nat
  | [] => (month, day)
  | length :: rest => if day < length then (month, day) else monthOf (month + 1) (day - length) rest

def ofNumber (n : Int) : Date :=
  let year := yearOf n
  let (month, day) := monthOf 1 (n - daysBeforeYear year).toNat (monthLengths (isLeap year))
  ⟨year, month, day + 1⟩

def later? (d : Date) (days : Nat) : Option Date :=
  let later := ofNumber (d.number + days)
  if later.year ≤ lastYear then some later else none

theorem daysBeforeYear_cycles {q c b y : Int} (hc : 0 ≤ c ∧ c ≤ 3) (hb : 0 ≤ b ∧ b ≤ 24)
    (hy : 0 ≤ y ∧ y ≤ 3) :
    daysBeforeYear (400 * q + 100 * c + 4 * b + y + 1) =
      146097 * q + 36524 * c + 1461 * b + 365 * y := by
  have h4 : (400 * q + 100 * c + 4 * b + y + 1 - 1) / 4 = 100 * q + 25 * c + b := by omega
  have h100 : (400 * q + 100 * c + 4 * b + y + 1 - 1) / 100 = 4 * q + c := by omega
  have h400 : (400 * q + 100 * c + 4 * b + y + 1 - 1) / 400 = q := by omega
  simp only [daysBeforeYear, h4, h100, h400]
  omega

theorem daysBeforeYear_succ (y : Int) :
    daysBeforeYear (y + 1) = daysBeforeYear y + (if isLeap y then 366 else 365) := by
  simp only [daysBeforeYear, isLeap, Bool.and_eq_true, Bool.or_eq_true, decide_eq_true_eq]
  split <;> omega

theorem daysBeforeYear_yearOf_le (n : Int) : daysBeforeYear (yearOf n) ≤ n := by
  simp only [yearOf]
  rw [daysBeforeYear_cycles] <;> omega

theorem isLeap_cycles {q c b y : Int} (hc : 0 ≤ c ∧ c ≤ 3) (hb : 0 ≤ b ∧ b ≤ 24)
    (hy : 0 ≤ y ∧ y ≤ 3) :
    isLeap (400 * q + 100 * c + 4 * b + y + 1) = true ↔ y = 3 ∧ (b ≠ 24 ∨ c = 3) := by
  simp only [isLeap, Bool.and_eq_true, Bool.or_eq_true, decide_eq_true_eq]
  omega

theorem lt_daysBeforeYear_yearOf (n : Int) : n < daysBeforeYear (yearOf n + 1) := by
  rw [daysBeforeYear_succ]
  by_cases h : isLeap (yearOf n) = true
  · rw [if_pos h, yearOf]
    rw [daysBeforeYear_cycles (by omega) (by omega) (by omega)]
    omega
  · rw [if_neg h, yearOf]
    rw [yearOf, isLeap_cycles (by omega) (by omega) (by omega)] at h
    rw [daysBeforeYear_cycles (by omega) (by omega) (by omega)]
    omega

end Date

end SheetFormat
