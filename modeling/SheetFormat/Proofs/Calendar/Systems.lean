import SheetFormat.Proofs.Calendar.Timestamp
import SheetFormat.Proofs.Number.Whole

/-! From 1904 on the extra day of 1900 has been counted, and so the serials of both systems differ
by a constant. -/

namespace SheetFormat

open Binary64

attribute [local instance (2000)] instPowNat
attribute [local irreducible] perUnit limit

lemma Date.later?_congr {d e : Date} {j k : Nat} (h : d.number + j = e.number + k) :
    d.later? j = e.later? k := by
  rw [later?, later?, h]

namespace DateSystem

def lead : Nat := 1462

lemma epoch_number : since1904.epoch.number = since1900.epoch.number + 1461 := by decide

lemma dateOfDay?_lead (n : Nat) :
    since1900.dateOfDay? (n + lead : Nat) = since1904.dateOfDay? n := by
  have he := epoch_number
  have hx : (extraDay : Int) < (n + lead : Nat) := by
    simp only [extraDay, lead]
    omega
  rw [dateOfDay?, dateOfDay?, if_neg (by omega), if_neg (by omega)]
  simp only [if_pos hx]
  rw [if_neg (by omega), if_neg (by omega)]
  apply Date.later?_congr
  simp only [lead]
  omega

lemma weekdayOfDay_lead (n : Nat) :
    since1900.weekdayOfDay (n + lead : Nat) = since1904.weekdayOfDay n := by
  simp only [weekdayOfDay, lead]
  omega

variable {d : Date} {n : Nat}

lemma epoch_le_number (hr : d.IsReal) (h : ¬d.Before ⟨1904, 1, 1⟩) :
    since1904.epoch.number ≤ d.number := by
  rcases Date.before_or_eq_or_before d ⟨1904, 1, 1⟩ with hb | rfl | hb
  · exact absurd hb h
  · exact le_rfl
  · exact (Date.number_lt_of_before since1904.isReal_epoch hr hb).le

lemma dayOfDate?_since1904 (hr : d.IsReal) (h : ¬d.Before ⟨1904, 1, 1⟩) :
    since1904.dayOfDate? d =
      if d.isValid then some (d.number - since1904.epoch.number).toNat else none := by
  have hn := epoch_le_number hr h
  rw [dayOfDate?, if_neg (by simp)]
  split_ifs
  · dsimp only
    rw [if_neg (by omega), if_neg (by simp)]
  · rfl

lemma dayOfDate?_lead (hr : d.IsReal) (h : ¬d.Before ⟨1904, 1, 1⟩) :
    since1900.dayOfDate? d = (since1904.dayOfDate? d).map (· + lead) := by
  have hn := epoch_le_number hr h
  have he := epoch_number
  have hx : d ≠ ⟨1900, 2, 29⟩ := by
    rintro rfl
    exact h (.inl (by decide))
  rw [dayOfDate?_since1904 hr h, dayOfDate?, if_neg (fun hc => hx hc.2)]
  split_ifs
  · dsimp only
    rw [if_neg (by omega), if_pos ⟨rfl, by simp only [extraDay]; omega⟩, Option.map_some]
    simp only [lead, Option.some.injEq]
    omega
  · rfl

lemma dayOfDate?_le (h : since1904.dayOfDate? d = some n) : n + lead ≤ exactLimit :=
  (Nat.add_le_add_right (dayOfDate?_lt h).le lead).trans (by decide)

end DateSystem

lemma dateToSerial_lead {d : Date} (hr : d.IsReal) (h : ¬d.Before ⟨1904, 1, 1⟩) :
    dateToSerial .since1900 d =
      (dateToSerial .since1904 d).map (· + ofNat DateSystem.lead) := by
  rw [dateToSerial, dateToSerial, DateSystem.dayOfDate?_lead hr h]
  cases hn : DateSystem.since1904.dayOfDate? d with
  | none => simp only [Option.map_none]
  | some n =>
    simp only [Option.map_some]
    rw [ofNat_add (DateSystem.dayOfDate?_le hn)]

lemma isSome_dateToSerial {d : Date} (hr : d.IsReal) (h : ¬d.Before ⟨1904, 1, 1⟩) :
    (dateToSerial .since1904 d).isSome = d.isValid := by
  rw [dateToSerial, Option.isSome_map, DateSystem.dayOfDate?_since1904 hr h]
  cases d.isValid <;> rfl

lemma serialToWeekday_ofNat (s : DateSystem) {n : Nat} (h : n < exactLimit) :
    serialToWeekday s (ofNat n) = s.weekdayOfDay n + 1 := by
  rw [serialToWeekday, toInt64_floor h (ofNat_le_self h.le) (ofNat_lt_succ h)]

namespace Timestamp

variable {s : DateSystem} {digits n : Nat}

def midnight (s : DateSystem) (digits n : Nat) (date : Date) : Timestamp :=
  ⟨date, s.weekdayOfDay n, 0, 0, 0, 0, digits, n * secondsPerDay⟩

lemma ticks_ofNat (h : n < serialLimit) (hd : digits ≤ 3) :
    ticks digits (ofNat n) = n * (secondsPerDay * 10 ^ digits) := by
  have ht := ticksPerDay_le hd
  have hp : n * (secondsPerDay * 10 ^ digits) ≤ exactLimit :=
    (Nat.mul_le_mul h.le ht).trans (by decide)
  rw [ticks, ofNat_mul (h.trans serialLimit_lt).le (ht.trans (by decide)) hp, round_ofNat hp,
    toNat64_ofNat hp]

lemma ofTicks?_day (s : DateSystem) (digits n : Nat) :
    ofTicks? s digits (n * (secondsPerDay * 10 ^ digits)) =
      (s.dateOfDay? n).map (midnight s digits n) := by
  have hs : 0 < 10 ^ digits := Nat.pow_pos (by decide)
  have hp : 0 < secondsPerDay * 10 ^ digits := Nat.mul_pos (by decide) hs
  have hd : day digits (n * (secondsPerDay * 10 ^ digits)) = n := Nat.mul_div_cancel n hp
  have ht : n * (secondsPerDay * 10 ^ digits) / 10 ^ digits = n * secondsPerDay := by
    rw [← Nat.mul_assoc, Nat.mul_div_cancel _ hs]
  rw [ofTicks?, hd]
  congr 1
  funext d
  simp only [ofTicks, midnight, hd, ht, Nat.mul_mod_left, Nat.zero_div, Nat.zero_mod]

lemma ofSerial_ofNat (s : DateSystem) (digits : Nat) (h : n < serialLimit) :
    ofSerial s digits (ofNat n) = (s.dateOfDay? n).map (midnight s (min digits 3) n) := by
  have he := h.trans serialLimit_lt
  rw [ofSerial, if_pos (isDateSerial_of_between h (ofNat_le_self he.le) (ofNat_lt_succ he)),
    ticks_ofNat h (Nat.min_le_right digits 3), ofTicks?_day]

end Timestamp

end SheetFormat
