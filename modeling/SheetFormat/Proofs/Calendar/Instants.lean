import SheetFormat.Proofs.Calendar.Systems
import SheetFormat.Proofs.Number.Error

namespace SheetFormat

open Binary64

attribute [local instance (2000)] instPowNat
attribute [local irreducible] perUnit limit

namespace DateSystem

def firstDate : DateSystem → Date
  | since1900 => ⟨1900, 1, 1⟩
  | since1904 => ⟨1904, 1, 1⟩

/-- The date of the last serial that is one of a day. -/
def finalDate : DateSystem → Date
  | since1900 => ⟨9999, 12, 31⟩
  | since1904 => ⟨10004, 1, 1⟩

variable {s : DateSystem} {d : Date}

lemma exists_day_between (hr : d.IsReal) (hl : ¬d.Before s.firstDate)
    (hu : ¬s.finalDate.Before d) :
    ∃ n, s.firstDay ≤ n ∧ n < serialLimit ∧ s.dateOfDay? n = some d := by
  cases s with
  | since1900 =>
    apply exists_day hr
    · by_contra hy
      exact hl (.inl (Int.not_le.1 hy))
    · by_contra hy
      exact hu (.inl (Int.not_le.1 hy))
  | since1904 =>
    have he := epoch_le_number hr hl
    have hf : d.number ≤ since1904.finalDate.number := by
      rcases Date.before_or_eq_or_before d since1904.finalDate with hb | rfl | hb
      · exact (Date.number_lt_of_before hr ⟨by decide, by decide, by decide, by decide⟩ hb).le
      · exact le_rfl
      · exact absurd hb hu
    have hd : since1904.finalDate.number = since1904.epoch.number + 2958465 := by decide
    obtain ⟨n, hn⟩ : ∃ n : Nat, d.number = since1904.epoch.number + n :=
      ⟨(d.number - since1904.epoch.number).toNat, by omega⟩
    have hs : n < serialLimit := by
      rw [serialLimit]
      omega
    refine ⟨n, Nat.zero_le n, hs, ?_⟩
    rw [since1904.dateOfDay?_eq hs.le (Nat.zero_le n) (fun hx => DateSystem.noConfusion hx.1)]
    simp only [dateNumber, reduceCtorEq, false_and, if_false, ← hn, Date.ofNumber_number hr]

end DateSystem

namespace TimeOfDay

variable {t : TimeOfDay}

/-- A time of day, with a leap second after any second. -/
def InRange (t : TimeOfDay) : Prop :=
  t.hour < 24 ∧ t.minute < 60 ∧ t.second < 60 ∧ t.nanosecond < 2000000000

instance (t : TimeOfDay) : Decidable t.InRange :=
  inferInstanceAs (Decidable (_ ∧ _))

lemma inRange_of_isValid (ht : t.isValid = true) : t.InRange := by
  simp only [isValid, Bool.and_eq_true, decide_eq_true_eq] at ht
  obtain ⟨⟨⟨hh, hm⟩, hs⟩, hn⟩ := ht
  refine ⟨hh, hm, hs, hn.trans_le ?_⟩
  split <;> decide

lemma secondOfDay_lt (ht : t.InRange) : t.secondOfDay < secondsPerDay := by
  obtain ⟨hh, hm, hs, -⟩ := ht
  simp only [secondOfDay, secondsPerDay]
  omega

def dayFraction (t : TimeOfDay) : ℚ :=
  (t.secondOfDay + t.nanosecond / (1000000000 : ℕ)) / secondsPerDay

end TimeOfDay

variable {s : DateSystem} {d : Date} {t : TimeOfDay} {n : Nat}

lemma cast_secondsPerDay : (secondsPerDay : ℚ) = 86400 := by norm_num [secondsPerDay]

lemma cast_secondOfDay_le (hs : t.secondOfDay < secondsPerDay) : (t.secondOfDay : ℚ) ≤ 86399 := by
  exact_mod_cast Nat.le_of_lt_succ hs

lemma near_timeToSerial (hs : t.secondOfDay < secondsPerDay) (hn : t.nanosecond < 1000000000) :
    (timeToSerial t).Near (1 / 2 ^ 51) t.dayFraction := by
  have hb : t.nanosecond ≤ exactLimit := hn.le.trans (by decide)
  have hm : t.nanosecond ≤ 999999999 := Nat.le_of_lt_succ hn
  have hs' := cast_secondOfDay_le hs
  have hf : (t.nanosecond / (1000000000 : ℕ) : ℚ) ≤ 999999999 / 1000000000 := by
    rw [Nat.cast_ofNat]
    exact div_le_div_of_nonneg_right (by exact_mod_cast hm) (by norm_num)
  have hc : (ofNat t.nanosecond / ofNat 1000000000).Near (1 / 2 ^ 54)
      (t.nanosecond / (1000000000 : ℕ)) := by
    refine ((near_ofNat hb).div_ofNat (k := 0) (by decide) (by decide) (by decide) ?_).mono ?_
    · rw [add_zero, pow_zero, one_mul]
      exact_mod_cast hn
    · norm_num
  have hd : (ofNat t.secondOfDay + ofNat t.nanosecond / ofNat 1000000000).Near (1 / 2 ^ 36)
      (t.secondOfDay + t.nanosecond / (1000000000 : ℕ)) := by
    have hx := near_ofNat (n := t.secondOfDay) (hs.le.trans (by decide))
    refine (hx.add (k := 17) hc (by decide) ?_).mono (by norm_num)
    linarith
  rw [timeToSerial, Nat.min_eq_left hm]
  refine (hd.div_ofNat (k := 0) (by decide) (by decide) (by decide) ?_).mono ?_
  · rw [cast_secondsPerDay]
    linarith
  · norm_num [secondsPerDay]

lemma dayFraction_mul (t : TimeOfDay) : t.dayFraction * secondsPerDay =
    t.secondOfDay + t.nanosecond / (1000000000 : ℕ) :=
  div_mul_cancel₀ _ (by norm_num [secondsPerDay])

lemma dayFraction_le (hs : t.secondOfDay < secondsPerDay) (hn : t.nanosecond ≤ 999000000) :
    t.dayFraction ≤ 1 - 1 / 2 ^ 27 := by
  have hm := dayFraction_mul t
  have hs' := cast_secondOfDay_le hs
  have hf : (t.nanosecond / (1000000000 : ℕ) : ℚ) ≤ 999 / 1000 := by
    rw [Nat.cast_ofNat, div_le_iff₀ (by norm_num)]
    have : (t.nanosecond : ℚ) ≤ 999000000 := by exact_mod_cast hn
    linarith
  rw [cast_secondsPerDay] at hm
  linarith

lemma near_dateTime (hs : t.secondOfDay < secondsPerDay) (hn : t.nanosecond ≤ 999000000)
    (h : n < serialLimit) : (ofNat n + timeToSerial t).Near (1 / 2 ^ 31) (n + t.dayFraction) := by
  have hd := near_ofNat (h.trans serialLimit_lt).le
  have ht := near_timeToSerial hs (hn.trans_lt (by decide))
  have hf := dayFraction_le hs hn
  have hl : (n : ℚ) ≤ 2958465 := by exact_mod_cast Nat.le_of_lt_succ h
  refine (hd.add (k := 22) ht (by decide) ?_).mono (by norm_num)
  linarith

lemma isDateSerial_dateTime (hs : t.secondOfDay < secondsPerDay) (hn : t.nanosecond ≤ 999000000)
    (h : n < serialLimit) : isDateSerial (ofNat n + timeToSerial t) = true := by
  have hf := dayFraction_le hs hn
  have hl : (n : ℚ) + 1 ≤ serialLimit := by exact_mod_cast Nat.succ_le_of_lt h
  rw [isDateSerial_iff]
  apply (near_dateTime hs hn h).lt_ofNat serialLimit_lt.le
  linarith

lemma ticks_dateTime (hs : t.secondOfDay < secondsPerDay) (hn : t.nanosecond ≤ 999000000)
    (hm : t.nanosecond % 1000000 = 0) (h : n < serialLimit) :
    Timestamp.ticks 3 (ofNat n + timeToSerial t) =
      n * (secondsPerDay * 10 ^ 3) + (t.secondOfDay * 10 ^ 3 + t.nanosecond / 1000000) := by
  have hf := dayFraction_le hs hn
  have hl : (n : ℚ) ≤ 2958465 := by exact_mod_cast Nat.le_of_lt_succ h
  have hd : ((secondsPerDay * 10 ^ 3 : ℕ) : ℚ) = secondsPerDay * 1000 := by
    norm_num [secondsPerDay]
  have hv : (n + t.dayFraction) * (secondsPerDay * 10 ^ 3 : ℕ) =
      (n * (secondsPerDay * 10 ^ 3) + (t.secondOfDay * 10 ^ 3 + t.nanosecond / 1000000) : ℕ) := by
    obtain ⟨k, hk⟩ := Nat.dvd_of_mod_eq_zero hm
    have hq : t.nanosecond / 1000000 = k := by omega
    have hr : (t.nanosecond / (1000000000 : ℕ) * 1000 : ℚ) = k := by
      rw [hk]
      push_cast
      ring
    rw [hd, add_mul, ← mul_assoc t.dayFraction, dayFraction_mul, hq, add_mul, hr]
    push_cast
    ring
  have hx := (near_dateTime hs hn h).mul_ofNat (n := secondsPerDay * 10 ^ 3) (k := 48)
    (by decide) (by decide) (by
      rw [hd]
      norm_num [secondsPerDay]
      linarith)
  rw [hv] at hx
  have hb : n * (secondsPerDay * 10 ^ 3) +
      (t.secondOfDay * 10 ^ 3 + t.nanosecond / 1000000) ≤ exactLimit := by
    have : (9007199254740992 : Nat) = exactLimit := by decide
    rw [← this]
    simp only [secondsPerDay, serialLimit] at *
    omega
  rw [Timestamp.ticks, hx.round ?_ hb, toNat64_ofNat hb]
  norm_num [secondsPerDay]

namespace Timestamp

def ofDateTime (s : DateSystem) (n : Nat) (d : Date) (t : TimeOfDay) : Timestamp :=
  ⟨d, s.weekdayOfDay n, t.hour, t.minute, t.second, t.nanosecond / 1000000, 3,
    n * secondsPerDay + t.secondOfDay⟩

lemma ofTicks?_dateTime (ht : t.InRange) (hn : t.nanosecond ≤ 999000000)
    (hd : s.dateOfDay? n = some d) :
    ofTicks? s 3 (n * (secondsPerDay * 10 ^ 3) +
      (t.secondOfDay * 10 ^ 3 + t.nanosecond / 1000000)) = some (ofDateTime s n d t) := by
  have hs := TimeOfDay.secondOfDay_lt ht
  have hday : day 3 (n * (secondsPerDay * 10 ^ 3) +
      (t.secondOfDay * 10 ^ 3 + t.nanosecond / 1000000)) = n := by
    simp only [day, secondsPerDay] at *
    omega
  obtain ⟨hh, hm, hsec, -⟩ := ht
  rw [ofTicks?, hday, hd, Option.map_some]
  simp only [ofTicks, ofDateTime, hday, Option.some.injEq, mk.injEq, true_and]
  simp only [TimeOfDay.secondOfDay, secondsPerDay] at *
  omega

end Timestamp

/-- A date and a time in whole milliseconds have a serial, and that serial has the same date and
time: the year, the month and the day, and the clock to the millisecond. -/
theorem dateTime_survives (s : DateSystem) (d : Date) (t : TimeOfDay) (hd : d.isValid = true)
    (ht : t.isValid = true) (hm : t.nanosecond % 1000000 = 0) (hn : t.nanosecond < 1000000000)
    (hl : ¬d.Before s.firstDate) (hu : ¬s.finalDate.Before d) :
    ∃ x u, dateTimeToSerial s d t = some x ∧ Timestamp.ofSerial s 3 x = some u ∧ u.date = d ∧
      u.hour = t.hour ∧ u.minute = t.minute ∧ u.second = t.second ∧
      u.subsecondDigits = 3 ∧ u.subsecond = t.nanosecond / 1000000 := by
  have ht := TimeOfDay.inRange_of_isValid ht
  have hs := TimeOfDay.secondOfDay_lt ht
  have hn : t.nanosecond ≤ 999000000 := by omega
  obtain ⟨n, h1, h, hday⟩ := DateSystem.exists_day_between (Date.isValid_iff.1 hd).1 hl hu
  refine ⟨ofNat n + timeToSerial t, Timestamp.ofDateTime s n d t, ?_, ?_, rfl, rfl, rfl, rfl, rfl,
    rfl⟩
  · rw [dateTimeToSerial, dateToSerial, DateSystem.dayOfDate?_eq h.le h1 hday]
    rfl
  · rw [Timestamp.ofSerial, if_pos (isDateSerial_dateTime hs hn h)]
    exact (congrArg _ (ticks_dateTime hs hn hm h)).trans (Timestamp.ofTicks?_dateTime ht hn hday)

theorem dateTime_survives_ends :
    let d : Date := ⟨10004, 1, 1⟩
    let e : Date := ⟨1900, 2, 28⟩
    let t : TimeOfDay := ⟨23, 59, 59, 999000000⟩
    (d.isValid = true ∧ e.isValid = true ∧ t.isValid = true ∧ t.nanosecond % 1000000 = 0 ∧
      t.nanosecond < 1000000000) ∧
    (∃ x u, dateTimeToSerial .since1904 d t = some x ∧
      Timestamp.ofSerial .since1904 3 x = some u ∧ u.date = d ∧ u.hour = t.hour ∧
        u.minute = t.minute ∧ u.second = t.second ∧ u.subsecondDigits = 3 ∧
          u.subsecond = t.nanosecond / 1000000) ∧
    ∃ x u, dateTimeToSerial .since1900 e t = some x ∧
      Timestamp.ofSerial .since1900 3 x = some u ∧ u.date = e ∧ u.hour = t.hour ∧
        u.minute = t.minute ∧ u.second = t.second ∧ u.subsecondDigits = 3 ∧
          u.subsecond = t.nanosecond / 1000000 := by
  intro d e t
  have hd : d.isValid = true := by decide
  have he : e.isValid = true := by decide
  have ht : t.isValid = true := by decide
  have hm : t.nanosecond % 1000000 = 0 := by decide
  have hn : t.nanosecond < 1000000000 := by decide
  obtain ⟨hdl, hdu⟩ : ¬d.Before DateSystem.since1904.firstDate ∧
      ¬DateSystem.since1904.finalDate.Before d := by
    simp [Date.Before, DateSystem.firstDate, DateSystem.finalDate, d]
  obtain ⟨hel, heu⟩ : ¬e.Before DateSystem.since1900.firstDate ∧
      ¬DateSystem.since1900.finalDate.Before e := by
    simp [Date.Before, DateSystem.firstDate, DateSystem.finalDate, e]
  exact ⟨⟨hd, he, ht, hm, hn⟩, dateTime_survives .since1904 d t hd ht hm hn hdl hdu,
    dateTime_survives .since1900 e t he ht hm hn hel heu⟩

end SheetFormat
