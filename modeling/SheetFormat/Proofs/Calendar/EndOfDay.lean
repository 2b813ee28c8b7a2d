import Mathlib.Tactic.IntervalCases
import SheetFormat.Proofs.Calendar.Instants
import SheetFormat.Proofs.Calendar.Shown
import SheetFormat.Proofs.Number.Sum

namespace SheetFormat

open Binary64

attribute [local instance (2000)] instPowNat
attribute [local irreducible] perUnit limit

namespace TimeOfDay

def settled (t : TimeOfDay) : TimeOfDay := { t with nanosecond := min t.nanosecond 999999999 }

def nanosecondsPerDay : Nat := secondsPerDay * 1000000000

/-- Nanoseconds to midnight. -/
def left (t : TimeOfDay) : Nat :=
  nanosecondsPerDay - (t.secondOfDay * 1000000000 + t.settled.nanosecond)

variable {t : TimeOfDay}

lemma settled_nanosecond_lt (t : TimeOfDay) : t.settled.nanosecond < 1000000000 :=
  (Nat.min_le_right ..).trans_lt (by decide)

lemma timeToSerial_settled (t : TimeOfDay) : timeToSerial t.settled = timeToSerial t := by
  have hm : min t.settled.nanosecond 999999999 = min t.nanosecond 999999999 := by
    rw [settled, Nat.min_assoc, Nat.min_self]
  rw [timeToSerial, timeToSerial, hm]
  rfl

lemma nanosecondsPerDay_eq : nanosecondsPerDay = 86400000000000 := by decide

lemma left_pos (hs : t.secondOfDay < secondsPerDay) : 1 ≤ t.left := by
  have hn := t.settled_nanosecond_lt
  have hs : t.secondOfDay < 86400 := hs
  rw [left, nanosecondsPerDay_eq]
  generalize t.settled.nanosecond = n at hn
  omega

lemma dayFraction_settled (hs : t.secondOfDay < secondsPerDay) :
    t.settled.dayFraction = 1 - t.left / nanosecondsPerDay := by
  have hn := t.settled_nanosecond_lt
  have hs : t.secondOfDay < 86400 := hs
  have ht : t.settled.secondOfDay = t.secondOfDay := rfl
  rw [dayFraction, ht, left, nanosecondsPerDay_eq, cast_secondsPerDay]
  generalize t.settled.nanosecond = n at hn
  rw [Nat.cast_sub (by omega)]
  push_cast
  field_simp
  ring

lemma left_apart {l k : Nat} (hl : 1 ≤ l) (hk : k ≤ 26) :
    nanosecondsPerDay * 2 ^ k + nanosecondsPerDay * 4 < l * 2 ^ 53 ∨
      l * 2 ^ 53 + nanosecondsPerDay * 4 < nanosecondsPerDay * 2 ^ k := by
  rw [nanosecondsPerDay_eq]
  interval_cases k <;> omega

/-- A time stays on its day if more is left of it than half the distance of the serials around. -/
def StaysOn (t : TimeOfDay) (day : Nat) : Prop :=
  nanosecondsPerDay * 2 ^ day.log2 < t.left * 2 ^ 53

instance (t : TimeOfDay) (day : Nat) : Decidable (t.StaysOn day) :=
  inferInstanceAs (Decidable (_ < _))

lemma near_left (hs : t.secondOfDay < secondsPerDay) :
    (timeToSerial t).Near (1 / 2 ^ 51) (1 - t.left / nanosecondsPerDay) := by
  rw [← timeToSerial_settled, ← dayFraction_settled hs]
  exact near_timeToSerial hs t.settled_nanosecond_lt

lemma value_lt_iff {m : Magnitude} {l k : Nat} (hl : 1 ≤ l) (hk : k ≤ 26)
    (hm : |m.value - (1 - l / nanosecondsPerDay)| ≤ 1 / 2 ^ 51) :
    m.value < 1 - 2 ^ k / 2 ^ 53 ↔ nanosecondsPerDay * 2 ^ k < l * 2 ^ 53 := by
  have hd : (0 : ℚ) < nanosecondsPerDay := by
    rw [nanosecondsPerDay_eq]
    norm_num
  obtain ⟨hlow, hhigh⟩ := abs_le.1 hm
  have hq : (l / nanosecondsPerDay : ℚ) * nanosecondsPerDay = l := div_mul_cancel₀ _ hd.ne'
  rcases left_apart hl hk with h | h
  · have h' : (nanosecondsPerDay * 2 ^ k + nanosecondsPerDay * 4 : ℚ) < l * 2 ^ 53 := by
      exact_mod_cast h
    refine iff_of_true ?_ (by omega)
    have hc : (2 ^ k + 4 : ℚ) < l / nanosecondsPerDay * 2 ^ 53 := by
      rw [div_mul_eq_mul_div, lt_div_iff₀ hd]
      linarith
    linarith
  · have h' : (l * 2 ^ 53 + nanosecondsPerDay * 4 : ℚ) < nanosecondsPerDay * 2 ^ k := by
      exact_mod_cast h
    refine iff_of_false ?_ (by omega)
    have hc : l / nanosecondsPerDay * 2 ^ 53 < (2 ^ k - 4 : ℚ) := by
      rw [div_mul_eq_mul_div, div_lt_iff₀ hd]
      linarith
    linarith

lemma exists_timeToSerial (hs : t.secondOfDay < secondsPerDay) :
    ∃ m : Magnitude, timeToSerial t = finite false m ∧ m.quanta < perUnit ∧
      ∀ k ≤ 26, (m.value < 1 - 2 ^ k / 2 ^ 53 ↔ nanosecondsPerDay * 2 ^ k < t.left * 2 ^ 53) := by
  have hl := left_pos hs
  obtain ⟨m, hm, he⟩ := near_left hs
  refine ⟨m, hm, ?_, fun k hk => value_lt_iff hl hk he⟩
  have hv : m.value < (1 : ℕ) := by
    have h0 := (value_lt_iff hl (Nat.zero_le 26) he).2 (by
      rw [nanosecondsPerDay_eq]
      omega)
    rw [Nat.cast_one]
    linarith
  rwa [Magnitude.value_lt_iff, Nat.one_mul] at hv

end TimeOfDay

variable {s : DateSystem} {d : Date} {t : TimeOfDay} {n : Nat}

/-- The time of a day is less than one. Added to a day it leaves it only for the next midnight, and
only if the time is that close to it; a serial that is still on the day shows its date, if serials
of that day show dates at all. -/
theorem dateTime_keeps_day (ht : t.InRange) (hd : dateToSerial s d = some (ofNat n))
    (h1 : 1 ≤ n) :
    le 0 (timeToSerial t) = true ∧ (timeToSerial t).lt 1 = true ∧
      ∃ x, dateTimeToSerial s d t = some x ∧
        (ofNat n).le x = true ∧ x.le (ofNat (n + 1)) = true ∧
        (x.lt (ofNat (n + 1)) = true ↔ t.StaysOn n) ∧
        (x.lt (ofNat (n + 1)) = true → n < serialLimit → serialToDate s x = some d) ∧
        (serialLimit ≤ n → serialToDate s x = none) := by
  obtain ⟨k, hk, hday, hnk⟩ := exists_day_of_dateToSerial hd
  obtain rfl := ofNat_inj hk hnk
  have hb := DateSystem.dayOfDate?_lt hday
  obtain ⟨m, hm, hq, hstays⟩ := TimeOfDay.exists_timeToSerial (TimeOfDay.secondOfDay_lt ht)
  obtain ⟨x, hx, -, hl, hu⟩ := exists_ofNat_add hk hq
  have hlow : (ofNat n).le (finite false x) = true := (le_ofNat_iff hk.le).2 (Int.ofNat_le.2 hl)
  have hlog : n.log2 ≤ 26 :=
    Nat.le_of_lt_succ ((Nat.log2_lt (Nat.one_le_iff_ne_zero.1 h1)).2 hb)
  refine ⟨?_, ?_, ofNat n + timeToSerial t, ?_, ?_, ?_, ?_, ?_, fun hn => ?_⟩
  · rw [hm, zero_le_iff]
    exact Int.natCast_nonneg _
  · rw [hm]
    apply (lt_ofNat_iff (by decide)).2
    rw [Nat.one_mul]
    exact Int.ofNat_lt.2 hq
  · rw [dateTimeToSerial, hd, Option.map_some]
  · rw [hm, hx]
    exact hlow
  · rw [hm, hx]
    exact (finite_le_ofNat_iff (Nat.succ_le_of_lt hk)).2 (Int.ofNat_le.2 hu)
  · rw [hm, ofNat_add_lt_iff h1 (hb.trans (by decide)) hq]
    exact hstays _ hlog
  · intro hlt hn
    rw [hm, hx] at hlt ⊢
    rw [serialToDate_of_between hn hlow hlt]
    apply DateSystem.dateOfDay?_of_dayOfDate? hn.le _ hday
    cases s with
    | since1900 => exact h1
    | since1904 => exact Nat.zero_le n
  · rw [hm, hx]
    exact serialToDate_of_limit_le hn hk.le hlow

theorem dateTime_keeps_day_leap_second :
    let s := DateSystem.since1900
    let d : Date := ⟨1900, 1, 31⟩
    let e : Date := ⟨2024, 1, 1⟩
    let t : TimeOfDay := ⟨23, 59, 59, 1999999999⟩
    let u : TimeOfDay := ⟨23, 59, 58, 1999999999⟩
    (t.InRange ∧ u.InRange ∧ dateToSerial s d = some (ofNat 31) ∧
      dateToSerial s e = some (ofNat 45292) ∧ t.StaysOn 31 ∧ ¬t.StaysOn 45292 ∧
      u.StaysOn 45292) ∧
    (timeToSerial t).lt 1 = true ∧
    (∃ x, dateTimeToSerial s d t = some x ∧ (ofNat 31).le x = true ∧ x.lt (ofNat 32) = true ∧
      serialToDate s x = some d) ∧
    (∃ x, dateTimeToSerial s e t = some x ∧ (ofNat 45292).le x = true ∧
      x.le (ofNat 45293) = true ∧ x.lt (ofNat 45293) = false) ∧
    ∃ x, dateTimeToSerial s e u = some x ∧ x.lt (ofNat 45293) = true ∧
      serialToDate s x = some e := by
  intro s d e t u
  have ht : t.InRange := by decide
  have hu : u.InRange := by decide
  have hd : dateToSerial s d = some (ofNat 31) := dateToSerial_of_dayOfDate? (by decide)
  have he : dateToSerial s e = some (ofNat 45292) := dateToSerial_of_dayOfDate? (by decide)
  have hdt : t.StaysOn 31 := by decide
  have het : ¬t.StaysOn 45292 := by decide
  have heu : u.StaysOn 45292 := by decide
  obtain ⟨-, h1, x, hx, hxl, -, hxs, hxd, -⟩ := dateTime_keeps_day ht hd (by decide)
  obtain ⟨-, -, y, hy, hyl, hyu, hys, -, -⟩ := dateTime_keeps_day ht he (by decide)
  obtain ⟨-, -, z, hz, -, -, hzs, hzd, -⟩ := dateTime_keeps_day hu he (by decide)
  have hxlt := hxs.2 hdt
  have hzlt := hzs.2 heu
  exact ⟨⟨ht, hu, hd, he, hdt, het, heu⟩, h1, ⟨x, hx, hxl, hxlt, hxd hxlt (by decide)⟩,
    ⟨y, hy, hyl, hyu, Bool.eq_false_iff.2 fun h => het (hys.1 h)⟩,
    z, hz, hzlt, hzd hzlt (by decide)⟩

theorem exists_lost_day :
    let s := DateSystem.since1900
    let d : Date := ⟨2024, 1, 1⟩
    let e : Date := ⟨10000, 1, 1⟩
    let t : TimeOfDay := ⟨23, 59, 59, 999999999⟩
    (dateToSerial s d = some (ofNat 45292) ∧ dateTimeToSerial s d t = some (ofNat 45293) ∧
      serialToDate s (ofNat 45293) = some ⟨2024, 1, 2⟩) ∧
    (dateToSerial s e = some (ofNat 2958466) ∧
      dateTimeToSerial s e .midnight = some (ofNat 2958466) ∧
      serialToDate s (ofNat 2958466) = none) ∧
    (¬∀ s (d : Date) (t : TimeOfDay) n, d.isValid = true → t.isValid = true →
      dateToSerial s d = some (ofNat n) → 1 ≤ n →
        ∃ x, dateTimeToSerial s d t = some x ∧ x.lt (ofNat (n + 1)) = true) ∧
    ¬∀ s (d : Date) (t : TimeOfDay) n x, d.isValid = true → t.isValid = true →
      dateToSerial s d = some (ofNat n) → 1 ≤ n → dateTimeToSerial s d t = some x →
        (ofNat n).le x = true → x.lt (ofNat (n + 1)) = true → serialToDate s x = some d := by
  intro s d e t
  have hd : dateToSerial s d = some (ofNat 45292) := dateToSerial_of_dayOfDate? (by decide)
  have hdt : dateTimeToSerial s d t = some (ofNat 45293) := by decide +kernel
  have hds : serialToDate s (ofNat 45293) = some ⟨2024, 1, 2⟩ := by
    rw [serialToDate_ofNat (by decide)]
    decide
  have he : dateToSerial s e = some (ofNat 2958466) := dateToSerial_of_dayOfDate? (by decide)
  have het : dateTimeToSerial s e .midnight = some (ofNat 2958466) := by
    rw [dateTimeToSerial, he, timeToSerial_midnight, Option.map_some]
    exact congrArg some (ofNat_add (k := 0) (by decide))
  have hes : serialToDate s (ofNat 2958466) = none := by decide +kernel
  refine ⟨⟨hd, hdt, hds⟩, ⟨he, het, hes⟩, fun h => ?_, fun h => ?_⟩
  · obtain ⟨x, hx, hlt⟩ := h s d t 45292 (by decide) (by decide) hd (by decide)
    obtain rfl := Option.some.inj (hdt.symm.trans hx)
    exact not_lt_self _ hlt
  · have hn := h s e .midnight 2958466 _ (by decide) (by decide) he (by decide) het
      (ofNat_le_self (by decide)) (ofNat_lt_succ (by decide))
    rw [hes] at hn
    cases hn

end SheetFormat
