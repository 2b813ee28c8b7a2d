import SheetFormat.Proofs.Calendar.Systems
import SheetFormat.Proofs.Number.Positive

/-! The serials of dates and times are positive, but for the first instant of a system. -/

namespace SheetFormat

open Binary64

attribute [local instance (2000)] instPowNat
attribute [local irreducible] perUnit limit

namespace DateSystem

variable {s : DateSystem} {d : Date} {n : Nat}

lemma dayOfDate?_epoch (s : DateSystem) : s.dayOfDate? s.epoch = some 0 := by
  cases s <;> decide

lemma eq_epoch_of_dayOfDate? (h : s.dayOfDate? d = some 0) : d = s.epoch :=
  eq_of_dayOfDate? h s.dayOfDate?_epoch

end DateSystem

namespace TimeOfDay

def midnight : TimeOfDay := ⟨0, 0, 0, 0⟩

variable {t : TimeOfDay}

lemma eq_midnight (hs : t.secondOfDay = 0) (hn : t.nanosecond = 0) : t = midnight := by
  obtain ⟨hour, minute, second, nanosecond⟩ := t
  simp only [secondOfDay] at hs hn
  simp only [midnight, mk.injEq]
  omega

end TimeOfDay

def instantQuanta : Nat := 2 ^ (1027 : Nat)

lemma instantQuanta_eq_pow : ∃ j ≤ 1027, instantQuanta = 2 ^ j := by
  have h : instantQuanta = 2 ^ (1027 : Nat) := instantQuanta.eq_1
  generalize (1027 : Nat) = j at h ⊢
  exact ⟨j, le_rfl, h⟩

lemma instantQuanta_pos : 0 < instantQuanta := by
  obtain ⟨j, -, h⟩ := instantQuanta_eq_pow
  rw [h]
  exact Nat.two_pow_pos j

lemma instantQuanta_le : instantQuanta ≤ limit := by
  obtain ⟨j, hj, h⟩ := instantQuanta_eq_pow
  rw [h]
  exact two_pow_le_limit (hj.trans (by decide))

lemma spacing_instantQuanta : Rounding.spacing 53 instantQuanta ∣ instantQuanta := by
  obtain ⟨j, -, h⟩ := instantQuanta_eq_pow
  rw [h]
  exact Rounding.spacing_dvd_two_pow (by decide) j

attribute [local irreducible] instantQuanta

lemma atLeast_seconds {t : TimeOfDay} (ht : t ≠ .midnight) :
    (ofNat t.secondOfDay + ofNat (min t.nanosecond 999999999) / ofNat 1000000000).AtLeast
      (instantQuanta * secondsPerDay) := by
  obtain ⟨k, hk, h0, hl, hp, hq⟩ : ∃ k, Rounding.spacing 53 k ∣ k ∧ 0 < k ∧ k ≤ limit ∧
      k * 1000000000 ≤ perUnit ∧ instantQuanta * secondsPerDay ≤ k :=
    ⟨2 ^ (1044 : Nat), by decide +kernel, by decide +kernel, by decide +kernel, by decide +kernel,
      by decide +kernel⟩
  have hn : min t.nanosecond 999999999 ≤ exactLimit := (Nat.min_le_right ..).trans (by decide)
  have hb : 1000000000 ≤ exactLimit := by decide
  refine AtLeast.mono ?_ hq
  rcases Nat.eq_zero_or_pos t.secondOfDay with hs | hs
  · have hm : 0 < t.nanosecond := Nat.pos_of_ne_zero fun h => ht (TimeOfDay.eq_midnight hs h)
    have hf : k * 1000000000 ≤ min t.nanosecond 999999999 * perUnit :=
      hp.trans (Nat.le_mul_of_pos_left perUnit (by omega))
    have ha := (atLeast_zero_ofNat t.secondOfDay).add (atLeast_ofNat_div hk hl hn (by decide) hb hf)
    rw [Nat.zero_add] at ha
    exact ha h0 hk hl
  · have hw : k ≤ t.secondOfDay * perUnit :=
      calc k ≤ k * 1000000000 := Nat.le_mul_of_pos_right k (by decide)
        _ ≤ perUnit := hp
        _ ≤ t.secondOfDay * perUnit := Nat.le_mul_of_pos_left perUnit hs
    exact (atLeast_ofNat hk hl hw).add (atLeast_zero_ofNat_div hn (by decide) hb) h0 hk hl

lemma atLeast_timeToSerial {t : TimeOfDay} (ht : t ≠ .midnight) :
    (timeToSerial t).AtLeast instantQuanta := by
  have h0 : 0 < instantQuanta * secondsPerDay := Nat.mul_pos instantQuanta_pos (by decide)
  have hd : secondsPerDay ≤ exactLimit := by decide
  rw [timeToSerial]
  exact (atLeast_seconds ht).div_ofNat spacing_instantQuanta instantQuanta_le h0 hd

lemma timeToSerial_midnight : timeToSerial .midnight = 0 := by decide +kernel

lemma atLeast_zero_timeToSerial (t : TimeOfDay) : (timeToSerial t).AtLeast 0 := by
  by_cases ht : t = .midnight
  · rw [ht, timeToSerial_midnight]
    exact atLeast_ofNat (by decide) (Nat.zero_le _) (Nat.zero_le _)
  · exact (atLeast_timeToSerial ht).mono (Nat.zero_le _)

variable {s : DateSystem} {d : Date} {t : TimeOfDay} {n : Nat} {x : Binary64}

lemma instantQuanta_le_perUnit : instantQuanta ≤ perUnit := by
  obtain ⟨j, hj, h⟩ := instantQuanta_eq_pow
  rw [h]
  exact two_pow_le_perUnit (hj.trans (by decide))

lemma atLeast_day (hn : n ≠ 0) : (ofNat n).AtLeast instantQuanta :=
  atLeast_ofNat spacing_instantQuanta instantQuanta_le <|
    calc instantQuanta ≤ perUnit := instantQuanta_le_perUnit
      _ ≤ n * perUnit := Nat.le_mul_of_pos_left perUnit (Nat.pos_of_ne_zero hn)

lemma atLeast_day_add (h : n ≠ 0 ∨ t ≠ .midnight) :
    (ofNat n + timeToSerial t).AtLeast instantQuanta := by
  have h0 := instantQuanta_pos
  have hd := spacing_instantQuanta
  have hl := instantQuanta_le
  rcases h with hn | ht
  · exact (atLeast_day hn).add (atLeast_zero_timeToSerial t) h0 hd hl
  · have ha := (atLeast_zero_ofNat n).add (atLeast_timeToSerial ht)
    rw [Nat.zero_add] at ha
    exact ha h0 hd hl

lemma dateToSerial_epoch (s : DateSystem) : dateToSerial s s.epoch = some 0 := by
  rw [dateToSerial, s.dayOfDate?_epoch, Option.map_some]
  rfl

lemma dateTimeToSerial_epoch (s : DateSystem) :
    dateTimeToSerial s s.epoch .midnight = some 0 := by
  have h0 : (0 : Binary64) + 0 = 0 := ofNat_add (Nat.zero_le _)
  rw [dateTimeToSerial, dateToSerial_epoch, Option.map_some, timeToSerial_midnight, h0]

lemma zero_lt_dateToSerial (h : dateToSerial s d = some x) (hd : d ≠ s.epoch) :
    lt 0 x = true := by
  obtain ⟨n, hn, rfl⟩ := Option.map_eq_some_iff.1 h
  have h0 : n ≠ 0 := by
    rintro rfl
    exact hd (DateSystem.eq_epoch_of_dayOfDate? hn)
  exact (atLeast_day h0).zero_lt instantQuanta_pos

lemma zero_lt_dateTimeToSerial (h : dateTimeToSerial s d t = some x)
    (hd : d ≠ s.epoch ∨ t ≠ .midnight) : lt 0 x = true := by
  obtain ⟨y, hy, rfl⟩ := Option.map_eq_some_iff.1 h
  obtain ⟨n, hn, rfl⟩ := Option.map_eq_some_iff.1 hy
  apply AtLeast.zero_lt _ instantQuanta_pos
  apply atLeast_day_add
  refine hd.imp_left fun he h0 => ?_
  rw [h0] at hn
  exact he (DateSystem.eq_epoch_of_dayOfDate? hn)

lemma dateToSerial_of_before (h : d.Before ⟨1904, 1, 1⟩) : dateToSerial .since1904 d = none := by
  have he := DateSystem.since1904.isReal_epoch
  rw [dateToSerial, Option.map_eq_none_iff, DateSystem.dayOfDate?, if_neg (by simp)]
  split_ifs with hv
  · have hn := Date.number_lt_of_before (Date.isValid_iff.1 hv).1 he h
    dsimp only
    rw [if_pos (by omega)]
  · rfl

lemma isSome_dateToSerial_lead (h : ¬d.Before ⟨1904, 1, 1⟩) :
    (dateToSerial .since1900 d).isSome = (dateToSerial .since1904 d).isSome := by
  by_cases hv : d.isValid = true
  · rw [dateToSerial_lead (Date.isValid_iff.1 hv).1 h, Option.isSome_map]
  · have hx : d ≠ ⟨1900, 2, 29⟩ := by
      rintro rfl
      exact h (.inl (by decide))
    simp only [dateToSerial, DateSystem.dayOfDate?, hv, hx, Bool.false_eq_true, and_false, if_false]

end SheetFormat
