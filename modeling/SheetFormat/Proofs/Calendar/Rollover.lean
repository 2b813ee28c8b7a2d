import SheetFormat.Proofs.Calendar.Systems
import SheetFormat.Proofs.Number.Product

namespace SheetFormat

open Binary64

attribute [local instance (2000)] instPowNat
attribute [local irreducible] perUnit limit

variable {s : DateSystem} {x : Binary64} {d : Date} {digits k n day : Nat}

lemma exists_day_of_serial (hx : isDateSerial x = true) :
    ∃ n < serialLimit, (ofNat n).le x = true ∧ x.lt (ofNat (n + 1)) = true := by
  have hp := perUnit_pos
  obtain ⟨hf, h0, hl⟩ := (isDateSerial_iff x).1 hx
  obtain ⟨t, m, rfl⟩ := exists_finite hf
  rw [lt_ofNat_iff serialLimit_lt.le] at hl
  rw [← Bool.not_eq_true, lt_zero_iff, not_lt] at h0
  obtain ⟨q, hq⟩ : ∃ q : Nat, signed t m = q := ⟨_, (Int.toNat_of_nonneg h0).symm⟩
  rw [hq] at hl
  have hn : q / perUnit < serialLimit := (Nat.div_lt_iff_lt_mul hp).2 (Int.ofNat_lt.1 hl)
  have he := hn.trans serialLimit_lt
  have hd := Nat.div_add_mod' q perUnit
  have hm := Nat.mod_lt q hp
  refine ⟨q / perUnit, hn, (le_ofNat_iff he.le).2 ?_, (lt_ofNat_iff he).2 ?_⟩
  · rw [hq]
    exact Int.ofNat_le.2 (Nat.div_mul_le_self q perUnit)
  · rw [hq, Nat.succ_mul]
    exact Int.ofNat_lt.2 (by omega)

namespace Timestamp

variable {t : Timestamp}

lemma mul_le_ticks (hk : k ≤ 3) (hn : n < serialLimit) (hl : (ofNat n).le x = true)
    (hu : x.lt (ofNat (n + 1)) = true) : n * (secondsPerDay * 10 ^ k) ≤ ticks k x := by
  have he := hn.trans serialLimit_lt
  have ht := ticksPerDay_le hk
  have hp : n * (secondsPerDay * 10 ^ k) ≤ exactLimit :=
    (Nat.mul_le_mul hn.le ht).trans (by decide)
  obtain ⟨negative, m, rfl, hm, -⟩ := exists_between he.le he hl hu
  cases negative with
  | false =>
    have hq : n * perUnit ≤ m.quanta := Int.ofNat_le.1 hm
    rw [ticks, toNat64_round_mul m (ht.trans (by decide))]
    refine le_min (Magnitude.le_nearestProduct (aligned_whole hp) ?_) (hp.trans (by decide))
    rw [Nat.mul_right_comm]
    exact Nat.mul_le_mul_right _ hq
  | true =>
    have h0 : n * perUnit = 0 := by
      have hm : ((n * perUnit : Nat) : Int) ≤ -(m.quanta : Int) := hm
      omega
    rw [(Nat.mul_eq_zero.1 h0).resolve_right perUnit_pos.ne', Nat.zero_mul]
    exact Nat.zero_le _

lemma ticks_le_of_le (hx : isDateSerial x = true) (hk : k ≤ 3) (hn : n ≤ serialLimit)
    (h : x.le (ofNat n) = true) : ticks k x ≤ n * (secondsPerDay * 10 ^ k) := by
  obtain ⟨hf, h0, -⟩ := (isDateSerial_iff x).1 hx
  exact ticks_le_mul (atMost_of_le (hn.trans serialLimit_lt.le) hf h0 h) hn hk

lemma midnight_of_clockTicks (h : t.clockTicks = 0) :
    t.hour = 0 ∧ t.minute = 0 ∧ t.second = 0 ∧ t.subsecond = 0 := by
  obtain ⟨hm, hs⟩ := Nat.add_eq_zero_iff.1 h
  have hp : 10 ^ t.subsecondDigits ≠ 0 := (Nat.pow_pos (by decide)).ne'
  have := (Nat.mul_eq_zero.1 hm).resolve_right hp
  omega

lemma Splits.day_cases (h : t.Splits s k n) (hl : day * (secondsPerDay * 10 ^ k) ≤ n)
    (hu : n ≤ (day + 1) * (secondsPerDay * 10 ^ k)) :
    s.dateOfDay? day = some t.date ∧ t.weekday = s.weekdayOfDay day ∨
      s.dateOfDay? (day + 1 : Nat) = some t.date ∧ t.weekday = s.weekdayOfDay (day + 1 : Nat) ∧
        t.hour = 0 ∧ t.minute = 0 ∧ t.second = 0 ∧ t.subsecond = 0 := by
  have hp : 0 < secondsPerDay * 10 ^ k := Nat.mul_pos (by decide) (Nat.pow_pos (by decide))
  have hd := h.date
  have hw := h.weekday
  rcases Nat.lt_or_eq_of_le hu with hlt | rfl
  · have hq : n / (secondsPerDay * 10 ^ k) = day := by
      rw [Nat.div_eq_iff hp, Nat.add_sub_assoc hp]
      rw [Nat.succ_mul] at hlt
      omega
    rw [hq] at hd hw
    exact .inl ⟨hd, hw⟩
  · have hc := h.clock
    rw [Nat.mul_mod_left] at hc
    rw [Nat.mul_div_cancel _ hp] at hd hw
    exact .inr ⟨hd, hw, midnight_of_clockTicks hc⟩

/-- The date and weekday of a timestamp are those of the day in which its serial lies, or at
midnight those of the next. For a whole serial it is the midnight of its date. -/
theorem ofSerial_keeps_day (digits : Nat) (h : serialToDate s x = some d) :
    ∃ n t, n < serialLimit ∧ (ofNat n).le x = true ∧ x.lt (ofNat (n + 1)) = true ∧
      ofSerial s digits x = some t ∧
      (serialToDate s (ofNat n) = some t.date ∧ serialToWeekday s (ofNat n) = t.weekday + 1 ∨
        s.dateOfDay? (n + 1 : Nat) = some t.date ∧ t.weekday = s.weekdayOfDay (n + 1 : Nat) ∧
          t.hour = 0 ∧ t.minute = 0 ∧ t.second = 0 ∧ t.subsecond = 0) ∧
      (x.le (ofNat n) = true → t = midnight s (min digits 3) n d) := by
  have hx : isDateSerial x = true := by
    by_contra hx
    rw [serialToDate, if_neg hx] at h
    cases h
  obtain ⟨n, hn, hl, hu⟩ := exists_day_of_serial hx
  have hk := Nat.min_le_right digits 3
  have he := hn.trans serialLimit_lt
  have hlow := mul_le_ticks hk hn hl hu
  obtain ⟨t, ht⟩ := Option.isSome_iff_exists.1 ((isSome_ofSerial s digits x).trans hx)
  refine ⟨n, t, hn, hl, hu, ht, ?_, fun hw => ?_⟩
  · rw [serialToDate_ofNat hn, serialToWeekday_ofNat s he, Nat.succ_inj]
    have hup := ticks_le_of_le hx hk hn (le_of_lt_true hu)
    refine ((splits_of_ofSerial ht).2.day_cases hlow hup).imp_left (And.imp_right Eq.symm)
  · have hticks := (ticks_le_of_le hx hk hn.le hw).antisymm hlow
    rw [serialToDate_of_between hn hl hu] at h
    rw [ofSerial, if_pos hx, hticks, ofTicks?_day, h, Option.map_some] at ht
    exact (Option.some.inj ht).symm

theorem ofSerial_keeps_day_rollover :
    let s := DateSystem.since1900
    let x := ofQuotient false 1727996 864000
    serialToDate s x = some ⟨1900, 1, 1⟩ ∧
      ∃ n t, n < serialLimit ∧ (ofNat n).le x = true ∧ x.lt (ofNat (n + 1)) = true ∧
        ofSerial s 0 x = some t ∧ t.date = ⟨1900, 1, 2⟩ ∧
        (serialToDate s (ofNat n) = some t.date ∧ serialToWeekday s (ofNat n) = t.weekday + 1 ∨
          s.dateOfDay? (n + 1 : Nat) = some t.date ∧ t.weekday = s.weekdayOfDay (n + 1 : Nat) ∧
            t.hour = 0 ∧ t.minute = 0 ∧ t.second = 0 ∧ t.subsecond = 0) := by
  intro s x
  have hd : serialToDate s x = some ⟨1900, 1, 1⟩ := by decide +kernel
  have hx : ofSerial s 0 x = some ⟨⟨1900, 1, 2⟩, 1, 0, 0, 0, 0, 0, 172800⟩ := by decide +kernel
  obtain ⟨n, t, hn, hl, hu, ht, hc, -⟩ := ofSerial_keeps_day 0 hd
  have he := Option.some.inj (hx.symm.trans ht)
  exact ⟨hd, n, t, hn, hl, hu, ht, he ▸ rfl, hc⟩

end Timestamp

end SheetFormat
