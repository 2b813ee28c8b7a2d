import SheetFormat.Calendar.Timestamp
import SheetFormat.Proofs.Calendar.Serial
import SheetFormat.Proofs.Number.Bounds

/-! Every serial of a date has a timestamp, and its fields split one count of ticks. -/

namespace SheetFormat

open Binary64

attribute [local instance (2000)] instPowNat

namespace Timestamp

variable {x : Binary64} {digits : Nat}

lemma atMost_serialLimit (hx : isDateSerial x = true) : x.AtMost serialLimit := by
  obtain ⟨hf, hl, hu⟩ := (isDateSerial_iff x).1 hx
  exact atMost_of_lt serialLimit_lt.le hf hl hu

lemma ticksPerDay_le (h : digits ≤ 3) : secondsPerDay * 10 ^ digits ≤ 86400000 :=
  Nat.mul_le_mul_left secondsPerDay (Nat.pow_le_pow_right (by decide) h)

lemma ticks_le_mul {n : Nat} (hx : x.AtMost n) (hn : n ≤ serialLimit) (h : digits ≤ 3) :
    ticks digits x ≤ n * (secondsPerDay * 10 ^ digits) := by
  have hd := ticksPerDay_le h
  have hs : n * (secondsPerDay * 10 ^ digits) ≤ exactLimit :=
    (Nat.mul_le_mul hn hd).trans (by decide)
  apply AtMost.toNat64_le
  apply AtMost.round _ hs
  exact hx.mul_ofNat (hd.trans (by decide)) hs

lemma ticks_le (hx : isDateSerial x = true) (h : digits ≤ 3) :
    ticks digits x ≤ serialLimit * (secondsPerDay * 10 ^ digits) :=
  ticks_le_mul (atMost_serialLimit hx) le_rfl h

lemma day_le (hx : isDateSerial x = true) (h : digits ≤ 3) :
    day digits (ticks digits x) ≤ serialLimit := by
  apply Nat.div_le_of_le_mul
  rw [Nat.mul_comm]
  exact ticks_le hx h

lemma isSome_ofSerial (s : DateSystem) (digits : Nat) (x : Binary64) :
    (ofSerial s digits x).isSome = isDateSerial x := by
  rw [ofSerial]
  by_cases hx : isDateSerial x = true
  · obtain ⟨d, hd⟩ := s.exists_dateOfDay? (day_le hx (Nat.min_le_right digits 3))
    rw [if_pos hx, ofTicks?, hd, hx]
    rfl
  · rw [if_neg hx, (Bool.not_eq_true _).mp hx]
    rfl

def clockTicks (t : Timestamp) : Nat :=
  ((t.hour * 60 + t.minute) * 60 + t.second) * 10 ^ t.subsecondDigits + t.subsecond

structure Splits (s : DateSystem) (k n : Nat) (t : Timestamp) : Prop where
  digits : t.subsecondDigits = k
  hour : t.hour < 24
  minute : t.minute < 60
  second : t.second < 60
  subsecond : t.subsecond < 10 ^ k
  totalSeconds : t.totalSeconds = n / 10 ^ k
  clock : t.clockTicks = n % (secondsPerDay * 10 ^ k)
  date : s.dateOfDay? (n / (secondsPerDay * 10 ^ k) : Nat) = some t.date
  weekday : t.weekday = s.weekdayOfDay (n / (secondsPerDay * 10 ^ k) : Nat)

def Before (t u : Timestamp) : Prop :=
  t.date.Before u.date ∨ t.date = u.date ∧
    (t.hour < u.hour ∨ t.hour = u.hour ∧
      (t.minute < u.minute ∨ t.minute = u.minute ∧
        (t.second < u.second ∨ t.second = u.second ∧ t.subsecond < u.subsecond)))

variable {s : DateSystem} {k n j : Nat} {t u : Timestamp}

lemma splits_of_ofTicks? (h : ofTicks? s k n = some t) : t.Splits s k n := by
  obtain ⟨d, hd, rfl⟩ := Option.map_eq_some_iff.1 h
  refine ⟨rfl, hour_lt s k n d, minute_lt s k n d, second_lt s k n d,
    Nat.mod_lt _ (Nat.pow_pos (by decide)), rfl, ?_, hd, rfl⟩
  have hs : ∀ a, (a / 3600 * 60 + a % 3600 / 60) * 60 + a % 60 = a := by omega
  simp only [clockTicks, ofTicks, hs]
  exact Nat.div_add_mod' _ _

lemma splits_of_ofSerial (h : ofSerial s digits x = some t) :
    isDateSerial x = true ∧ t.Splits s (min digits 3) (ticks (min digits 3) x) := by
  rw [ofSerial] at h
  split at h
  next hx => exact ⟨hx, splits_of_ofTicks? h⟩
  next => cases h

lemma Splits.of_total (h : t.Splits s k n) :
    (t.hour * 60 + t.minute) * 60 + t.second = t.totalSeconds % secondsPerDay ∧
      t.totalSeconds * 10 ^ k + t.subsecond = n := by
  have hc := h.clock
  rw [clockTicks, h.digits] at hc
  have hr : n % 10 ^ k = t.subsecond := by
    rw [← Nat.mod_mul_left_mod n secondsPerDay, ← hc, Nat.mul_add_mod_self_right,
      Nat.mod_eq_of_lt h.subsecond]
  have hq : n / 10 ^ k % secondsPerDay = (t.hour * 60 + t.minute) * 60 + t.second := by
    rw [← Nat.mod_mul_left_div_self, ← hc, Nat.add_comm,
      Nat.add_mul_div_right _ _ (Nat.pow_pos (by decide)), Nat.div_eq_of_lt h.subsecond,
      Nat.zero_add]
  rw [h.totalSeconds, hq, ← hr]
  exact ⟨rfl, Nat.div_add_mod' _ _⟩

lemma lt_of_radix {a b c d r : Nat} (hd : d < r) (h : a * r + b < c * r + d) :
    a < c ∨ a = c ∧ b < d := by
  rcases Nat.lt_trichotomy a c with hlt | rfl | hgt
  · exact .inl hlt
  · exact .inr ⟨rfl, Nat.add_lt_add_iff_left.1 h⟩
  · have := Nat.mul_le_mul_right r (Nat.succ_le_of_lt hgt)
    rw [Nat.succ_mul] at this
    omega

lemma Splits.before (ht : t.Splits s k n) (hu : u.Splits s k j)
    (hj : j / (secondsPerDay * 10 ^ k) ≤ serialLimit) (h : n < j) : t.Before u := by
  rcases Nat.eq_or_lt_of_le (Nat.div_le_div_right (c := secondsPerDay * 10 ^ k) h.le) with hd | hd
  · have hdate : t.date = u.date := Option.some.inj (by rw [← ht.date, hd, hu.date])
    have hc : t.clockTicks < u.clockTicks := by
      have hn := Nat.div_add_mod n (secondsPerDay * 10 ^ k)
      have hj := Nat.div_add_mod j (secondsPerDay * 10 ^ k)
      rw [ht.clock, hu.clock]
      rw [hd] at hn
      omega
    rw [clockTicks, clockTicks, ht.digits, hu.digits] at hc
    have hm := ht.minute
    have hm' := hu.minute
    have hs := ht.second
    have hs' := hu.second
    refine .inr ⟨hdate, ?_⟩
    rcases lt_of_radix hu.subsecond hc with hlt | ⟨heq, hf⟩
    · omega
    · obtain ⟨hh, hm, hs⟩ : t.hour = u.hour ∧ t.minute = u.minute ∧ t.second = u.second := by
        omega
      exact .inr ⟨hh, .inr ⟨hm, .inr ⟨hs, hf⟩⟩⟩
  · exact .inl (s.before_of_day_lt hj hd ht.date hu.date)

end Timestamp

end SheetFormat
