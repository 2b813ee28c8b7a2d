import SheetFormat.Proofs.Render.Failure

namespace SheetFormat

open Binary64

attribute [local instance (2000)] instPowNat

namespace DateSystem

def lastDay : DateSystem → Nat
  | since1900 => 2958465
  | since1904 => 2957003

variable {s : DateSystem} {n : Nat} {d : Date}

lemma lastDay_lt (s : DateSystem) : s.lastDay < serialLimit := by cases s <;> decide

lemma dateOfDay?_lastDay (s : DateSystem) : s.dateOfDay? s.lastDay = some ⟨9999, 12, 31⟩ := by
  cases s <;> decide

lemma dateOfDay?_succ_lastDay (s : DateSystem) :
    s.dateOfDay? (s.lastDay + 1 : Nat) = some ⟨10000, 1, 1⟩ := by
  cases s <;> decide

lemma year_le_of_before {e : Date} (h : d.Before e) : d.year ≤ e.year := by
  simp only [Date.Before] at h
  omega

lemma year_le_iff (hn : n ≤ serialLimit) (hd : s.dateOfDay? n = some d) :
    d.year ≤ 9999 ↔ n ≤ s.lastDay := by
  constructor
  · intro hy
    by_contra h
    have hs := s.dateOfDay?_succ_lastDay
    rcases Nat.eq_or_lt_of_le (Nat.lt_of_not_le h) with he | hlt
    · rw [← he, hs] at hd
      obtain rfl := Option.some.inj hd
      exact absurd hy (by decide)
    · have : 10000 ≤ d.year := year_le_of_before (before_of_day_lt hn hlt hs hd)
      omega
  · intro h
    rcases Nat.eq_or_lt_of_le h with he | hlt
    · rw [he, dateOfDay?_lastDay] at hd
      exact (Option.some.inj hd) ▸ le_rfl
    · exact year_le_of_before (before_of_day_lt s.lastDay_lt.le hlt hd s.dateOfDay?_lastDay)

end DateSystem

namespace Timestamp

variable {s : DateSystem} {digits k n : Nat} {t : Timestamp} {x : Binary64}

lemma Splits.year_le_iff (h : t.Splits s k n)
    (hn : n / (secondsPerDay * 10 ^ k) ≤ serialLimit) :
    t.date.year ≤ 9999 ↔ n < (s.lastDay + 1) * (secondsPerDay * 10 ^ k) := by
  have hp : 0 < secondsPerDay * 10 ^ k := Nat.mul_pos (by decide) (Nat.pow_pos (by decide))
  rw [DateSystem.year_le_iff hn h.date, ← Nat.lt_succ_iff, Nat.div_lt_iff_lt_mul hp]

lemma ticks_lt_of_le (hx : isDateSerial x = true) (hk : k ≤ 3)
    (h : x.le (ofNat s.lastDay) = true) :
    ticks k x < (s.lastDay + 1) * (secondsPerDay * 10 ^ k) := by
  have hp : 0 < secondsPerDay * 10 ^ k := Nat.mul_pos (by decide) (Nat.pow_pos (by decide))
  have hl := s.lastDay_lt.trans serialLimit_lt
  obtain ⟨hf, h0, -⟩ := (isDateSerial_iff x).1 hx
  have ht := ticks_le_mul (atMost_of_le hl.le hf h0 h) s.lastDay_lt.le hk
  rw [Nat.succ_mul]
  omega

end Timestamp

/-- The year of a serial is at most 9999 exactly if its ticks do not pass the end of the last day of
its system. A date has a text exactly if its serial has a timestamp, and it has none from the end of
the last day of the system of 1900 on, whichever its own system is. -/
theorem year_le_iff_ticks_lt (x : Binary64) :
    (∀ s digits t, Timestamp.ofSerial s digits x = some t →
      (t.date.year ≤ 9999 ↔ Timestamp.ticks (min digits 3) x <
        (s.lastDay + 1) * (secondsPerDay * 10 ^ min digits 3)) ∧
      (x.le (ofNat s.lastDay) = true → t.date.year ≤ 9999)) ∧
    ∀ (f : NumberFormat) o parts, x.isFinite = true → (f.select x).1.body = .date parts →
      ((∃ w, f.render? o x = .ok w) ↔
        ∃ t, Timestamp.ofSerial o.system (subsecondDigits parts) x = some t) ∧
      ((ofNat (DateSystem.since1900.lastDay + 1)).le x = true →
        f.render? o x = .error (.dateOutOfRange x)) := by
  refine ⟨?_, ?_⟩
  · intro s digits t h
    obtain ⟨hx, hs⟩ := Timestamp.splits_of_ofSerial h
    have hk := Nat.min_le_right digits 3
    have hy := hs.year_le_iff (Timestamp.day_le hx hk)
    exact ⟨hy, fun hl => hy.2 (Timestamp.ticks_lt_of_le hx hk hl)⟩
  · intro f o parts hx hb
    have hd : (f.select x).1.isDate = true := by rw [Section.isDate, hb]
    rw [← Option.isSome_iff_exists, Timestamp.isSome_ofSerial, NumberFormat.render?_finite f o hx]
    rcases (f.select x).1.renderNumber_cases (f.select x).2 o x with ⟨-, hs, he⟩ | ⟨hs, w, hw⟩
    · rw [he, hs]
      exact ⟨by simp, fun _ => rfl⟩
    · have hs := hs.resolve_left (by simp [hd])
      rw [hw, hs]
      refine ⟨by simp, fun hl => ?_⟩
      have hn := (not_isDateSerial_iff hx).2 (.inr hl)
      rw [hs] at hn
      cases hn

theorem year_le_iff_ticks_lt_ends :
    let x := ofNat 2957003
    let t : Timestamp := ⟨⟨9999, 12, 31⟩, 5, 0, 0, 0, 0, 2, 255485059200⟩
    let f := NumberFormat.ofSections [] [⟨.date [.field .longYear], none⟩]
    let y := ofNat (DateSystem.since1900.lastDay + 1)
    (Timestamp.ofSerial .since1904 2 x = some t ∧
        x.le (ofNat DateSystem.since1904.lastDay) = true) ∧
      t.date.year ≤ 9999 ∧
      (y.isFinite = true ∧ (f.select y).1.body = .date [.field .longYear] ∧ y.le y = true) ∧
      f.render? .standard y = .error (.dateOutOfRange y) := by
  intro x t f y
  have ht : Timestamp.ofSerial .since1904 2 x = some t := by decide +kernel
  have hx : x.le (ofNat DateSystem.since1904.lastDay) = true := ofNat_le_self (by decide)
  have hy : y.isFinite = true := by decide +kernel
  have hl : y.le y = true := ofNat_le_self (by decide)
  exact ⟨⟨ht, hx⟩, ((year_le_iff_ticks_lt x).1 _ _ t ht).2 hx, ⟨hy, rfl, hl⟩,
    ((year_le_iff_ticks_lt y).2 f .standard _ hy rfl).2 hl⟩

theorem exists_year_after_last :
    let x := ofNat 2958465
    let y := ofQuotient false 2958465999999 1000000
    (∃ t, Timestamp.ofSerial .since1904 0 x = some t ∧ t.date = ⟨10004, 1, 1⟩) ∧
      (∃ t, Timestamp.ofSerial .since1900 0 y = some t ∧ t.date = ⟨10000, 1, 1⟩) ∧
      ¬∀ s digits x t, Timestamp.ofSerial s digits x = some t → t.date.year ≤ 9999 := by
  intro x y
  have hx : Timestamp.ofSerial .since1904 0 x =
      some ⟨⟨10004, 1, 1⟩, 4, 0, 0, 0, 0, 0, 255611376000⟩ := by decide +kernel
  have hy : Timestamp.ofSerial .since1900 0 y =
      some ⟨⟨10000, 1, 1⟩, 6, 0, 0, 0, 0, 0, 255611462400⟩ := by decide +kernel
  refine ⟨⟨_, hx, rfl⟩, ⟨_, hy, rfl⟩, fun h => ?_⟩
  exact absurd (h _ _ _ _ hx) (by decide)

end SheetFormat
