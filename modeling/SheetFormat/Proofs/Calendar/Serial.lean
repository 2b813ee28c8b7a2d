import SheetFormat.Calendar.Serial
import SheetFormat.Proofs.Calendar.Date
import SheetFormat.Proofs.Number.Order

namespace SheetFormat

attribute [local instance (2000)] instPowNat
attribute [local irreducible] perUnit limit

namespace Date

lemma later?_eq_some {d : Date} {k : Nat}
    (h : d.number + k < daysBeforeYear (lastYear + 1)) :
    d.later? k = some (ofNumber (d.number + k)) := if_pos (yearOf_le h)

lemma isValid_ofNumber {n : Int} (h0 : daysBeforeYear firstYear ≤ n)
    (h : n < daysBeforeYear (lastYear + 1)) : (ofNumber n).isValid = true := by
  refine isValid_iff.2 ⟨(ofNumber_spec n).1, ?_, yearOf_le h⟩
  by_contra hy
  have hl := lt_daysBeforeYear_yearOf n
  have := daysBeforeYear_mono (show yearOf n + 1 ≤ firstYear from Int.not_le.1 hy)
  omega

end Date

namespace DateSystem

open Date

def firstDay : DateSystem → Nat
  | since1900 => 1
  | since1904 => 0

def dateNumber (s : DateSystem) (n : Nat) : Int :=
  s.epoch.number + (if s = since1900 ∧ extraDay < n then n - 1 else n : Nat)

def IsExtra (s : DateSystem) (n : Nat) : Prop := s = since1900 ∧ n = extraDay

variable {s : DateSystem} {n k : Nat} {d e : Date}

lemma daysBeforeYear_end : daysBeforeYear (lastYear + 1) = 95745399 := by decide

lemma epoch_bounds (s : DateSystem) : 0 ≤ s.epoch.number ∧ s.epoch.number ≤ 695055 := by
  cases s <;> decide

lemma dateNumber_bounds (s : DateSystem) (h : n ≤ serialLimit) :
    daysBeforeYear firstYear ≤ s.dateNumber n ∧ s.dateNumber n < daysBeforeYear (lastYear + 1) := by
  have hf : daysBeforeYear firstYear = -95746130 := by decide
  have he := s.epoch_bounds
  rw [dateNumber, daysBeforeYear_end, hf]
  rw [serialLimit] at h
  split_ifs <;> omega

lemma dateOfDay?_eq (h : n ≤ serialLimit) (h1 : s.firstDay ≤ n) (hx : ¬s.IsExtra n) :
    s.dateOfDay? n = some (ofNumber (s.dateNumber n)) := by
  have hn := (s.dateNumber_bounds h).2
  cases s with
  | since1900 =>
    have h0 : n ≠ 0 := Nat.ne_of_gt h1
    have he : n ≠ extraDay := fun he => hx ⟨rfl, he⟩
    have ht : (if extraDay < (n : Int) then (n : Int) - 1 else n).toNat =
        if extraDay < n then n - 1 else n := by
      split_ifs <;> omega
    rw [dateOfDay?, if_neg (by omega), if_neg (by omega), if_neg (by omega), ht]
    simp only [dateNumber, true_and] at hn ⊢
    exact later?_eq_some hn
  | since1904 =>
    rw [dateOfDay?, if_neg (by omega)]
    exact later?_eq_some (by simpa [dateNumber] using hn)

lemma dateOfDay?_extraDay : since1900.dateOfDay? extraDay = some ⟨1900, 2, 29⟩ := rfl

lemma exists_dateOfDay? (s : DateSystem) (h : n ≤ serialLimit) :
    ∃ d, s.dateOfDay? n = some d := by
  by_cases hx : s.IsExtra n
  · obtain ⟨rfl, rfl⟩ := hx
    exact ⟨_, dateOfDay?_extraDay⟩
  · by_cases h1 : s.firstDay ≤ n
    · exact ⟨_, dateOfDay?_eq h h1 hx⟩
    · cases s with
      | since1900 =>
        obtain rfl : n = 0 := Nat.lt_one_iff.1 (Nat.lt_of_not_le h1)
        exact ⟨_, rfl⟩
      | since1904 => exact absurd (Nat.zero_le n) h1

lemma dayOfDate?_eq (h : n ≤ serialLimit) (h1 : s.firstDay ≤ n) (hd : s.dateOfDay? n = some d) :
    s.dayOfDate? d = some n := by
  by_cases hx : s.IsExtra n
  · obtain ⟨rfl, rfl⟩ := hx
    obtain rfl := Option.some.inj hd
    rfl
  rw [dateOfDay?_eq h h1 hx] at hd
  obtain rfl := Option.some.inj hd
  obtain ⟨hf, hl⟩ := s.dateNumber_bounds h
  obtain ⟨hr, hn⟩ := ofNumber_spec (s.dateNumber n)
  have hy : ofNumber (s.dateNumber n) ≠ ⟨1900, 2, 29⟩ := by
    intro hy
    rw [hy] at hr
    exact absurd hr.day_le (by decide)
  rw [dayOfDate?, if_neg (fun hc => hy hc.2), if_pos (isValid_ofNumber hf hl), hn]
  dsimp only [dateNumber]
  rw [add_sub_cancel_left, if_neg (by omega), Int.toNat_natCast]
  congr 1
  cases s with
  | since1900 =>
    have h0 : n ≠ 0 := Nat.ne_of_gt h1
    have he : n ≠ extraDay := fun he => hx ⟨rfl, he⟩
    simp only [true_and, extraDay] at he ⊢
    split_ifs <;> omega
  | since1904 => simp

lemma isReal_epoch (s : DateSystem) : s.epoch.IsReal := by
  cases s <;> exact ⟨by decide, by decide, by decide, by decide⟩

lemma dayOfDate?_cases (h : s.dayOfDate? d = some n) :
    s.IsExtra n ∧ d = ⟨1900, 2, 29⟩ ∨
      ¬s.IsExtra n ∧ d.isValid = true ∧ d.number = s.dateNumber n := by
  rw [dayOfDate?] at h
  split_ifs at h with hx hv
  · exact .inl ⟨⟨hx.1, (Option.some.inj h).symm⟩, hx.2⟩
  · dsimp only at h
    split_ifs at h with h0 hc
    · obtain rfl := Option.some.inj h
      have hb : extraDay < (d.number - s.epoch.number).toNat + 1 := by omega
      refine .inr ⟨fun hx => hb.ne' hx.2, hv, ?_⟩
      rw [dateNumber, if_pos ⟨hc.1, hb⟩]
      omega
    · obtain rfl := Option.some.inj h
      have hb : ¬(s = since1900 ∧ extraDay ≤ (d.number - s.epoch.number).toNat) :=
        fun hb => hc ⟨hb.1, by omega⟩
      refine .inr ⟨fun hx => hb ⟨hx.1, hx.2.ge⟩, hv, ?_⟩
      rw [dateNumber, if_neg fun hx => hb ⟨hx.1, hx.2.le⟩]
      omega

lemma dayOfDate?_lt (h : s.dayOfDate? d = some n) : n < 2 ^ 27 := by
  rcases dayOfDate?_cases h with ⟨⟨-, rfl⟩, -⟩ | ⟨-, hv, hn⟩
  · decide
  · obtain ⟨hr, -, hl⟩ := isValid_iff.1 hv
    have hy := daysBeforeYear_mono (show d.year + 1 ≤ lastYear + 1 by omega)
    have hb := hr.number_lt_year
    have he := s.epoch_bounds
    have hd := daysBeforeYear_end
    rw [dateNumber] at hn
    split_ifs at hn <;> omega

lemma dateOfDay?_of_dayOfDate? (hn : n ≤ serialLimit) (h1 : s.firstDay ≤ n)
    (h : s.dayOfDate? d = some n) : s.dateOfDay? n = some d := by
  rcases dayOfDate?_cases h with ⟨⟨rfl, rfl⟩, rfl⟩ | ⟨hx, hv, hd⟩
  · rfl
  · rw [dateOfDay?_eq hn h1 hx, ← hd, ofNumber_number (isValid_iff.1 hv).1]

lemma eq_of_dayOfDate? (hd : s.dayOfDate? d = some n) (he : s.dayOfDate? e = some n) :
    d = e := by
  rcases dayOfDate?_cases hd with ⟨hx, rfl⟩ | ⟨hx, hv, hn⟩
  · rcases dayOfDate?_cases he with ⟨-, rfl⟩ | ⟨hy, -, -⟩
    · rfl
    · exact absurd hx hy
  · rcases dayOfDate?_cases he with ⟨hy, -⟩ | ⟨-, hw, hm⟩
    · exact absurd hy hx
    · exact eq_of_number_eq (isValid_iff.1 hv).1 (isValid_iff.1 hw).1 (hn.trans hm.symm)

lemma dateNumber_succ (h : ¬s.IsExtra n) : s.dateNumber (n + 1) = s.dateNumber n + 1 := by
  cases s with
  | since1900 =>
    have he : n ≠ extraDay := fun he => h ⟨rfl, he⟩
    simp only [dateNumber, true_and]
    split_ifs <;> omega
  | since1904 => simp [dateNumber, add_assoc]

lemma firstDay_le_succ (h : s.firstDay ≤ n) : s.firstDay ≤ n + 1 := h.trans (Nat.le_succ n)

lemma dateOfDay?_succ (h : n + 1 ≤ serialLimit) (h1 : s.firstDay ≤ n)
    (hx : ¬s.IsExtra (n + 1)) (hd : s.dateOfDay? n = some d) :
    s.dateOfDay? (n + 1 : Nat) = some d.next := by
  rw [dateOfDay?_eq h (firstDay_le_succ h1) hx]
  by_cases he : s.IsExtra n
  · obtain ⟨rfl, rfl⟩ := he
    obtain rfl := Option.some.inj hd
    decide
  · rw [dateOfDay?_eq (Nat.le_of_succ_le h) h1 he] at hd
    obtain rfl := Option.some.inj hd
    rw [dateNumber_succ he, ofNumber_succ]

lemma before_of_consecutive (h : n + 1 ≤ serialLimit) (h1 : s.firstDay ≤ n)
    (hd : s.dateOfDay? n = some d) (he : s.dateOfDay? (n + 1 : Nat) = some e) : d.Before e := by
  by_cases hx : s.IsExtra (n + 1)
  · obtain ⟨rfl, hn⟩ := hx
    obtain rfl : n = 59 := Nat.succ.inj hn
    obtain rfl := Option.some.inj he
    rw [dateOfDay?_eq (Nat.le_of_succ_le h) h1 (fun hc => absurd hc.2 (by decide))] at hd
    obtain rfl := Option.some.inj hd
    exact .inr ⟨rfl, .inr ⟨rfl, by decide⟩⟩
  · rw [dateOfDay?_succ h h1 hx hd] at he
    obtain rfl := Option.some.inj he
    exact before_next d

lemma before_of_lt (hk : k ≤ serialLimit) (h1 : s.firstDay ≤ n) (h : n < k)
    (hd : s.dateOfDay? n = some d) (he : s.dateOfDay? k = some e) : d.Before e := by
  induction k, h using Nat.le_induction generalizing e with
  | base => exact before_of_consecutive hk h1 hd he
  | succ k hnk ih =>
    obtain ⟨f, hf⟩ := s.exists_dateOfDay? (Nat.le_of_succ_le hk)
    have hl : s.firstDay ≤ k := h1.trans (Nat.le_of_succ_le hnk)
    exact (ih (Nat.le_of_succ_le hk) hf).trans (before_of_consecutive hk hl hf he)

lemma before_of_day_lt (hk : k ≤ serialLimit) (h : n < k) (hd : s.dateOfDay? n = some d)
    (he : s.dateOfDay? k = some e) : d.Before e := by
  by_cases h1 : s.firstDay ≤ n
  · exact before_of_lt hk h1 h hd he
  cases s with
  | since1900 =>
    obtain rfl : n = 0 := Nat.lt_one_iff.1 (Nat.lt_of_not_le h1)
    obtain rfl := Option.some.inj hd
    have hone : since1900.dateOfDay? (1 : Nat) = some ⟨1900, 1, 1⟩ := by decide
    have hz : (⟨1900, 1, 0⟩ : Date).Before ⟨1900, 1, 1⟩ := .inr ⟨rfl, .inr ⟨rfl, Nat.one_pos⟩⟩
    rcases Nat.eq_or_lt_of_le h with rfl | hlt
    · rw [hone] at he
      exact Option.some.inj he ▸ hz
    · exact hz.trans (before_of_lt (s := since1900) hk le_rfl hlt hone he)
  | since1904 => exact absurd (Nat.zero_le n) h1

end DateSystem

open Binary64

lemma serialLimit_lt : serialLimit < exactLimit := by decide

variable {s : DateSystem} {n : Nat} {d : Date}

lemma isDateSerial_iff (x : Binary64) :
    isDateSerial x = true ↔
      x.isFinite = true ∧ x.lt 0 = false ∧ x.lt (ofNat serialLimit) = true := by
  simp [isDateSerial, and_assoc]

lemma isDateSerial_of_between {x : Binary64} (h : n < serialLimit)
    (hl : (ofNat n).le x = true) (hu : x.lt (ofNat (n + 1)) = true) : isDateSerial x = true := by
  have he := serialLimit_lt
  obtain ⟨t, m, rfl, hm, hn⟩ := exists_between (by omega) (by omega) hl hu
  refine (isDateSerial_iff _).2 ⟨rfl, ?_, ?_⟩
  · rw [← Bool.not_eq_true, lt_zero_iff]
    omega
  · apply (lt_ofNat_iff he.le).2
    exact hn.trans_le (Int.ofNat_le.2 (Nat.mul_le_mul_right _ h))

lemma serialToDate_of_between {x : Binary64} (h : n < serialLimit)
    (hl : (ofNat n).le x = true) (hu : x.lt (ofNat (n + 1)) = true) :
    serialToDate s x = s.dateOfDay? n := by
  rw [serialToDate, if_pos (isDateSerial_of_between h hl hu),
    toInt64_floor (h.trans serialLimit_lt) hl hu]

lemma serialToDate_ofNat (h : n < serialLimit) : serialToDate s (ofNat n) = s.dateOfDay? n :=
  have he := h.trans serialLimit_lt
  serialToDate_of_between h (ofNat_le_self he.le) (ofNat_lt_succ he)

lemma serialToDate_of_limit_le {x : Binary64} (h : serialLimit ≤ n) (he : n ≤ exactLimit)
    (hl : (ofNat n).le x = true) : serialToDate s x = none := by
  rw [serialToDate, if_neg]
  intro hx
  obtain ⟨-, -, hu⟩ := (isDateSerial_iff x).1 hx
  have hn := lt_trans_le hu ((ofNat_le_iff serialLimit_lt.le he).2 h)
  rw [le_eq_false_of_lt hn] at hl
  cases hl

lemma dateToSerial_of_serialToDate (h : n < serialLimit) (h1 : s.firstDay ≤ n)
    (hd : serialToDate s (ofNat n) = some d) : dateToSerial s d = some (ofNat n) := by
  rw [serialToDate_ofNat h] at hd
  rw [dateToSerial, DateSystem.dayOfDate?_eq h.le h1 hd]
  rfl

namespace DateSystem

lemma exists_day (hr : d.IsReal) (hl : 1900 ≤ d.year) (hu : d.year ≤ 9999) :
    ∃ n, since1900.firstDay ≤ n ∧ n < serialLimit ∧ since1900.dateOfDay? n = some d := by
  have h1 : Date.daysBeforeYear 1900 = since1900.epoch.number + 1 := by decide
  have h2 : Date.daysBeforeYear 10000 = since1900.epoch.number + serialLimit - 1 := by decide
  have hn := hr.number_lt_year
  have hy := Date.daysBeforeYear_mono (show d.year + 1 ≤ 10000 by omega)
  have hz := Date.daysBeforeYear_mono hl
  have hm := hr.year_le_number
  obtain ⟨k, hk⟩ : ∃ k : Nat, d.number = since1900.epoch.number + k :=
    ⟨(d.number - since1900.epoch.number).toNat, by omega⟩
  have hb : 1 ≤ k ∧ k + 1 < serialLimit := by omega
  have hd : ∀ n, since1900.firstDay ≤ n → n < serialLimit → n ≠ extraDay →
      (if extraDay < n then n - 1 else n) = k → since1900.dateOfDay? n = some d := by
    intro n hp hs hx hc
    rw [dateOfDay?_eq hs.le hp (fun h => hx h.2), ← Date.ofNumber_number hr, hk]
    simp [dateNumber, hc]
  by_cases hc : k < extraDay
  · exact ⟨k, hb.1, by omega, hd k hb.1 (by omega) hc.ne (if_neg (by omega))⟩
  · exact ⟨k + 1, Nat.le_add_left 1 k, hb.2,
      hd _ (Nat.le_add_left 1 k) hb.2 (by omega) (if_pos (by omega))⟩

end DateSystem

/-- A serial shows one date and that date has no other serial; the next serial shows the next
date, but for the extra day, and the dates of the calendar from 1900 to 9999 are all shown. -/
theorem serialToDate_corresponds (s : DateSystem) :
    (∀ n, s.firstDay ≤ n → n < serialLimit →
      ∃ d, serialToDate s (ofNat n) = some d ∧ dateToSerial s d = some (ofNat n) ∧
        ∀ x : Binary64, (ofNat n).le x = true → x.lt (ofNat (n + 1)) = true →
          serialToDate s x = some d) ∧
    (∀ n d, s.firstDay ≤ n → n + 1 < serialLimit → ¬s.IsExtra (n + 1) →
      serialToDate s (ofNat n) = some d → serialToDate s (ofNat (n + 1)) = some d.next) ∧
    (s = .since1900 → serialToDate s (ofNat 59) = some ⟨1900, 2, 28⟩ ∧
      serialToDate s (ofNat 60) = some ⟨1900, 2, 29⟩ ∧
      serialToDate s (ofNat 61) = some ⟨1900, 3, 1⟩) ∧
    (∀ n k d e, s.firstDay ≤ n → n < k → k < serialLimit →
      serialToDate s (ofNat n) = some d → serialToDate s (ofNat k) = some e → d.Before e) ∧
    (s = .since1900 → ∀ d : Date, d.IsReal → 1900 ≤ d.year → d.year ≤ 9999 →
      ∃! n, (s.firstDay ≤ n ∧ n < serialLimit) ∧ serialToDate s (ofNat n) = some d) := by
  refine ⟨?_, ?_, ?_, ?_, ?_⟩
  · intro n h1 h
    obtain ⟨d, hd⟩ := s.exists_dateOfDay? h.le
    have hs : serialToDate s (ofNat n) = some d := (serialToDate_ofNat h).trans hd
    refine ⟨d, hs, dateToSerial_of_serialToDate h h1 hs, fun x hl hu => ?_⟩
    rw [serialToDate_of_between h hl hu, hd]
  · intro n d h1 h hx hd
    rw [serialToDate_ofNat (Nat.lt_of_succ_lt h)] at hd
    rw [serialToDate_ofNat h]
    exact DateSystem.dateOfDay?_succ h.le h1 hx hd
  · rintro rfl
    refine ⟨?_, ?_, ?_⟩ <;> rw [serialToDate_ofNat (by decide)] <;> decide
  · intro n k d e h1 hnk h hd he
    rw [serialToDate_ofNat (hnk.trans h)] at hd
    rw [serialToDate_ofNat h] at he
    exact DateSystem.before_of_lt h.le h1 hnk hd he
  · rintro rfl d hr hl hu
    obtain ⟨n, h1, h, hd⟩ := DateSystem.exists_day hr hl hu
    refine ⟨n, ⟨⟨h1, h⟩, (serialToDate_ofNat h).trans hd⟩, ?_⟩
    rintro k ⟨⟨hk1, hk⟩, he⟩
    have hn := DateSystem.dayOfDate?_eq h.le h1 hd
    rw [serialToDate_ofNat hk] at he
    rw [DateSystem.dayOfDate?_eq hk.le hk1 he] at hn
    exact Option.some.inj hn

theorem serialToDate_corresponds_extra_day :
    let s := DateSystem.since1900
    let d : Date := ⟨1900, 3, 1⟩
    let e : Date := ⟨2000, 2, 29⟩
    ((s.firstDay ≤ 60 ∧ 61 + 1 < serialLimit) ∧ ¬s.IsExtra (61 + 1) ∧ e.IsReal) ∧
      (∃ c, serialToDate s (ofNat 60) = some c ∧ dateToSerial s c = some (ofNat 60) ∧
        c.Before d) ∧
      serialToDate s (ofNat (61 + 1)) = some d.next ∧
      ∃! n, (s.firstDay ≤ n ∧ n < serialLimit) ∧ serialToDate s (ofNat n) = some e := by
  intro s d e
  have hs : s.firstDay ≤ 60 ∧ 61 + 1 < serialLimit := by decide
  have hx : ¬s.IsExtra (61 + 1) := fun h => absurd h.2 (by decide)
  have he : e.IsReal := ⟨by decide, by decide, by decide, by decide⟩
  obtain ⟨hone, hnext, hextra, hbefore, hall⟩ := serialToDate_corresponds s
  obtain ⟨-, -, hd⟩ := hextra rfl
  obtain ⟨c, hc, hr, -⟩ := hone 60 hs.1 (by decide)
  exact ⟨⟨hs, hx, he⟩, ⟨c, hc, hr, hbefore 60 61 c d hs.1 (by decide) (by decide) hc hd⟩,
    hnext 61 d (by decide) hs.2 hx hd, hall rfl e he (by decide) (by decide)⟩

end SheetFormat
