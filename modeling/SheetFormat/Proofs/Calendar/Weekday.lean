import SheetFormat.Proofs.Calendar.Systems

namespace SheetFormat

open Binary64

namespace Date

/-- The weekday of a date, Sunday being 0. January and February count as the thirteenth and the
fourteenth month of the year before, so that a leap day is the last day of its year. -/
def weekday (d : Date) : Nat :=
  let year := if d.month < 3 then d.year - 1 else d.year
  let month := if d.month < 3 then d.month + 12 else d.month
  ((d.day + (13 * (month + 1) / 5 : Nat) + year + year / 4 - year / 100 + year / 400 + 6) % 7).toNat

variable {d : Date}

lemma daysBefore_eq (leap : Bool) : ∀ m < 13, 1 ≤ m →
    let month := if m < 3 then m + 12 else m
    ((monthLengths leap).take (m - 1)).foldr (· + ·) 0 + (if m < 3 then 400 else 35) =
      13 * (month + 1) / 5 + 28 * month + if 3 ≤ m ∧ leap = true then 1 else 0 := by
  cases leap <;> decide

lemma IsReal.weekday_eq (h : d.IsReal) : d.weekday = ((d.number + 1) % 7).toNat := by
  obtain ⟨year, month, day⟩ := d
  have hm : daysBeforeMonth year month + _ = _ :=
    daysBefore_eq (isLeap year) month (Nat.lt_succ_of_le h.month_le) h.one_le_month
  have hy := daysBeforeYear_succ year
  simp only [weekday, number, daysBeforeYear, add_sub_cancel_right] at hm hy ⊢
  congr 1
  by_cases h3 : month < 3
  · simp only [h3, Nat.not_le.2 h3, if_true, if_false, false_and] at hm ⊢
    omega
  · simp only [h3, Nat.not_lt.1 h3, if_false, true_and] at hm ⊢
    split_ifs at hm hy <;> omega

lemma weekday_ofNumber (n : Int) : (ofNumber n).weekday = ((n + 1) % 7).toNat := by
  obtain ⟨hr, hn⟩ := ofNumber_spec n
  rw [hr.weekday_eq, hn]

lemma IsReal.weekday_next (h : d.IsReal) : d.next.weekday = (d.weekday + 1) % 7 := by
  rw [h.weekday_eq, h.next.weekday_eq, h.number_next]
  omega

example : weekday ⟨2000, 1, 1⟩ = 6 := by decide

end Date

namespace DateSystem

/-- The first day from which on all days have the dates of the calendar. -/
def settledDay : DateSystem → Nat
  | since1900 => extraDay + 1
  | since1904 => 0

variable {s : DateSystem} {d : Date} {n : Nat}

lemma weekdayOfDay_succ (s : DateSystem) (n : Nat) :
    s.weekdayOfDay (n + 1 : Nat) = (s.weekdayOfDay n + 1) % 7 := by
  cases s with
  | since1900 =>
    simp only [weekdayOfDay]
    omega
  | since1904 =>
    simp only [weekdayOfDay]
    omega

lemma number_epoch_since1900 : since1900.epoch.number = 693594 := by decide

lemma weekday_of_settled (h : n ≤ serialLimit) (h1 : s.settledDay ≤ n)
    (hd : s.dateOfDay? n = some d) : d.weekday = s.weekdayOfDay n := by
  cases s with
  | since1900 =>
    have h1 : extraDay < n := h1
    have he := number_epoch_since1900
    rw [since1900.dateOfDay?_eq h (Nat.one_le_of_lt h1) fun hx => h1.ne' hx.2] at hd
    obtain rfl := Option.some.inj hd
    rw [Date.weekday_ofNumber, dateNumber, if_pos ⟨rfl, h1⟩, he, weekdayOfDay]
    omega
  | since1904 =>
    have he : since1904.epoch.number = 695055 := by decide
    rw [since1904.dateOfDay?_eq h h1 fun hx => DateSystem.noConfusion hx.1] at hd
    obtain rfl := Option.some.inj hd
    rw [Date.weekday_ofNumber, dateNumber, if_neg fun hx => DateSystem.noConfusion hx.1, he,
      weekdayOfDay]
    omega

lemma weekday_of_unsettled (h1 : since1900.firstDay ≤ n) (h : n < extraDay)
    (hd : since1900.dateOfDay? n = some d) :
    d.weekday = (since1900.weekdayOfDay n + 1) % 7 := by
  have he := number_epoch_since1900
  rw [since1900.dateOfDay?_eq (h.le.trans (by decide)) h1 fun hx => h.ne hx.2] at hd
  obtain rfl := Option.some.inj hd
  rw [Date.weekday_ofNumber, dateNumber, if_neg fun hx => hx.2.not_gt h, he, weekdayOfDay]
  omega

end DateSystem

/-- From the settled day on the weekday of a serial, and the weekday field of its timestamp, are
those of its date; before it they lag behind by one. From each serial to the next the weekday
advances by one. -/
theorem weekdays_agree (s : DateSystem) :
    (∀ n, s.settledDay ≤ n → n < serialLimit → ∃ d,
      serialToDate s (ofNat n) = some d ∧ serialToWeekday s (ofNat n) = d.weekday + 1 ∧
      ∀ digits, ∃ t, Timestamp.ofSerial s digits (ofNat n) = some t ∧ t.date = d ∧
        t.weekday = d.weekday) ∧
    (∀ n, n + 1 < exactLimit →
      serialToWeekday s (ofNat (n + 1)) = serialToWeekday s (ofNat n) % 7 + 1) ∧
    (s = .since1900 → ∀ n d, s.firstDay ≤ n → n < DateSystem.extraDay →
      serialToDate s (ofNat n) = some d →
      d.weekday = serialToWeekday s (ofNat n) % 7) := by
  refine ⟨?_, ?_, ?_⟩
  · intro n h1 h
    obtain ⟨d, hd⟩ := s.exists_dateOfDay? h.le
    have hw := DateSystem.weekday_of_settled h.le h1 hd
    refine ⟨d, (serialToDate_ofNat h).trans hd, ?_, fun digits => ?_⟩
    · rw [serialToWeekday_ofNat s (h.trans serialLimit_lt), hw]
    · refine ⟨.midnight s (min digits 3) n d, ?_, rfl, hw.symm⟩
      rw [Timestamp.ofSerial_ofNat s digits h, hd, Option.map_some]
  · intro n h
    rw [serialToWeekday_ofNat s h, serialToWeekday_ofNat s (Nat.lt_of_succ_lt h),
      s.weekdayOfDay_succ]
  · rintro rfl n d h1 h hd
    have hl : n < serialLimit := h.trans (by decide)
    rw [serialToDate_ofNat hl] at hd
    rw [serialToWeekday_ofNat _ (hl.trans serialLimit_lt), DateSystem.weekday_of_unsettled h1 h hd]

theorem weekdays_agree_extra_day :
    let s := DateSystem.since1900
    let d : Date := ⟨2000, 1, 1⟩
    let e : Date := ⟨1900, 1, 1⟩
    (s.settledDay ≤ 36526 ∧ 36526 < serialLimit) ∧ 60 + 1 < exactLimit ∧
      (s.firstDay ≤ 1 ∧ 1 < DateSystem.extraDay ∧ serialToDate s (ofNat 1) = some e) ∧
      (serialToDate s (ofNat 36526) = some d ∧ serialToWeekday s (ofNat 36526) = d.weekday + 1) ∧
      serialToWeekday s (ofNat (60 + 1)) = serialToWeekday s (ofNat 60) % 7 + 1 ∧
      e.weekday = serialToWeekday s (ofNat 1) % 7 := by
  intro s d e
  obtain ⟨hs, hn, hf⟩ := weekdays_agree s
  have he : serialToDate s (ofNat 1) = some e := by
    rw [serialToDate_ofNat (by decide)]
    decide
  have hd : serialToDate s (ofNat 36526) = some d := by
    rw [serialToDate_ofNat (by decide)]
    decide
  obtain ⟨d', hd', hw, -⟩ := hs 36526 (by decide) (by decide)
  obtain rfl := Option.some.inj (hd.symm.trans hd')
  exact ⟨by decide, by decide, ⟨by decide, by decide, he⟩, ⟨hd, hw⟩, hn 60 (by decide),
    hf rfl 1 e (by decide) (by decide) he⟩

end SheetFormat
