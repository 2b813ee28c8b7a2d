import SheetFormat.Proofs.Calendar.Start

namespace SheetFormat

open Binary64

attribute [local instance (2000)] instPowNat
attribute [local irreducible] perUnit limit

namespace DateSystem

open Date

variable {s : DateSystem} {d : Date} {n : Nat}

def IsEve (s : DateSystem) (d : Date) : Prop := s = since1900 ∧ d = ⟨1899, 12, 31⟩

lemma isEve_iff (h : s.dayOfDate? d = some n) : s.IsEve d ↔ n < s.firstDay := by
  cases s with
  | since1900 =>
    have hz : since1900.dayOfDate? ⟨1899, 12, 31⟩ = some 0 := since1900.dayOfDate?_epoch
    constructor
    · rintro ⟨-, rfl⟩
      rw [hz] at h
      exact Option.some.inj h ▸ Nat.one_pos
    · intro hn
      obtain rfl := Nat.lt_one_iff.1 hn
      exact ⟨rfl, eq_of_dayOfDate? h hz⟩
  | since1904 => exact iff_of_false (fun h => DateSystem.noConfusion h.1) (Nat.not_lt_zero n)

def earliest : DateSystem → Date
  | since1900 => ⟨1900, 1, 0⟩
  | since1904 => ⟨1904, 1, 1⟩

lemma serialToDate_zero (s : DateSystem) : serialToDate s 0 = some s.earliest := by
  change serialToDate s (.ofNat 0) = _
  rw [serialToDate_ofNat (by decide)]
  cases s <;> decide

lemma before_epoch_or_isEve (hr : d.IsReal) (h : d.Before s.earliest) :
    d.Before s.epoch ∨ s.IsEve d := by
  cases s with
  | since1900 =>
    obtain ⟨year, month, day⟩ := d
    have hm := hr.month_le
    have hd := hr.day_le
    have h1 := hr.one_le_month
    simp only [Before, earliest, epoch, IsEve, mk.injEq, true_and] at *
    by_cases hl : year = 1899 ∧ month = 12
    · obtain ⟨rfl, rfl⟩ := hl
      have hd : day ≤ 31 := hd
      omega
    · omega
  | since1904 => exact .inl h

lemma isEve_of_before (hb : d.Before s.earliest) (h : s.dayOfDate? d = some n) : s.IsEve d := by
  rcases dayOfDate?_cases h with ⟨⟨rfl, rfl⟩, rfl⟩ | ⟨-, hv, hn⟩
  · simp [Before, earliest] at hb
  · have hr := (isValid_iff.1 hv).1
    refine (before_epoch_or_isEve hr hb).resolve_left fun he => ?_
    have hl := number_lt_of_before hr s.isReal_epoch he
    rw [hn, dateNumber] at hl
    omega

end DateSystem

variable {s : DateSystem} {d : Date} {x : Binary64}

lemma dateToSerial_of_dayOfDate? {n : Nat} (h : s.dayOfDate? d = some n) :
    dateToSerial s d = some (ofNat n) := by
  rw [dateToSerial, h, Option.map_some]

lemma exists_day_of_dateToSerial (h : dateToSerial s d = some x) :
    ∃ n < exactLimit, s.dayOfDate? d = some n ∧ x = ofNat n := by
  obtain ⟨n, hn, rfl⟩ := Option.map_eq_some_iff.1 h
  exact ⟨n, (DateSystem.dayOfDate?_lt hn).trans (by decide), hn, rfl⟩

lemma serialToDate_of_dateToSerial (h : dateToSerial s d = some x)
    (hx : x.le (ofNat 2958465) = true) : serialToDate s x = some d ↔ ¬s.IsEve d := by
  obtain ⟨n, he, hn, rfl⟩ := exists_day_of_dateToSerial h
  have hl : n < serialLimit := Nat.lt_succ_of_le ((ofNat_le_iff he.le (by decide)).1 hx)
  rw [serialToDate_ofNat hl, DateSystem.isEve_iff hn, Nat.not_lt]
  refine ⟨fun hd => ?_, fun h1 => DateSystem.dateOfDay?_of_dayOfDate? hl.le h1 hn⟩
  by_contra h1
  cases s with
  | since1900 =>
    obtain rfl : n = 0 := Nat.lt_one_iff.1 (Nat.lt_of_not_le h1)
    obtain rfl := Option.some.inj hd
    cases hn
  | since1904 => exact h1 (Nat.zero_le n)

/-- A date is the one that its serial shows, but for the eve of 1900: its serial is 0 and shows a
zeroth of January. No two dates have one serial, and of the dates before the first one shown the eve
is the only one with a serial. -/
theorem shown_iff_not_eve (s : DateSystem) :
    (∀ d x, dateToSerial s d = some x → x.le (ofNat 2958465) = true →
      (serialToDate s x = some d ↔ ¬s.IsEve d)) ∧
    (∀ d e x, dateToSerial s d = some x → dateToSerial s e = some x → d = e) ∧
    serialToDate s 0 = some s.earliest ∧
    ∀ d, d.Before s.earliest → ((dateToSerial s d).isSome = true ↔ s.IsEve d) := by
  refine ⟨fun d x => serialToDate_of_dateToSerial, ?_, s.serialToDate_zero, ?_⟩
  · intro d e x hd he
    obtain ⟨n, hn, hdn, rfl⟩ := exists_day_of_dateToSerial hd
    obtain ⟨k, hk, hek, hx⟩ := exists_day_of_dateToSerial he
    obtain rfl := ofNat_inj hk hx
    exact DateSystem.eq_of_dayOfDate? hdn hek
  · intro d hb
    rw [dateToSerial, Option.isSome_map]
    constructor
    · intro h
      obtain ⟨n, hn⟩ := Option.isSome_iff_exists.1 h
      exact DateSystem.isEve_of_before hb hn
    · rintro ⟨rfl, rfl⟩
      exact Option.isSome_iff_exists.2 ⟨0, DateSystem.since1900.dayOfDate?_epoch⟩

theorem shown_iff_not_eve_extra_day :
    let s := DateSystem.since1900
    let d : Date := ⟨1900, 2, 29⟩
    let e : Date := ⟨9999, 12, 31⟩
    let f : Date := ⟨1899, 12, 30⟩
    (dateToSerial s d = some (ofNat 60) ∧ dateToSerial s e = some (ofNat 2958465) ∧
      (ofNat 60).le (ofNat 2958465) = true ∧ (ofNat 2958465).le (ofNat 2958465) = true ∧
      f.Before s.earliest) ∧
    serialToDate s (ofNat 60) = some d ∧ serialToDate s (ofNat 2958465) = some e ∧
      (∀ c, dateToSerial s c = some (ofNat 60) → c = d) ∧ (dateToSerial s f).isSome = false := by
  intro s d e f
  have hd : dateToSerial s d = some (ofNat 60) := rfl
  have he : dateToSerial s e = some (ofNat 2958465) := dateToSerial_of_dayOfDate? (by decide)
  have hl : (ofNat 60).le (ofNat 2958465) = true :=
    (ofNat_le_iff (by decide) (by decide)).2 (by decide)
  have hu : (ofNat 2958465).le (ofNat 2958465) = true := ofNat_le_self (by decide)
  have hb : f.Before s.earliest := .inl (by decide)
  obtain ⟨hshown, hone, -, hbefore⟩ := shown_iff_not_eve s
  refine ⟨⟨hd, he, hl, hu, hb⟩, (hshown d _ hd hl).2 fun h => ?_, (hshown e _ he hu).2 fun h => ?_,
    fun c hc => hone c d _ hc hd, ?_⟩
  · exact absurd h.2 (by decide)
  · exact absurd h.2 (by decide)
  · rw [← Bool.not_eq_true, hbefore f hb]
    exact fun h => absurd h.2 (by decide)

theorem exists_unshown_date :
    let s := DateSystem.since1900
    let d : Date := ⟨1899, 12, 31⟩
    dateToSerial s d = some (ofNat 0) ∧ (ofNat 0).le (ofNat 2958465) = true ∧
      serialToDate s (ofNat 0) = some ⟨1900, 1, 0⟩ ∧ d.Before ⟨1900, 1, 0⟩ ∧
      (¬∀ s e x, dateToSerial s e = some x → x.le (ofNat 2958465) = true →
        serialToDate s x = some e) ∧
      ¬∀ s e f, serialToDate s (ofNat 0) = some e → f.Before e → dateToSerial s f = none := by
  intro s d
  have hd : dateToSerial s d = some (ofNat 0) := dateToSerial_epoch s
  have hl : (ofNat 0).le (ofNat 2958465) = true :=
    (ofNat_le_iff (Nat.zero_le _) (by decide)).2 (Nat.zero_le _)
  have hz : serialToDate s (ofNat 0) = some ⟨1900, 1, 0⟩ := s.serialToDate_zero
  have hb : d.Before ⟨1900, 1, 0⟩ := .inl (by decide)
  refine ⟨hd, hl, hz, hb, fun h => ?_, fun h => ?_⟩
  · have hs := (h s d _ hd hl).symm.trans hz
    exact absurd (Option.some.inj hs) (by decide)
  · have hn := h s _ d hz hb
    rw [hd] at hn
    cases hn

end SheetFormat
