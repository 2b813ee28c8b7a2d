import Mathlib.Order.Monotone.Basic
import SheetFormat.Calendar.Date

/-! The dates of the calendar in their order, and the days that they number one after the other. -/

namespace SheetFormat.Date

structure IsReal (d : Date) : Prop where
  one_le_month : 1 ≤ d.month
  month_le : d.month ≤ 12
  one_le_day : 1 ≤ d.day
  day_le : d.day ≤ monthLength d.year d.month

def Before (d e : Date) : Prop :=
  d.year < e.year ∨ d.year = e.year ∧
    (d.month < e.month ∨ d.month = e.month ∧ d.day < e.day)

def next (d : Date) : Date :=
  if d.day < monthLength d.year d.month then ⟨d.year, d.month, d.day + 1⟩
  else if d.month < 12 then ⟨d.year, d.month + 1, 1⟩
  else ⟨d.year + 1, 1, 1⟩

variable {d e : Date}

lemma Before.trans {f : Date} (h : d.Before e) (g : e.Before f) : d.Before f := by
  simp only [Before] at *
  omega

lemma before_or_eq_or_before (d e : Date) : d.Before e ∨ d = e ∨ e.Before d := by
  rcases d with ⟨y, m, n⟩
  rcases e with ⟨z, k, l⟩
  simp only [Before, mk.injEq]
  omega

lemma before_next (d : Date) : d.Before d.next := by
  rw [next]
  split_ifs with hd hm
  · exact .inr ⟨rfl, .inr ⟨rfl, Nat.lt_succ_self _⟩⟩
  · exact .inr ⟨rfl, .inl (Nat.lt_succ_self _)⟩
  · exact .inl (Int.lt_succ _)

lemma daysBefore_succ (leap : Bool) : ∀ m < 13, 1 ≤ m →
    ((monthLengths leap).take m).foldr (· + ·) 0 =
      ((monthLengths leap).take (m - 1)).foldr (· + ·) 0 + (monthLengths leap).getD (m - 1) 0 := by
  cases leap <;> decide

lemma daysBefore_mono (leap : Bool) : ∀ m < 13, ∀ k ≤ m,
    ((monthLengths leap).take k).foldr (· + ·) 0 ≤
      ((monthLengths leap).take m).foldr (· + ·) 0 := by
  cases leap <;> decide

lemma monthLength_pos (leap : Bool) : ∀ m < 12, 0 < (monthLengths leap).getD m 0 := by
  cases leap <;> decide

lemma daysBeforeMonth_next {m : Nat} (h1 : 1 ≤ m) (h : m ≤ 12) (y : Int) :
    daysBeforeMonth y (m + 1) = daysBeforeMonth y m + monthLength y m := by
  rw [daysBeforeMonth, daysBeforeMonth, monthLength, if_neg (by omega)]
  exact daysBefore_succ _ m (by omega) h1

lemma daysBeforeMonth_mono {m k : Nat} (hm : m ≤ 13) (h : k ≤ m) (y : Int) :
    daysBeforeMonth y k ≤ daysBeforeMonth y m :=
  daysBefore_mono _ (m - 1) (by omega) (k - 1) (by omega)

lemma daysBeforeMonth_one (y : Int) : daysBeforeMonth y 1 = 0 := rfl

lemma daysBeforeYear_next (y : Int) :
    daysBeforeYear (y + 1) = daysBeforeYear y + daysBeforeMonth y 13 := by
  rw [daysBeforeYear_succ, daysBeforeMonth]
  cases isLeap y <;> rfl

lemma daysBeforeYear_mono {y z : Int} (h : y ≤ z) : daysBeforeYear y ≤ daysBeforeYear z := by
  simp only [daysBeforeYear]
  omega

lemma IsReal.number_lt_month (h : d.IsReal) :
    d.number < daysBeforeYear d.year + daysBeforeMonth d.year (d.month + 1) := by
  have := h.day_le
  rw [daysBeforeMonth_next h.one_le_month h.month_le, number]
  omega

lemma IsReal.month_le_number (h : d.IsReal) :
    daysBeforeYear d.year + daysBeforeMonth d.year d.month ≤ d.number := by
  have := h.one_le_day
  rw [number]
  omega

lemma IsReal.number_lt_year (h : d.IsReal) : d.number < daysBeforeYear (d.year + 1) := by
  have := h.number_lt_month
  have := daysBeforeMonth_mono (k := d.month + 1) le_rfl (Nat.succ_le_succ h.month_le) d.year
  rw [daysBeforeYear_next]
  omega

lemma IsReal.year_le_number (h : d.IsReal) : daysBeforeYear d.year ≤ d.number := by
  have := h.month_le_number
  omega

lemma number_lt_of_before (hd : d.IsReal) (he : e.IsReal) (h : d.Before e) :
    d.number < e.number := by
  rcases h with h | ⟨hy, h | ⟨hm, h⟩⟩
  · calc d.number < daysBeforeYear (d.year + 1) := hd.number_lt_year
      _ ≤ daysBeforeYear e.year := daysBeforeYear_mono h
      _ ≤ e.number := he.year_le_number
  · have hk : d.month + 1 ≤ e.month := h
    have := daysBeforeMonth_mono (he.month_le.trans (Nat.le_succ 12)) hk d.year
    have := hd.number_lt_month
    have := he.month_le_number
    rw [← hy] at this
    omega
  · rw [number, number, hy, hm]
    omega

lemma eq_of_number_eq (hd : d.IsReal) (he : e.IsReal) (h : d.number = e.number) : d = e := by
  rcases before_or_eq_or_before d e with hb | rfl | hb
  · exact absurd h (number_lt_of_before hd he hb).ne
  · rfl
  · exact absurd h (number_lt_of_before he hd hb).ne'

lemma IsReal.next (h : d.IsReal) : d.next.IsReal := by
  have hm := h.month_le
  rw [Date.next]
  split_ifs with hd hy
  · exact ⟨h.one_le_month, h.month_le, Nat.le_add_left 1 _, hd⟩
  · refine ⟨Nat.le_add_left 1 _, hy, le_rfl, ?_⟩
    rw [monthLength, if_neg (by simp)]
    exact monthLength_pos _ d.month hy
  · refine ⟨le_rfl, Nat.le_add_left 1 11, le_rfl, ?_⟩
    rw [monthLength, if_neg Nat.one_ne_zero]
    exact monthLength_pos _ 0 (Nat.succ_pos 11)

lemma IsReal.number_next (h : d.IsReal) : d.next.number = d.number + 1 := by
  have hm := daysBeforeMonth_next h.one_le_month h.month_le d.year
  have hl := h.day_le
  rw [Date.next]
  split_ifs with hd hy
  · simp only [number]
    omega
  · simp only [number, hm]
    omega
  · obtain hm12 : d.month = 12 := by
      have := h.month_le
      omega
    rw [hm12] at hm hl hd
    simp only [number, daysBeforeYear_next, hm12, hm, daysBeforeMonth_one]
    omega

lemma monthOf_eq (lengths : List Nat) (m day : Nat) (h : day < lengths.foldr (· + ·) 0) :
    ∃ i < lengths.length, ∃ k < lengths.getD i 0, monthOf m day lengths = (m + i, k) ∧
      day = (lengths.take i).foldr (· + ·) 0 + k := by
  induction lengths generalizing m day with
  | nil => exact absurd h (Nat.not_lt_zero day)
  | cons length lengths ih =>
    rw [monthOf]
    split_ifs with hd
    · exact ⟨0, Nat.succ_pos _, day, hd, rfl, (Nat.zero_add day).symm⟩
    · rw [List.foldr_cons] at h
      obtain ⟨i, hi, k, hk, hm, hs⟩ := ih (m + 1) (day - length) (by omega)
      refine ⟨i + 1, Nat.succ_lt_succ hi, k, hk, ?_, ?_⟩
      · rw [hm, Nat.add_right_comm, Nat.add_assoc]
      · rw [List.take_succ_cons, List.foldr_cons]
        omega

lemma ofNumber_spec (n : Int) : (ofNumber n).IsReal ∧ (ofNumber n).number = n := by
  have hl := daysBeforeYear_yearOf_le n
  have hu := lt_daysBeforeYear_yearOf n
  rw [daysBeforeYear_next] at hu
  have hy : (n - daysBeforeYear (yearOf n)).toNat <
      (monthLengths (isLeap (yearOf n))).foldr (· + ·) 0 := by
    have : daysBeforeMonth (yearOf n) 13 =
        (monthLengths (isLeap (yearOf n))).foldr (· + ·) 0 := rfl
    omega
  obtain ⟨i, hi, k, hk, hm, hs⟩ := monthOf_eq _ 1 _ hy
  have hd : ofNumber n = ⟨yearOf n, 1 + i, k + 1⟩ := by rw [ofNumber, hm]
  have hi : i < 12 := hi
  rw [hd]
  refine ⟨⟨by simp, by simp; omega, by simp, ?_⟩, ?_⟩
  · rw [monthLength, if_neg (by simp), Nat.add_sub_cancel_left]
    exact hk
  · simp only [number, daysBeforeMonth, Nat.add_sub_cancel_left]
    omega

lemma ofNumber_number (h : d.IsReal) : ofNumber d.number = d :=
  eq_of_number_eq (ofNumber_spec _).1 h (ofNumber_spec _).2

lemma ofNumber_succ (n : Int) : ofNumber (n + 1) = (ofNumber n).next := by
  obtain ⟨hr, hn⟩ := ofNumber_spec n
  apply eq_of_number_eq (ofNumber_spec _).1 hr.next
  rw [(ofNumber_spec _).2, hr.number_next, hn]

lemma yearOf_le {n y : Int} (h : n < daysBeforeYear (y + 1)) : yearOf n ≤ y := by
  by_contra hy
  have := daysBeforeYear_mono (show y + 1 ≤ yearOf n by omega)
  have := daysBeforeYear_yearOf_le n
  omega

lemma isValid_iff :
    d.isValid = true ↔ d.IsReal ∧ firstYear ≤ d.year ∧ d.year ≤ lastYear := by
  have hz : ∀ leap, ∀ m ≥ 12, (monthLengths leap).getD m 0 = 0 := by
    intro leap m hm
    rw [List.getD_eq_getElem?_getD, List.getElem?_eq_none hm]
    rfl
  rw [isValid]
  simp only [Bool.and_eq_true, decide_eq_true_eq]
  constructor
  · rintro ⟨⟨⟨hf, hl⟩, h1⟩, hd⟩
    rw [monthLength] at hd
    split_ifs at hd with hm
    · omega
    · refine ⟨⟨by omega, ?_, h1, ?_⟩, hf, hl⟩
      · by_contra hc
        rw [hz _ _ (by omega)] at hd
        omega
      · rwa [monthLength, if_neg hm]
  · rintro ⟨h, hf, hl⟩
    exact ⟨⟨⟨hf, hl⟩, h.one_le_day⟩, h.day_le⟩

end SheetFormat.Date
