import Mathlib.Data.Nat.Fib.Basic
import Mathlib.Tactic.NormNum.NatFib
import SheetFormat.Proofs.Number.Product
import SheetFormat.Proofs.Render.Closest
import SheetFormat.Proofs.Render.LowestTerms

/-! Each step of the continued fraction takes a rounded inverse, so that the number drifts away
from the one that was given, by less than two units of `2 ^ -53` in all. -/

namespace SheetFormat

open Rounding

attribute [local instance (2000)] instPowNat
attribute [local irreducible] perUnit limit

namespace Magnitude

lemma value_truncated_add (m : Magnitude) :
    m.value = (m.quanta / perUnit : ℕ) + m.fraction.value := by
  have hq : (m.quanta : ℚ) = (m.quanta / perUnit : ℕ) * perUnit + m.fraction.quanta := by
    exact_mod_cast (Nat.div_add_mod' m.quanta perUnit).symm
  rw [value, value, hq, add_div, mul_div_cancel_right₀ _ Binary64.perUnit_pos_rat.ne']

lemma truncated_le_value (m : Magnitude) : ((m.quanta / perUnit : ℕ) : ℚ) ≤ m.value := by
  rw [m.value_truncated_add]
  exact le_add_of_nonneg_right m.fraction.value_nonneg

end Magnitude

namespace Binary64

variable {m : Magnitude}

lemma exists_inverse (h : perUnit ≤ 2 ^ 34 * m.quanta) (hl : m.quanta < perUnit) :
    ∃ y, 1 / finite false m = finite false y ∧ y.quanta ≤ 2 ^ 34 * perUnit ∧
      |m.value * y.value - 1| ≤ 1 / 2 ^ 53 := by
  have hw : 1 ≤ exactLimit := by decide
  have hm : m.quanta ≠ 0 := by
    rintro h0
    rw [h0, Nat.mul_zero] at h
    exact absurd perUnit_pos (Nat.not_lt.2 h)
  have hm0 := Nat.pos_of_ne_zero hm
  have he : 1 / finite false m = ofQuanta false (1 * perUnit * perUnit) m.quanta := by
    change ofNat 1 / finite false m = _
    rw [ofNat_eq_finite hw, finite_div _ _ _ hm]
    rfl
  have hk : 2 ^ 34 ≤ exactLimit := by decide
  have hn : 1 * perUnit * perUnit ≤ 2 ^ 34 * perUnit * m.quanta := by
    rw [Nat.one_mul, Nat.mul_right_comm]
    exact Nat.mul_le_mul_right perUnit h
  obtain ⟨y, hy, hyq⟩ := ofQuanta_le (aligned_whole hk) (whole_lt_limit hk) false hm0 hn
  refine ⟨y, he.trans hy, hyq, ?_⟩
  have hb : 2 ^ 52 * m.quanta ≤ 1 * perUnit * perUnit := by
    rw [Nat.one_mul]
    exact Nat.mul_le_mul (two_pow_le_perUnit (by decide)) hl.le
  have hq : (0 : ℚ) < m.quanta := by exact_mod_cast hm0
  have hu := perUnit_pos_rat
  have hv : ((1 * perUnit * perUnit : ℕ) : ℚ) / (perUnit * m.quanta) = 1 / m.value := by
    rw [Magnitude.value]
    push_cast
    field_simp
  have herr := value_error hm0 hb hy
  have hpos : 0 < m.value := div_pos hq hu
  rw [hv] at herr
  have hmul : m.value * y.value - 1 = m.value * (y.value - 1 / m.value) := by
    field_simp
  rw [hmul, abs_mul, abs_of_pos hpos]
  calc m.value * |y.value - 1 / m.value| ≤ m.value * (1 / m.value / 2 ^ 53) :=
        mul_le_mul_of_nonneg_left herr hpos.le
    _ = 1 / 2 ^ 53 := by field_simp

lemma exists_below_one {x : Binary64} (h0 : Binary64.le 0 x = true) (hl : x.lt 1 = true) :
    ∃ s m, x = finite s m ∧ (s = true → m.quanta = 0) ∧ m.quanta < perUnit := by
  obtain ⟨s, m, rfl, hm0, hm1⟩ := exists_between (by decide) (by decide) h0 hl
  rw [Nat.zero_mul] at hm0
  rw [Nat.one_mul] at hm1
  cases s with
  | false => exact ⟨false, m, rfl, Bool.noConfusion, Int.ofNat_lt.1 hm1⟩
  | true =>
    have hz : m.quanta = 0 := by
      have : (0 : ℤ) ≤ -(m.quanta : ℤ) := hm0
      omega
    exact ⟨true, m, rfl, fun _ => hz, hz ▸ perUnit_pos⟩

end Binary64

namespace Convergents

variable {largest : Nat} {c c' : Convergents} {r : Magnitude}

structure RoundedInverse (r y : Magnitude) : Prop where
  error : |r.value * y.value - 1| ≤ 1 / 2 ^ 53
  one_le : 1 ≤ y.quanta / perUnit

def following (c : Convergents) (y : Magnitude) : Convergents :=
  ⟨.finite false y, (Binary64.finite false y).floor,
    (y.quanta / perUnit * c.numerators.1 + c.numerators.2, c.numerators.1),
    (y.quanta / perUnit * c.denominators.1 + c.denominators.2, c.denominators.1)⟩

lemma following_numerators (c : Convergents) (y : Magnitude) : (c.following y).numerators =
    (y.quanta / perUnit * c.numerators.1 + c.numerators.2, c.numerators.1) := rfl

lemma following_denominators (c : Convergents) (y : Magnitude) : (c.following y).denominators =
    (y.quanta / perUnit * c.denominators.1 + c.denominators.2, c.denominators.1) := rfl

inductive Stops (largest : ℕ) (c : Convergents) (r : Magnitude) : Prop
  | negligible (h : 2 ^ 33 * r.quanta ≤ perUnit)
  | wide {y : Magnitude} (hy : RoundedInverse r y) (hl : largest < (c.following y).denominators.1)

lemma negligible_cases (r : Magnitude) :
    (Binary64.finite false r).abs.lt negligible = true ∧ 2 ^ 33 * r.quanta ≤ perUnit ∨
      ¬(Binary64.finite false r).abs.lt negligible = true ∧ perUnit ≤ 2 ^ 34 * r.quanta := by
  obtain ⟨z, hz, hl, hu⟩ := exists_negligible
  have hlt : (Binary64.finite false r).abs.lt negligible =
      decide ((r.quanta : ℤ) < z.quanta) := by
    rw [hz]
    rfl
  rw [hlt, decide_eq_true_iff]
  omega

lemma following_numerator_le {y : Magnitude} (hy : 1 ≤ y.quanta / perUnit)
    (hn : c.numerators.1 ≤ c.denominators.1)
    (hs : c.numerators.1 + c.numerators.2 ≤ c.denominators.1 + c.denominators.2) :
    (c.following y).numerators.1 ≤ (c.following y).denominators.1 := by
  obtain ⟨b, hb⟩ := Nat.exists_eq_add_of_le' hy
  have hm := Nat.mul_le_mul_left b hn
  rw [following_numerators, following_denominators, hb, Nat.add_one_mul, Nat.add_one_mul]
  omega

lemma next?_cases (hc : c.rest - c.part = .finite false r) (hr : r.quanta < perUnit)
    (hn : c.numerators.1 ≤ c.denominators.1)
    (hs : c.numerators.1 + c.numerators.2 ≤ c.denominators.1 + c.denominators.2)
    (hw : largest < wordLimit) :
    c.next? largest = none ∧ Stops largest c r ∨
      ∃ y, c.next? largest = some (c.following y) ∧ (c.following y).denominators.1 ≤ largest ∧
        RoundedInverse r y := by
  rcases negligible_cases r with ⟨hd, hq⟩ | ⟨hd, hq⟩
  · refine .inl ⟨?_, .negligible hq⟩
    rw [next?, hc]
    exact if_pos hd
  · obtain ⟨y, hy, hyq, he⟩ := Binary64.exists_inverse hq hr
    have ha : (Binary64.finite false y).floor.toNat64 = y.quanta / perUnit := by
      rw [floor_toNat64]
      apply Nat.min_eq_left
      exact (Nat.div_le_of_le_mul (by rwa [Nat.mul_comm])).trans (by decide)
    have h1 : 1 ≤ y.quanta / perUnit := by
      rw [← ha, ← hy]
      exact one_le_floor_inverse hr
    have hnext : c.next? largest =
        if (c.following y).denominators.1 ≤ largest ∧ (c.following y).numerators.1 < wordLimit ∧
          (c.following y).denominators.1 < wordLimit then some (c.following y) else none := by
      rw [next?]
      dsimp only
      rw [hc, if_neg hd, hy, ha]
      rfl
    by_cases hl : (c.following y).denominators.1 ≤ largest
    · have hlw := hl.trans_lt hw
      have hnw := (following_numerator_le h1 hn hs).trans_lt hlw
      exact .inr ⟨y, hnext.trans (if_pos ⟨hl, hnw, hlw⟩), hl, he, h1⟩
    · refine .inl ⟨hnext.trans (if_neg fun h => hl h.1), .wide ⟨he, h1⟩ (Nat.not_le.1 hl)⟩

def represented (c : Convergents) (r : ℚ) : ℚ :=
  (c.numerators.1 + c.numerators.2 * r) / (c.denominators.1 + c.denominators.2 * r)

def side (c : Convergents) : ℤ :=
  c.numerators.2 * c.denominators.1 - c.numerators.1 * c.denominators.2

lemma Unimodular.side (h : c.Unimodular) : c.side = 1 ∨ c.side = -1 := by
  rw [Convergents.side]
  rcases h with h | h
  · have h' : (c.numerators.1 * c.denominators.2 : ℤ) =
        c.numerators.2 * c.denominators.1 + 1 := by exact_mod_cast h
    exact .inr (by omega)
  · have h' : (c.numerators.1 * c.denominators.2 + 1 : ℤ) =
        c.numerators.2 * c.denominators.1 := by exact_mod_cast h
    exact .inl (by omega)

lemma cast_side (c : Convergents) : (c.side : ℚ) =
    c.numerators.2 * c.denominators.1 - c.numerators.1 * c.denominators.2 := by
  rw [side]
  push_cast
  rfl

section Represented

variable {x y : ℚ} (hu : c.Unimodular) (h1 : 1 ≤ c.denominators.1) (hx : 0 ≤ x) (hy : 0 < y)

include h1

lemma represented_denominator_pos (hx : 0 ≤ x) :
    (0 : ℚ) < c.denominators.1 + c.denominators.2 * x :=
  add_pos_of_pos_of_nonneg (Nat.cast_pos.2 h1) (mul_nonneg (Nat.cast_nonneg _) hx)

include hy

lemma inverse_denominator_pos : (0 : ℚ) < c.denominators.1 * y + c.denominators.2 :=
  add_pos_of_pos_of_nonneg (mul_pos (Nat.cast_pos.2 h1) hy) (Nat.cast_nonneg _)

lemma represented_inverse :
    c.represented (1 / y) = (c.numerators.1 * y + c.numerators.2) /
      (c.denominators.1 * y + c.denominators.2) := by
  have hd := represented_denominator_pos h1 (one_div_pos.2 hy).le
  rw [represented, div_eq_div_iff hd.ne' (inverse_denominator_pos h1 hy).ne']
  field_simp

include hu hx

lemma abs_represented_sub (h : |x * y - 1| ≤ 1 / 2 ^ 53) :
    |c.represented x - c.represented (1 / y)| ≤
      1 / (c.denominators.1 * (c.denominators.1 * y + c.denominators.2)) / 2 ^ 53 := by
  have hk : (0 : ℚ) < c.denominators.1 := Nat.cast_pos.2 h1
  have hP := represented_denominator_pos h1 hx
  have hS := inverse_denominator_pos h1 hy
  have he : c.represented x - c.represented (1 / y) =
      c.side * (x * y - 1) / ((c.denominators.1 + c.denominators.2 * x) *
        (c.denominators.1 * y + c.denominators.2)) := by
    rw [represented_inverse h1 hy, represented, div_sub_div _ _ hP.ne' hS.ne', c.cast_side]
    congr 1
    ring
  have hle : (c.denominators.1 : ℚ) ≤ c.denominators.1 + c.denominators.2 * x :=
    le_add_of_nonneg_right (mul_nonneg (Nat.cast_nonneg _) hx)
  rw [he, abs_div, abs_side_mul hu.side, abs_of_pos (mul_pos hP hS), div_right_comm]
  exact div_le_div₀ (by positivity) h (mul_pos hk hS) (mul_le_mul_of_nonneg_right hle hS.le)

end Represented

/-- The drift up to a convergent, in units of `2 ^ -53`. -/
def drift (c : Convergents) : ℚ := if c.denominators.2 = 0 then 0 else 2 - 1 / c.denominators.1

structure Tracks (x : ℚ) (largest steps : ℕ) (c : Convergents) (r : Magnitude) : Prop where
  left : c.rest - c.part = .finite false r
  left_lt : r.quanta < perUnit
  unimodular : c.Unimodular
  one_le : 1 ≤ c.denominators.1
  le_largest : c.denominators.1 ≤ largest
  before_le : c.denominators.2 ≤ c.denominators.1
  start : c.denominators.2 = 0 → c.denominators.1 = 1
  numerator_le : c.numerators.1 ≤ c.denominators.1
  sum_le : c.numerators.1 + c.numerators.2 ≤ c.denominators.1 + c.denominators.2
  fib_le : Nat.fib (steps + 1) ≤ c.denominators.1
  fib_before_le : Nat.fib steps ≤ c.denominators.2
  error : |c.represented r.value - x| ≤ c.drift / 2 ^ 53

variable {steps : ℕ} {x : ℚ} {y : Magnitude}

namespace RoundedInverse

variable (hy : RoundedInverse r y) (h1 : 1 ≤ c.denominators.1)

include hy

lemma add_le_denominator (c : Convergents) :
    c.denominators.1 + c.denominators.2 ≤ (c.following y).denominators.1 :=
  Nat.add_le_add_right (Nat.le_mul_of_pos_left _ hy.one_le) _

lemma one_le_value : 1 ≤ y.value := by
  have ha : (1 : ℚ) ≤ (y.quanta / perUnit : ℕ) := by exact_mod_cast hy.one_le
  exact ha.trans y.truncated_le_value

include h1

lemma drift_add_le (hs : c.denominators.2 = 0 → c.denominators.1 = 1) :
    c.drift + 1 / (c.denominators.1 * (c.following y).denominators.1) ≤ (c.following y).drift := by
  have hle := hy.add_le_denominator c
  have hk : (0 : ℚ) < c.denominators.1 := Nat.cast_pos.2 h1
  have hk' : (0 : ℚ) < (c.following y).denominators.1 := Nat.cast_pos.2 (by omega)
  have h0 : ¬(c.following y).denominators.2 = 0 := Nat.ne_of_gt h1
  rw [drift, drift, if_neg h0]
  split_ifs with h0
  · have h1' : (1 : ℚ) ≤ (c.following y).denominators.1 := Nat.one_le_cast.2 (by omega)
    have := (div_le_one hk').2 h1'
    rw [hs h0, Nat.cast_one, one_mul]
    linarith
  · have hlt : (c.denominators.1 + 1 : ℚ) ≤ (c.following y).denominators.1 := by
      exact_mod_cast (by omega : c.denominators.1 + 1 ≤ (c.following y).denominators.1)
    have hsum : 1 / (c.denominators.1 * (c.following y).denominators.1 : ℚ) +
        1 / (c.following y).denominators.1 =
          (c.denominators.1 + 1) / (c.denominators.1 * (c.following y).denominators.1) := by
      field_simp
      ring
    have hdiv : (c.denominators.1 + 1 : ℚ) / (c.denominators.1 * (c.following y).denominators.1) ≤
        1 / c.denominators.1 := by
      rw [div_le_div_iff₀ (mul_pos hk hk') hk]
      nlinarith
    linarith

lemma represented_fraction :
    (c.following y).represented y.fraction.value = c.represented (1 / y.value) := by
  have h0 : 0 < y.value := one_pos.trans_le hy.one_le_value
  rw [represented_inverse h1 h0, represented, following_numerators, following_denominators,
    y.value_truncated_add]
  push_cast
  congr 1 <;> ring

lemma represented_error (hu : c.Unimodular) :
    |(c.following y).represented y.fraction.value - c.represented r.value| ≤
      1 / (c.denominators.1 * (c.following y).denominators.1) / 2 ^ 53 := by
  have hk : (0 : ℚ) < c.denominators.1 := Nat.cast_pos.2 h1
  have hle : ((c.following y).denominators.1 : ℚ) ≤
      c.denominators.1 * y.value + c.denominators.2 := by
    have hm := mul_le_mul_of_nonneg_right y.truncated_le_value hk.le
    rw [following_denominators]
    push_cast
    linarith
  have hk' : (0 : ℚ) < (c.following y).denominators.1 :=
    Nat.cast_pos.2 (h1.trans ((Nat.le_add_right _ _).trans (hy.add_le_denominator c)))
  have h0 : 0 < y.value := one_pos.trans_le hy.one_le_value
  rw [abs_sub_comm, hy.represented_fraction h1]
  refine (abs_represented_sub hu h1 r.value_nonneg h0 hy.error).trans ?_
  gcongr

end RoundedInverse

lemma Tracks.next (h : Tracks x largest steps c r)
    (hn : c.next? largest = some (c.following y))
    (hl : (c.following y).denominators.1 ≤ largest) (hy : RoundedInverse r y) :
    Tracks x largest (steps + 1) (c.following y) y.fraction := by
  have h1 := h.one_le
  have hle := hy.add_le_denominator c
  refine ⟨sub_floor y, y.fraction_lt, h.unimodular.next hn, by omega, hl, ?_, ?_,
    following_numerator_le hy.one_le h.numerator_le h.sum_le, ?_, ?_, h.fib_le, ?_⟩
  · exact (Nat.le_add_right _ _).trans hle
  · exact fun h0 => absurd h0 (Nat.ne_of_gt h1)
  · obtain ⟨b, hb⟩ := Nat.exists_eq_add_of_le' hy.one_le
    have hbn := Nat.mul_le_mul_left b h.numerator_le
    have hsum := h.sum_le
    have hnum := h.numerator_le
    rw [following_numerators, following_denominators, hb, Nat.add_one_mul, Nat.add_one_mul]
    omega
  · have hfib := h.fib_le
    have hfib' := h.fib_before_le
    rw [Nat.fib_add_two]
    omega
  · have hd := hy.drift_add_le h1 h.start
    refine (abs_sub_le _ (c.represented r.value) _).trans ?_
    calc _ ≤ 1 / (c.denominators.1 * (c.following y).denominators.1) / 2 ^ 53 +
          c.drift / 2 ^ 53 := add_le_add (hy.represented_error h1 h.unimodular) h.error
      _ = (c.drift + 1 / (c.denominators.1 * (c.following y).denominators.1)) / 2 ^ 53 := by ring
      _ ≤ (c.following y).drift / 2 ^ 53 := div_le_div_of_nonneg_right hd (by positivity)

lemma tracks_first {m : Magnitude} (hm : m.quanta < perUnit) (hl : 1 ≤ largest) :
    Tracks m.value largest 0 (first (.finite false m)) m.fraction := by
  have hq : m.quanta / perUnit = 0 := Nat.div_eq_of_lt hm
  have hz : (Binary64.finite false m).floor.toNat64 = 0 := by rw [floor_toNat64, hq, Nat.zero_min]
  have hv : m.value = m.fraction.value := by rw [m.value_truncated_add, hq, Nat.cast_zero, zero_add]
  have hn : (first (.finite false m)).numerators = (0, 1) := congrArg (·, 1) hz
  have hd : (first (.finite false m)).denominators = (1, 0) := rfl
  refine ⟨sub_floor m, m.fraction_lt, unimodular_first _, le_rfl, hl, Nat.zero_le 1, fun _ => rfl,
    ?_, ?_, le_rfl, le_rfl, ?_⟩
  · rw [hn]
    exact Nat.zero_le _
  · rw [hn, hd]
    exact le_rfl
  · rw [drift, represented, hn, hd, hv]
    norm_num

lemma Tracks.last (h : Tracks x largest steps c r) (hw : largest < wordLimit) (count : ℕ) :
    ∃ done r', Tracks x largest done (last largest count c) r' ∧
      (Stops largest (Convergents.last largest count c) r' ∨ done = steps + count) := by
  induction count generalizing steps c r with
  | zero => exact ⟨steps, r, h, .inr rfl⟩
  | succ count ih =>
    rw [Convergents.last]
    rcases next?_cases h.left h.left_lt h.numerator_le h.sum_le hw with ⟨hn, hs⟩ | ⟨y, hn, hl, hy⟩
    · rw [hn]
      exact ⟨steps, r, h, .inl hs⟩
    · rw [hn]
      obtain ⟨done, r', ht, hd⟩ := ih (h.next hn hl hy)
      exact ⟨done, r', ht, hd.imp_right fun he => by omega⟩

def room (largest : ℕ) (c : Convergents) : ℕ := (largest - c.denominators.2) / c.denominators.1

def beyond (largest : ℕ) (c : Convergents) : ℕ × ℕ :=
  (c.room largest * c.numerators.1 + c.numerators.2,
    c.room largest * c.denominators.1 + c.denominators.2)

lemma Tracks.adjacent (h : Tracks x largest steps c r) :
    Adjacent largest c.side c.numerators.1 c.denominators.1 (c.beyond largest).1
      (c.beyond largest).2 where
  pos_left := h.one_le
  le_left := h.le_largest
  pos_right := by
    rw [beyond]
    rcases Nat.eq_zero_or_pos c.denominators.2 with h0 | h0
    · have hl := h.le_largest
      rw [h.start h0] at hl
      rw [room, h0, h.start h0, Nat.div_one, Nat.sub_zero]
      omega
    · exact h0.trans_le (Nat.le_add_left ..)
  le_right := by
    have hm := Nat.div_mul_le_self (largest - c.denominators.2) c.denominators.1
    have := h.before_le.trans h.le_largest
    rw [beyond, room]
    dsimp only
    omega
  largest_lt := by
    have hm := @Nat.lt_div_mul_add (largest - c.denominators.2) c.denominators.1 h.one_le
    have := h.before_le.trans h.le_largest
    rw [beyond, room]
    dsimp only
    omega
  unit := h.unimodular.side
  det := by
    rw [beyond, side]
    push_cast
    ring

lemma Unimodular.side_mul_sub (hu : c.Unimodular) (h1 : 1 ≤ c.denominators.1) (hx : 0 ≤ x) :
    c.side * (c.represented x - c.numerators.1 / c.denominators.1) =
      x / (c.denominators.1 * (c.denominators.1 + c.denominators.2 * x)) := by
  have hk : (0 : ℚ) < c.denominators.1 := Nat.cast_pos.2 h1
  have hd := represented_denominator_pos h1 hx
  have hs : (c.side * c.side : ℚ) = 1 := by exact_mod_cast mul_self_eq_one_iff.2 hu.side
  have he : c.represented x - c.numerators.1 / c.denominators.1 =
      c.side * x / (c.denominators.1 * (c.denominators.1 + c.denominators.2 * x)) := by
    rw [represented, div_sub_div _ _ hd.ne' hk.ne', c.cast_side, mul_comm (c.denominators.1 : ℚ)]
    congr 1
    ring
  rw [he, mul_div_assoc', ← mul_assoc, hs, one_mul]

lemma Tracks.around (h : Tracks x largest steps c r) {f error : ℚ} (hf : 0 ≤ f)
    (hr : f * (c.room largest + 1) ≤ 1) (he : |c.represented f - x| ≤ error) :
    Around error largest c.side c.numerators.1 c.denominators.1 (c.beyond largest).1
      (c.beyond largest).2 x := by
  have hk : (0 : ℚ) < c.denominators.1 := Nat.cast_pos.2 h.one_le
  have hs := h.unimodular.side_mul_sub h.one_le hf
  have hd := represented_denominator_pos h.one_le hf
  refine h.adjacent.around he ?_ ?_ <;> rw [hs]
  · positivity
  · have hb : ((c.beyond largest).2 : ℚ) =
        c.room largest * c.denominators.1 + c.denominators.2 := by
      rw [beyond]
      push_cast
      rfl
    rw [hb, div_le_div_iff₀ (mul_pos hk hd) (by positivity)]
    have hm := mul_le_mul_of_nonneg_left hr (mul_pos hk hk).le
    nlinarith

lemma Tracks.room_lt (h : Tracks x largest steps c r)
    (hl : largest < (c.following y).denominators.1) : c.room largest < y.quanta / perUnit := by
  have := h.before_le.trans h.le_largest
  rw [following_denominators] at hl
  apply Nat.div_lt_of_lt_mul
  rw [Nat.mul_comm]
  dsimp only at hl
  omega

lemma room_le (largest : ℕ) (c : Convergents) : c.room largest ≤ largest :=
  (Nat.div_le_self ..).trans (Nat.sub_le ..)

lemma drift_le_two (h1 : 1 ≤ c.denominators.1) : c.drift ≤ 2 := by
  rw [drift]
  split_ifs
  · norm_num
  · have : (0 : ℚ) ≤ 1 / c.denominators.1 := by positivity
    linarith

lemma Tracks.abs_represented_sub_le (h : Tracks x largest steps c r) {f : ℚ}
    (hf : |c.represented r.value - c.represented f| ≤ 1 / 2 ^ 53) :
    |c.represented f - x| ≤ 3 / 2 ^ 53 := by
  have ht := abs_sub_le (c.represented f) (c.represented r.value) x
  rw [abs_sub_comm (c.represented f) (c.represented r.value)] at ht
  have hd : c.drift / 2 ^ 53 ≤ 2 / 2 ^ 53 :=
    div_le_div_of_nonneg_right (drift_le_two h.one_le) (by positivity)
  have he := h.error
  linarith

lemma Tracks.abs_represented_zero (h : Tracks x largest 40 c r) :
    |c.represented r.value - c.represented 0| ≤ 1 / 2 ^ 53 := by
  -- what is left is anything below one, but the denominators are large
  have hfib : 2 ^ 27 ≤ Nat.fib 41 := by norm_num
  have hk : (2 ^ 27 : ℚ) ≤ c.denominators.1 := by exact_mod_cast hfib.trans h.fib_le
  have hz : c.represented 0 = c.numerators.1 / c.denominators.1 := by
    rw [represented, mul_zero, mul_zero, add_zero, add_zero]
  have hr : r.value < 1 := by
    have hv := (@Magnitude.value_lt_iff r 1).2 (by rw [Nat.one_mul]; exact h.left_lt)
    exact_mod_cast hv
  have hr0 := r.value_nonneg
  have hk' : (0 : ℚ) ≤ c.denominators.2 * r.value := mul_nonneg (Nat.cast_nonneg _) hr0
  rw [hz, ← abs_side_mul h.unimodular.side, h.unimodular.side_mul_sub h.one_le hr0,
    abs_of_nonneg (by positivity), div_le_div_iff₀ (by positivity) (by norm_num)]
  nlinarith

lemma Tracks.abs_represented_inverse (h : Tracks x largest steps c r)
    (hy : RoundedInverse r y) :
    |c.represented r.value - c.represented (1 / y.value)| ≤ 1 / 2 ^ 53 := by
  have hk : (1 : ℚ) ≤ c.denominators.1 := Nat.one_le_cast.2 h.one_le
  have hk' : (0 : ℚ) ≤ c.denominators.2 := Nat.cast_nonneg _
  have hky := one_le_mul_of_one_le_of_one_le hk hy.one_le_value
  have h0 : 0 < y.value := one_pos.trans_le hy.one_le_value
  refine (abs_represented_sub h.unimodular h.one_le r.value_nonneg h0 hy.error).trans ?_
  apply div_le_div_of_nonneg_right _ (by positivity)
  apply div_le_one_of_le₀ _ (by positivity)
  exact one_le_mul_of_one_le_of_one_le hk (by linarith)

lemma Tracks.exists_represented (h : Tracks x largest steps c r) (hl : largest < 2 ^ 33)
    (hs : Stops largest c r ∨ steps = 40) :
    ∃ f : ℚ, 0 ≤ f ∧ f * (c.room largest + 1) ≤ 1 ∧
      |c.represented r.value - c.represented f| ≤ 1 / 2 ^ 53 := by
  rcases hs with (hq | @⟨y, hy, hla⟩) | rfl
  · refine ⟨r.value, r.value_nonneg, ?_, by rw [sub_self, abs_zero]; positivity⟩
    have hq' : (2 ^ 33 * r.quanta : ℚ) ≤ perUnit := by exact_mod_cast hq
    have hroom : (c.room largest + 1 : ℚ) ≤ 2 ^ 33 := by
      exact_mod_cast (Nat.succ_le_succ (room_le largest c)).trans hl
    rw [Magnitude.value, div_mul_eq_mul_div, div_le_one Binary64.perUnit_pos_rat, mul_comm]
    exact (mul_le_mul_of_nonneg_right hroom (Nat.cast_nonneg _)).trans hq'
  · have hroom : (c.room largest + 1 : ℚ) ≤ y.value :=
      le_trans (by exact_mod_cast h.room_lt hla) y.truncated_le_value
    have h0 : 0 < y.value := one_pos.trans_le hy.one_le_value
    refine ⟨1 / y.value, by positivity, ?_, h.abs_represented_inverse hy⟩
    rwa [one_div_mul_eq_div, div_le_one h0]
  · exact ⟨0, le_rfl, by rw [zero_mul]; exact zero_le_one, h.abs_represented_zero⟩

lemma around_zero (h1 : 1 ≤ largest) (h0 : 0 ≤ x) (hx : x * (largest + 1) ≤ 1) :
    Around (3 / 2 ^ 53) largest 1 0 1 1 largest x where
  adjacent := ⟨le_rfl, h1, h1, le_rfl, by omega, .inl rfl, by push_cast; ring⟩
  beside := by
    rw [Beside]
    norm_num
    linarith
  beside_next := by
    have hl : (0 : ℚ) < largest := by exact_mod_cast h1
    have hle : x ≤ 1 / largest := by
      rw [le_div_iff₀ hl]
      linarith
    rw [Beside]
    push_cast
    linarith
  abs_sub_le := by
    have hl : (0 : ℚ) < largest + 1 := by positivity
    have hle : x ≤ 1 / (largest + 1) := (le_div_iff₀ hl).2 hx
    rw [Nat.cast_zero, zero_div, sub_zero, abs_of_nonneg h0, Nat.cast_one, one_mul]
    linarith

lemma nearest_around {m : Magnitude} (hm : m.quanta < perUnit) (h1 : 1 ≤ largest)
    (hl : largest < 2 ^ 33) :
    ∃ side g e, Around (3 / 2 ^ 53) largest side (nearest (.finite false m) largest).1
      (nearest (.finite false m) largest).2 g e m.value := by
  rcases nearest_cases (.finite false m) largest with ⟨hz, hn⟩ | ⟨count, c, h40, rfl, hn⟩
  · have hle : m.value * (largest + 1) ≤ 1 := by
      have hl' : (largest + 1 : ℚ) ≤ 2 ^ 33 := by exact_mod_cast hl
      have := mul_le_mul (le_negligible hz) hl' (by positivity) (by positivity)
      rwa [one_div_mul_cancel (by positivity)] at this
    rw [hn]
    exact ⟨1, 1, largest, around_zero h1 m.value_nonneg hle⟩
  · have hw : largest < wordLimit := hl.trans (by decide)
    obtain ⟨done, r, ht, hs⟩ := (tracks_first hm h1).last hw count
    rw [Nat.zero_add] at hs
    obtain ⟨f, hf, hr, hd⟩ := ht.exists_represented hl (hs.imp_right fun hd => hd.trans h40)
    rw [hn, max_eq_left ht.one_le]
    exact ⟨_, _, _, ht.around hf hr (ht.abs_represented_sub_le hd)⟩

end Convergents

open Convergents

variable {digits n d : ℕ} {x : ℚ}

lemma largest_lt (h9 : digits ≤ 9) : 10 ^ digits - 1 < 10 ^ 9 := by
  have hp : 10 ^ digits ≤ 10 ^ 9 := Nat.pow_le_pow_right (by decide) h9
  omega

lemma cast_largest (digits : ℕ) : ((10 ^ digits - 1 : ℕ) : ℚ) + 1 = 10 ^ digits := by
  have hp := Nat.one_le_pow digits 10 (by decide)
  push_cast [hp]
  ring

lemma bestFraction_around (h5 : 5 ≤ digits) (h9 : digits ≤ 9) {s : Bool} {m : Magnitude}
    (hs : s = true → m.quanta = 0) (hm : m.quanta < perUnit) :
    ∃ side g e, Around (3 / 2 ^ 53) (10 ^ digits - 1) side (bestFraction (.finite s m) digits).1
      (bestFraction (.finite s m) digits).2 g e m.value := by
  have h1 := one_le_largest (show 1 ≤ digits by omega)
  cases s with
  | false =>
    have hw : searchedDigits < digits := h5
    rw [bestFraction, Nat.max_eq_left (show 1 ≤ digits by omega), if_neg (Nat.not_le.2 hw)]
    exact nearest_around hm h1 ((largest_lt h9).trans (by decide))
  | true =>
    have hz : (Binary64.finite true m).isZero = true := beq_iff_eq.2 (hs rfl)
    rw [bestFraction_of_isZero hz, Magnitude.value_of_quanta_eq_zero (hs rfl)]
    exact ⟨1, 1, _, around_zero h1 le_rfl (by rw [zero_mul]; exact zero_le_one)⟩

lemma Around.eq_of_abs_sub_le {side : ℤ} {g e a b : ℕ} (h9 : digits ≤ 9)
    (h : Around (3 / 2 ^ 53) (10 ^ digits - 1) side n d g e x) (h1 : 1 ≤ b)
    (hb : 10 * b ≤ 10 ^ digits) (hb6 : b ≤ 10 ^ 6) (hx : |x - a / b| ≤ 1 / 2 ^ 53) :
    n * b = a * d := by
  have hd : (0 : ℚ) < d := by exact_mod_cast h.adjacent.pos_left
  have hb0 : (0 : ℚ) < b := by exact_mod_cast h1
  have hdb : (d * b : ℚ) ≤ 10 ^ 15 := by
    have hd9 := h.adjacent.le_left.trans (largest_lt h9).le
    have := Nat.mul_le_mul hd9 hb6
    exact_mod_cast this
  have hnear := h.abs_sub_le
  rw [cast_largest] at hnear
  have hsmall : 1 / (d * 10 ^ digits) ≤ 1 / (d * b : ℚ) / 10 := by
    have hb' : (10 * b : ℚ) ≤ 10 ^ digits := by exact_mod_cast hb
    rw [div_div]
    apply one_div_le_one_div_of_le (by positivity)
    rw [mul_assoc, mul_comm (b : ℚ)]
    exact mul_le_mul_of_nonneg_left hb' hd.le
  have hlarge : 1 / 10 ^ 15 ≤ 1 / (d * b : ℚ) := one_div_le_one_div_of_le (mul_pos hd hb0) hdb
  apply eq_of_abs_sub_lt h.adjacent.pos_left h1
  calc |x - n / d| + |x - a / b| ≤ 1 / (d * b) / 10 + 3 / 2 ^ 53 + 1 / 2 ^ 53 :=
        add_le_add (hnear.trans (add_le_add_left hsmall _)) hx
    _ < 1 / (d * b) := by
        generalize 1 / (d * b : ℚ) = w at hlarge ⊢
        linarith

/-- From five digits on the fraction that is found for a number below one has an adjacent fraction
around the number. Up to a few units of the last place one of the two is the closest; up to seven
digits the fraction that is found is the closest if and only if the adjacent one is not nearer. So
it is for a number that is almost a fraction with a small denominator. -/
theorem bestFraction_isClosest_iff (h5 : 5 ≤ digits) (h9 : digits ≤ 9) {target : Binary64}
    (h0 : Binary64.le 0 target = true) (hl : target.lt 1 = true) :
    ∃ s m n d side g e, target = .finite s m ∧ (s = true → m.quanta = 0) ∧
      Checked.bestFraction target digits = .ok (n, d) ∧ bestFraction target digits = (n, d) ∧
      Adjacent (10 ^ digits - 1) side n d g e ∧
      |m.value - n / d| ≤ 1 / (d * 10 ^ digits) + 3 / 2 ^ 53 ∧
      (∀ (p : ℤ) (q : ℕ), 1 ≤ q → q ≤ 10 ^ digits - 1 →
        |m.value - n / d| ≤ |m.value - p / q| + 3 / 2 ^ 53 ∨
          |m.value - g / e| ≤ |m.value - p / q| + 3 / 2 ^ 53) ∧
      (digits ≤ 7 → (IsClosest (10 ^ digits - 1) m.value n d ↔
        |m.value - n / d| ≤ |m.value - g / e|)) ∧
      ∀ a b : ℕ, 1 ≤ b → 10 * b ≤ 10 ^ digits → b ≤ 10 ^ 6 → |m.value - a / b| ≤ 1 / 2 ^ 53 →
        (n : ℚ) / d = a / b ∧ IsClosest (10 ^ digits - 1) m.value n d := by
  obtain ⟨s, m, rfl, hs, hm⟩ := Binary64.exists_below_one h0 hl
  obtain ⟨side, g, e, ha⟩ := bestFraction_around h5 h9 hs hm
  have hok := Checked.bestFraction_ok (.finite s m) h9
  obtain ⟨⟨n, d⟩, hf⟩ : ∃ f, bestFraction (.finite s m) digits = f := ⟨_, rfl⟩
  rw [hf] at ha hok
  have hnear := ha.abs_sub_le
  rw [cast_largest] at hnear
  have herr : (0 : ℚ) ≤ 3 / 2 ^ 53 := by positivity
  refine ⟨s, m, n, d, side, g, e, rfl, hs, hok, hf, ha.adjacent, hnear,
    fun p q hq hql => ha.le_add herr p hq hql, fun h7 => ha.isClosest_iff herr ?_,
    fun a b hb hbl hb6 hx => ?_⟩
  · have hp : 10 ^ digits ≤ 10 ^ 7 := Nat.pow_le_pow_right (by decide) h7
    have hl : ((10 ^ digits - 1 : ℕ) : ℚ) ≤ 10 ^ 7 := by exact_mod_cast (Nat.sub_le ..).trans hp
    have := pow_le_pow_left₀ (Nat.cast_nonneg _) hl 2
    linarith
  · have hd : (0 : ℚ) < d := by exact_mod_cast ha.adjacent.pos_left
    have hb0 : (0 : ℚ) < b := by exact_mod_cast hb
    have heq : (n : ℚ) / d = a / b := by
      rw [div_eq_div_iff hd.ne' hb0.ne']
      exact_mod_cast ha.eq_of_abs_sub_le h9 hb hbl hb6 hx
    refine ⟨heq, fun p q hq hql => ?_⟩
    have hbl9 : (b * (10 ^ digits - 1 : ℕ) : ℚ) ≤ 10 ^ 6 * 10 ^ 9 := by
      exact_mod_cast Nat.mul_le_mul hb6 (largest_lt h9).le
    rw [heq]
    exact isClosest_of_abs_sub_le hb hx (by linarith) p q hq hql

theorem bestFraction_isClosest_iff_third :
    let target := Binary64.ofQuotient false 1 3
    5 ≤ 5 ∧ 5 ≤ 9 ∧ Binary64.le 0 target = true ∧ target.lt 1 = true ∧
      ∃ s m n d side g e, target = .finite s m ∧ (s = true → m.quanta = 0) ∧
        Checked.bestFraction target 5 = .ok (n, d) ∧ bestFraction target 5 = (n, d) ∧
        Adjacent (10 ^ 5 - 1) side n d g e ∧
        |m.value - n / d| ≤ 1 / (d * 10 ^ 5) + 3 / 2 ^ 53 ∧
        (∀ (p : ℤ) (q : ℕ), 1 ≤ q → q ≤ 10 ^ 5 - 1 →
          |m.value - n / d| ≤ |m.value - p / q| + 3 / 2 ^ 53 ∨
            |m.value - g / e| ≤ |m.value - p / q| + 3 / 2 ^ 53) ∧
        (5 ≤ 7 → (IsClosest (10 ^ 5 - 1) m.value n d ↔
          |m.value - n / d| ≤ |m.value - g / e|)) ∧
        ∀ a b : ℕ, 1 ≤ b → 10 * b ≤ 10 ^ 5 → b ≤ 10 ^ 6 → |m.value - a / b| ≤ 1 / 2 ^ 53 →
          (n : ℚ) / d = a / b ∧ IsClosest (10 ^ 5 - 1) m.value n d := by
  intro target
  have h0 : Binary64.le 0 target = true := by decide +kernel
  have hl : target.lt 1 = true := by decide +kernel
  exact ⟨le_rfl, by decide, h0, hl, bestFraction_isClosest_iff le_rfl (by decide) h0 hl⟩

theorem exists_nearer_fraction :
    let target := (⟨9, -6⟩ : Decimal).toBinary64 false
    (Binary64.le 0 target = true ∧ target.lt 1 = true ∧ bestFraction target 5 = (0, 1) ∧
      ∃ m, target = .finite false m ∧
        |m.value - (1 : ℕ) / (99999 : ℕ)| < |m.value - (0 : ℕ) / (1 : ℕ)|) ∧
      ¬∀ (digits : ℕ) (target : Binary64) (s : Bool) (m : Magnitude), 5 ≤ digits → digits ≤ 9 →
        target = .finite s m → Binary64.le 0 target = true → target.lt 1 = true →
        IsClosest (10 ^ digits - 1) m.value (bestFraction target digits).1
          (bestFraction target digits).2 := by
  intro target
  have h0 : Binary64.le 0 target = true := by decide +kernel
  have hl : target.lt 1 = true := by decide +kernel
  have hf : bestFraction target 5 = (0, 1) := by decide +kernel
  obtain ⟨m, hm, hmin, hmax⟩ : ∃ m : Magnitude, target = .finite false m ∧
      8 * perUnit ≤ 10 ^ 6 * m.quanta ∧ 10 ^ 6 * m.quanta ≤ 10 * perUnit :=
    Binary64.exists_magnitude (by decide +kernel)
  have hn : |m.value - (1 : ℕ) / (99999 : ℕ)| < |m.value - (0 : ℕ) / (1 : ℕ)| := by
    have hle := (Magnitude.div_le_value_iff (by decide)).2 hmin
    have hge := (Magnitude.value_le_div_iff (by decide)).2 hmax
    push_cast at hle hge ⊢
    rw [zero_div, sub_zero, abs_of_nonneg m.value_nonneg, abs_lt]
    constructor <;> linarith
  refine ⟨⟨h0, hl, hf, m, hm, hn⟩, fun h => ?_⟩
  have hc := h 5 target false m le_rfl (by decide) hm h0 hl
  rw [hf] at hc
  exact absurd (hc 1 99999 (by decide) le_rfl) (not_le.2 hn)

end SheetFormat
