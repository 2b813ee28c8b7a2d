import SheetFormat.Proofs.Number.Error
import SheetFormat.Proofs.Number.Parts

/-! The whole number nearest to a rounded product. From `2 ^ 52` on the product is whole already,
so that only one of the two roundings moves it. -/

namespace SheetFormat

open Rounding

attribute [local instance (2000)] instPowNat
attribute [local irreducible] perUnit limit

namespace Rounding

variable {bits n d m : Nat}

lemma toBits_one_relative (bits n : Nat) :
    2 ^ (bits + 1) * toBits (bits + 1) n 1 ≤ 2 ^ (bits + 1) * n + n ∧
      2 ^ (bits + 1) * n ≤ 2 ^ (bits + 1) * toBits (bits + 1) n 1 + n := by
  rcases Nat.lt_or_ge n (2 ^ (bits + 1)) with hl | hg
  · have hs : spacing (bits + 1) n = 1 := by
      have h := spacing_le (j := 0) (Nat.succ_pos bits) hl
      exact Nat.le_antisymm h (spacing_pos _ _)
    have ht : toBits (bits + 1) n 1 = n := by
      apply toBits_of_dvd
      rw [hs]
      exact one_dvd n
    rw [ht]
    exact ⟨Nat.le_add_right _ _, Nat.le_add_right _ _⟩
  · have h : 2 ^ bits * 1 ≤ n := by
      rw [Nat.mul_one]
      exact (Nat.pow_le_pow_right (by decide) (Nat.le_succ bits)).trans hg
    have hr := toBits_relative Nat.one_pos h
    rwa [Nat.mul_one] at hr

end Rounding

namespace Magnitude

open Binary64

variable {m : Magnitude} {n d k : Nat}

def product (m : Magnitude) (d : Nat) : Nat := toBits 53 (m.quanta * d) 1

def nearestProduct (m : Magnitude) (d : Nat) : Nat := halfUp (m.product d) perUnit

lemma product_error (m : Magnitude) (d : Nat) :
    |(m.product d : ℚ) / perUnit - m.value * d| ≤ m.value * d / 2 ^ 53 := by
  obtain ⟨hb, ha⟩ := toBits_one_relative 52 (m.quanta * d)
  have hb' : (2 ^ 53 * m.product d : ℚ) ≤ 2 ^ 53 * (m.quanta * d) + m.quanta * d := by
    exact_mod_cast hb
  have ha' : (2 ^ 53 * (m.quanta * d) : ℚ) ≤ 2 ^ 53 * m.product d + m.quanta * d := by
    exact_mod_cast ha
  have hv : m.value * d * perUnit = m.quanta * d := by
    rw [← value_mul_perUnit]
    ring
  rw [abs_div_sub_le_iff perUnit_pos, div_mul_eq_mul_div, hv, abs_le]
  constructor <;> linarith

lemma halfUp_error (n : Nat) :
    |(halfUp n perUnit : ℚ) - n / perUnit| ≤ 1 / 2 := by
  obtain ⟨hl, hr⟩ := (halfUp_eq_iff perUnit_pos).1 (rfl : halfUp n perUnit = _)
  have hl' : (2 * (halfUp n perUnit * perUnit) : ℚ) ≤ 2 * n + perUnit := by exact_mod_cast hl
  have hr' : (2 * n : ℚ) < 2 * (halfUp n perUnit * perUnit) + perUnit := by exact_mod_cast hr
  rw [abs_sub_comm, abs_div_sub_le_iff perUnit_pos, abs_le]
  constructor <;> linarith

lemma nearestProduct_error (m : Magnitude) (d : Nat) :
    |(m.nearestProduct d : ℚ) - m.value * d| ≤ m.value * d / 2 ^ 53 + 1 / 2 := by
  have hp := m.product_error d
  have hh := halfUp_error (m.product d)
  refine (abs_sub_le _ ((m.product d : ℚ) / perUnit) _).trans ?_
  rw [add_comm]
  exact add_le_add hp hh

lemma spacing_perUnit : spacing 53 (2 ^ 52 * perUnit) = perUnit := by
  obtain ⟨j, hj⟩ := perUnit_eq_pow
  rw [hj, spacing, ← Nat.pow_add, Nat.log2_two_pow]
  congr 1
  omega

lemma nearestProduct_mul (h : 2 ^ 52 * perUnit ≤ m.quanta * d) :
    m.nearestProduct d * perUnit = m.product d := by
  have hw : 2 ^ 52 ≤ exactLimit := by decide
  have hle : 2 ^ 52 * perUnit ≤ m.product d :=
    le_toBits (by decide) Nat.one_pos (aligned_whole hw) (by rwa [Nat.mul_one])
  have hd : perUnit ∣ m.product d := by
    have hs : spacing 53 (2 ^ 52 * perUnit) ∣ spacing 53 (m.product d) := spacing_dvd_spacing hle
    rw [spacing_perUnit] at hs
    exact hs.trans (spacing_dvd_toBits (by decide) Nat.one_pos)
  obtain ⟨k, hk⟩ := exists_eq_mul_left_of_dvd hd
  rw [nearestProduct, hk, halfUp_mul k perUnit_pos]

lemma nearestProduct_error_le (hd : 1 ≤ d) (hm : m.value ≤ 2 ^ 53) :
    |(m.nearestProduct d : ℚ) - m.value * d| ≤ d := by
  have hd' : (1 : ℚ) ≤ d := by exact_mod_cast hd
  have hmd : m.value * d ≤ 2 ^ 53 * d := mul_le_mul_of_nonneg_right hm (by linarith)
  rcases Nat.le_total (2 ^ 52 * perUnit) (m.quanta * d) with hl | hg
  · have hk : (m.nearestProduct d : ℚ) = m.product d / perUnit := by
      rw [eq_div_iff perUnit_pos_rat.ne']
      exact_mod_cast nearestProduct_mul hl
    rw [hk]
    refine (m.product_error d).trans ?_
    linarith
  · have hv : m.value * d ≤ 2 ^ 52 := by
      have hg' : (m.quanta * d : ℚ) ≤ 2 ^ 52 * perUnit := by exact_mod_cast hg
      rw [← value_mul_perUnit] at hg'
      have hu := perUnit_pos_rat
      nlinarith
    refine (m.nearestProduct_error d).trans ?_
    linarith

lemma nearestProduct_le (hk : spacing 53 (k * perUnit) ∣ k * perUnit)
    (h : m.quanta * d ≤ k * perUnit) : m.nearestProduct d ≤ k :=
  halfUp_le perUnit_pos (toBits_le Nat.one_pos hk (by rwa [Nat.mul_one]))

lemma le_nearestProduct (hk : spacing 53 (k * perUnit) ∣ k * perUnit)
    (h : k * perUnit ≤ m.quanta * d) : k ≤ m.nearestProduct d :=
  le_halfUp perUnit_pos (le_toBits (by decide) Nat.one_pos hk (by rwa [Nat.mul_one]))

end Magnitude

namespace Binary64

variable {m : Magnitude} {d : Nat}

lemma toNat64_round (m : Magnitude) :
    (finite false m).round.toNat64 = min (halfUp m.quanta perUnit) (2 ^ (64 : Nat) - 1) := by
  rcases m.spacing_dvd_or with ⟨-, hl⟩ | ⟨k, hk⟩
  · have hn : halfUp m.quanta perUnit ≤ exactLimit := halfUp_le perUnit_pos hl.le
    have hr : (finite false m).round = ofNat (halfUp m.quanta perUnit) := rfl
    rw [hr, toNat64_ofNat hn, Nat.min_eq_left (hn.trans (by decide))]
  · have hh : halfUp m.quanta perUnit = k := by
      rw [hk, Nat.mul_comm, halfUp_mul k perUnit_pos]
    have hr : (finite false m).round = finite false m := by
      have hq : k * perUnit = m.quanta := by rw [hk, Nat.mul_comm]
      rw [Binary64.round, hh, ofQuotient, hq, ofQuanta_quanta]
    rw [hr, hh, toNat64, hk, Nat.mul_div_cancel_left k perUnit_pos]

lemma toNat64_round_mul (m : Magnitude) (hd : d ≤ exactLimit) :
    (finite false m * ofNat d).round.toNat64 = min (m.nearestProduct d) (2 ^ (64 : Nat) - 1) := by
  rw [mul_ofNat_eq_ofQuanta m hd]
  rcases Nat.lt_or_ge (m.product d) limit with hl | hl
  · obtain ⟨p, hp, hq⟩ := exists_ofQuanta false Nat.one_pos hl
    rw [hp, toNat64_round, hq]
    rfl
  · have hw : 2 ^ (64 : Nat) - 1 ≤ m.nearestProduct d := by
      apply le_halfUp perUnit_pos
      refine le_trans ?_ hl
      exact (Nat.mul_le_mul_right perUnit (Nat.sub_le ..)).trans word_lt_limit.le
    rw [ofQuanta_of_limit_le false Nat.one_pos hl, Nat.min_eq_right hw]
    rfl

end Binary64

end SheetFormat
