import SheetFormat.Proofs.Number.Error

/-! The sum of a whole number and less than one reaches the next whole number if no more than half
the distance of doubles is left. -/

namespace SheetFormat

attribute [local instance (2000)] instPowNat
attribute [local irreducible] perUnit limit

namespace Rounding

variable {n d k : Nat}

lemma halfEven_lt_iff (hd : 0 < d) (hk : k % 2 = 0) :
    halfEven n d < k ↔ 2 * n + d < 2 * (k * d) := by
  have hn := Nat.div_add_mod' n d
  have hr := Nat.mod_lt n hd
  rcases Nat.lt_trichotomy (n / d + 1) k with hlt | rfl | hgt
  · have hm : (n / d + 1 + 1) * d ≤ k * d := Nat.mul_le_mul_right d hlt
    have := halfEven_le_succ n d
    rw [Nat.add_one_mul (n / d + 1), Nat.add_one_mul (n / d)] at hm
    omega
  · rw [halfEven, Nat.add_one_mul (n / d)]
    split_ifs <;> omega
  · have hm : k * d ≤ n / d * d := Nat.mul_le_mul_right d (Nat.le_of_lt_succ hgt)
    have := div_le_halfEven n d
    omega

lemma toBits_lt_iff (bits n : Nat) (hk : k % 2 = 0) :
    toBits bits n 1 < k * spacing bits n ↔ 2 * n + spacing bits n < 2 * (k * spacing bits n) := by
  have hs := spacing_pos bits n
  rw [toBits, Nat.div_one, Nat.one_mul, Nat.mul_lt_mul_right hs, halfEven_lt_iff hs hk]

end Rounding

namespace Binary64

open Rounding

variable {n q : Nat} {m : Magnitude}

lemma log2_add_quanta (h1 : 1 ≤ n) (hq : q < perUnit) :
    (n * perUnit + q).log2 = n.log2 + perUnit.log2 := by
  obtain ⟨j, hj⟩ := perUnit_eq_pow
  have hn : n ≠ 0 := Nat.one_le_iff_ne_zero.1 h1
  have hl := Nat.mul_le_mul_right perUnit (Nat.log2_self_le hn)
  have hu := Nat.mul_le_mul_right perUnit (Nat.succ_le_of_lt (@Nat.lt_log2_self n))
  rw [hj, ← Nat.pow_add] at hl hu
  rw [hj] at hq
  rw [hj, Nat.log2_two_pow, Nat.log2_eq_iff (by have := Nat.two_pow_pos (n.log2 + j); omega)]
  rw [Nat.succ_mul] at hu
  have he : n.log2 + j + 1 = n.log2 + 1 + j := Nat.add_right_comm ..
  rw [he]
  omega

lemma spacing_add_quanta (h1 : 1 ≤ n) (hq : q < perUnit) :
    spacing 53 (n * perUnit + q) * 2 ^ 52 = 2 ^ n.log2 * perUnit := by
  obtain ⟨j, hj⟩ := perUnit_eq_pow
  have h52 : 52 ≤ j := by
    have := two_pow_le_perUnit (show 52 ≤ 1074 by decide)
    rwa [hj, Nat.pow_le_pow_iff_right (by decide)] at this
  rw [spacing, log2_add_quanta h1 hq, hj, Nat.log2_two_pow, ← Nat.pow_add, ← Nat.pow_add]
  congr 1
  omega

lemma exists_even_mul_spacing (h1 : 1 ≤ n) (h : n < 2 ^ 52) (hq : q < perUnit) :
    ∃ k, k % 2 = 0 ∧ k * spacing 53 (n * perUnit + q) = (n + 1) * perUnit := by
  have hn : n ≠ 0 := Nat.one_le_iff_ne_zero.1 h1
  obtain ⟨i, hi⟩ : ∃ i, 52 = n.log2 + (i + 1) := by
    have := (Nat.log2_lt hn).2 h
    exact ⟨51 - n.log2, by omega⟩
  refine ⟨(n + 1) * 2 ^ (i + 1), ?_, ?_⟩
  · rw [Nat.pow_succ, ← Nat.mul_assoc, Nat.mul_mod_left]
  · have hs := spacing_add_quanta h1 hq
    rw [hi, Nat.pow_add] at hs
    apply Nat.eq_of_mul_eq_mul_right (Nat.two_pow_pos n.log2)
    calc (n + 1) * 2 ^ (i + 1) * spacing 53 (n * perUnit + q) * 2 ^ n.log2
        = (n + 1) * (spacing 53 (n * perUnit + q) * (2 ^ n.log2 * 2 ^ (i + 1))) := by ring
      _ = (n + 1) * perUnit * 2 ^ n.log2 := by rw [hs]; ring

lemma exists_ofNat_add (h : n < exactLimit) (hm : m.quanta < perUnit) :
    ∃ x : Magnitude, ofNat n + finite false m = finite false x ∧
      x.quanta = toBits 53 (n * perUnit + m.quanta) 1 ∧
      n * perUnit ≤ x.quanta ∧ x.quanta ≤ (n + 1) * perUnit := by
  have hu : toBits 53 (n * perUnit + m.quanta) 1 ≤ (n + 1) * perUnit := by
    apply toBits_le Nat.one_pos (aligned_whole h)
    rw [Nat.mul_one, Nat.succ_mul]
    omega
  have hl : n * perUnit ≤ toBits 53 (n * perUnit + m.quanta) 1 := by
    apply le_toBits (by decide) Nat.one_pos (aligned_whole h.le)
    omega
  obtain ⟨x, hx, hq⟩ := exists_ofQuanta false Nat.one_pos (hu.trans_lt (whole_lt_limit h))
  refine ⟨x, ?_, hq, hq ▸ hl, hq ▸ hu⟩
  rw [ofNat_eq_finite h.le, finite_add]
  exact hx

lemma ofNat_add_lt_iff (h1 : 1 ≤ n) (h : n < 2 ^ 52) (hm : m.quanta < perUnit) :
    (ofNat n + finite false m).lt (ofNat (n + 1)) = true ↔
      m.value < 1 - 2 ^ n.log2 / 2 ^ 53 := by
  have he : n < exactLimit := h.trans (by decide)
  obtain ⟨x, hx, hq, -⟩ := exists_ofNat_add he hm
  obtain ⟨k, hk, hs⟩ := exists_even_mul_spacing h1 h hm
  have hu := spacing_add_quanta h1 hm
  have ht := toBits_lt_iff 53 (n * perUnit + m.quanta) hk
  rw [hx, lt_ofNat_iff he, signed, if_neg Bool.false_ne_true, Int.ofNat_lt, hq, ← hs, ht, hs,
    Nat.add_one_mul n]
  have hv : m.value < 1 - 2 ^ n.log2 / 2 ^ 53 ↔
      2 ^ 53 * m.quanta + 2 ^ n.log2 * perUnit < 2 ^ 53 * perUnit := by
    have hp := perUnit_pos_rat
    rw [Magnitude.value, div_lt_iff₀ hp, sub_mul, one_mul, div_mul_eq_mul_div, lt_sub_iff_add_lt,
      ← mul_lt_mul_iff_right₀ (show (0 : ℚ) < 2 ^ 53 by norm_num), mul_add,
      mul_div_cancel₀ _ (show (2 : ℚ) ^ 53 ≠ 0 by norm_num)]
    exact_mod_cast Iff.rfl
  rw [hv, ← hu]
  omega

end Binary64

end SheetFormat
