import Mathlib.Algebra.Order.Field.Basic
import Mathlib.Tactic.FieldSimp
import Mathlib.Tactic.Linarith
import Mathlib.Tactic.Positivity
import SheetFormat.Proofs.Number.Bounds
import SheetFormat.Proofs.Number.Whole

/-! How far a rounding moves a number, and how the error of a sum, a product or a quotient grows
out of those of its terms. -/

namespace SheetFormat

attribute [local instance (2000)] instPowNat
attribute [local irreducible] perUnit limit

namespace Rounding

variable {bits n d j m : Nat}

lemma halfEven_error (n : Nat) (hd : 0 < d) :
    2 * (halfEven n d * d) ≤ 2 * n + d ∧ 2 * n ≤ 2 * (halfEven n d * d) + d := by
  have hn := Nat.div_add_mod' n d
  have hr := Nat.mod_lt n hd
  rw [halfEven]
  split_ifs with hl hu
  · omega
  · rw [Nat.add_one_mul (n / d) d]
    omega
  · rcases Nat.mod_two_eq_zero_or_one (n / d) with he | ho
    · rw [he, Nat.add_zero]
      omega
    · rw [ho, Nat.add_one_mul (n / d) d]
      omega

lemma spacing_le (hb : 0 < bits) (h : m < 2 ^ (bits + j)) : spacing bits m ≤ 2 ^ j := by
  apply Nat.pow_le_pow_right (by decide)
  rcases Nat.eq_zero_or_pos m with rfl | hm
  · have : Nat.log2 0 = 0 := by simp
    omega
  · have := (Nat.log2_lt hm.ne').2 h
    omega

lemma toBits_error (hb : 0 < bits) (hd : 0 < d) (h : n < 2 ^ (bits + j) * d) :
    2 * (toBits bits n d * d) ≤ 2 * n + 2 ^ j * d ∧
      2 * n ≤ 2 * (toBits bits n d * d) + 2 ^ j * d := by
  have hs : spacing bits (n / d) ≤ 2 ^ j := spacing_le hb ((Nat.div_lt_iff_lt_mul hd).2 h)
  have hm := Nat.mul_le_mul_left d hs
  obtain ⟨hu, hl⟩ := halfEven_error n (Nat.mul_pos hd (spacing_pos bits (n / d)))
  have he : toBits bits n d * d =
      halfEven n (d * spacing bits (n / d)) * (d * spacing bits (n / d)) := by
    rw [toBits, Nat.mul_assoc, Nat.mul_comm d]
  rw [he, Nat.mul_comm (2 ^ j)]
  omega

lemma mul_spacing_le (h : 2 ^ bits ≤ m) : 2 ^ bits * spacing (bits + 1) m ≤ m := by
  have hm : m ≠ 0 := (Nat.two_pow_pos bits).trans_le h |>.ne'
  have hl : bits ≤ m.log2 := (Nat.le_log2 hm).2 h
  have he : bits + (m.log2 + 1 - (bits + 1)) = m.log2 := by omega
  rw [spacing, ← Nat.pow_add, he]
  exact Nat.log2_self_le hm

lemma toBits_relative (hd : 0 < d) (h : 2 ^ bits * d ≤ n) :
    2 ^ (bits + 1) * (toBits (bits + 1) n d * d) ≤ 2 ^ (bits + 1) * n + n ∧
      2 ^ (bits + 1) * n ≤ 2 ^ (bits + 1) * (toBits (bits + 1) n d * d) + n := by
  have hs := mul_spacing_le ((Nat.le_div_iff_mul_le hd).2 h)
  obtain ⟨hu, hl⟩ := halfEven_error n (Nat.mul_pos hd (spacing_pos (bits + 1) (n / d)))
  have he : toBits (bits + 1) n d * d =
      halfEven n (d * spacing (bits + 1) (n / d)) * (d * spacing (bits + 1) (n / d)) := by
    rw [toBits, Nat.mul_assoc, Nat.mul_comm d]
  have hn : 2 ^ bits * (d * spacing (bits + 1) (n / d)) ≤ n :=
    calc 2 ^ bits * (d * spacing (bits + 1) (n / d))
        = 2 ^ bits * spacing (bits + 1) (n / d) * d := by rw [Nat.mul_assoc, Nat.mul_comm d]
      _ ≤ n / d * d := Nat.mul_le_mul_right d hs
      _ ≤ n := Nat.div_mul_le_self n d
  have hu' := Nat.mul_le_mul_left (2 ^ bits) hu
  have hl' := Nat.mul_le_mul_left (2 ^ bits) hl
  rw [← he] at hu' hl'
  rw [Nat.pow_succ]
  constructor <;> linarith

end Rounding

lemma abs_div_sub_le_iff {n d : Nat} {x e : ℚ} (hd : 0 < d) :
    |(n : ℚ) / d - x| ≤ e ↔ |n - x * d| ≤ e * d := by
  have h0 : (0 : ℚ) < d := by exact_mod_cast hd
  have he : (n : ℚ) / d - x = (n - x * d) / d := by field_simp
  rw [he, abs_div, abs_of_pos h0, div_le_iff₀ h0]

def Magnitude.value (m : Magnitude) : ℚ := m.quanta / perUnit

namespace Binary64

open Rounding

lemma perUnit_pos_rat : (0 : ℚ) < perUnit := by exact_mod_cast perUnit_pos

end Binary64

namespace Magnitude

open Binary64

variable {m : Magnitude} {n d k : Nat} {e : ℚ}

lemma value_of_quanta_eq (hk : m.quanta = k * perUnit) : m.value = k := by
  rw [value, hk, Nat.cast_mul, mul_div_cancel_right₀ _ perUnit_pos_rat.ne']

lemma value_of_quanta_eq_zero (h : m.quanta = 0) : m.value = 0 := by
  rw [value, h, Nat.cast_zero, zero_div]

lemma value_nonneg (m : Magnitude) : 0 ≤ m.value :=
  div_nonneg (Nat.cast_nonneg _) perUnit_pos_rat.le

lemma value_mul_perUnit (m : Magnitude) : m.value * perUnit = m.quanta :=
  div_mul_cancel₀ _ perUnit_pos_rat.ne'

lemma value_le_div_iff (hd : 0 < d) : m.value ≤ n / d ↔ d * m.quanta ≤ n * perUnit := by
  have hq : (0 : ℚ) < d := by exact_mod_cast hd
  rw [value, div_le_div_iff₀ perUnit_pos_rat hq, mul_comm (m.quanta : ℚ)]
  exact_mod_cast Iff.rfl

lemma div_le_value_iff (hd : 0 < d) : n / d ≤ m.value ↔ n * perUnit ≤ d * m.quanta := by
  have hq : (0 : ℚ) < d := by exact_mod_cast hd
  rw [value, div_le_div_iff₀ hq perUnit_pos_rat, mul_comm (m.quanta : ℚ)]
  exact_mod_cast Iff.rfl

lemma value_le_iff : m.value ≤ n ↔ m.quanta ≤ n * perUnit := by
  simpa using @value_le_div_iff m n 1 Nat.one_pos

lemma le_value_iff : n ≤ m.value ↔ n * perUnit ≤ m.quanta := by
  simpa using @div_le_value_iff m n 1 Nat.one_pos

lemma value_lt_iff : m.value < n ↔ m.quanta < n * perUnit := by
  rw [value, div_lt_iff₀ perUnit_pos_rat]
  exact_mod_cast Iff.rfl

lemma abs_value_sub_le_iff (hd : 0 < d) :
    |m.value - n / (perUnit * d)| ≤ e ↔ |(m.quanta * d - n : ℚ)| ≤ e * (perUnit * d) := by
  have hq : (0 : ℚ) < d := by exact_mod_cast hd
  have hp : (0 : ℚ) < perUnit * d := mul_pos perUnit_pos_rat hq
  have h := @abs_div_sub_le_iff (m.quanta * d) (perUnit * d) (n / (perUnit * d)) e
    (Nat.mul_pos perUnit_pos hd)
  push_cast at h
  rwa [mul_div_mul_right _ _ hq.ne', div_mul_cancel₀ _ hp.ne'] at h

end Magnitude

namespace Binary64

open Rounding Magnitude

def Near (e r : ℚ) (x : Binary64) : Prop := ∃ m, x = .finite false m ∧ |m.value - r| ≤ e

variable {n d k : Nat} {e f r q : ℚ} {x y : Binary64}

lemma Near.mono (h : x.Near e r) (hf : e ≤ f) : x.Near f r := by
  obtain ⟨m, hx, hm⟩ := h
  exact ⟨m, hx, hm.trans hf⟩

lemma Near.of_near {v : ℚ} (h : x.Near f v) (hv : |v - r| ≤ e) : x.Near (e + f) r := by
  obtain ⟨m, hx, hm⟩ := h
  refine ⟨m, hx, (abs_sub_le _ v _).trans ?_⟩
  linarith

lemma perUnit_mul_two_pow (k : Nat) : ∃ j, 2 ^ k * perUnit = 2 ^ (53 + j) := by
  obtain ⟨i, hi⟩ : ∃ i, perUnit = 2 ^ (53 + i) := by
    obtain ⟨j, hj⟩ := perUnit_eq_pow
    have h := two_pow_le_perUnit (show 53 ≤ 1074 by decide)
    rw [hj, Nat.pow_le_pow_iff_right (by decide)] at h
    obtain ⟨i, rfl⟩ := Nat.exists_eq_add_of_le h
    exact ⟨i, hj⟩
  exact ⟨i + k, by rw [hi, ← Nat.pow_add]; congr 1; omega⟩

lemma near_ofQuanta (hk : k ≤ 53) (hd : 0 < d) (h : (n : ℚ) / (perUnit * d) < 2 ^ k) :
    (ofQuanta false n d).Near (2 ^ k / 2 ^ 54) (n / (perUnit * d)) := by
  have hu := perUnit_pos_rat
  have hq : (0 : ℚ) < d := by exact_mod_cast hd
  have hn : n < 2 ^ k * perUnit * d := by
    rw [div_lt_iff₀ (mul_pos hu hq), ← mul_assoc] at h
    exact_mod_cast h
  have hp : 2 ^ k ≤ exactLimit := Nat.pow_le_pow_right (by decide) hk
  have hl : toBits 53 n d < limit :=
    (toBits_le hd (aligned_whole hp) hn.le).trans_lt (whole_lt_limit hp)
  obtain ⟨m, hm, hmq⟩ := exists_ofQuanta false hd hl
  obtain ⟨j, hj⟩ := perUnit_mul_two_pow k
  obtain ⟨hb, ha⟩ := toBits_error (by decide) hd (hj ▸ hn)
  rw [← hmq] at hb ha
  have hs : (2 : ℚ) ^ j = 2 ^ k * perUnit / 2 ^ 53 := by
    have : (2 : ℚ) ^ k * perUnit = 2 ^ 53 * 2 ^ j := by
      rw [← pow_add]
      exact_mod_cast hj
    rw [this, mul_div_cancel_left₀ _ (by norm_num)]
  have hb' : (2 * (m.quanta * d) : ℚ) ≤ 2 * n + 2 ^ j * d := by exact_mod_cast hb
  have ha' : (2 * n : ℚ) ≤ 2 * (m.quanta * d) + 2 ^ j * d := by exact_mod_cast ha
  rw [hs] at ha' hb'
  refine ⟨m, hm, (abs_value_sub_le_iff hd).2 ?_⟩
  rw [abs_le]
  constructor <;> linarith

lemma value_error {m : Magnitude} (hd : 0 < d) (hn : 2 ^ 52 * d ≤ n)
    (h : ofQuanta false n d = .finite false m) :
    |m.value - n / (perUnit * d)| ≤ n / (perUnit * d) / 2 ^ 53 := by
  have hu := perUnit_pos_rat
  have hq : (0 : ℚ) < d := by exact_mod_cast hd
  obtain ⟨hb, ha⟩ := toBits_relative hd hn
  rw [← quanta_of_ofQuanta hd h] at hb ha
  have hb' : (2 ^ 53 * (m.quanta * d) : ℚ) ≤ 2 ^ 53 * n + n := by exact_mod_cast hb
  have ha' : (2 ^ 53 * n : ℚ) ≤ 2 ^ 53 * (m.quanta * d) + n := by exact_mod_cast ha
  have hz : (n : ℚ) / (perUnit * d) / 2 ^ 53 * (perUnit * d) = n / 2 ^ 53 := by
    field_simp
  rw [abs_value_sub_le_iff hd, hz, abs_le]
  constructor <;> linarith

lemma near_ofNat (h : n ≤ exactLimit) : (ofNat n).Near 0 n := by
  refine ⟨whole n h, ofNat_eq_finite h, ?_⟩
  rw [value_of_quanta_eq rfl, sub_self, abs_zero]

lemma Near.add (hx : x.Near e r) (hy : y.Near f q) (hk : k ≤ 53) (h : r + q + (e + f) < 2 ^ k) :
    (x + y).Near (e + f + 2 ^ k / 2 ^ 54) (r + q) := by
  obtain ⟨m, rfl, hm⟩ := hx
  obtain ⟨m', rfl, hm'⟩ := hy
  have hv : ((m.quanta + m'.quanta : ℕ) : ℚ) / (perUnit * (1 : ℕ)) = m.value + m'.value := by
    rw [Magnitude.value, Magnitude.value, Nat.cast_one, mul_one, Nat.cast_add, add_div]
  have hb : |m.value + m'.value - (r + q)| ≤ e + f := by
    rw [add_sub_add_comm]
    exact (abs_add_le _ _).trans (add_le_add hm hm')
  have hl : m.value + m'.value < 2 ^ k := by linarith [le_of_abs_le hb]
  rw [finite_add]
  rw [← hv] at hb hl
  exact (near_ofQuanta hk Nat.one_pos hl).of_near hb

lemma Near.mul_ofNat (hx : x.Near e r) (hn : n ≤ exactLimit) (hk : k ≤ 53)
    (h : (r + e) * n < 2 ^ k) : (x * ofNat n).Near (e * n + 2 ^ k / 2 ^ 54) (r * n) := by
  obtain ⟨m, rfl, hm⟩ := hx
  have hs : finite false m * ofNat n = ofQuanta false (m.quanta * (n * perUnit)) perUnit :=
    mul_ofNat_eq false m hn
  have hu := perUnit_pos_rat.ne'
  have hv : ((m.quanta * (n * perUnit) : ℕ) : ℚ) / (perUnit * perUnit) = m.value * n := by
    rw [Magnitude.value]
    push_cast
    field_simp
  have hn : (0 : ℚ) ≤ n := Nat.cast_nonneg n
  have hb : |m.value * n - r * n| ≤ e * n := by
    rw [← sub_mul, abs_mul, abs_of_nonneg hn]
    exact mul_le_mul_of_nonneg_right hm hn
  have hl : m.value * n < 2 ^ k := by linarith [le_of_abs_le hb]
  rw [hs]
  rw [← hv] at hb hl
  exact (near_ofQuanta hk perUnit_pos hl).of_near hb

lemma Near.div_ofNat (hx : x.Near e r) (h0 : 0 < n) (hn : n ≤ exactLimit) (hk : k ≤ 53)
    (h : r + e < 2 ^ k * n) : (x / ofNat n).Near (e / n + 2 ^ k / 2 ^ 54) (r / n) := by
  obtain ⟨m, rfl, hm⟩ := hx
  have hw : 0 < n * perUnit := Nat.mul_pos h0 perUnit_pos
  have hs : finite false m / ofNat n = ofQuanta false (m.quanta * perUnit) (n * perUnit) :=
    div_ofNat_eq false m h0 hn
  have hu := perUnit_pos_rat.ne'
  have hq : (0 : ℚ) < n := by exact_mod_cast h0
  have hv : ((m.quanta * perUnit : ℕ) : ℚ) / (perUnit * (n * perUnit : ℕ)) = m.value / n := by
    rw [Magnitude.value]
    push_cast
    field_simp
  have hb : |m.value / n - r / n| ≤ e / n := by
    rw [← sub_div, abs_div, abs_of_pos hq]
    exact div_le_div_of_nonneg_right hm hq.le
  have hl : m.value / n < 2 ^ k := by
    rw [div_lt_iff₀ hq]
    linarith [le_of_abs_le hm]
  rw [hs]
  rw [← hv] at hb hl
  exact (near_ofQuanta hk hw hl).of_near hb

lemma Near.round (hx : x.Near e n) (he : e < 1 / 2) (hn : n ≤ exactLimit) :
    x.round = ofNat n := by
  obtain ⟨m, rfl, hm⟩ := hx
  have hu := perUnit_pos_rat
  have hq := m.value_mul_perUnit.symm
  obtain ⟨hl, hr⟩ := abs_lt.1 (hm.trans_lt he)
  have hr' : (m.quanta : ℚ) < (n + 1 / 2) * perUnit := by
    rw [hq]
    exact mul_lt_mul_of_pos_right (by linarith) hu
  have hl' : (n - 1 / 2) * perUnit < (m.quanta : ℚ) := by
    rw [hq]
    exact mul_lt_mul_of_pos_right (by linarith) hu
  have hu : 2 * m.quanta < 2 * (n * perUnit) + perUnit := by
    exact_mod_cast (by linarith : (2 * m.quanta : ℚ) < 2 * (n * perUnit) + perUnit)
  have hl : 2 * (n * perUnit) < 2 * m.quanta + perUnit := by
    exact_mod_cast (by linarith : (2 * (n * perUnit) : ℚ) < 2 * m.quanta + perUnit)
  have hh : Rounding.halfUp m.quanta perUnit = n := by
    apply Nat.div_eq_of_lt_le
    · rw [Nat.mul_left_comm]
      omega
    · rw [Nat.add_one_mul n, Nat.mul_left_comm]
      omega
  rw [Binary64.round, hh, ofQuotient_one hn, ofNat_eq_finite hn]

lemma Near.lt_ofNat (hx : x.Near e r) (hn : n ≤ exactLimit) (h : r + e < n) :
    x.isFinite = true ∧ x.lt 0 = false ∧ x.lt (ofNat n) = true := by
  obtain ⟨m, rfl, hm⟩ := hx
  refine ⟨rfl, ?_, (lt_ofNat_iff hn).2 ?_⟩
  · rw [← Bool.not_eq_true, lt_zero_iff]
    simp [signed]
  · have hv : m.value < n := by linarith [le_of_abs_le hm]
    exact Int.ofNat_lt.2 (value_lt_iff.1 hv)

end Binary64

end SheetFormat
