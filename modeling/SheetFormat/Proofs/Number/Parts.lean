import SheetFormat.Proofs.Number.Overflow
import SheetFormat.Proofs.Number.Whole

/-! The whole part of a double, the fraction that is left and the nearest whole number are doubles,
so that they are taken without an error. -/

namespace SheetFormat

open Rounding

attribute [local instance (2000)] instPowNat
attribute [local irreducible] perUnit limit

namespace Rounding

variable {bits n d k m : Nat}

lemma halfEven_mul_left (hk : 0 < k) (n d : Nat) : halfEven (k * n) (k * d) = halfEven n d := by
  have hl : 2 * (k * (n % d)) < k * d ↔ 2 * (n % d) < d := by
    rw [Nat.mul_left_comm]
    exact Nat.mul_lt_mul_left hk
  have hu : k * d < 2 * (k * (n % d)) ↔ d < 2 * (n % d) := by
    rw [Nat.mul_left_comm]
    exact Nat.mul_lt_mul_left hk
  simp only [halfEven, Nat.mul_mod_mul_left, Nat.mul_div_mul_left _ _ hk, hl, hu]

lemma toBits_mul_left (hk : 0 < k) (bits n d : Nat) :
    toBits bits (k * n) (k * d) = toBits bits n d := by
  rw [toBits, toBits, Nat.mul_div_mul_left _ _ hk, Nat.mul_assoc, halfEven_mul_left hk]

lemma halfUp_eq_iff (hd : 0 < d) :
    halfUp n d = k ↔ 2 * (k * d) ≤ 2 * n + d ∧ 2 * n < 2 * (k * d) + d := by
  have hk : k * (2 * d) = 2 * (k * d) := Nat.mul_left_comm ..
  rw [halfUp, Nat.div_eq_iff (Nat.mul_pos Nat.two_pos hd), hk]
  omega

lemma le_halfUp (hd : 0 < d) (h : k * d ≤ n) : k ≤ halfUp n d := by
  rw [halfUp, Nat.le_div_iff_mul_le (Nat.mul_pos Nat.two_pos hd)]
  calc k * (2 * d) = 2 * (k * d) := Nat.mul_left_comm ..
    _ ≤ 2 * n + d := by omega

end Rounding

namespace Magnitude

open Binary64

lemma spacing_dvd_or (m : Magnitude) :
    spacing 53 m.quanta ∣ perUnit ∧ m.quanta < exactLimit * perUnit ∨ perUnit ∣ m.quanta := by
  obtain ⟨j, hj⟩ := perUnit_eq_pow
  rcases Nat.le_total (m.quanta.log2 + 1 - 53) j with hl | hl
  · have hd : spacing 53 m.quanta ∣ perUnit := hj ▸ Nat.pow_dvd_pow 2 hl
    refine .inl ⟨hd, (lt_pow_mul_spacing 53 _).trans_le ?_⟩
    exact Nat.mul_le_mul_left _ (Nat.le_of_dvd perUnit_pos hd)
  · have hd : perUnit ∣ spacing 53 m.quanta := hj ▸ Nat.pow_dvd_pow 2 hl
    exact .inr (hd.trans m.aligned)

lemma spacing_dvd_mod (m : Magnitude) : spacing 53 m.quanta ∣ m.quanta % perUnit := by
  rcases m.spacing_dvd_or with ⟨hd, -⟩ | hd
  · exact (Nat.dvd_mod_iff hd).2 m.aligned
  · rw [Nat.mod_eq_zero_of_dvd hd]
    exact dvd_zero _

def truncated (m : Magnitude) : Magnitude where
  quanta := m.quanta / perUnit * perUnit
  aligned := by
    have hw : m.quanta / perUnit * perUnit = m.quanta - m.quanta % perUnit := by
      have := Nat.div_add_mod' m.quanta perUnit
      omega
    rw [hw]
    exact (spacing_dvd_spacing (Nat.sub_le _ _)).trans (Nat.dvd_sub m.aligned m.spacing_dvd_mod)
  bounded := (Nat.div_mul_le_self _ _).trans_lt m.bounded

def fraction (m : Magnitude) : Magnitude where
  quanta := m.quanta % perUnit
  aligned := (spacing_dvd_spacing (Nat.mod_le _ _)).trans m.spacing_dvd_mod
  bounded := (Nat.mod_le _ _).trans_lt m.bounded

lemma fraction_lt (m : Magnitude) : m.fraction.quanta < perUnit := Nat.mod_lt _ perUnit_pos

lemma quanta_lt_of_fraction (m : Magnitude) (h : m.fraction.quanta ≠ 0) :
    m.quanta < exactLimit * perUnit := by
  rcases m.spacing_dvd_or with ⟨-, hl⟩ | hd
  · exact hl
  · exact absurd (Nat.mod_eq_zero_of_dvd hd) h

end Magnitude

namespace Binary64

variable {x : Binary64} {m : Magnitude} {n d k : Nat} {s : Bool}

lemma sub_def (x y : Binary64) : x - y = x.add y.neg := rfl

lemma trunc_finite (s : Bool) (m : Magnitude) : (finite s m).trunc = finite s m.truncated :=
  ofQuanta_quanta s m.truncated

lemma fract_finite (h : s = true → m.quanta = 0) :
    (finite s m).fract = finite false m.fraction := by
  have hq := Nat.div_add_mod' m.quanta perUnit
  have hs : signed s m + signed (!s) m.truncated = (m.fraction.quanta : Int) := by
    change signed s m + signed (!s) m.truncated = ((m.quanta % perUnit : Nat) : Int)
    have ht : m.truncated.quanta = m.quanta / perUnit * perUnit := rfl
    cases s with
    | false =>
      simp only [signed, Bool.not_false, if_true, Bool.false_eq_true, if_false, ht]
      omega
    | true =>
      have h0 := h rfl
      simp only [signed, Bool.not_true, if_true, Bool.false_eq_true, if_false, ht]
      omega
  have hn : ¬(m.fraction.quanta : Int) < 0 := not_lt.2 (Int.natCast_nonneg _)
  rw [fract, trunc_finite, sub_def, neg, add, hs, Int.natAbs_natCast, Bool.and_not_self,
    decide_eq_false hn, ite_self]
  exact ofQuanta_quanta false m.fraction

lemma round_ofQuanta (hd : 0 < d) (hl : toBits 53 n d < limit) :
    (ofQuanta false n d).round = ofNat (halfUp (toBits 53 n d) perUnit) := by
  obtain ⟨m, hm, hq⟩ := exists_ofQuanta false hd hl
  rw [hm, ← hq]
  rfl

lemma ofQuanta_mul_left (hk : 0 < k) (s : Bool) (n d : Nat) :
    ofQuanta s (k * n) (k * d) = ofQuanta s n d := by
  by_cases hd : 0 < d
  · simp only [ofQuanta, hd, Nat.mul_pos hk hd, dif_pos, toBits_mul_left hk]
  · obtain rfl : d = 0 := by omega
    rfl

lemma mul_ofNat_eq_ofQuanta (m : Magnitude) (hd : d ≤ exactLimit) :
    finite false m * ofNat d = ofQuanta false (m.quanta * d) 1 := by
  have hq : m.quanta * (d * perUnit) = perUnit * (m.quanta * d) := by ring
  have h1 := ofQuanta_mul_left perUnit_pos false (m.quanta * d) 1
  rw [Nat.mul_one] at h1
  rw [mul_ofNat_eq false m hd, hq]
  exact h1

lemma mul_ofNat_one (m : Magnitude) (s : Bool) : finite s m * ofNat 1 = finite s m := by
  rw [mul_ofNat_eq s m (by decide), Nat.one_mul, Bool.bne_false]
  exact ofQuanta_mul s m perUnit_pos

lemma div_ofNat_one (m : Magnitude) (s : Bool) : finite s m / ofNat 1 = finite s m := by
  rw [div_ofNat_eq s m Nat.one_pos (by decide), Nat.one_mul, Bool.bne_false]
  exact ofQuanta_mul s m perUnit_pos

lemma isZero_sub_self (s : Bool) (m : Magnitude) :
    ((finite s m - finite s m).abs).isZero = true := by
  have hs : signed s m + signed (!s) m = 0 := by cases s <;> simp [signed]
  have hz := ofQuotient_one (Nat.zero_le exactLimit) (s && !s)
  rw [ofQuotient, Nat.zero_mul] at hz
  rw [sub_def, neg, add, hs, if_pos rfl, Int.natAbs_zero, hz, abs, isZero]
  exact beq_iff_eq.2 (Nat.zero_mul _)

lemma ofNat_div_mul_left (hk : 0 < k) (hn : k * n ≤ exactLimit) (hd : k * d ≤ exactLimit)
    (h0 : 0 < d) : ofNat (k * n) / ofNat (k * d) = ofNat n / ofNat d := by
  have hn' : n ≤ exactLimit := (Nat.le_mul_of_pos_left n hk).trans hn
  have hd' : d ≤ exactLimit := (Nat.le_mul_of_pos_left d hk).trans hd
  have hq : (whole (k * n) hn).quanta * perUnit = k * ((whole n hn').quanta * perUnit) := by
    change k * n * perUnit * perUnit = k * (n * perUnit * perUnit)
    ring
  rw [ofNat_eq_finite hn, ofNat_eq_finite hn', div_ofNat_eq _ _ (Nat.mul_pos hk h0) hd,
    div_ofNat_eq _ _ h0 hd', hq, Nat.mul_assoc k d, ofQuanta_mul_left hk]

end Binary64

end SheetFormat
