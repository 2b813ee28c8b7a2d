import SheetFormat.Proofs.Number.Order

/-! Bounds by whole numbers, which products and roundings keep. -/

namespace SheetFormat.Binary64

open Rounding

attribute [local irreducible] perUnit limit

def AtMost (n : Nat) (x : Binary64) : Prop := ∃ s m, x = .finite s m ∧ m.quanta ≤ n * perUnit

variable {n k : Nat} {x : Binary64}

lemma atMost_of_signed_le {s : Bool} {m : Magnitude} (hl : lt (.finite s m) 0 = false)
    (hu : signed s m ≤ ((k * perUnit : Nat) : Int)) : (finite s m).AtMost k := by
  rw [← Bool.not_eq_true, lt_zero_iff] at hl
  refine ⟨s, m, rfl, ?_⟩
  cases s with
  | false =>
    simp only [signed, Bool.false_eq_true, if_false] at hu
    exact Int.ofNat_le.1 hu
  | true =>
    simp only [signed, if_true] at hl
    omega

lemma atMost_of_lt (hk : k ≤ exactLimit) (h0 : x.isFinite = true) (hl : x.lt 0 = false)
    (hu : x.lt (ofNat k) = true) : x.AtMost k := by
  obtain ⟨s, m, rfl⟩ := exists_finite h0
  exact atMost_of_signed_le hl ((lt_ofNat_iff hk).1 hu).le

lemma atMost_of_le (hk : k ≤ exactLimit) (h0 : x.isFinite = true) (hl : x.lt 0 = false)
    (hu : x.le (ofNat k) = true) : x.AtMost k := by
  obtain ⟨s, m, rfl⟩ := exists_finite h0
  exact atMost_of_signed_le hl ((finite_le_ofNat_iff hk).1 hu)

lemma ofQuanta_le (hk : spacing 53 k ∣ k) (hl : k < limit) (s : Bool) {a d : Nat} (hd : 0 < d)
    (ha : a ≤ k * d) : ∃ m, ofQuanta s a d = .finite s m ∧ m.quanta ≤ k := by
  have hq : toBits 53 a d ≤ k := toBits_le hd hk ha
  obtain ⟨m, hm, he⟩ := exists_ofQuanta s hd (hq.trans_lt hl)
  exact ⟨m, hm, he ▸ hq⟩

lemma atMost_ofQuanta (h : n ≤ exactLimit) (s : Bool) {a d : Nat} (hd : 0 < d)
    (ha : a ≤ n * perUnit * d) : (ofQuanta s a d).AtMost n := by
  obtain ⟨m, hm, hq⟩ := ofQuanta_le (aligned_whole h) (whole_lt_limit h) s hd ha
  exact ⟨s, m, hm, hq⟩

lemma AtMost.mul_ofNat (hx : x.AtMost n) (hk : k ≤ exactLimit) (h : n * k ≤ exactLimit) :
    (x * ofNat k).AtMost (n * k) := by
  obtain ⟨s, m, rfl, hm⟩ := hx
  rw [mul_ofNat_eq s m hk]
  apply atMost_ofQuanta h _ perUnit_pos
  calc m.quanta * (k * perUnit) ≤ n * perUnit * (k * perUnit) := Nat.mul_le_mul_right _ hm
    _ = n * k * perUnit * perUnit := by ring

lemma halfUp_le {a d : Nat} (hd : 0 < d) (h : a ≤ n * d) : halfUp a d ≤ n := by
  apply Nat.le_of_lt_succ
  rw [halfUp, Nat.div_lt_iff_lt_mul (by omega)]
  calc 2 * a + d < 2 * (n * d) + 2 * d := by omega
    _ = (n + 1) * (2 * d) := by ring

lemma AtMost.round (hx : x.AtMost n) (h : n ≤ exactLimit) : x.round.AtMost n := by
  obtain ⟨s, m, rfl, hm⟩ := hx
  apply atMost_ofQuanta h s Nat.one_pos
  rw [Nat.mul_one]
  exact Nat.mul_le_mul_right _ (halfUp_le perUnit_pos hm)

lemma AtMost.toNat64_le (hx : x.AtMost n) : x.toNat64 ≤ n := by
  obtain ⟨s, m, rfl, hm⟩ := hx
  cases s with
  | false =>
    apply (Nat.min_le_left ..).trans
    apply Nat.div_le_of_le_mul
    rwa [Nat.mul_comm]
  | true => exact Nat.zero_le n

end SheetFormat.Binary64
