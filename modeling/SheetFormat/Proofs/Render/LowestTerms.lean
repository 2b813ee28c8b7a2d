import Mathlib.Data.Nat.Prime.Basic
import SheetFormat.Proofs.Checked.Fraction
import SheetFormat.Proofs.Number.Error
import SheetFormat.Proofs.Render.Approximation

/-! Two convergents in a row have the determinant one. In the search a fraction that can be reduced
comes after the reduced one, which is as near. -/

namespace SheetFormat

open Rounding Convergents

attribute [local instance (2000)] instPowNat
attribute [local irreducible] perUnit limit

lemma Binary64.AtLeast.one_le_floor {x : Binary64} (h : x.AtLeast (1 * perUnit)) :
    1 ≤ x.floor.toNat64 := by
  have hp := perUnit_pos
  cases x with
  | finite s m =>
    have hm := h.signed
    cases s with
    | false =>
      have hq : perUnit ≤ m.quanta := by
        have : ((1 * perUnit : Nat) : Int) ≤ (m.quanta : Int) := hm
        omega
      have hf : (Binary64.finite false m).floor = .finite false m.truncated :=
        ofQuanta_quanta false m.truncated
      rw [hf, toNat64]
      refine le_min ?_ (by decide)
      exact (Nat.one_le_div_iff hp).2 (Nat.le_mul_of_pos_left _ (Nat.div_pos hq hp))
    | true =>
      have : ((1 * perUnit : Nat) : Int) ≤ -(m.quanta : Int) := hm
      omega
  | infinite s =>
    obtain rfl := h.eq_false
    decide
  | nan => exact absurd h not_atLeast_nan

lemma Binary64.exists_magnitude {x : Binary64} {P : Magnitude → Prop} [DecidablePred P]
    (h : (match x with
      | .finite false m => decide (P m)
      | _ => false) = true) : ∃ m, x = .finite false m ∧ P m := by
  split at h
  next m => exact ⟨m, rfl, of_decide_eq_true h⟩
  next => cases h

structure IsLowest (largest : Nat) (f : Nat × Nat) : Prop where
  pos : 1 ≤ f.2
  le_largest : f.2 ≤ largest
  coprime : Nat.Coprime f.1 f.2

lemma one_le_largest {digits : Nat} (h : 1 ≤ digits) : 1 ≤ 10 ^ digits - 1 := by
  have := Nat.pow_le_pow_right (show 0 < 10 by decide) h
  omega

lemma isLowest_zero {largest : Nat} (h : 1 ≤ largest) : IsLowest largest (0, 1) :=
  ⟨le_rfl, h, Nat.coprime_one_right 0⟩

namespace Convergents

variable {largest : Nat} {c c' : Convergents} {m : Magnitude}

def Unimodular (c : Convergents) : Prop :=
  c.numerators.1 * c.denominators.2 = c.numerators.2 * c.denominators.1 + 1 ∨
    c.numerators.1 * c.denominators.2 + 1 = c.numerators.2 * c.denominators.1

lemma unimodular_first (target : Binary64) : (first target).Unimodular := .inr rfl

lemma Unimodular.next (h : c.Unimodular) (hn : c.next? largest = some c') :
    c'.Unimodular := by
  obtain ⟨step, -, hnum, hden, -⟩ := next?_eq_some hn
  have hl : (step * c.numerators.1 + c.numerators.2) * c.denominators.1 =
      step * (c.numerators.1 * c.denominators.1) + c.numerators.2 * c.denominators.1 := by ring
  have hr : c.numerators.1 * (step * c.denominators.1 + c.denominators.2) =
      step * (c.numerators.1 * c.denominators.1) + c.numerators.1 * c.denominators.2 := by ring
  rw [Unimodular, hnum, hden, hl, hr]
  rcases h with h | h
  · exact .inr (by omega)
  · exact .inl (by omega)

lemma Unimodular.coprime (h : c.Unimodular) :
    Nat.Coprime c.numerators.1 c.denominators.1 := by
  have hl : c.numerators.1.gcd c.denominators.1 ∣ c.numerators.1 * c.denominators.2 :=
    (Nat.gcd_dvd_left ..).mul_right _
  have hr : c.numerators.1.gcd c.denominators.1 ∣ c.numerators.2 * c.denominators.1 :=
    (Nat.gcd_dvd_right ..).mul_left _
  apply Nat.dvd_one.1
  rcases h with h | h
  · exact (Nat.dvd_add_right hr).1 (h ▸ hl)
  · exact (Nat.dvd_add_right hl).1 (h ▸ hr)

lemma nearest_cases (target : Binary64) (largest : Nat) :
    (target.le negligible = true ∧ nearest target largest = (0, 1)) ∨
      ∃ count c, count = 40 ∧ c = last largest count (first target) ∧
        nearest target largest = (c.numerators.1, max c.denominators.1 1) := by
  by_cases h : target.le negligible = true
  · exact .inl ⟨h, if_pos h⟩
  · exact .inr ⟨40, _, rfl, rfl, if_neg h⟩

lemma nearest_isLowest (target : Binary64) (h : 1 ≤ largest) :
    IsLowest largest (nearest target largest) := by
  rcases nearest_cases target largest with ⟨-, hz⟩ | ⟨count, c, -, hc, hn⟩
  · exact hz ▸ isLowest_zero h
  obtain ⟨hu, hl⟩ : c.Unimodular ∧ c.denominators.1 ≤ largest := by
    rw [hc]
    refine last_keeps (P := fun c => c.Unimodular ∧ c.denominators.1 ≤ largest)
      (fun c next hn hc => ?_) count ⟨unimodular_first target, h⟩
    obtain ⟨step, -, -, -, hl, -⟩ := next?_eq_some hn
    exact ⟨hc.1.next hn, hl⟩
  rw [hn]
  refine ⟨Nat.le_max_right .., max_le hl h, ?_⟩
  dsimp only
  rcases Nat.eq_zero_or_pos c.denominators.1 with h0 | h0
  · rw [h0]
    exact Nat.coprime_one_right _
  · rw [max_eq_left h0]
    exact hu.coprime

lemma one_le_floor_inverse (hl : m.quanta < perUnit) :
    1 ≤ (1 / Binary64.finite false m).floor.toNat64 := by
  have hw : 1 ≤ Binary64.exactLimit := by decide
  change 1 ≤ (Binary64.ofNat 1 / Binary64.finite false m).floor.toNat64
  rw [Binary64.ofNat_eq_finite hw]
  by_cases hm : m.quanta = 0
  · have h1 : ¬(Binary64.whole 1 hw).quanta = 0 := (Nat.mul_pos Nat.one_pos perUnit_pos).ne'
    have hi : Binary64.finite false (Binary64.whole 1 hw) / .finite false m = .infinite false := by
      change Binary64.div _ _ = _
      rw [Binary64.div, if_pos hm, if_neg h1]
      rfl
    rw [hi]
    decide
  · refine Binary64.AtLeast.one_le_floor ?_
    rw [Binary64.finite_div _ _ _ hm]
    exact Binary64.atLeast_ofQuanta (Binary64.aligned_whole hw) (Binary64.whole_lt_limit hw).le
      (Nat.pos_of_ne_zero hm) (Nat.mul_le_mul_left _ hl.le)

lemma exists_negligible : ∃ z : Magnitude, negligible = .finite false z ∧
    perUnit ≤ 2 ^ 34 * z.quanta ∧ 2 ^ 33 * z.quanta ≤ perUnit :=
  Binary64.exists_magnitude (by decide +kernel)

lemma le_negligible (h : (Binary64.finite false m).le negligible = true) :
    m.value ≤ 1 / 2 ^ 33 := by
  obtain ⟨z, hz, -, hq⟩ := exists_negligible
  rw [hz] at h
  have hle : (m.quanta : Int) ≤ z.quanta := of_decide_eq_true h
  have hv := (@Magnitude.value_le_div_iff m 1 (2 ^ 33) (by decide)).2 (by omega)
  exact_mod_cast hv

lemma floor_finite (m : Magnitude) :
    (Binary64.finite false m).floor = .finite false m.truncated :=
  Binary64.ofQuanta_quanta false m.truncated

lemma floor_toNat64 (m : Magnitude) :
    (Binary64.finite false m).floor.toNat64 = min (m.quanta / perUnit) (2 ^ (64 : Nat) - 1) := by
  have hq : m.truncated.quanta / perUnit = m.quanta / perUnit :=
    Nat.mul_div_cancel _ perUnit_pos
  rw [floor_finite, Binary64.toNat64, hq]

lemma sub_floor (m : Magnitude) :
    Binary64.finite false m - (Binary64.finite false m).floor = .finite false m.fraction := by
  have hf := @Binary64.fract_finite m false Bool.noConfusion
  rwa [Binary64.fract, Binary64.trunc_finite, ← floor_finite] at hf

structure Between (a n d : Nat) : Prop where
  pos : 1 ≤ d
  le : a * d ≤ n
  ge : n ≤ (a + 1) * d

variable {a n d n' d' : Nat}

lemma Between.step (h : Between a n d) (h' : Between a n' d') (step : Nat) :
    Between a (step * n + n') (step * d + d') where
  pos := h'.pos.trans (Nat.le_add_left ..)
  le := by
    have hs := Nat.mul_le_mul_left step h.le
    have he : a * (step * d + d') = step * (a * d) + a * d' := by ring
    exact he.trans_le (Nat.add_le_add hs h'.le)
  ge := by
    have hs := Nat.mul_le_mul_left step h.ge
    have he : (a + 1) * (step * d + d') = step * ((a + 1) * d) + (a + 1) * d' := by ring
    exact (Nat.add_le_add hs h'.ge).trans_eq he.symm

lemma between_whole (a : Nat) : Between a a 1 := ⟨le_rfl, by omega, by omega⟩

lemma between_first_step (a : Nat) {step : Nat} (h : 1 ≤ step) :
    Between a (step * a + 1) (step * 1 + 0) where
  pos := by omega
  le := by
    rw [Nat.mul_one, Nat.mul_comm]
    exact Nat.le_succ _
  ge := by
    rw [Nat.mul_one, Nat.add_zero, Nat.add_one_mul, Nat.mul_comm]
    exact Nat.add_le_add_left h _

lemma between_last (m : Magnitude) (largest count : Nat) :
    let c := last largest count (first (.finite false m))
    Between (Binary64.finite false m).floor.toNat64 c.numerators.1 c.denominators.1 := by
  intro c
  cases count with
  | zero => exact between_whole _
  | succ count =>
    have hc : c = last largest (count + 1) (first (.finite false m)) := rfl
    rw [last] at hc
    cases hn : (first (.finite false m)).next? largest with
    | none =>
      rw [hn] at hc
      rw [hc]
      exact between_whole _
    | some c₁ =>
      rw [hn] at hc
      obtain ⟨step, hs, hnum, hden, -⟩ := next?_eq_some hn
      have h1 : 1 ≤ step := by
        rw [hs, first]
        dsimp only
        rw [sub_floor]
        exact one_le_floor_inverse m.fraction_lt
      let P (c : Convergents) : Prop :=
        Between (Binary64.finite false m).floor.toNat64 c.numerators.1 c.denominators.1 ∧
          Between (Binary64.finite false m).floor.toNat64 c.numerators.2 c.denominators.2
      have hb : P c₁ := by
        refine ⟨?_, ?_⟩ <;> rw [hnum, hden]
        · exact between_first_step _ h1
        · exact between_whole _
      have hk : P c := by
        rw [hc]
        refine last_keeps (fun c next hs hb => ?_) count hb
        obtain ⟨step, -, hnum, hden, -⟩ := next?_eq_some hs
        refine ⟨?_, ?_⟩ <;> rw [hnum, hden]
        · exact hb.1.step hb.2 step
        · exact hb.1
      exact hk.1

lemma nearest_le (hl : m.quanta < perUnit) (largest : Nat) :
    (nearest (.finite false m) largest).1 ≤ (nearest (.finite false m) largest).2 := by
  have h0 : (Binary64.finite false m).floor.toNat64 = 0 := by
    rw [floor_toNat64, Nat.div_eq_of_lt hl, Nat.zero_min]
  rcases nearest_cases (.finite false m) largest with ⟨-, hz⟩ | ⟨count, c, -, rfl, hn⟩
  · exact hz ▸ Nat.zero_le 1
  · have hb := (between_last m largest count).ge
    rw [h0, Nat.zero_add, Nat.one_mul] at hb
    rw [hn]
    exact hb.trans (Nat.le_max_left ..)

end Convergents

namespace Approximation

open Binary64

variable {m : Magnitude} {largest d n k g : Nat}

def quarter : Nat := 2 ^ (1072 : Nat)

lemma perUnit_eq_quarter : perUnit = 4 * quarter := by
  rw [perUnit.eq_1, quarter.eq_1, show 1074 = 1072 + 2 from rfl]
  generalize 1072 = k
  rw [Nat.pow_succ, Nat.pow_succ]
  omega

lemma quarter_eq_pow : ∃ j, quarter = 2 ^ j := by
  have h : quarter = 2 ^ (1072 : Nat) := quarter.eq_1
  generalize (1072 : Nat) = j at h
  exact ⟨j, h⟩

lemma quarter_pos : 0 < quarter := by
  obtain ⟨j, hj⟩ := quarter_eq_pow
  rw [hj]
  exact Nat.two_pow_pos j

attribute [local irreducible] quarter

lemma aligned_quarter (h : k ≤ exactLimit) : spacing 53 (k * quarter) ∣ k * quarter := by
  obtain ⟨j, hj⟩ := quarter_eq_pow
  rw [hj]
  exact spacing_dvd (by decide) h

lemma le_toBits_quarter (hk : k ≤ exactLimit) (h : k * quarter ≤ n) :
    k * quarter ≤ toBits 53 n 1 :=
  le_toBits (by decide) Nat.one_pos (aligned_quarter hk) (by rwa [Nat.mul_one])

lemma toBits_le_quarter (hk : k ≤ exactLimit) (h : n ≤ k * quarter) :
    toBits 53 n 1 ≤ k * quarter :=
  toBits_le Nat.one_pos (aligned_quarter hk) (by rwa [Nat.mul_one])

lemma bounds_of_halfUp (hk : 4 * k + 2 ≤ exactLimit)
    (h : halfUp (toBits 53 n 1) perUnit = k) :
    4 * (k * quarter) < n + 4 * quarter ∧ n < 4 * (k * quarter) + 2 * quarter := by
  have h0 := quarter_pos
  have hq : k * (4 * quarter) = 4 * (k * quarter) := Nat.mul_left_comm ..
  rw [halfUp_eq_iff perUnit_pos, perUnit_eq_quarter, hq] at h
  refine ⟨?_, ?_⟩
  · by_contra hn
    rcases Nat.eq_zero_or_pos k with rfl | hk0
    · omega
    obtain ⟨j, rfl⟩ : ∃ j, k = j + 1 := Nat.exists_eq_succ_of_ne_zero hk0.ne'
    have hj : 4 * ((j + 1) * quarter) = 4 * j * quarter + 4 * quarter := by ring
    have := toBits_le_quarter (n := n) (k := 4 * j) (by omega) (by omega)
    omega
  · by_contra hn
    have hu : (4 * k + 2) * quarter = 4 * (k * quarter) + 2 * quarter := by ring
    have := le_toBits_quarter (n := n) hk (by omega)
    omega

lemma halfUp_of_bounds (hk : 4 * k + 1 ≤ exactLimit)
    (hl : 4 * (k * quarter) ≤ n + 2 * quarter) (hu : n ≤ 4 * (k * quarter) + quarter) :
    halfUp (toBits 53 n 1) perUnit = k := by
  have h0 := quarter_pos
  have hq : k * (4 * quarter) = 4 * (k * quarter) := Nat.mul_left_comm ..
  rw [halfUp_eq_iff perUnit_pos, perUnit_eq_quarter, hq]
  refine ⟨?_, ?_⟩
  · rcases Nat.eq_zero_or_pos k with rfl | hk0
    · omega
    obtain ⟨j, rfl⟩ : ∃ j, k = j + 1 := Nat.exists_eq_succ_of_ne_zero hk0.ne'
    have hj : 4 * ((j + 1) * quarter) = (4 * j + 2) * quarter + 2 * quarter := by ring
    have := le_toBits_quarter (n := n) (k := 4 * j + 2) (by omega) (by omega)
    omega
  · have he : (4 * k + 1) * quarter = 4 * (k * quarter) + quarter := by ring
    have := toBits_le_quarter (n := n) hk (by omega)
    omega

lemma halfUp_of_mul (hg : 2 ≤ g) (hk : 4 * (g * k) + 2 ≤ exactLimit)
    (h : halfUp (toBits 53 (g * n) 1) perUnit = g * k) :
    halfUp (toBits 53 n 1) perUnit = k := by
  obtain ⟨hl, hu⟩ := bounds_of_halfUp hk h
  have h0 : 0 < g := by omega
  have hgq : 2 * quarter ≤ g * quarter := Nat.mul_le_mul_right quarter hg
  have hgk : 2 * k ≤ g * k := Nat.mul_le_mul_right k hg
  have hm : g * (4 * (k * quarter)) = 4 * (g * k * quarter) := by ring
  apply halfUp_of_bounds (by omega)
  · apply Nat.le_of_mul_le_mul_left _ h0
    have hd : g * (n + 2 * quarter) = g * n + 2 * (g * quarter) := by ring
    omega
  · apply Nat.le_of_mul_le_mul_left _ h0
    have hd : g * (4 * (k * quarter) + quarter) = 4 * (g * k * quarter) + g * quarter := by ring
    omega

lemma toBits_mul_le (hm : m.quanta ≤ perUnit) (hd : d ≤ exactLimit) :
    toBits 53 (m.quanta * d) 1 ≤ d * perUnit := by
  apply toBits_le Nat.one_pos (aligned_whole hd)
  rw [Nat.mul_one, Nat.mul_comm]
  exact Nat.mul_le_mul_left d hm

lemma round_mul_ofNat (hm : m.quanta ≤ perUnit) (hd : d ≤ exactLimit) :
    (Binary64.finite false m * .ofNat d).round =
      .ofNat (halfUp (toBits 53 (m.quanta * d) 1) perUnit) := by
  have hl := (toBits_mul_le hm hd).trans_lt (whole_lt_limit hd)
  rw [mul_ofNat_eq_ofQuanta m hd]
  exact round_ofQuanta Nat.one_pos hl

lemma IsBest.isLowest (h : IsBest (.finite false m) largest d) (hm : m.quanta ≤ perUnit)
    (hl : 4 * largest + 2 ≤ exactLimit) :
    IsLowest largest ((withDenominator (.finite false m) d).numerator, d) ∧
      (withDenominator (.finite false m) d).numerator ≤ d := by
  have hdl := h.le_last
  have hd : d ≤ exactLimit := by omega
  have hnd : halfUp (toBits 53 (m.quanta * d) 1) perUnit ≤ d :=
    halfUp_le perUnit_pos (toBits_mul_le hm hd)
  have hr := round_mul_ofNat hm hd
  have hn : (withDenominator (.finite false m) d).numerator =
      halfUp (toBits 53 (m.quanta * d) 1) perUnit := by
    rw [withDenominator, hr]
    exact toNat64_ofNat (hnd.trans hd)
  rw [hn]
  refine ⟨⟨h.pos, hdl, ?_⟩, hnd⟩
  by_contra hc
  obtain ⟨g, hg, ⟨k, hk⟩, ⟨e, he⟩⟩ := Nat.Prime.not_coprime_iff_dvd.1 hc
  dsimp only at hk he
  have h2 := hg.two_le
  have he0 : 0 < e := Nat.pos_of_mul_pos_left (he ▸ h.pos)
  have hed : e < d := by
    rw [he]
    exact (Nat.lt_mul_iff_one_lt_left he0).2 h2
  have hgk : g * k ≤ d := hk ▸ hnd
  have hre : (Binary64.finite false m * .ofNat e).round = .ofNat k := by
    have hq : m.quanta * d = g * (m.quanta * e) := by rw [he, Nat.mul_left_comm]
    rw [round_mul_ofNat hm (hed.le.trans hd)]
    rw [hq] at hk
    rw [halfUp_of_mul h2 (by omega) hk]
  have hdev : deviation (.finite false m) d = deviation (.finite false m) e := by
    rw [deviation, deviation, hr, hre, hk]
    conv => lhs; rw [he]
    rw [ofNat_div_mul_left hg.pos (by omega) (he ▸ hd) he0]
  have hlt := h.first e he0 hed
  rw [hdev] at hlt
  exact not_lt_self _ hlt

end Approximation

lemma bestFraction_of_isZero {target : Binary64} (h : target.isZero = true) (digits : Nat) :
    bestFraction target digits = (0, 1) := by
  have h0 : target.le 0 = true := Binary64.le_of_isZero h (Binary64.ofNat_le_self (Nat.zero_le _))
  have hz : Binary64.le 0 negligible = true := by
    obtain ⟨z, hz, -⟩ := exists_negligible
    rw [hz]
    exact Binary64.zero_le_iff.2 (Int.natCast_nonneg _)
  have hn : target.le negligible = true := Binary64.le_of_isZero h hz
  rw [bestFraction, Approximation.nearest, Convergents.nearest, if_pos h0, if_pos hn, ite_self]

lemma bestFraction_of_lt {m : Magnitude} (hm : m.quanta ≠ 0) (hl : m.quanta < perUnit)
    {digits : Nat} (h1 : 1 ≤ digits) :
    IsLowest (10 ^ digits - 1) (bestFraction (.finite false m) digits) ∧
      (bestFraction (.finite false m) digits).1 ≤ (bestFraction (.finite false m) digits).2 := by
  have hp := one_le_largest h1
  rw [bestFraction, Nat.max_eq_left h1]
  by_cases hs : digits ≤ searchedDigits
  · rw [if_pos hs]
    have hb : 10 ^ digits ≤ 10 ^ searchedDigits := Nat.pow_le_pow_right (by decide) hs
    have hw : 10 ^ searchedDigits < wordLimit := by decide
    have hx : 4 * 10 ^ searchedDigits + 2 ≤ Binary64.exactLimit := by decide
    have hq : m.quanta < 2 ^ (63 : Nat) * perUnit :=
      hl.trans_le (Nat.le_mul_of_pos_left _ (by decide))
    obtain ⟨d, hd, hbest⟩ := Approximation.nearest_eq hm hq hp (by omega)
    rw [hd]
    exact hbest.isLowest hl.le (by omega)
  · rw [if_neg hs]
    exact ⟨nearest_isLowest _ hp, nearest_le hl _⟩

lemma bestFraction_of_nonneg {s : Bool} {m : Magnitude} {digits : Nat} (h1 : 1 ≤ digits)
    (h0 : 0 ≤ Binary64.signed s m) (hl : Binary64.signed s m < perUnit) :
    IsLowest (10 ^ digits - 1) (bestFraction (.finite s m) digits) ∧
      (bestFraction (.finite s m) digits).1 ≤ (bestFraction (.finite s m) digits).2 := by
  by_cases hm : m.quanta = 0
  · have hz : (Binary64.finite s m).isZero = true := beq_iff_eq.2 hm
    rw [bestFraction_of_isZero hz]
    exact ⟨isLowest_zero (one_le_largest h1), Nat.zero_le 1⟩
  · cases s with
    | false => exact bestFraction_of_lt hm (Int.ofNat_lt.1 hl) h1
    | true =>
      have : 0 ≤ -(m.quanta : Int) := h0
      omega

lemma bestFraction_of_wide {digits : Nat} (h : searchedDigits < digits) (target : Binary64) :
    IsLowest (10 ^ digits - 1) (bestFraction target digits) := by
  have h1 : 1 ≤ digits := Nat.one_le_of_lt h
  rw [bestFraction, Nat.max_eq_left h1, if_neg (Nat.not_le.2 h)]
  exact nearest_isLowest target (one_le_largest h1)

/-- The fraction for a number below one is in lowest terms, not above one and within its width; from
five digits on it is in lowest terms and within its width for every number. -/
theorem bestFraction_reduced {digits : Nat} (h1 : 1 ≤ digits) (h9 : digits ≤ 9) :
    (∀ target : Binary64, Binary64.le 0 target = true → target.lt 1 = true →
        ∃ n d, Checked.bestFraction target digits = .ok (n, d) ∧
          bestFraction target digits = (n, d) ∧ 1 ≤ d ∧ d ≤ 10 ^ digits - 1 ∧ n ≤ d ∧
          Nat.gcd n d = 1 ∧ (target.isZero = true → n = 0 ∧ d = 1)) ∧
      (5 ≤ digits → ∀ target : Binary64, target.isFinite = true →
        ∃ n d, Checked.bestFraction target digits = .ok (n, d) ∧
          bestFraction target digits = (n, d) ∧ 1 ≤ d ∧ d ≤ 10 ^ digits - 1 ∧
          Nat.gcd n d = 1) := by
  refine ⟨fun target h0 hl => ?_, fun h5 target _ => ?_⟩
  · have hok := Checked.bestFraction_ok target h9
    obtain ⟨s, m, rfl, hm0, hm1⟩ := Binary64.exists_between (by decide) (by decide) h0 hl
    rw [Nat.zero_mul] at hm0
    rw [Nat.one_mul] at hm1
    obtain ⟨hb, hle⟩ := bestFraction_of_nonneg h1 hm0 hm1
    have hz := fun h => @bestFraction_of_isZero (.finite s m) h digits
    obtain ⟨⟨n, d⟩, hf⟩ : ∃ f, bestFraction (.finite s m) digits = f := ⟨_, rfl⟩
    rw [hf] at hok hb hle hz
    exact ⟨n, d, hok, hf, hb.pos, hb.le_largest, hle, hb.coprime, fun h => Prod.mk.inj (hz h)⟩
  · have hok := Checked.bestFraction_ok target h9
    have hb := bestFraction_of_wide h5 target
    obtain ⟨⟨n, d⟩, hf⟩ : ∃ f, bestFraction target digits = f := ⟨_, rfl⟩
    rw [hf] at hok hb
    exact ⟨n, d, hok, hf, hb.pos, hb.le_largest, hb.coprime⟩

theorem bestFraction_reduced_five :
    let target := Binary64.ofQuotient false 1 3
    let above := Binary64.ofQuotient false 355 113
    1 ≤ 5 ∧ 5 ≤ 9 ∧ Binary64.le 0 target = true ∧ target.lt 1 = true ∧ above.isFinite = true ∧
      (∃ n d, Checked.bestFraction target 5 = .ok (n, d) ∧ bestFraction target 5 = (n, d) ∧
        1 ≤ d ∧ d ≤ 10 ^ 5 - 1 ∧ n ≤ d ∧ Nat.gcd n d = 1 ∧
        (target.isZero = true → n = 0 ∧ d = 1)) ∧
      ∃ n d, Checked.bestFraction above 5 = .ok (n, d) ∧ bestFraction above 5 = (n, d) ∧
        1 ≤ d ∧ d ≤ 10 ^ 5 - 1 ∧ Nat.gcd n d = 1 := by
  intro target above
  have h0 : Binary64.le 0 target = true := by decide +kernel
  have hl : target.lt 1 = true := by decide +kernel
  have hf : above.isFinite = true := by decide +kernel
  have h := @bestFraction_reduced 5 (by decide) (by decide)
  exact ⟨by decide, by decide, h0, hl, hf, h.1 target h0 hl, h.2 le_rfl above hf⟩

end SheetFormat
