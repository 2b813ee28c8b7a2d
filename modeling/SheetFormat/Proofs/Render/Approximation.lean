import SheetFormat.Proofs.Number.Parts
import SheetFormat.Proofs.Number.Positive
import SheetFormat.Render.Fraction

namespace SheetFormat

open Rounding Convergents

attribute [local instance (2000)] instPowNat
attribute [local irreducible] perUnit limit

namespace Binary64

variable {x y : Binary64} {m : Magnitude} {n k : Nat}

lemma ofNat_of_le_word (h0 : 0 < n) (h : n ≤ wordLimit) :
    ∃ m, ofNat n = finite false m ∧ m.quanta ≠ 0 := by
  obtain ⟨m, hm, -⟩ := ofNat_le_word h
  have h1 : 1 ≤ exactLimit := by decide
  have ha := atLeast_ofNat (aligned_whole h1) (whole_lt_limit h1).le
    (Nat.mul_le_mul_right perUnit h0)
  rw [hm] at ha
  have hq : 1 * perUnit ≤ m.quanta := Int.ofNat_le.1 ha.signed
  have := perUnit_pos
  exact ⟨m, hm, by omega⟩

lemma exists_ofNat (ha : spacing 53 (n * perUnit) ∣ n * perUnit) (hl : n * perUnit < limit) :
    ∃ m : Magnitude, ofNat n = finite false m ∧ m.quanta = n * perUnit :=
  ⟨_, ofQuanta_quanta false ⟨n * perUnit, ha, hl⟩, rfl⟩

lemma round_ne_nan (hx : x ≠ .nan) : x.round ≠ .nan := by
  cases x with
  | finite s m => exact ofQuanta_ne_nan s (halfUp m.quanta perUnit * perUnit) 1
  | infinite s => exact hx
  | nan => exact hx

lemma div_finite_ne_nan (hx : x ≠ .nan) (s : Bool) (hm : m.quanta ≠ 0) :
    x / finite s m ≠ .nan := by
  cases x with
  | finite t k =>
    rw [finite_div t s k hm]
    exact ofQuanta_ne_nan _ _ _
  | infinite t => exact Binary64.noConfusion
  | nan => exact absurd rfl hx

lemma finite_sub_ne_nan (s : Bool) (m : Magnitude) (hx : x ≠ .nan) : finite s m - x ≠ .nan := by
  rw [sub_def]
  cases x with
  | finite t k => exact ofQuanta_ne_nan _ _ _
  | infinite t => exact Binary64.noConfusion
  | nan => exact absurd rfl hx

lemma abs_ne_nan (hx : x ≠ .nan) : x.abs ≠ .nan := by
  cases x with
  | finite s m => exact Binary64.noConfusion
  | infinite s => exact Binary64.noConfusion
  | nan => exact hx

lemma not_lt_of_isZero (hy : y.isZero = true) : ¬x.abs.lt y = true := by
  have h0 := x.abs_lt_zero
  rw [lt, rank_zero] at h0
  rw [lt, rank_of_isZero hy, h0]
  exact Bool.false_ne_true

end Binary64

namespace Approximation

open Binary64

def deviation (target : Binary64) (d : Nat) : Binary64 :=
  (target - (target * .ofNat d).round / .ofNat d).abs

def exhaust (target : Binary64) : Nat → Nat → Approximation → Approximation
  | 0, _, best => best
  | count + 1, d, best =>
    let next := withDenominator target d
    exhaust target count (d + 1) (if next.error.lt best.error then next else best)

structure IsBest (target : Binary64) (last d : Nat) : Prop where
  pos : 1 ≤ d
  le_last : d ≤ last
  best : ∀ e, 1 ≤ e → e ≤ last → (deviation target d).le (deviation target e) = true
  first : ∀ e, 1 ≤ e → e < d → (deviation target d).lt (deviation target e) = true

variable {target : Binary64} {m : Magnitude} {last count largest d e : Nat}

lemma error_withDenominator (target : Binary64) (d : Nat) :
    (withDenominator target d).error = deviation target d := rfl

lemma deviation_ne_nan (s : Bool) (m : Magnitude) (h0 : 0 < d) (hd : d ≤ wordLimit) :
    deviation (.finite s m) d ≠ .nan := by
  obtain ⟨k, hk, hq⟩ := ofNat_of_le_word h0 hd
  rw [deviation, hk]
  have hp : Binary64.finite s m * .finite false k ≠ .nan := ofQuanta_ne_nan _ _ _
  exact abs_ne_nan (finite_sub_ne_nan s m (div_finite_ne_nan (round_ne_nan hp) false hq))

lemma exhaust_of_isZero {best : Approximation} (h : best.error.isZero = true) (count d : Nat) :
    exhaust target count d best = best := by
  induction count generalizing d with
  | zero => rfl
  | succ count ih =>
    have hn : ¬(withDenominator target d).error.lt best.error = true := not_lt_of_isZero h
    rw [exhaust, if_neg hn, ih]

lemma search_eq_exhaust (target : Binary64) (count d : Nat) (best : Approximation) :
    search target count d best = exhaust target count d best := by
  induction count generalizing d best with
  | zero => rfl
  | succ count ih =>
    by_cases hz : best.error.isZero = true
    · rw [search, if_pos hz, exhaust_of_isZero hz]
    · rw [search, if_neg hz, exhaust, ih]

lemma isBest_one (hn : deviation target 1 ≠ .nan) : IsBest target 1 1 where
  pos := le_rfl
  le_last := le_rfl
  best e h1 hl := by
    obtain rfl : e = 1 := by omega
    exact le_self hn
  first e h1 hl := by omega

lemma IsBest.next (h : IsBest target last d)
    (hn : ∀ e, 1 ≤ e → e ≤ last + 1 → deviation target e ≠ .nan) :
    IsBest target (last + 1)
      (if (deviation target (last + 1)).lt (deviation target d) then last + 1 else d) := by
  have hlast := hn (last + 1) (Nat.succ_pos last) le_rfl
  split_ifs with hlt
  · refine ⟨Nat.succ_pos last, le_rfl, fun e h1 hl => ?_, fun e h1 hl => ?_⟩
    · rcases Nat.lt_or_eq_of_le hl with hl | rfl
      · exact le_of_lt_true (lt_trans_le hlt (h.best e h1 (Nat.le_of_lt_succ hl)))
      · exact le_self hlast
    · exact lt_trans_le hlt (h.best e h1 (Nat.le_of_lt_succ hl))
  · refine ⟨h.pos, h.le_last.trans (Nat.le_succ last), fun e h1 hl => ?_, h.first⟩
    rcases Nat.lt_or_eq_of_le hl with hl | rfl
    · exact h.best e h1 (Nat.le_of_lt_succ hl)
    · exact le_of_not_lt hlast (hn d h.pos (h.le_last.trans (Nat.le_succ last))) hlt

lemma exhaust_isBest (count : Nat) (h : IsBest target last d)
    (hn : ∀ e, 1 ≤ e → e ≤ last + count → deviation target e ≠ .nan) :
    ∃ b, exhaust target count (last + 1) (withDenominator target d) = withDenominator target b ∧
      IsBest target (last + count) b := by
  induction count generalizing last d with
  | zero => exact ⟨d, rfl, h⟩
  | succ count ih =>
    have hs : last + 1 + count = last + (count + 1) := by omega
    have hb := h.next fun e h1 hl => hn e h1 (by omega)
    rw [exhaust, error_withDenominator, error_withDenominator, ← apply_ite (withDenominator target),
      ← hs]
    exact ih hb fun e h1 hl => hn e h1 (by omega)

lemma IsBest.le_of_isZero (h : IsBest target last d) (h1 : 1 ≤ e)
    (hz : (deviation target e).isZero = true) : d ≤ e := by
  by_contra hlt
  exact not_lt_of_isZero hz (h.first e h1 (Nat.lt_of_not_le hlt))

lemma isZero_deviation {n : Nat} {s : Bool}
    (hr : (Binary64.finite s m * .ofNat d).round = .ofNat n)
    (hq : Binary64.ofNat n / .ofNat d = .finite s m) :
    (deviation (.finite s m) d).isZero = true := by
  rw [deviation, hr, hq]
  exact isZero_sub_self s m

lemma round_of_dvd (h : perUnit ∣ m.quanta) :
    (Binary64.finite false m).round = .finite false m ∧
      Binary64.ofNat (m.quanta / perUnit) = .finite false m := by
  have hq := Nat.div_mul_cancel h
  have hw : Binary64.ofNat (m.quanta / perUnit) = .finite false m := by
    rw [Binary64.ofNat, ofQuotient, hq]
    exact ofQuanta_quanta false m
  refine ⟨?_, hw⟩
  have hh : halfUp m.quanta perUnit = m.quanta / perUnit := by
    conv => lhs; rw [← hq]
    exact halfUp_mul _ perUnit_pos
  rw [Binary64.round, hh]
  exact hw

lemma isZero_deviation_one (h : perUnit ∣ m.quanta) :
    (deviation (.finite false m) 1).isZero = true := by
  obtain ⟨hr, hw⟩ := round_of_dvd h
  apply isZero_deviation (n := m.quanta / perUnit)
  · rw [mul_ofNat_one, hr, hw]
  · rw [hw, div_ofNat_one]

lemma exists_exact (h : ¬perUnit ∣ m.quanta) :
    ∃ d k, 0 < d ∧ k ≤ exactLimit ∧ spacing 53 (d * perUnit) ∣ d * perUnit ∧
      m.quanta * d = k * perUnit := by
  obtain ⟨hd, -⟩ := m.spacing_dvd_or.resolve_right h
  obtain ⟨k, hk⟩ := m.aligned
  obtain ⟨j, hj⟩ := perUnit_eq_pow
  have hl := lt_pow_mul_spacing 53 m.quanta
  have hk' : k < 2 ^ 53 := by
    conv at hl => lhs; rw [hk, Nat.mul_comm]
    exact Nat.lt_of_mul_lt_mul_right hl
  obtain ⟨i, hi⟩ : ∃ i, perUnit = spacing 53 m.quanta * 2 ^ i := by
    rw [hj, spacing] at hd ⊢
    have hle := (Nat.pow_dvd_pow_iff_le_right (by decide)).1 hd
    exact ⟨_, by rw [← Nat.pow_add, Nat.add_sub_cancel' hle]⟩
  refine ⟨2 ^ i, k, Nat.two_pow_pos i, hk'.le, ?_, ?_⟩
  · rw [hj, ← Nat.pow_add]
    exact spacing_dvd_two_pow (by decide) (i + j)
  · calc m.quanta * 2 ^ i = spacing 53 m.quanta * k * 2 ^ i := congrArg (· * 2 ^ i) hk
      _ = k * (spacing 53 m.quanta * 2 ^ i) := by ring
      _ = k * perUnit := by rw [hi]

lemma isZero_deviation_of_exact {k : Nat} (h0 : 0 < d) (hd : d ≤ wordLimit)
    (ha : spacing 53 (d * perUnit) ∣ d * perUnit) (hk : k ≤ exactLimit)
    (hq : m.quanta * d = k * perUnit) : (deviation (.finite false m) d).isZero = true := by
  obtain ⟨D, hD, hDq⟩ := exists_ofNat ha ((Nat.mul_le_mul_right _ hd).trans_lt word_lt_limit)
  have h0 : D.quanta ≠ 0 := hDq ▸ (Nat.mul_pos h0 perUnit_pos).ne'
  have he : m.quanta * D.quanta = (Binary64.whole k hk).quanta * perUnit := by
    rw [hDq, ← Nat.mul_assoc, hq]
    rfl
  apply isZero_deviation (n := k)
  · have hm : Binary64.finite false m * .ofNat d = .ofNat k := by
      rw [hD, ofNat_eq_finite hk]
      change ofQuanta false (m.quanta * D.quanta) perUnit = _
      rw [he]
      exact ofQuanta_mul _ _ perUnit_pos
    rw [hm, round_ofNat hk]
  · rw [hD, ofNat_eq_finite hk, finite_div _ _ _ h0, ← he]
    exact ofQuanta_mul _ _ (Nat.pos_of_ne_zero h0)

lemma exists_round (h : m.quanta < 2 ^ (63 : Nat) * perUnit) :
    ∃ n r, (Binary64.finite false m).round = .ofNat n ∧ Binary64.ofNat n = .finite false r ∧
      (Binary64.ofNat n).toNat64 = n := by
  by_cases hd : perUnit ∣ m.quanta
  · obtain ⟨hr, hw⟩ := round_of_dvd hd
    refine ⟨m.quanta / perUnit, m, hr.trans hw.symm, hw, ?_⟩
    have hl : m.quanta / perUnit < 2 ^ (63 : Nat) := Nat.div_lt_of_lt_mul (by rwa [Nat.mul_comm])
    rw [hw, toNat64]
    exact Nat.min_eq_left (hl.le.trans (by decide))
  · have hq := (m.spacing_dvd_or.resolve_right hd).2
    have hn : halfUp m.quanta perUnit ≤ exactLimit := halfUp_le perUnit_pos hq.le
    exact ⟨_, _, rfl, ofNat_eq_finite hn, toNat64_ofNat hn⟩

lemma whole_eq (h : m.quanta < 2 ^ (63 : Nat) * perUnit) :
    Approximation.whole (.finite false m) = withDenominator (.finite false m) 1 := by
  obtain ⟨n, r, hr, hf, hn⟩ := exists_round h
  rw [Approximation.whole, withDenominator, mul_ofNat_one]
  simp only [hr, hn]
  rw [hf, div_ofNat_one]

lemma IsBest.mul_ofNat (h : IsBest (.finite false m) last d) (hl : last ≤ wordLimit)
    (hm : m.quanta < 2 ^ (63 : Nat) * perUnit) :
    ∃ p, Binary64.finite false m * .ofNat d = .finite false p ∧
      p.quanta < 2 ^ (63 : Nat) * perUnit := by
  by_cases hd : perUnit ∣ m.quanta
  · obtain rfl : d = 1 := Nat.le_antisymm (h.le_of_isZero le_rfl (isZero_deviation_one hd)) h.pos
    exact ⟨m, mul_ofNat_one m false, hm⟩
  · obtain ⟨e, k, h0, hk, ha, hq⟩ := exists_exact hd
    have hdl := h.le_last.trans hl
    obtain ⟨b, hb, hbq⟩ : ∃ b, Binary64.ofNat d = .finite false b ∧ b.quanta ≤ e * perUnit := by
      rcases Nat.le_total e wordLimit with he | he
      · have hde := h.le_of_isZero h0 (isZero_deviation_of_exact h0 he ha hk hq)
        have hl := (Nat.mul_le_mul_right perUnit he).trans_lt word_lt_limit
        apply ofQuanta_le ha hl false Nat.one_pos
        rw [Nat.mul_one]
        exact Nat.mul_le_mul_right _ hde
      · obtain ⟨b, hb, hbq⟩ := ofNat_le_word hdl
        exact ⟨b, hb, hbq.trans (Nat.mul_le_mul_right _ he)⟩
    have hp : m.quanta * b.quanta ≤ k * perUnit * perUnit :=
      calc m.quanta * b.quanta ≤ m.quanta * (e * perUnit) := Nat.mul_le_mul_left _ hbq
        _ = k * perUnit * perUnit := by rw [← Nat.mul_assoc, hq]
    obtain ⟨p, hpq, hle⟩ := ofQuanta_le (aligned_whole hk) (whole_lt_limit hk) false perUnit_pos hp
    refine ⟨p, ?_, hle.trans_lt ?_⟩
    · rw [hb]
      exact hpq
    · exact Nat.mul_lt_mul_of_pos_right (hk.trans_lt (by decide)) perUnit_pos

lemma eq_finite_of_lt (h0 : Binary64.lt 0 target = true)
    (hl : target.lt (.ofNat (2 ^ (63 : Nat))) = true) :
    ∃ m, target = .finite false m ∧ m.quanta ≠ 0 ∧ m.quanta < 2 ^ (63 : Nat) * perUnit := by
  have hw : 2 ^ (63 : Nat) * perUnit < limit :=
    (Nat.mul_le_mul_right perUnit (by decide)).trans_lt word_lt_limit
  have ha := aligned_mul_two_pow (n := 1) (by decide) 63
  rw [Nat.one_mul] at ha
  obtain ⟨T, hT, hTq⟩ := exists_ofNat ha hw
  rw [hT] at hl
  obtain ⟨a, b, ha, hb, hab⟩ := lt_iff_rank.1 hl
  have hb' : b = (T.quanta : Int) := (Option.some.inj hb).symm
  cases target with
  | finite s m =>
    obtain ⟨r, hr, hx⟩ := eq_of_pos rfl h0
    cases hx
    have ha' : a = (m.quanta : Int) := (Option.some.inj ha).symm
    exact ⟨m, rfl, hr, by omega⟩
  | infinite s =>
    obtain ⟨z, c, hz, hc, hlt⟩ := lt_iff_rank.1 h0
    have hz0 : z = 0 := Option.some.inj (hz.symm.trans rank_zero)
    have hca : c = a := Option.some.inj (hc.symm.trans ha)
    have ha' : (if s then -(limit : Int) else limit) = a := Option.some.inj ha
    split_ifs at ha' <;> omega
  | nan => cases ha

lemma nearest_eq (hm : m.quanta ≠ 0) (hq : m.quanta < 2 ^ (63 : Nat) * perUnit)
    (h1 : 1 ≤ largest) (hw : largest < wordLimit) :
    ∃ d, nearest (.finite false m) largest = ((withDenominator (.finite false m) d).numerator, d) ∧
      IsBest (.finite false m) largest d := by
  have hn : ∀ e, 1 ≤ e → e ≤ largest → deviation (.finite false m) e ≠ .nan :=
    fun e h1 he => deviation_ne_nan false m h1 (he.trans hw.le)
  have hs : 1 + (largest - 1) = largest := by omega
  obtain ⟨d, hd, hb⟩ := exhaust_isBest (largest - 1) (isBest_one (hn 1 le_rfl h1))
    fun e h1 he => hn e h1 (hs ▸ he)
  have h0 : Binary64.lt 0 (.finite false m) = true :=
    zero_lt_iff.2 (Int.natCast_pos.2 (Nat.pos_of_ne_zero hm))
  refine ⟨d, ?_, hs ▸ hb⟩
  rw [nearest, if_neg (Bool.not_eq_true _ ▸ le_eq_false_of_lt h0), search_eq_exhaust, whole_eq hq]
  dsimp only
  rw [hd, withDenominator]

/-- The search yields the first denominator that comes nearest, under the whole number nearest to
the product; where it stops early, the rest of the denominators would not change it. -/
theorem nearest_isBest (h0 : Binary64.lt 0 target = true)
    (hl : target.lt (.ofNat (2 ^ (63 : Nat))) = true) (h1 : 1 ≤ largest)
    (hw : largest < wordLimit) :
    ∃ n d, nearest target largest = (n, d) ∧ (target * .ofNat d).round = .ofNat n ∧
      (target * .ofNat d).round.toNat64 = n ∧ 1 ≤ d ∧ d ≤ largest ∧
      (∀ e, 1 ≤ e → e ≤ largest → (deviation target d).le (deviation target e) = true) ∧
      (∀ e, 1 ≤ e → e < d → (deviation target d).lt (deviation target e) = true) ∧
      search target (largest - 1) 2 (Approximation.whole target) =
        exhaust target (largest - 1) 2 (Approximation.whole target) := by
  obtain ⟨m, rfl, hm, hq⟩ := eq_finite_of_lt h0 hl
  obtain ⟨d, hd, hb⟩ := nearest_eq hm hq h1 hw
  obtain ⟨p, hp, hpq⟩ := hb.mul_ofNat hw.le hq
  obtain ⟨n, r, hr, -, hn⟩ := exists_round hpq
  refine ⟨n, d, ?_, ?_, ?_, hb.pos, hb.le_last, hb.best, hb.first, search_eq_exhaust _ _ _ _⟩
  · rw [hd, withDenominator, hp, hr, hn]
  · rw [hp, hr]
  · rw [hp, hr, hn]

theorem nearest_isBest_thousandths :
    let target := Binary64.ofQuotient false 333 1000
    Binary64.lt 0 target = true ∧ target.lt (.ofNat (2 ^ (63 : Nat))) = true ∧ 1 ≤ 9 ∧
      9 < wordLimit ∧
      ∃ n d, nearest target 9 = (n, d) ∧ (target * .ofNat d).round = .ofNat n ∧
        (target * .ofNat d).round.toNat64 = n ∧ 1 ≤ d ∧ d ≤ 9 ∧
        (∀ e, 1 ≤ e → e ≤ 9 → (deviation target d).le (deviation target e) = true) ∧
        (∀ e, 1 ≤ e → e < d → (deviation target d).lt (deviation target e) = true) ∧
        search target (9 - 1) 2 (Approximation.whole target) =
          exhaust target (9 - 1) 2 (Approximation.whole target) := by
  intro target
  have h0 : Binary64.lt 0 target = true := by decide +kernel
  have hl : target.lt (.ofNat (2 ^ (63 : Nat))) = true := by decide +kernel
  exact ⟨h0, hl, by decide, by decide, nearest_isBest h0 hl (by decide) (by decide)⟩

end Approximation

end SheetFormat
