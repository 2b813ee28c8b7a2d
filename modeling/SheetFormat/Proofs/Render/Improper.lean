import SheetFormat.Proofs.Number.Product
import SheetFormat.Proofs.Render.Mixed

namespace SheetFormat

open Rounding Convergents

attribute [local instance (2000)] instPowNat
attribute [local irreducible] perUnit limit

variable {m p : Magnitude} {n d k : Nat} {x : ℚ}

namespace Denominator

open Magnitude

lemma numerator_fixed (m : Magnitude) (hd : d ≤ Binary64.exactLimit) :
    (fractionOf (.finite false m) (.fixed d)).1 = min (m.nearestProduct d) (2 ^ (64 : Nat) - 1) :=
  Binary64.toNat64_round_mul m hd

lemma fixed_error (hd : d ≤ Binary64.exactLimit) (h : m.value * d ≤ 2 ^ 64 - 2 ^ 11) :
    |((fractionOf (.finite false m) (.fixed d)).1 : ℚ) - m.value * d| ≤
      m.value * d / 2 ^ 53 + 1 / 2 := by
  have hq : m.quanta * d ≤ (2 ^ 64 - 2 ^ 11) * perUnit := by
    have hu := Binary64.perUnit_pos_rat
    have hv : (m.quanta * d : ℚ) ≤ ((2 ^ 64 - 2 ^ 11 : ℕ) : ℚ) * perUnit := by
      rw [← m.value_mul_perUnit]
      push_cast
      nlinarith
    exact_mod_cast hv
  have ha := Binary64.aligned_mul_two_pow (n := 2 ^ 53 - 1) (by decide) 11
  rw [show (2 ^ 53 - 1) * 2 ^ 11 = 2 ^ 64 - 2 ^ 11 by norm_num] at ha
  have hn : m.nearestProduct d ≤ 2 ^ 64 - 2 ^ 11 := nearestProduct_le ha hq
  rw [numerator_fixed m hd, Nat.min_eq_left (by omega)]
  exact m.nearestProduct_error d

lemma fixed_error_le_iff (h1 : 1 ≤ d) (hd : d ≤ Binary64.exactLimit) (hm : m.value ≤ 2 ^ 53) :
    |((fractionOf (.finite false m) (.fixed d)).1 : ℚ) - m.value * d| ≤ d ↔
      m.value * d ≤ 2 ^ 64 - 1 + d := by
  have he := nearestProduct_error_le h1 hm
  rw [numerator_fixed m hd]
  obtain ⟨hl, hr⟩ := abs_le.1 he
  rcases Nat.le_total (m.nearestProduct d) (2 ^ (64 : Nat) - 1) with hn | hn
  · rw [Nat.min_eq_left hn]
    have hn' : (m.nearestProduct d : ℚ) ≤ 2 ^ 64 - 1 := by
      have : (m.nearestProduct d : ℚ) ≤ ((2 ^ 64 - 1 : ℕ) : ℚ) := by exact_mod_cast hn
      push_cast at this
      linarith
    exact iff_of_true he (by linarith)
  · rw [Nat.min_eq_right hn]
    have hn' : (2 ^ 64 - 1 : ℚ) ≤ m.nearestProduct d := by
      have : ((2 ^ 64 - 1 : ℕ) : ℚ) ≤ m.nearestProduct d := by exact_mod_cast hn
      push_cast at this
      linarith
    have hw : ((2 ^ (64 : Nat) - 1 : ℕ) : ℚ) = 2 ^ 64 - 1 := by
      push_cast
      ring
    rw [hw, abs_le]
    constructor
    · rintro ⟨h, -⟩
      linarith
    · intro h
      constructor <;> linarith

end Denominator

namespace Approximation

open Binary64

lemma product_eq (hd : d ≤ exactLimit)
    (h : Binary64.finite false m * .ofNat d = .finite false p) : m.product d = p.quanta := by
  rw [mul_ofNat_eq_ofQuanta m hd] at h
  exact (quanta_of_ofQuanta Nat.one_pos h).symm

lemma nearest_whole {largest : Nat} (hk : m.quanta = k * perUnit) (h0 : 1 ≤ k)
    (hw : k ≤ wordLimit) :
    nearest (.finite false m) largest = (min k (2 ^ (64 : Nat) - 1), 1) := by
  have hq : m.quanta ≠ 0 := hk ▸ (Nat.mul_pos h0 perUnit_pos).ne'
  have hpos : Binary64.lt 0 (.finite false m) = true :=
    zero_lt_iff.2 (Int.natCast_pos.2 (Nat.pos_of_ne_zero hq))
  have hn : (Binary64.finite false m).round.toNat64 = min k (2 ^ (64 : Nat) - 1) := by
    rw [toNat64_round, hk, halfUp_mul k perUnit_pos]
  have hf : Binary64.ofNat k = .finite false m := by
    rw [Binary64.ofNat, ofQuotient, ← hk]
    exact ofQuanta_quanta false m
  have hc : Binary64.ofNat (min k (2 ^ (64 : Nat) - 1)) = .finite false m := by
    rcases Nat.lt_or_eq_of_le hw with hl | rfl
    · have hl : k ≤ 2 ^ (64 : Nat) - 1 := Nat.le_sub_one_of_lt hl
      rw [Nat.min_eq_left hl, hf]
    · rw [← hf]
      decide +kernel
  have hz : (Approximation.whole (.finite false m)).error.isZero = true := by
    rw [Approximation.whole]
    dsimp only
    rw [hn, hc]
    exact isZero_sub_self false m
  rw [nearest, if_neg (Bool.not_eq_true _ ▸ le_eq_false_of_lt hpos), search_eq_exhaust]
  dsimp only
  rw [exhaust_of_isZero hz, Approximation.whole, hn]

lemma nearest_error_le {largest : Nat} (h0 : m.quanta ≠ 0) (h1 : 1 ≤ largest)
    (hl : largest ≤ exactLimit) (hm : m.value ≤ 2 ^ 64) :
    |((nearest (.finite false m) largest).1 : ℚ) -
      m.value * (nearest (.finite false m) largest).2| ≤ (nearest (.finite false m) largest).2 := by
  by_cases hd : perUnit ∣ m.quanta
  · obtain ⟨k, hk⟩ := exists_eq_mul_left_of_dvd hd
    have hv := Magnitude.value_of_quanta_eq hk
    rw [hv] at hm
    have hw : k ≤ wordLimit := by exact_mod_cast hm
    have hk0 : 1 ≤ k := Nat.one_le_iff_ne_zero.2 fun h => h0 (by rw [hk, h, Nat.zero_mul])
    rw [nearest_whole hk hk0 hw, hv]
    rcases Nat.lt_or_eq_of_le hw with hl | rfl
    · have hl : k ≤ 2 ^ (64 : Nat) - 1 := Nat.le_sub_one_of_lt hl
      simp [Nat.min_eq_left hl]
    · have hc : min wordLimit (2 ^ (64 : Nat) - 1) = 2 ^ (64 : Nat) - 1 := by decide
      norm_num [hc, wordLimit]
  · have hq := (m.spacing_dvd_or.resolve_right hd).2
    have hq63 : m.quanta < 2 ^ (63 : Nat) * perUnit :=
      hq.trans (Nat.mul_lt_mul_of_pos_right (by decide) perUnit_pos)
    have hlw : largest < wordLimit := hl.trans_lt (by decide)
    obtain ⟨d, hn, hb⟩ := nearest_eq h0 hq63 h1 hlw
    obtain ⟨p, hp, hpq⟩ := hb.mul_ofNat hlw.le hq63
    have hd := hb.le_last.trans hl
    have hc : (withDenominator (.finite false m) d).numerator = m.nearestProduct d := by
      have hle : m.nearestProduct d ≤ 2 ^ 63 := by
        rw [Magnitude.nearestProduct, product_eq hd hp]
        exact halfUp_le perUnit_pos hpq.le
      exact (toNat64_round_mul m hd).trans (Nat.min_eq_left (by omega))
    have hv : m.value ≤ 2 ^ 53 := by
      have := Magnitude.value_le_iff.2 hq.le
      exact_mod_cast this
    rw [hn, hc]
    exact Magnitude.nearestProduct_error_le hb.pos hv

end Approximation

namespace Convergents

lemma Between.error_le {a : Nat} (h : Between a n d) (hl : (a : ℚ) ≤ x) (hr : x ≤ a + 1) :
    |(n : ℚ) - x * d| ≤ d := by
  have hd : (0 : ℚ) ≤ d := Nat.cast_nonneg d
  have hle : (a * d : ℚ) ≤ n := by exact_mod_cast h.le
  have hge : (n : ℚ) ≤ (a + 1) * d := by exact_mod_cast h.ge
  rw [abs_le]
  constructor <;> nlinarith

lemma floor_bounds (hm : m.value ≤ 2 ^ 64) :
    ((Binary64.finite false m).floor.toNat64 : ℚ) ≤ m.value ∧
      m.value ≤ (Binary64.finite false m).floor.toNat64 + 1 := by
  have hw : m.quanta ≤ 2 ^ 64 * perUnit := by
    apply Magnitude.value_le_iff.1
    exact_mod_cast hm
  have hd := Nat.div_add_mod' m.quanta perUnit
  have hl := Nat.mod_lt m.quanta perUnit_pos
  rw [floor_toNat64]
  generalize hk : m.quanta / perUnit = k at hd ⊢
  have hk64 : k ≤ 2 ^ 64 := hk ▸ Nat.div_le_of_le_mul (by rwa [Nat.mul_comm])
  have hle : k * perUnit ≤ m.quanta := by omega
  have hge : m.quanta ≤ (min k (2 ^ (64 : Nat) - 1) + 1) * perUnit := by
    rcases Nat.lt_or_eq_of_le hk64 with h | rfl
    · rw [Nat.min_eq_left (by omega), Nat.add_one_mul]
      omega
    · exact hw
  constructor
  · apply Magnitude.le_value_iff.2
    exact (Nat.mul_le_mul_right perUnit (Nat.min_le_left ..)).trans hle
  · have := Magnitude.value_le_iff.2 hge
    exact_mod_cast this

lemma nearest_error_le {largest : Nat} (hm : m.value ≤ 2 ^ 64) :
    |((nearest (.finite false m) largest).1 : ℚ) -
      m.value * (nearest (.finite false m) largest).2| ≤ (nearest (.finite false m) largest).2 := by
  rcases nearest_cases (.finite false m) largest with ⟨hz, hn⟩ | ⟨count, c, -, rfl, hn⟩
  · have hv := le_negligible hz
    have h0 := m.value_nonneg
    rw [hn, abs_le]
    norm_num
    constructor <;> linarith
  · have hb := between_last m largest count
    obtain ⟨hl, hr⟩ := floor_bounds hm
    rw [hn]
    dsimp only at hb ⊢
    rw [Nat.max_eq_left hb.pos]
    exact hb.error_le hl hr

end Convergents

lemma value_le_of_error (hn : n < wordLimit) (hd : 1 ≤ d) (h : |(n : ℚ) / d - x| ≤ 1) :
    x ≤ 2 ^ 64 := by
  have hn' : (n : ℚ) + 1 ≤ 2 ^ 64 := by exact_mod_cast hn
  have hd' : (1 : ℚ) ≤ d := by exact_mod_cast hd
  have hq : (n : ℚ) / d ≤ n := div_le_self (Nat.cast_nonneg n) hd'
  have := (abs_le.1 h).1
  linarith

lemma bestFraction_error_iff {digits : Nat} (h1 : 1 ≤ digits) {n d : Nat}
    (hf : bestFraction (.finite false m) digits = (n, d)) :
    |(n : ℚ) / d - m.value| ≤ 1 ↔ m.value ≤ 2 ^ 64 := by
  have hd : 1 ≤ d := by
    have := bestFraction_denominator_pos (.finite false m) digits
    rwa [hf] at this
  have hn : n < wordLimit := by
    have := bestFraction_numerator_lt (.finite false m) digits
    rwa [hf] at this
  refine ⟨value_le_of_error hn hd, fun hm => ?_⟩
  rw [abs_div_sub_le_iff hd, one_mul]
  by_cases hq : m.quanta = 0
  · have hz : (Binary64.finite false m).isZero = true := beq_iff_eq.2 hq
    rw [bestFraction_of_isZero hz] at hf
    cases hf
    norm_num [Magnitude.value_of_quanta_eq_zero hq]
  · have hp := one_le_largest h1
    rw [bestFraction, Nat.max_eq_left h1] at hf
    by_cases hs : digits ≤ searchedDigits
    · rw [if_pos hs] at hf
      have hb : 10 ^ digits ≤ 10 ^ searchedDigits := Nat.pow_le_pow_right (by decide) hs
      have hx : 10 ^ searchedDigits ≤ Binary64.exactLimit := by decide
      have he := Approximation.nearest_error_le hq hp (by omega) hm
      rwa [hf] at he
    · rw [if_neg hs] at hf
      have he := @Convergents.nearest_error_le m (10 ^ digits - 1) hm
      rwa [hf] at he

namespace FractionLayout

variable {l : FractionLayout} {t : Bool}

lemma zero_or_unsigned {b : Denominator} (hp : b.IsProper) (hz : t = true → m.quanta = 0)
    (hf : b.fractionOf (.finite t m) = (n, d)) : n = 0 ∧ m.value = 0 ∨ t = false := by
  cases t with
  | false => exact .inr rfl
  | true =>
    have h0 := Denominator.fractionOf_zero hp true (hz rfl)
    rw [hf] at h0
    exact .inl ⟨h0, Magnitude.value_of_quanta_eq_zero (hz rfl)⟩

/-- The fraction for the whole of a number has a numerator below `2 ^ 64`. It is within one of the
number up to there if its denominator is the best one that fits. Over a given denominator it is, of
numbers up to `2 ^ 53`, for those alone whose product is at most the denominator above the words;
while the product is a word, the numerator is off by half a unit and by one part in `2 ^ 53`. -/
theorem render_improper {code : Text} {s : Section} {x : Binary64}
    (hs : s ∈ (NumberFormat.parse code).sections) (hl : s.body = .fraction l)
    (hm : l.isMixed = false) (hx : x.isFinite = true) (h0 : Binary64.le 0 x = true)
    (hr : (l.scaling.apply x).reduced.isFinite = true) :
    ∃ t m n d, (l.scaling.apply x).reduced = .finite t m ∧ (t = true → m.quanta = 0) ∧
      l.denominator.fractionOf (l.scaling.apply x).reduced = (n, d) ∧ 1 ≤ d ∧
      Checked.renderFraction l x = .ok (l.render x) ∧
      l.render x = l.wholeText ⟨0, n, d⟩ ++ l.numeratorText n ++ '/' :: l.denominator.text d ++
        l.suffix.flatMap (fixedText []) ∧
      (|(n : ℚ) / d - m.value| ≤ 1 → m.value ≤ 2 ^ 64) ∧
      (∀ placeholders, l.denominator = .bestFit placeholders → m.value ≤ 2 ^ 64 →
        |(n : ℚ) / d - m.value| ≤ 1) ∧
      (∀ value, l.denominator = .fixed value → d = value ∧
        (m.value ≤ 2 ^ 53 → (|(n : ℚ) / d - m.value| ≤ 1 ↔ m.value * d ≤ 2 ^ 64 - 1 + d)) ∧
        (m.value * d ≤ 2 ^ 64 - 2 ^ 11 →
          |(n : ℚ) / d - m.value| ≤ m.value / 2 ^ 53 + 1 / (2 * d))) := by
  have hp : l.IsProper := by
    have h := NumberFormat.body_isProper hs
    rwa [hl] at h
  have hpd := hp.denominator
  obtain ⟨t, m, hf, hz⟩ := l.scaling.exists_reduced_apply hx h0 hr
  obtain ⟨⟨n, d⟩, hnd⟩ : ∃ f, l.denominator.fractionOf (.finite t m) = f := ⟨_, rfl⟩
  have hd : 1 ≤ d := by
    have := Denominator.fractionOf_denominator_pos hpd (.finite t m)
    rwa [hnd] at this
  have hn : n < wordLimit := by
    have := l.denominator.fractionOf_numerator_lt (.finite t m)
    rwa [hnd] at this
  have hrender : l.render x = l.wholeText ⟨0, n, d⟩ ++ l.numeratorText n ++
      '/' :: l.denominator.text d ++ l.suffix.flatMap (fixedText []) := by
    have hsplit : l.split (.finite t m) = ⟨0, n, d⟩ := by
      rw [split, hm, hnd]
      rfl
    have htext : l.fractionText ⟨0, n, d⟩ = l.numeratorText n ++ '/' :: l.denominator.text d := by
      rw [fractionText, hm]
      rfl
    rw [render, hf, hsplit, htext, ← List.append_assoc]
  rw [hf]
  refine ⟨t, m, n, d, rfl, hz, hnd, hd, Checked.renderFraction_ok hpd x, hrender,
    value_le_of_error hn hd, fun placeholders hb hv => ?_, fun value hb => ?_⟩
  · rw [hb] at hnd hpd
    rcases zero_or_unsigned hpd hz hnd with ⟨rfl, h0⟩ | rfl
    · simp [h0]
    · exact (bestFraction_error_iff (Denominator.digits_pos hpd) hnd).2 hv
  · rw [hb] at hnd hpd
    obtain rfl : d = value := (congrArg Prod.snd hnd).symm
    have hle : d ≤ Binary64.exactLimit := hpd.2.trans (by decide)
    rw [abs_div_sub_le_iff hd, abs_div_sub_le_iff hd, one_mul]
    rcases zero_or_unsigned hpd hz hnd with ⟨rfl, h0⟩ | rfl
    · have hd0 : (0 : ℚ) ≤ d := Nat.cast_nonneg d
      rw [h0, zero_mul]
      refine ⟨rfl, fun _ => iff_of_true (by simp) (by linarith), fun _ => ?_⟩
      norm_num
      positivity
    · have hn : n = (Denominator.fractionOf (.finite false m) (.fixed d)).1 :=
        (congrArg Prod.fst hnd).symm
      rw [hn]
      refine ⟨rfl, Denominator.fixed_error_le_iff hd hle, fun h => ?_⟩
      refine (Denominator.fixed_error hle h).trans_eq ?_
      field_simp

theorem render_improper_sixteenths :
    let l : FractionLayout := ⟨[], [.question, .question], .fixed 16, [], ⟨false, 0, false⟩⟩
    let s : Section := ⟨.fraction l, none⟩
    let x := Binary64.ofQuotient false 355 113
    s ∈ (NumberFormat.parse "??/16".toList).sections ∧ l.isMixed = false ∧ x.isFinite = true ∧
      Binary64.le 0 x = true ∧ (l.scaling.apply x).reduced.isFinite = true ∧
      l.render x = "50/16".toList ∧
      ∃ t m, (l.scaling.apply x).reduced = .finite t m ∧
        l.denominator.fractionOf (l.scaling.apply x).reduced = (50, 16) ∧
        (|(50 : ℚ) / 16 - m.value| ≤ 1 → m.value ≤ 2 ^ 64) ∧
        (m.value ≤ 2 ^ 53 → (|(50 : ℚ) / 16 - m.value| ≤ 1 ↔ m.value * 16 ≤ 2 ^ 64 - 1 + 16)) ∧
        (m.value * 16 ≤ 2 ^ 64 - 2 ^ 11 →
          |(50 : ℚ) / 16 - m.value| ≤ m.value / 2 ^ 53 + 1 / (2 * 16)) := by
  intro l s x
  have hs : s ∈ (NumberFormat.parse "??/16".toList).sections := by decide +kernel
  have hm : l.isMixed = false := by decide
  have hx : x.isFinite = true := by decide +kernel
  have h0 : Binary64.le 0 x = true := by decide +kernel
  have hr : (l.scaling.apply x).reduced.isFinite = true := by decide +kernel
  have hf : l.denominator.fractionOf (l.scaling.apply x).reduced = (50, 16) := by decide +kernel
  obtain ⟨t, m, n, d, hfin, -, hnd, -, -, -, hw, -, hfix⟩ := render_improper hs rfl hm hx h0 hr
  obtain ⟨rfl, rfl⟩ := Prod.mk.inj (hf.symm.trans hnd)
  exact ⟨hs, hm, hx, h0, hr, by decide +kernel, t, m, hfin, hf, hw, (hfix 16 rfl).2⟩

theorem exists_capped_numerator :
    let x := Binary64.ofNat (10 ^ 20)
    (NumberFormat.parse "?/?".toList).render? .standard x = .ok "18446744073709551615/2".toList ∧
      (NumberFormat.parse "?/3".toList).render? .standard x = .ok "18446744073709551615/3".toList ∧
      (NumberFormat.parse "?/3".toList).render? .standard (.ofNat 12345678901234500) =
        .ok "37037036703703504/3".toList ∧
      ¬∀ code (s : Section) (l : FractionLayout) (y : Binary64) (t : Bool) (m : Magnitude) n d,
        s ∈ (NumberFormat.parse code).sections → s.body = .fraction l → l.isMixed = false →
          y.isFinite = true → Binary64.le 0 y = true →
            (l.scaling.apply y).reduced = .finite t m →
              l.denominator.fractionOf (l.scaling.apply y).reduced = (n, d) →
                |(n : ℚ) / d - m.value| ≤ 1 := by
  intro x
  refine ⟨by decide +kernel, by decide +kernel, by decide +kernel, fun h => ?_⟩
  let l : FractionLayout := ⟨[], [.question], .bestFit [.question], [], ⟨false, 0, false⟩⟩
  let s : Section := ⟨.fraction l, none⟩
  have hs : s ∈ (NumberFormat.parse "?/?".toList).sections := by decide +kernel
  have hr : (l.scaling.apply x).reduced = x := by decide +kernel
  obtain ⟨m, hm, hq⟩ := @Binary64.exists_ofNat (10 ^ 20) (by decide +kernel) (by decide +kernel)
  have he := h _ s l x false m 18446744073709551615 2 hs rfl (by decide) (by decide +kernel)
    (by decide +kernel) (hr.trans hm) (by decide +kernel)
  rw [Magnitude.value_of_quanta_eq hq] at he
  norm_num at he

end FractionLayout

end SheetFormat
