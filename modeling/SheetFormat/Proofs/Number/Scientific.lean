import SheetFormat.Proofs.Number.Decimal
import SheetFormat.Proofs.Number.Parts
import SheetFormat.Proofs.Number.Positive

/-! The mantissa of a number is between one and ten and stays there when it is reduced and rounded;
a carry to ten goes to the exponent. -/

namespace SheetFormat

open Rounding

attribute [local instance (2000)] instPowNat
attribute [local irreducible] perUnit limit

namespace Magnitude

variable {m : Magnitude}

lemma lowerBound_pos (hm : m.quanta ≠ 0) : 0 < m.lowerBound := by
  have hs := Nat.le_of_dvd (Nat.pos_of_ne_zero hm) m.aligned
  have hp := spacing_pos 53 m.quanta
  rw [lowerBound]
  split_ifs <;> omega

lemma coefficient_pos (hm : m.quanta ≠ 0) : 0 < m.shortest.coefficient := by
  have hl := le_numerator m.readsBack_shortest
  have hp := Nat.mul_pos (lowerBound_pos hm) m.shortest.denominator_pos
  have hn := Nat.pos_of_mul_pos_left (hp.trans_le hl)
  exact Nat.pos_of_mul_pos_right hn

end Magnitude

namespace Binary64

def OneToTen (x : Binary64) : Prop :=
  ∃ m, x = .finite false m ∧ 1 * perUnit ≤ m.quanta ∧ m.quanta ≤ 10 * perUnit

variable {x : Binary64} {n d : Nat}

lemma oneToTen_ofQuotient (hd : 0 < d) (hl : d ≤ n) (hu : n ≤ 10 * d) :
    (ofQuotient false n d).OneToTen := by
  have h1 : 1 ≤ exactLimit := by decide
  have h10 : 10 ≤ exactLimit := by decide
  obtain ⟨m, hm, hq⟩ := ofQuanta_le (aligned_whole h10) (whole_lt_limit h10) false hd
    (show n * perUnit ≤ 10 * perUnit * d by
      rw [Nat.mul_right_comm]
      exact Nat.mul_le_mul_right _ hu)
  have ha := atLeast_ofQuanta (aligned_whole h1) (whole_lt_limit h1).le hd
    (show 1 * perUnit * d ≤ n * perUnit by
      rw [Nat.one_mul, Nat.mul_comm]
      exact Nat.mul_le_mul_right _ hl)
  rw [hm] at ha
  exact ⟨m, hm, Int.ofNat_le.1 ha.signed, hq⟩

lemma OneToTen.reduced (h : x.OneToTen) : x.reduced.OneToTen := by
  obtain ⟨m, rfl, hl, hu⟩ := h
  have hp := perUnit_pos
  have hlt : m.quanta < 10 ^ 2 * perUnit := by omega
  have hj := Magnitude.pointPosition_le Nat.two_pos hlt
  rw [Binary64.reduced, if_neg (by omega)]
  apply oneToTen_ofQuotient (Decimal.denominator_pos _)
  · have h : 10 ^ 0 * (m.significant 15).denominator ≤ (m.significant 15).numerator :=
      Magnitude.le_significant hl (by omega)
    rwa [Nat.pow_zero, Nat.one_mul] at h
  · apply Magnitude.significant_le (j := 1) hu
    omega

lemma OneToTen.splitRounded (h : x.OneToTen) (places : Nat) :
    ∃ n, 10 ^ places ≤ n ∧ n ≤ 10 * 10 ^ places ∧
      x.splitRounded places =
        (Text.numeral (n / 10 ^ places), Text.places places (n % 10 ^ places)) := by
  obtain ⟨m, hm, hl, hu⟩ := h.reduced
  have hd := m.shortest.denominator_pos
  refine ⟨m.shortest.roundAt places, ?_, ?_, by rw [Binary64.splitRounded, hm]; rfl⟩
  · apply le_halfUp hd
    rw [Nat.mul_comm]
    apply Nat.mul_le_mul_right
    have h := Magnitude.whole_le_shortest (by decide) hl
    rwa [Nat.one_mul] at h
  · apply halfUp_le hd
    rw [Nat.mul_right_comm]
    exact Nat.mul_le_mul_right _ (Magnitude.shortest_le_whole (by decide) hu)

end Binary64

namespace Scientific

variable {m : Magnitude} {n places : Nat}

lemma mantissa_eq (m : Magnitude) :
    (mantissa m).1.numerator = m.shortest.coefficient ∧
      (mantissa m).1.denominator = 10 ^ ((Text.numeral m.shortest.coefficient).length - 1) := by
  rw [mantissa, Decimal.numerator, Decimal.denominator]
  dsimp only
  generalize (Text.numeral m.shortest.coefficient).length - 1 = k
  have hn : (-(k : Int)).toNat = 0 := by omega
  have hd : (-(-(k : Int))).toNat = k := by omega
  rw [hn, hd, Nat.pow_zero, Nat.mul_one]
  exact ⟨rfl, rfl⟩

lemma mantissa_bounds (hm : m.quanta ≠ 0) :
    (mantissa m).1.denominator ≤ (mantissa m).1.numerator ∧
      (mantissa m).1.numerator < 10 * (mantissa m).1.denominator := by
  obtain ⟨hn, hd⟩ := mantissa_eq m
  have hp := Text.length_numeral_pos m.shortest.coefficient
  rw [hn, hd]
  refine ⟨Text.pow_length_numeral_le (Magnitude.coefficient_pos hm), ?_⟩
  have h := Text.lt_pow_length_numeral m.shortest.coefficient
  rwa [← Nat.sub_add_cancel hp, Nat.pow_succ'] at h

lemma value_mantissa (m : Magnitude) :
    (mantissa m).1.value * 10 ^ (mantissa m).2 = m.shortest.value := by
  rw [Decimal.value_eq_mul_zpow, Decimal.value_eq_mul_zpow, mantissa, mul_assoc,
    ← zpow_add₀ (by norm_num)]
  dsimp only
  rw [neg_add_cancel_comm_assoc]

lemma value_mantissa_bounds (hm : m.quanta ≠ 0) :
    1 ≤ (mantissa m).1.value ∧ (mantissa m).1.value < 10 := by
  obtain ⟨hl, hu⟩ := mantissa_bounds hm
  have hd : (0 : ℚ) < (mantissa m).1.denominator := by
    exact_mod_cast (mantissa m).1.denominator_pos
  rw [Decimal.value, le_div_iff₀ hd, div_lt_iff₀ hd, one_mul]
  exact_mod_cast And.intro hl hu

lemma oneToTen_mantissa (hm : m.quanta ≠ 0) :
    ((mantissa m).1.toBinary64 false).OneToTen := by
  obtain ⟨hl, hu⟩ := mantissa_bounds hm
  exact Binary64.oneToTen_ofQuotient (Decimal.denominator_pos _) hl hu.le

def value (s : Scientific) : ℚ :=
  (Text.valueOf s.whole + Text.fractionOf s.fraction) * 10 ^ s.exponent

structure IsNormal (places : Nat) (s : Scientific) : Prop where
  whole : ∃ d, 0 < d ∧ d < 10 ∧ s.whole = [Nat.digitChar d]
  fraction : s.fraction.AllDigits
  length : s.fraction.length = places

lemma carried_normal (hl : 10 ^ places ≤ n) (hu : n ≤ 10 * 10 ^ places) (e : Int) :
    let s : Scientific :=
      ⟨Text.numeral (n / 10 ^ places), Text.places places (n % 10 ^ places), e⟩
    s.carried.IsNormal places ∧ s.carried.value = s.value := by
  intro s
  have hp : 0 < 10 ^ places := Nat.pow_pos (by decide)
  rcases hu.lt_or_eq with hlt | rfl
  · have h0 : 0 < n / 10 ^ places := Nat.div_pos hl hp
    have h9 : n / 10 ^ places < 10 := (Nat.div_lt_iff_lt_mul hp).2 hlt
    have hw : s.whole = [Nat.digitChar (n / 10 ^ places)] := Nat.toDigits_of_lt_base h9
    have hc : s.carried = s := if_neg (by rw [hw]; simp)
    rw [hc]
    exact ⟨⟨⟨_, h0, h9, hw⟩, Text.allDigits_places _ _, Text.length_places _ _⟩, rfl⟩
  · have hq : 10 * 10 ^ places / 10 ^ places = 10 := Nat.mul_div_cancel 10 hp
    have hr : 10 * 10 ^ places % 10 ^ places = 0 := Nat.mul_mod_left 10 _
    have hs : s = ⟨['1', '0'], List.replicate places '0', e⟩ := by
      simp only [s, hq, hr, Text.places_zero]
      rfl
    have hc : s.carried = ⟨['1'], List.replicate places '0', e + 1⟩ := by
      rw [hs, carried, if_pos rfl, List.length_replicate]
    have h1 : Text.valueOf ['1'] = 1 := rfl
    have h10 : Text.valueOf ['1', '0'] = 10 := rfl
    rw [hc]
    refine ⟨⟨⟨1, by decide, by decide, rfl⟩, Text.allDigits_zeros _, List.length_replicate⟩, ?_⟩
    rw [hs, value, value, h1, h10, Text.fractionOf_zeros, zpow_add_one₀ (by norm_num)]
    push_cast
    ring

def rounded (places : Nat) (m : Magnitude) : ℚ :=
  let (whole, fraction) := ((mantissa m).1.toBinary64 false).splitRounded places
  Text.valueOf whole + Text.fractionOf fraction

lemma ofBinary64_normal (hm : m.quanta ≠ 0) (s : Bool) (places : Nat) :
    (ofBinary64 places (.finite s m)).IsNormal places ∧
      (ofBinary64 places (.finite s m)).value = rounded places m * 10 ^ (mantissa m).2 := by
  obtain ⟨n, hl, hu, hn⟩ := (oneToTen_mantissa hm).splitRounded places
  have hc := carried_normal hl hu (mantissa m).2
  rw [ofBinary64, rounded]
  dsimp only
  rw [hn]
  exact hc

end Scientific

end SheetFormat
