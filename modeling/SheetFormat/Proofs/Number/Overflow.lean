import SheetFormat.Proofs.Number.Bounds
import SheetFormat.Proofs.Text.Digits
import SheetFormat.Render.Fraction

/-! A number stays finite when fifteen digits of it are read back exactly if it is less than half a
unit of the last digit above the largest such digits in range. -/

namespace SheetFormat

attribute [local instance (2000)] instPowNat

open Rounding Convergents

namespace Rounding

variable {n d k : Nat}

lemma halfEven_le_iff_of_odd (hd : 0 < d) (hk : k % 2 = 1) :
    halfEven n d ≤ k ↔ 2 * n < (2 * k + 1) * d := by
  have hr := Nat.mod_lt n hd
  have hn : 2 * n = 2 * (n / d * d) + 2 * (n % d) := by
    rw [← Nat.mul_add, Nat.mul_comm (n / d), Nat.div_add_mod]
  rcases Nat.lt_trichotomy (n / d) k with hlt | rfl | hgt
  · have hm : (n / d + 1) * d ≤ k * d := Nat.mul_le_mul_right d hlt
    have := halfEven_le_succ n d
    rw [Nat.succ_mul] at hm
    rw [Nat.add_mul, Nat.mul_assoc]
    omega
  · rw [hn, Nat.add_mul, Nat.mul_assoc, halfEven]
    split_ifs <;> omega
  · have hm : (k + 1) * d ≤ n / d * d := Nat.mul_le_mul_right d hgt
    have := div_le_halfEven n d
    rw [Nat.succ_mul] at hm
    rw [hn, Nat.add_mul, Nat.mul_assoc]
    omega

end Rounding

namespace Magnitude

attribute [local irreducible] perUnit limit

variable {m : Magnitude} {j digits : Nat}

lemma exists_on_grid (hj : m.pointPosition ≤ j + digits) :
    ∃ c, 10 ^ j * 10 ^ (-(m.pointPosition - digits)).toNat =
      10 ^ (m.pointPosition - digits).toNat * 10 ^ c := by
  let e := m.pointPosition - digits
  have hc : j + (-e).toNat = e.toNat + (j - e).toNat := by omega
  exact ⟨(j - e).toNat, by rw [← Nat.pow_add, hc, Nat.pow_add]⟩

lemma significant_le (h : m.quanta ≤ 10 ^ j * perUnit) (hj : m.pointPosition ≤ j + digits) :
    (m.significant digits).numerator ≤ 10 ^ j * (m.significant digits).denominator := by
  let e := m.pointPosition - digits
  obtain ⟨c, hp⟩ := exists_on_grid hj
  have hk : halfEven (m.quanta * 10 ^ (-e).toNat) (perUnit * 10 ^ e.toNat) ≤ 10 ^ c := by
    apply halfEven_le (Nat.mul_pos perUnit_pos (Nat.pow_pos (by decide)))
    calc m.quanta * 10 ^ (-e).toNat ≤ 10 ^ j * perUnit * 10 ^ (-e).toNat :=
          Nat.mul_le_mul_right _ h
      _ = perUnit * (10 ^ j * 10 ^ (-e).toNat) := by ring
      _ = perUnit * 10 ^ e.toNat * 10 ^ c := by rw [hp, Nat.mul_assoc]
  calc (m.significant digits).numerator ≤ 10 ^ c * 10 ^ e.toNat := Nat.mul_le_mul_right _ hk
    _ = 10 ^ j * (m.significant digits).denominator := by rw [Nat.mul_comm, ← hp]; rfl

lemma le_significant (h : 10 ^ j * perUnit ≤ m.quanta) (hj : m.pointPosition ≤ j + digits) :
    10 ^ j * (m.significant digits).denominator ≤ (m.significant digits).numerator := by
  let e := m.pointPosition - digits
  obtain ⟨c, hp⟩ := exists_on_grid hj
  have hk : 10 ^ c ≤ halfEven (m.quanta * 10 ^ (-e).toNat) (perUnit * 10 ^ e.toNat) := by
    apply le_trans _ (div_le_halfEven _ _)
    rw [Nat.le_div_iff_mul_le (Nat.mul_pos perUnit_pos (Nat.pow_pos (by decide)))]
    calc 10 ^ c * (perUnit * 10 ^ e.toNat) = perUnit * (10 ^ e.toNat * 10 ^ c) := by ring
      _ = 10 ^ j * perUnit * 10 ^ (-e).toNat := by rw [← hp]; ring
      _ ≤ m.quanta * 10 ^ (-e).toNat := Nat.mul_le_mul_right _ h
  calc 10 ^ j * (m.significant digits).denominator = 10 ^ c * 10 ^ e.toNat := by
        rw [Nat.mul_comm (10 ^ c), ← hp]; rfl
    _ ≤ (m.significant digits).numerator := Nat.mul_le_mul_right _ hk

lemma pointPosition_le (hj : 0 < j) (h : m.quanta < 10 ^ j * perUnit) : m.pointPosition ≤ j := by
  have hl : (Text.numeral (m.quanta / perUnit)).length ≤ j :=
    (Text.length_numeral_le_iff hj).2 (Nat.div_lt_of_lt_mul (by rwa [Nat.mul_comm]))
  have := Text.length_numeral_pos ((perUnit - 1) / m.quanta)
  rw [pointPosition]
  split_ifs <;> omega

lemma le_pointPosition (hj : 0 < j) (h : 10 ^ j * perUnit ≤ m.quanta) :
    (j + 1 : Nat) ≤ m.pointPosition := by
  have hq : 10 ^ j ≤ m.quanta / perUnit := (Nat.le_div_iff_mul_le perUnit_pos).2 h
  have hl : ¬(Text.numeral (m.quanta / perUnit)).length ≤ j := by
    rw [Text.length_numeral_le_iff hj]
    exact Nat.not_lt.2 hq
  have hu : perUnit ≤ m.quanta :=
    (Nat.le_mul_of_pos_left _ (Nat.pow_pos (by decide))).trans h
  rw [pointPosition, if_pos hu]
  omega

lemma significant_of_pointPosition (h : m.pointPosition = (j + digits : Nat)) :
    m.significant digits = ⟨halfEven m.quanta (perUnit * 10 ^ j), j⟩ := by
  have he : m.pointPosition - digits = j := by omega
  have hn : (-(j : Int)).toNat = 0 := by omega
  rw [significant, he, scaled, hn, Nat.pow_zero, Nat.mul_one]
  rfl

end Magnitude

attribute [local irreducible] perUnit limit

namespace Binary64

def largest : Binary64 :=
  .finite false ⟨(2 ^ (53 : Nat) - 1) * 2 ^ (2045 : Nat), by decide +kernel, by decide +kernel⟩

def topDigits : Nat := 179769313486231

def topZeros : Nat := 294

/-- Half a unit of the last of fifteen digits above the largest ones in range. -/
def digitLimit : Nat := 1797693134862315 * 10 ^ (293 : Nat)

def topQuanta : Nat := (2 ^ (53 : Nat) - 20) * 2 ^ (2045 : Nat)

def FitsDigits (x : Binary64) : Prop :=
  ∃ s m, x = .finite s m ∧ m.quanta < digitLimit * perUnit

variable {x : Binary64} {n d k : Nat}

lemma FitsDigits.isFinite (h : x.FitsDigits) : x.isFinite = true := by
  obtain ⟨s, m, rfl, -⟩ := h
  rfl

lemma ofQuanta_infinite (s : Bool) (hd : 0 < d) (h : limit * d ≤ n) :
    ofQuanta s n d = .infinite s := by
  have hl : spacing 53 limit ∣ limit := by
    obtain ⟨j, -, hj⟩ := limit_eq_pow
    rw [hj]
    exact spacing_dvd_two_pow (by decide) j
  exact ofQuanta_of_limit_le s hd (le_toBits (by decide) hd hl h)

lemma ofQuanta_ne_nan (s : Bool) (n d : Nat) : ofQuanta s n d ≠ .nan := by
  rw [ofQuanta]
  dsimp only
  split_ifs <;> exact Binary64.noConfusion

structure RangeEnd : Prop where
  digits_odd : topDigits % 2 = 1
  half : (2 * topDigits + 1) * (perUnit * 10 ^ topZeros) = 2 * (digitLimit * perUnit)
  top_aligned : spacing 53 topQuanta ∣ topQuanta
  ten_le_top : 10 ^ (topZeros + 14) * perUnit ≤ topQuanta
  digits_le_top : topDigits * 10 ^ topZeros * perUnit ≤ topQuanta
  top_lt : topQuanta < digitLimit * perUnit
  digitLimit_lt : digitLimit * perUnit < limit
  limit_le : limit ≤ (topDigits + 1) * 10 ^ topZeros * perUnit
  limit_lt : limit < 10 ^ (topZeros + 15) * perUnit

lemma rangeEnd : RangeEnd := by constructor <;> decide +kernel

lemma fitsDigits_ofQuanta (hk : spacing 53 k ∣ k) (hl : k < digitLimit * perUnit) (s : Bool)
    (hd : 0 < d) (h : n ≤ k * d) : (ofQuanta s n d).FitsDigits := by
  obtain ⟨m, hm, hq⟩ := ofQuanta_le hk (hl.trans rangeEnd.digitLimit_lt) s hd h
  exact ⟨s, m, hm, hq.trans_lt hl⟩

lemma fitsDigits_of_le_top (s : Bool) (hd : 0 < d) (h : n ≤ topQuanta * d) :
    (ofQuanta s n d).FitsDigits :=
  fitsDigits_ofQuanta rangeEnd.top_aligned rangeEnd.top_lt s hd h

lemma reduced_of_le_pow {m : Magnitude} {j : Nat} (s : Bool) (hm : m.quanta ≠ 0)
    (ht : 10 ^ j * perUnit ≤ topQuanta) (h : m.quanta ≤ 10 ^ j * perUnit)
    (hj : m.pointPosition ≤ j + 15) : (finite s m).reduced.FitsDigits := by
  rw [reduced, if_neg hm]
  apply fitsDigits_of_le_top s (Decimal.denominator_pos _)
  calc (m.significant 15).numerator * perUnit
      ≤ 10 ^ j * (m.significant 15).denominator * perUnit :=
        Nat.mul_le_mul_right _ (Magnitude.significant_le h hj)
    _ = 10 ^ j * perUnit * (m.significant 15).denominator := Nat.mul_right_comm ..
    _ ≤ topQuanta * (m.significant 15).denominator := Nat.mul_le_mul_right _ ht

attribute [local irreducible] topDigits topZeros digitLimit topQuanta

lemma halfEven_top_le_iff (q : Nat) :
    halfEven q (perUnit * 10 ^ topZeros) ≤ topDigits ↔ q < digitLimit * perUnit := by
  have hd : 0 < perUnit * 10 ^ topZeros := Nat.mul_pos perUnit_pos (Nat.pow_pos (by decide))
  rw [halfEven_le_iff_of_odd hd rangeEnd.digits_odd, rangeEnd.half]
  omega

-- no power of ten separates the limit from the end of the range, so the digits are rounded here
lemma reduced_top {m : Magnitude} (s : Bool) (hm : m.quanta ≠ 0)
    (h : m.pointPosition = (topZeros + 15 : Nat)) :
    (finite s m).reduced =
      ofQuanta s (halfEven m.quanta (perUnit * 10 ^ topZeros) * 10 ^ topZeros * perUnit) 1 := by
  rw [reduced, if_neg hm, Magnitude.significant_of_pointPosition h]
  generalize halfEven m.quanta (perUnit * 10 ^ topZeros) = c
  generalize topZeros = z
  have hn : (-(z : Int)).toNat = 0 := by omega
  rw [Decimal.toBinary64, Decimal.denominator, hn]
  rfl

lemma pointPosition_le_top (m : Magnitude) : m.pointPosition ≤ (topZeros + 15 : Nat) :=
  Magnitude.pointPosition_le (Nat.succ_pos _) (m.bounded.trans rangeEnd.limit_lt)

lemma FitsDigits.reduced (h : x.FitsDigits) : x.reduced.FitsDigits := by
  obtain ⟨s, m, rfl, hq⟩ := h
  by_cases hm : m.quanta = 0
  · rw [Binary64.reduced, if_pos hm]
    exact ⟨s, m, rfl, hq⟩
  have hp := pointPosition_le_top m
  rcases Nat.lt_or_ge m.quanta (10 ^ (topZeros + 14) * perUnit) with hlt | hge
  · have hj := Magnitude.pointPosition_le (by omega) hlt
    exact reduced_of_le_pow s hm rangeEnd.ten_le_top hlt.le (by omega)
  · have hj := Magnitude.le_pointPosition (by omega) hge
    rw [reduced_top s hm (by omega)]
    apply fitsDigits_of_le_top s Nat.one_pos
    rw [Nat.mul_one]
    exact le_trans (Nat.mul_le_mul_right _ (Nat.mul_le_mul_right _
      ((halfEven_top_le_iff _).2 hq))) rangeEnd.digits_le_top

lemma reduced_of_not_fitsDigits (hx : x.isFinite = true) (h : ¬x.FitsDigits) :
    ∃ s, x.reduced = .infinite s := by
  obtain ⟨s, m, rfl⟩ := exists_finite hx
  have hq : digitLimit * perUnit ≤ m.quanta := Nat.le_of_not_lt fun hq => h ⟨s, m, rfl, hq⟩
  have hge : 10 ^ (topZeros + 14) * perUnit ≤ m.quanta :=
    (rangeEnd.ten_le_top.trans rangeEnd.top_lt.le).trans hq
  have hm : m.quanta ≠ 0 := by
    have : 0 < 10 ^ (topZeros + 14) * perUnit :=
      Nat.mul_pos (Nat.pow_pos (by decide)) perUnit_pos
    omega
  have hp := pointPosition_le_top m
  have hj := Magnitude.le_pointPosition (by omega) hge
  refine ⟨s, ?_⟩
  rw [reduced_top s hm (by omega)]
  apply ofQuanta_infinite s Nat.one_pos
  have hd : topDigits + 1 ≤ halfEven m.quanta (perUnit * 10 ^ topZeros) := by
    rw [Nat.succ_le_iff, ← not_le, halfEven_top_le_iff]
    exact Nat.not_lt.2 hq
  rw [Nat.mul_one]
  exact rangeEnd.limit_le.trans (Nat.mul_le_mul_right _ (Nat.mul_le_mul_right _ hd))

lemma isFinite_reduced_iff : x.reduced.isFinite = true ↔ x.FitsDigits := by
  refine ⟨fun h => ?_, fun h => h.reduced.isFinite⟩
  by_contra hn
  cases x with
  | finite s m =>
    obtain ⟨t, ht⟩ := reduced_of_not_fitsDigits rfl hn
    rw [ht] at h
    cases h
  | infinite s => cases h
  | nan => cases h

lemma FitsDigits.trunc (h : x.FitsDigits) : x.trunc.FitsDigits := by
  obtain ⟨s, m, rfl, hq⟩ := h
  apply fitsDigits_ofQuanta m.aligned hq s Nat.one_pos
  rw [Nat.mul_one]
  exact Nat.div_mul_le_self m.quanta perUnit

lemma FitsDigits.div_ofNat (h : x.FitsDigits) (hn : 0 < n) (hl : n ≤ exactLimit) :
    (x / ofNat n).FitsDigits := by
  obtain ⟨s, m, rfl, hq⟩ := h
  have hw : 0 < n * perUnit := Nat.mul_pos hn perUnit_pos
  rw [div_ofNat_eq s m hn hl]
  apply fitsDigits_ofQuanta m.aligned hq _ hw
  exact Nat.mul_le_mul_left _ (Nat.le_mul_of_pos_left _ hn)

def percentLimit : Nat := 10 ^ (306 : Nat)

attribute [local irreducible] percentLimit

lemma AtMost.abs (h : x.AtMost n) : x.abs.AtMost n := by
  obtain ⟨s, m, rfl, hq⟩ := h
  exact ⟨false, m, rfl, hq⟩

lemma AtMost.fitsDigits (h : x.AtMost percentLimit) : x.FitsDigits := by
  obtain ⟨s, m, rfl, hq⟩ := h
  refine ⟨s, m, rfl, hq.trans_lt ?_⟩
  decide +kernel

lemma AtMost.percent (h : x.AtMost percentLimit) : (x * ofNat 100).FitsDigits := by
  obtain ⟨s, m, rfl, hq⟩ := h
  rw [mul_ofNat_eq s m (by decide)]
  apply fitsDigits_of_le_top _ perUnit_pos
  have hp : percentLimit * perUnit * (100 * perUnit) ≤ topQuanta * perUnit := by decide +kernel
  exact (Nat.mul_le_mul_right _ hq).trans hp

lemma mul_ofNat_ne_nan (hx : x.isFinite = true) (hl : n ≤ exactLimit) : x * ofNat n ≠ .nan := by
  obtain ⟨s, m, rfl⟩ := exists_finite hx
  rw [mul_ofNat_eq s m hl]
  exact ofQuanta_ne_nan _ _ _

lemma div_ofNat_ne_nan (hx : x ≠ .nan) (hn : 0 < n) (hl : n ≤ exactLimit) :
    x / ofNat n ≠ .nan := by
  cases x with
  | finite s m =>
    rw [div_ofNat_eq s m hn hl]
    exact ofQuanta_ne_nan _ _ _
  | infinite s =>
    rw [ofNat_eq_finite hl]
    exact Binary64.noConfusion
  | nan => exact absurd rfl hx

lemma toNat64_lt (x : Binary64) : x.toNat64 < wordLimit := by
  have hl : 2 ^ (64 : Nat) - 1 < wordLimit := by decide
  have h0 : 0 < wordLimit := by decide
  cases x with
  | finite s m =>
    cases s with
    | false => exact (Nat.min_le_right ..).trans_lt hl
    | true => exact h0
  | infinite s =>
    cases s with
    | false => exact hl
    | true => exact h0
  | nan => exact h0

lemma word_lt_limit : wordLimit * perUnit < limit := by decide +kernel

lemma ofNat_le_word (h : n ≤ wordLimit) :
    ∃ m, ofNat n = .finite false m ∧ m.quanta ≤ wordLimit * perUnit := by
  have ha : spacing 53 (wordLimit * perUnit) ∣ wordLimit * perUnit :=
    aligned_mul_two_pow (n := 1) (by decide) 64
  apply ofQuanta_le ha word_lt_limit false Nat.one_pos
  rw [Nat.mul_one]
  exact Nat.mul_le_mul_right _ h

lemma FitsDigits.isFinite_add_ofNat (h : x.FitsDigits) (hn : n ≤ wordLimit) :
    (x + ofNat n).isFinite = true := by
  obtain ⟨s, m, rfl, hq⟩ := h
  obtain ⟨k, hk, hw⟩ := ofNat_le_word hn
  let top := (2 ^ (53 : Nat) - 1) * 2 ^ (2045 : Nat)
  have ht : digitLimit * perUnit + wordLimit * perUnit ≤ top := by decide +kernel
  have hs : (signed s m + signed false k).natAbs ≤ top * 1 := by
    have ha := Int.natAbs_add_le (signed s m) (signed false k)
    have hm : (signed s m).natAbs = m.quanta := by cases s <;> simp [signed]
    have hf : (signed false k).natAbs = k.quanta := rfl
    omega
  rw [hk]
  obtain ⟨r, hr, -⟩ := ofQuanta_le (k := top) (by decide +kernel) (by decide +kernel)
    (if signed s m + signed false k = 0 then s && false else signed s m + signed false k < 0)
    Nat.one_pos hs
  change (ofQuanta _ _ 1).isFinite = true
  rw [hr]
  rfl

end Binary64

namespace Scaling

open Binary64

variable {x : Binary64}

lemma thousandths_fitsDigits (n : Nat) (h : x.FitsDigits) : (thousandths n x).FitsDigits := by
  induction n generalizing x with
  | zero => exact h
  | succ n ih => exact ih (h.div_ofNat (by decide) (by decide))

lemma thousandths_ne_nan (n : Nat) (h : x ≠ .nan) : thousandths n x ≠ .nan := by
  induction n generalizing x with
  | zero => exact h
  | succ n ih => exact ih (div_ofNat_ne_nan h (by decide) (by decide))

lemma apply_fitsDigits (s : Scaling) (h : x.AtMost percentLimit) : (s.apply x).FitsDigits := by
  apply thousandths_fitsDigits
  split
  · exact h.percent
  · exact h.fitsDigits

lemma apply_ne_nan (s : Scaling) (hx : x.isFinite = true) : s.apply x ≠ .nan := by
  apply thousandths_ne_nan
  split
  · exact mul_ofNat_ne_nan hx (by decide)
  · obtain ⟨t, m, rfl⟩ := exists_finite hx
    exact Binary64.noConfusion

lemma reduced_apply_cases (s : Scaling) (hx : x.isFinite = true) :
    (s.apply x).FitsDigits ∨ ¬(s.apply x).FitsDigits ∧ ∃ t, (s.apply x).reduced = .infinite t := by
  by_cases h : (s.apply x).FitsDigits
  · exact .inl h
  refine .inr ⟨h, ?_⟩
  have hn := s.apply_ne_nan hx
  cases hy : s.apply x with
  | finite t m =>
    rw [hy] at h
    exact reduced_of_not_fitsDigits rfl h
  | infinite t => exact ⟨t, rfl⟩
  | nan => exact absurd hy hn

end Scaling

lemma Scientific.fitsDigits_mantissa (m : Magnitude) :
    ((mantissa m).1.toBinary64 false).FitsDigits := by
  let c := m.shortest.coefficient
  let b := (Text.numeral c).length - 1
  have hl : b + 1 = (Text.numeral c).length := Nat.sub_add_cancel (Text.length_numeral_pos c)
  have hc : c < 10 * 10 ^ b := by
    have h := Text.lt_pow_length_numeral c
    rwa [← hl, Nat.pow_succ'] at h
  have hn : (-(b : Int)).toNat = 0 := by omega
  have hd : (-(-(b : Int))).toNat = b := by omega
  change (Binary64.ofQuanta false (c * 10 ^ (-(b : Int)).toNat * perUnit)
    (10 ^ (-(-(b : Int))).toNat)).FitsDigits
  rw [hn, hd, Nat.pow_zero, Nat.mul_one]
  apply Binary64.fitsDigits_ofQuanta (Binary64.aligned_whole (n := 10) (by decide))
    (by decide +kernel) false (Nat.pow_pos (by decide))
  rw [Nat.mul_right_comm]
  exact Nat.mul_le_mul_right _ hc.le

end SheetFormat
