import SheetFormat.Proofs.Number.Shortest

/-! Whole numbers that are doubles: their sums and products are exact, and those of up to fifteen
digits are their own shortest decimals. -/

namespace SheetFormat

attribute [local instance (2000)] instPowNat
attribute [local irreducible] perUnit limit

lemma exists_findSome?_range {α : Type} {f : Nat → Option α} {j N : Nat} (hj : j < N)
    (h : (f j).isSome = true) :
    ∃ k ≤ j, ∃ a, f k = some a ∧ (List.range N).findSome? f = some a := by
  induction N with
  | zero => exact absurd hj (Nat.not_lt_zero j)
  | succ N ih =>
    rw [List.range_succ, List.findSome?_append]
    rcases Nat.lt_succ_iff_lt_or_eq.1 hj with hlt | rfl
    · obtain ⟨k, hk, a, ha, hr⟩ := ih hlt
      exact ⟨k, hk, a, ha, by rw [hr, Option.some_or]⟩
    · cases hr : (List.range j).findSome? f with
      | some a =>
        obtain ⟨k, hk, ha⟩ := List.exists_of_findSome?_eq_some hr
        exact ⟨k, (List.mem_range.1 hk).le, a, ha, Option.some_or⟩
      | none =>
        obtain ⟨a, ha⟩ := Option.isSome_iff_exists.1 h
        exact ⟨j, le_rfl, a, ha, by rw [Option.none_or, List.findSome?_singleton, ha]⟩

namespace Rounding

variable {bits n d : Nat}

lemma toBits_mul (hb : 0 < bits) (hd : 0 < d) (h : spacing bits n ∣ n) :
    toBits bits (n * d) d = n :=
  Nat.le_antisymm (toBits_le hd h le_rfl) (le_toBits hb hd h le_rfl)

lemma halfUp_mul (n : Nat) (hd : 0 < d) : halfUp (n * d) d = n := by
  have hn : 2 * (n * d) + d = d + 2 * d * n := by ring
  rw [halfUp, hn, Nat.add_mul_div_left _ _ (Nat.mul_pos Nat.two_pos hd),
    Nat.div_eq_of_lt (by omega), Nat.zero_add]

end Rounding

namespace Binary64

variable {n k d : Nat}

lemma ofQuanta_mul (s : Bool) (m : Magnitude) (hd : 0 < d) :
    ofQuanta s (m.quanta * d) d = .finite s m := by
  simp [ofQuanta, hd, Rounding.toBits_mul (by decide) hd m.aligned, m.bounded]

lemma ofQuotient_mul (s : Bool) (h : n ≤ exactLimit) (hd : 0 < d) :
    ofQuotient s (n * d) d = .finite s (whole n h) := by
  rw [ofQuotient, Nat.mul_right_comm]
  exact ofQuanta_mul s (whole n h) hd

lemma ofInt_eq {i : Int} (h : i.natAbs ≤ exactLimit) :
    ofInt i = .finite (i < 0) (whole i.natAbs h) := ofQuotient_one h _

lemma ofNat_mul (hn : n ≤ exactLimit) (hk : k ≤ exactLimit) (h : n * k ≤ exactLimit) :
    ofNat n * ofNat k = ofNat (n * k) := by
  have hq : n * perUnit * (k * perUnit) = (whole (n * k) h).quanta * perUnit := by
    change _ = n * k * perUnit * perUnit
    ring
  rw [ofNat_eq_finite hn, ofNat_eq_finite hk, ofNat_eq_finite h]
  change ofQuanta _ (n * perUnit * (k * perUnit)) perUnit = _
  rw [hq]
  exact ofQuanta_mul _ _ perUnit_pos

lemma ofNat_add (h : n + k ≤ exactLimit) : ofNat n + ofNat k = ofNat (n + k) := by
  have hn : n ≤ exactLimit := (Nat.le_add_right n k).trans h
  have hk : k ≤ exactLimit := (Nat.le_add_left k n).trans h
  have hq : (whole n hn).quanta + (whole k hk).quanta = (whole (n + k) h).quanta :=
    (Nat.add_mul n k perUnit).symm
  rw [ofNat_eq_finite hn, ofNat_eq_finite hk, ofNat_eq_finite h, finite_add, hq]
  exact ofQuanta_quanta false _

lemma round_ofNat (h : n ≤ exactLimit) : (ofNat n).round = ofNat n := by
  rw [ofNat_eq_finite h, round]
  change ofQuotient false (Rounding.halfUp (n * perUnit) perUnit) 1 = _
  rw [Rounding.halfUp_mul n perUnit_pos, ofQuotient_one h]

lemma toNat64_ofNat (h : n ≤ exactLimit) : (ofNat n).toNat64 = n := by
  rw [ofNat_eq_finite h]
  change min (n * perUnit / perUnit) (2 ^ (64 : Nat) - 1) = n
  rw [Nat.mul_div_cancel n perUnit_pos]
  exact Nat.min_eq_left (h.trans (by decide))

variable {digits : Nat} {e : Decimal}

lemma pointPosition_whole (hn : n ≠ 0) (h : n ≤ exactLimit) :
    (whole n h).pointPosition = (Text.numeral n).length := by
  have hq : perUnit ≤ (whole n h).quanta := Nat.le_mul_of_pos_left _ (Nat.pos_of_ne_zero hn)
  have hd : (whole n h).quanta / perUnit = n := Nat.mul_div_cancel n perUnit_pos
  rw [Magnitude.pointPosition, if_pos hq, hd]

lemma significant_whole (s : Bool) (hn : n ≠ 0) (h : n ≤ exactLimit)
    (hl : (Text.numeral n).length ≤ digits) :
    ((whole n h).significant digits).toBinary64 s = .finite s (whole n h) := by
  let k := digits - (Text.numeral n).length
  have he : ((Text.numeral n).length : Int) - digits = -(k : Int) := by omega
  have h0 : (-(k : Int)).toNat = 0 := by omega
  have hk : (-(-(k : Int))).toNat = k := by omega
  have hq : (whole n h).quanta * 10 ^ k = n * 10 ^ k * perUnit := Nat.mul_right_comm ..
  rw [Magnitude.significant, pointPosition_whole hn h, he]
  simp only [Magnitude.scaled, hk, h0, hq, Decimal.toBinary64, Decimal.numerator,
    Decimal.denominator, Nat.pow_zero, Nat.mul_one, Rounding.halfEven_mul perUnit_pos]
  exact ofQuotient_mul s h (Nat.pow_pos (by decide))

lemma reduced_whole (s : Bool) (h : n ≤ exactLimit) (hl : n < 10 ^ 15) :
    (finite s (whole n h)).reduced = .finite s (whole n h) := by
  rw [reduced]
  split_ifs with h0
  · rfl
  · have hn : n ≠ 0 := by
      rintro rfl
      exact h0 (Nat.zero_mul _)
    exact significant_whole s hn h ((Text.length_numeral_le_iff (by decide)).2 hl)

lemma spacing_whole (h : n < exactLimit) : Rounding.spacing 53 (n * perUnit) ≤ perUnit := by
  obtain ⟨j, hj⟩ := perUnit_eq_pow
  rw [hj, Rounding.spacing]
  apply Nat.pow_le_pow_right (by decide)
  rcases Nat.eq_zero_or_pos n with rfl | hn
  · simp
  · have hl : (n * 2 ^ j).log2 < 53 + j := by
      rw [Nat.log2_lt (Nat.mul_pos hn (Nat.two_pow_pos j)).ne', Nat.pow_add]
      exact Nat.mul_lt_mul_of_pos_right h (Nat.two_pow_pos j)
    omega

lemma numerator_of_readsBack (h : n < exactLimit) (he : 0 ≤ e.exponent)
    (hr : (whole n h.le).readsBack e = true) : e.numerator = n ∧ e.denominator = 1 := by
  have hd : e.denominator = 1 := by
    rw [Decimal.denominator, Int.toNat_of_nonpos (by omega), Nat.pow_zero]
  have hs := spacing_whole h
  have hp := perUnit_pos
  have hu := Magnitude.numerator_le hr
  have hl := Magnitude.le_numerator hr
  have hb : 4 * (n * perUnit) ≤ (whole n h.le).lowerBound + 2 * perUnit := by
    change 4 * (n * perUnit) ≤ Magnitude.lowerBound ⟨n * perUnit, _, _⟩ + 2 * perUnit
    rw [Magnitude.lowerBound]
    dsimp only
    split_ifs <;> omega
  have ht : (whole n h.le).upperBound ≤ 4 * (n * perUnit) + 2 * perUnit := by
    change 4 * (n * perUnit) + 2 * Rounding.spacing 53 (n * perUnit) ≤ _
    omega
  rw [hd, Nat.mul_one, Nat.mul_assoc, Nat.mul_comm perUnit] at hu hl
  refine ⟨Nat.le_antisymm ?_ ?_, hd⟩
  · apply Nat.le_of_lt_succ
    apply Nat.lt_of_mul_lt_mul_right (a := perUnit)
    rw [Nat.succ_mul]
    omega
  · apply Nat.le_of_lt_succ
    apply Nat.lt_of_mul_lt_mul_right (a := perUnit)
    rw [Nat.succ_mul]
    omega

lemma isSome_onGrid?_zero (hn : n ≠ 0) (h : n ≤ exactLimit) :
    ((whole n h).onGrid? 0).isSome = true := by
  have hs : (whole n h).scaled 0 = (n * perUnit, perUnit) := by
    change (n * perUnit * 10 ^ 0, perUnit * 10 ^ 0) = _
    rw [Nat.pow_zero, Nat.mul_one, Nat.mul_one]
  apply Magnitude.isSome_onGrid?
  rw [hs, Nat.mul_div_cancel n perUnit_pos]
  apply Magnitude.readsBack_of_eq (Nat.mul_pos (Nat.pos_of_ne_zero hn) perUnit_pos).ne'
  change perUnit * (n * 10 ^ 0) = n * perUnit * 10 ^ 0
  rw [Nat.pow_zero, Nat.mul_one, Nat.mul_one, Nat.mul_comm]

lemma shortest_whole (h : n < exactLimit) :
    (whole n h.le).shortest.numerator = n ∧ (whole n h.le).shortest.denominator = 1 := by
  rcases Nat.eq_zero_or_pos n with rfl | hn
  · rw [Magnitude.shortest_zero (Nat.zero_mul _)]
    exact ⟨rfl, rfl⟩
  have hq : (whole n h.le).quanta ≠ 0 := (Nat.mul_pos hn perUnit_pos).ne'
  have hl := Text.length_numeral_pos n
  have hl' : (Text.numeral n).length ≤ 16 :=
    (Text.length_numeral_le_iff (by decide)).2 (h.trans (by decide))
  have hg : ((whole n h.le).onGrid?
      ((whole n h.le).pointPosition - ((Text.numeral n).length - 1 + 1 : Nat))).isSome = true := by
    rw [pointPosition_whole hn.ne', Nat.sub_add_cancel hl, Int.sub_self]
    exact isSome_onGrid?_zero hn.ne' h.le
  obtain ⟨k, hk, d, hd, hs⟩ := exists_findSome?_range (N := 17)
    (f := fun k => (whole n h.le).onGrid? ((whole n h.le).pointPosition - (k + 1 : Nat)))
    (show (Text.numeral n).length - 1 < 17 by omega) hg
  have hm : (whole n h.le).shortest = d := by
    rw [Magnitude.shortest, if_neg hq]
    dsimp only
    rw [hs, Option.getD_some]
  rw [hm]
  obtain ⟨hr, he, -⟩ := Magnitude.onGrid?_cases hd
  apply numerator_of_readsBack h _ hr
  rw [he, pointPosition_whole hn.ne']
  omega

lemma whole_of_quanta {m : Magnitude} (h : n ≤ exactLimit) (hm : m.quanta = n * perUnit) :
    m = whole n h := by
  cases m
  cases hm
  rfl

end Binary64

namespace Magnitude

variable {m : Magnitude} {n : Nat}

lemma whole_le_shortest (hn : n < Binary64.exactLimit) (h : n * perUnit ≤ m.quanta) :
    n * m.shortest.denominator ≤ m.shortest.numerator := by
  rcases h.eq_or_lt with he | hlt
  · obtain ⟨hs, hd⟩ := Binary64.shortest_whole hn
    rw [Binary64.whole_of_quanta hn.le he.symm, hs, hd, Nat.mul_one]
  · have hl := le_numerator_of_lt (Binary64.aligned_whole hn.le) hlt
    rw [Nat.mul_comm n, Nat.mul_assoc] at hl
    exact Nat.le_of_mul_le_mul_left hl perUnit_pos

lemma shortest_le_whole (hn : n < Binary64.exactLimit) (h : m.quanta ≤ n * perUnit) :
    m.shortest.numerator ≤ n * m.shortest.denominator := by
  rcases h.eq_or_lt with he | hlt
  · obtain ⟨hs, hd⟩ := Binary64.shortest_whole hn
    rw [Binary64.whole_of_quanta hn.le he, hs, hd, Nat.mul_one]
  · have hl := numerator_lt_of_lt (Binary64.aligned_whole hn.le) hlt
    rw [Nat.mul_comm n, Nat.mul_assoc] at hl
    exact (Nat.lt_of_mul_lt_mul_left hl).le

end Magnitude

end SheetFormat
