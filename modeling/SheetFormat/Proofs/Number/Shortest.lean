import SheetFormat.Number.Shortest
import SheetFormat.Proofs.Number.Order
import SheetFormat.Proofs.Text.Digits

/-! The shortest decimal of a number reads back as the number; its size and its length. -/

namespace SheetFormat.Magnitude

open Rounding

attribute [local instance (2000)] instPowNat
attribute [local irreducible] perUnit limit

variable {m : Magnitude} {d : Decimal} {e : Int} {a n : Nat}

lemma bounds_around (hm : m.quanta ≠ 0) :
    m.lowerBound < 4 * m.quanta ∧ 4 * m.quanta < m.upperBound := by
  have hs := spacing_pos 53 m.quanta
  rw [lowerBound, upperBound]
  split_ifs <;> omega

lemma readsBack_of_eq (hm : m.quanta ≠ 0)
    (hd : perUnit * d.numerator = m.quanta * d.denominator) :
    m.readsBack d = true := by
  obtain ⟨hl, hu⟩ := bounds_around hm
  have hx : 4 * perUnit * d.numerator = 4 * m.quanta * d.denominator := by
    rw [Nat.mul_assoc, hd, Nat.mul_assoc]
  have hlow := Nat.mul_lt_mul_of_pos_right hl d.denominator_pos
  have hhigh := Nat.mul_lt_mul_of_pos_right hu d.denominator_pos
  rw [readsBack, hx]
  split_ifs
  · simp [hlow.le, hhigh.le]
  · simp [hlow, hhigh]

lemma two_pow_mul_five_pow (n k : Nat) : 2 ^ k * (n * 5 ^ k) = n * 10 ^ k := by
  rw [Nat.mul_left_comm, ← Nat.mul_pow]

lemma exact_eq (m : Magnitude) :
    perUnit * m.exact.numerator = m.quanta * m.exact.denominator := by
  have hc : m.exact.coefficient = m.quanta * 5 ^ (1074 : Nat) := rfl
  have hn : m.exact.exponent.toNat = 0 := rfl
  have hd : (-m.exact.exponent).toNat = 1074 := rfl
  rw [Decimal.numerator, Decimal.denominator, hc, hn, hd, Nat.pow_zero, Nat.mul_one,
    perUnit.eq_1]
  generalize (1074 : Nat) = k
  exact two_pow_mul_five_pow m.quanta k

lemma onGrid?_cases (h : m.onGrid? e = some d) :
    m.readsBack d = true ∧ d.exponent = e ∧
      d.coefficient ≤ (m.scaled e).1 / (m.scaled e).2 + 1 := by
  rw [onGrid?] at h
  dsimp only at h
  split at h
  next hl hh =>
    split_ifs at h
    · cases h
      exact ⟨hl, rfl, Nat.le_succ _⟩
    · cases h
      exact ⟨hh, rfl, le_rfl⟩
  next hl hh =>
    cases h
    exact ⟨hl, rfl, Nat.le_succ _⟩
  next hl hh =>
    cases h
    exact ⟨hh, rfl, le_rfl⟩
  next => cases h

lemma isSome_onGrid? (h : m.readsBack ⟨(m.scaled e).1 / (m.scaled e).2, e⟩ = true) :
    (m.onGrid? e).isSome = true := by
  rw [onGrid?]
  dsimp only
  rw [h]
  split
  next => rfl
  next => rfl
  next hl _ => cases hl
  next hl _ => cases hl

lemma shortest_cases (hm : m.quanta ≠ 0) :
    m.shortest = m.exact ∨
      ∃ k < 17, m.onGrid? (m.pointPosition - (k + 1 : Nat)) = some m.shortest := by
  rw [shortest, if_neg hm]
  dsimp only
  cases h : (List.range 17).findSome? fun k => m.onGrid? (m.pointPosition - (k + 1 : Nat)) with
  | none => exact .inl rfl
  | some d =>
    obtain ⟨before, k, after, hk, hd, -⟩ := List.findSome?_eq_some_iff.1 h
    have hmem : k ∈ List.range 17 := by
      rw [hk]
      simp
    exact .inr ⟨k, List.mem_range.1 hmem, hd⟩

lemma shortest_zero (hm : m.quanta = 0) : m.shortest = ⟨0, 0⟩ := if_pos hm

lemma readsBack_shortest (m : Magnitude) : m.readsBack m.shortest = true := by
  by_cases hm : m.quanta = 0
  · rw [shortest_zero hm, readsBack, lowerBound, upperBound, hm]
    rfl
  · rcases shortest_cases hm with h | ⟨k, -, h⟩
    · rw [h]
      exact readsBack_of_eq hm m.exact_eq
    · exact (onGrid?_cases h).1

lemma numerator_le (h : m.readsBack d = true) :
    4 * perUnit * d.numerator ≤ m.upperBound * d.denominator := by
  rw [readsBack] at h
  split_ifs at h
  · exact of_decide_eq_true (Bool.and_eq_true_iff.1 h).2
  · exact (of_decide_eq_true (Bool.and_eq_true_iff.1 h).2).le

lemma le_numerator (h : m.readsBack d = true) :
    m.lowerBound * d.denominator ≤ 4 * perUnit * d.numerator := by
  rw [readsBack] at h
  split_ifs at h
  · exact of_decide_eq_true (Bool.and_eq_true_iff.1 h).1
  · exact (of_decide_eq_true (Bool.and_eq_true_iff.1 h).1).le

lemma upperBound_lt (ha : spacing 53 a ∣ a) (h : m.quanta < a) :
    m.upperBound < 4 * a := by
  have hd := Nat.le_of_dvd (Nat.sub_pos_of_lt h)
    (Nat.dvd_sub ((spacing_dvd_spacing h.le).trans ha) m.aligned)
  have hp := spacing_pos 53 m.quanta
  rw [upperBound]
  omega

lemma le_lowerBound (ha : spacing 53 a ∣ a) (h : a < m.quanta) :
    4 * a ≤ m.lowerBound := by
  have hm : m.quanta ≠ 0 := by omega
  have hq := Nat.log2_self_le hm
  have hs := add_spacing_le ha
  have hd := Nat.le_of_dvd (Nat.pos_of_ne_zero hm) m.aligned
  have hle := log2_le_log2 h.le
  rw [lowerBound]
  rcases Nat.lt_trichotomy (a.log2 + 1) m.quanta.log2 with hlt | heq | hgt
  · have h2 : 2 ^ (a.log2 + 1 + 1) ≤ 2 ^ m.quanta.log2 := Nat.pow_le_pow_right (by decide) hlt
    rw [Nat.pow_succ] at h2
    split_ifs <;> omega
  · rw [heq] at hs
    by_cases h1 : 1 < spacing 53 m.quanta
    · obtain ⟨j, hj, hsp⟩ := spacing_of_one_lt h1
      have hp : 2 ^ (52 : Nat) * spacing 53 m.quanta = 2 ^ m.quanta.log2 := by
        rw [hsp, ← Nat.pow_add]
        exact congrArg (2 ^ ·) (by omega)
      have hh : spacing 53 a = 2 ^ j := congrArg (2 ^ ·) (by omega)
      rw [Nat.pow_succ, ← hh] at hsp
      split_ifs with hc
      · omega
      · have hlt : 2 ^ m.quanta.log2 < m.quanta :=
          lt_of_le_of_ne hq fun he => hc ⟨h1, by rw [hp, he]⟩
        have hn := Nat.le_of_dvd (Nat.sub_pos_of_lt hlt)
          (Nat.dvd_sub m.aligned (hp ▸ Nat.dvd_mul_left _ _))
        omega
    · rw [if_neg fun hc => h1 hc.1]
      omega
  · have he : spacing 53 a = spacing 53 m.quanta := by
      rw [spacing, spacing, show a.log2 = m.quanta.log2 by omega]
    have hn := Nat.le_of_dvd (Nat.sub_pos_of_lt h) (Nat.dvd_sub m.aligned (he ▸ ha))
    split_ifs <;> omega

lemma numerator_lt_of_lt (ha : spacing 53 a ∣ a) (h : m.quanta < a) :
    perUnit * m.shortest.numerator < a * m.shortest.denominator := by
  have hu := Nat.mul_lt_mul_of_pos_right (upperBound_lt ha h) m.shortest.denominator_pos
  have hn := numerator_le m.readsBack_shortest
  rw [Nat.mul_assoc] at hn hu
  omega

lemma le_numerator_of_lt (ha : spacing 53 a ∣ a) (h : a < m.quanta) :
    a * m.shortest.denominator ≤ perUnit * m.shortest.numerator := by
  have hl := Nat.mul_le_mul_right m.shortest.denominator (le_lowerBound ha h)
  have hn := le_numerator m.readsBack_shortest
  rw [Nat.mul_assoc] at hn hl
  omega

lemma shortest_lt (hn : n ≤ Binary64.exactLimit) (h : m.quanta < n * perUnit) :
    m.shortest.numerator / m.shortest.denominator < n := by
  have hl := numerator_lt_of_lt (Binary64.aligned_whole hn) h
  rw [Nat.mul_comm n, Nat.mul_assoc] at hl
  exact (Nat.div_lt_iff_lt_mul m.shortest.denominator_pos).2 (Nat.lt_of_mul_lt_mul_left hl)

lemma length_numeral_le_of_lt {k : Nat} (hk : 0 < k) (h : n < 2 ^ k) :
    (Text.numeral n).length ≤ k :=
  (Text.length_numeral_le_iff hk).2 (h.trans_le (Nat.pow_le_pow_left (by decide) k))

lemma pointPosition_bounds (m : Magnitude) :
    -1074 < m.pointPosition ∧ m.pointPosition ≤ 2098 := by
  have hl : (Text.numeral (m.quanta / perUnit)).length ≤ 2098 := by
    apply length_numeral_le_of_lt (by decide)
    rw [← limit.eq_1]
    exact (Nat.div_le_self _ _).trans_lt m.bounded
  have hu : (Text.numeral ((perUnit - 1) / m.quanta)).length ≤ 1074 := by
    apply length_numeral_le_of_lt (by decide)
    rw [← perUnit.eq_1]
    exact (Nat.div_le_self _ _).trans_lt (Nat.sub_lt perUnit_pos Nat.one_pos)
  have hp := Text.length_numeral_pos (m.quanta / perUnit)
  rw [pointPosition]
  split_ifs <;> omega

lemma coefficient_le (h : m.onGrid? e = some d) :
    d.coefficient ≤ m.quanta * 10 ^ (-e).toNat + 1 := by
  apply (onGrid?_cases h).2.2.trans
  exact Nat.succ_le_succ (Nat.div_le_self _ _)

lemma length_numeral_mul_pow_le {a b k : Nat} (hn : n < 2 ^ a) (hk : k ≤ b) :
    (Text.numeral (n * 10 ^ k + 1)).length ≤ a + b + 1 := by
  have hb : n * 10 ^ k < 10 ^ (a + b) := by
    rw [Nat.pow_add]
    exact Nat.mul_lt_mul_of_lt_of_le (hn.trans_le (Nat.pow_le_pow_left (by decide) a))
      (Nat.pow_le_pow_right (by decide) hk) (Nat.pow_pos (by decide))
  apply (Text.length_numeral_le_iff (Nat.succ_pos _)).2
  exact (Nat.succ_le_of_lt hb).trans_lt (Nat.pow_lt_pow_right (by decide) (Nat.lt_succ_self _))

lemma shortest_bounds (m : Magnitude) :
    -1091 ≤ m.shortest.exponent ∧ m.shortest.exponent ≤ 2097 ∧
      (Text.numeral m.shortest.coefficient).length ≤ 4000 := by
  have hq : m.quanta < 2 ^ (2098 : Nat) := by
    rw [← limit.eq_1]
    exact m.bounded
  by_cases hm : m.quanta = 0
  · rw [shortest_zero hm]
    decide
  · rcases shortest_cases hm with h | ⟨k, hk, h⟩
    · have he : m.exact.exponent = -1074 := rfl
      have hc : m.exact.coefficient = m.quanta * 5 ^ (1074 : Nat) := rfl
      rw [h]
      refine ⟨by rw [he]; decide, by rw [he]; decide, ?_⟩
      have hle : m.exact.coefficient ≤ m.quanta * 10 ^ (1074 : Nat) + 1 := by
        rw [hc]
        generalize (1074 : Nat) = k
        exact Nat.le_succ_of_le (Nat.mul_le_mul_left _ (Nat.pow_le_pow_left (by decide) k))
      apply (Text.length_numeral_mono hle).trans
      apply (length_numeral_mul_pow_le (b := 1091) hq (by decide)).trans
      decide
    · obtain ⟨-, he, -⟩ := onGrid?_cases h
      obtain ⟨hl, hu⟩ := m.pointPosition_bounds
      refine ⟨by omega, by omega, ?_⟩
      apply (Text.length_numeral_mono (coefficient_le h)).trans
      apply (length_numeral_mul_pow_le (b := 1091) hq (by omega)).trans
      decide

end SheetFormat.Magnitude
