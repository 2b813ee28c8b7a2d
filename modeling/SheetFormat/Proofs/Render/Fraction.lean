import SheetFormat.Proofs.Number.Overflow
import SheetFormat.Proofs.Section.Fraction

/-! The fraction that stands for a number: its denominator is not zero and its numerator is a word.
-/

namespace SheetFormat

open Convergents

attribute [local irreducible] perUnit limit

lemma Approximation.search_keeps {P : Approximation → Prop} {target : Binary64}
    {best : Approximation} (hb : P best) (count : Nat) {d : Nat}
    (hn : ∀ e, d ≤ e → e < d + count → P (withDenominator target e)) :
    P (search target count d best) := by
  induction count generalizing d best with
  | zero => exact hb
  | succ count ih =>
    rw [search]
    split_ifs
    · exact hb
    · refine ih ?_ fun e hl hu => hn e (by omega) (by omega)
      split_ifs
      · exact hn d le_rfl (by omega)
      · exact hb

lemma Approximation.search_denominator_pos (target : Binary64) (count : Nat) :
    0 < (search target count 2 (whole target)).denominator :=
  search_keeps (P := fun a => 0 < a.denominator) Nat.one_pos count
    fun _ hl _ => Nat.two_pos.trans_le hl

lemma Approximation.search_denominator_le (target : Binary64) (count : Nat) :
    (search target count 2 (whole target)).denominator ≤ count + 1 := by
  refine search_keeps (P := fun a => a.denominator ≤ count + 1) (Nat.le_add_left ..) count
    fun e _ hu => ?_
  change e ≤ count + 1
  omega

lemma Approximation.search_numerator_lt (target : Binary64) (count : Nat) :
    (search target count 2 (whole target)).numerator < wordLimit :=
  search_keeps (P := fun a => a.numerator < wordLimit) (Binary64.toNat64_lt _) count
    fun _ _ _ => Binary64.toNat64_lt _

lemma bestFraction_denominator_pos (target : Binary64) (digits : Nat) :
    0 < (bestFraction target digits).2 := by
  rw [bestFraction]
  split_ifs
  · rw [Approximation.nearest]
    split_ifs
    · exact Nat.one_pos
    · exact Approximation.search_denominator_pos target _
  · rw [Convergents.nearest]
    split_ifs
    · exact Nat.one_pos
    · exact Nat.le_max_right ..

lemma Denominator.fractionOf_denominator_pos {d : Denominator} (h : d.IsProper)
    (target : Binary64) : 0 < (d.fractionOf target).2 := by
  cases d with
  | bestFit placeholders => exact bestFraction_denominator_pos ..
  | fixed value => exact h.1

namespace Convergents

variable {largest : Nat} {c next : Convergents}

lemma next?_eq_some (h : c.next? largest = some next) :
    ∃ step, step = (1 / (c.rest - c.part)).floor.toNat64 ∧
      next.numerators = (step * c.numerators.1 + c.numerators.2, c.numerators.1) ∧
      next.denominators = (step * c.denominators.1 + c.denominators.2, c.denominators.1) ∧
      next.denominators.1 ≤ largest ∧ next.numerators.1 < wordLimit := by
  rw [next?] at h
  dsimp only at h
  split_ifs at h with _ hb
  cases h
  exact ⟨_, rfl, rfl, rfl, hb.1, hb.2.1⟩

lemma last_keeps {P : Convergents → Prop}
    (hs : ∀ c next, c.next? largest = some next → P c → P next) (count : Nat) (h : P c) :
    P (last largest count c) := by
  induction count generalizing c with
  | zero => exact h
  | succ count ih =>
    rw [last]
    cases hn : c.next? largest with
    | none => exact h
    | some next => exact ih (hs c next hn h)

lemma last_numerator_lt (largest count : Nat) (h : c.numerators.1 < wordLimit) :
    (last largest count c).numerators.1 < wordLimit := by
  refine last_keeps (P := fun c => c.numerators.1 < wordLimit) (fun c next hn _ => ?_) count h
  obtain ⟨step, -, -, -, -, hw⟩ := next?_eq_some hn
  exact hw

end Convergents

lemma bestFraction_numerator_lt (target : Binary64) (digits : Nat) :
    (bestFraction target digits).1 < wordLimit := by
  have h0 : 0 < wordLimit := by decide
  rw [bestFraction]
  split_ifs
  · rw [Approximation.nearest]
    split_ifs
    · exact h0
    · exact Approximation.search_numerator_lt target _
  · rw [Convergents.nearest]
    split_ifs
    · exact h0
    · exact Convergents.last_numerator_lt _ _ (Binary64.toNat64_lt _)

lemma Denominator.fractionOf_numerator_lt (d : Denominator) (target : Binary64) :
    (d.fractionOf target).1 < wordLimit := by
  cases d with
  | bestFit placeholders => exact bestFraction_numerator_lt ..
  | fixed value => exact Binary64.toNat64_lt _

end SheetFormat
