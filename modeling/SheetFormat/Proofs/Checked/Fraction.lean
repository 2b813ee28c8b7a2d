import SheetFormat.Checked.Render
import SheetFormat.Proofs.Checked.Digits
import SheetFormat.Proofs.Render.Fraction

/-! Powers and convergents are words, and a denominator is never zero. -/

namespace SheetFormat

attribute [local instance (2000)] instPowNat

namespace Checked

lemma nextTerm?_eq (step last before : Nat) :
    nextTerm? step last before =
      if step * last + before < Convergents.wordLimit then some (step * last + before)
      else none := by
  rw [nextTerm?, word?]
  by_cases h : step * last < Convergents.wordLimit
  · rw [if_pos h]
    rfl
  · rw [if_neg h, if_neg fun hs => h ((Nat.le_add_right ..).trans_lt hs)]
    rfl

lemma next?_eq (largest : Nat) (c : Convergents) : next? largest c = c.next? largest := by
  rw [next?, Convergents.next?]
  simp only [nextTerm?_eq]
  by_cases hs : (c.rest - c.part).abs.lt Convergents.negligible = true
  · rw [if_pos hs, if_pos hs]
  rw [if_neg hs, if_neg hs]
  generalize (1 / (c.rest - c.part)).floor.toNat64 * c.denominators.1 + c.denominators.2 = d
  generalize (1 / (c.rest - c.part)).floor.toNat64 * c.numerators.1 + c.numerators.2 = n
  by_cases hd : d < Convergents.wordLimit
  · by_cases hl : largest < d
    · simp [hd, hl, Nat.not_le.2 hl]
    · by_cases hn : n < Convergents.wordLimit
      · simp [hd, hl, hn, Nat.le_of_not_lt hl]
      · simp [hd, hn]
  · simp [hd]

lemma lastConvergents_eq (largest count : Nat) (c : Convergents) :
    lastConvergents largest count c = Convergents.last largest count c := by
  induction count generalizing c with
  | zero => rfl
  | succ count ih =>
    rw [lastConvergents, Convergents.last, next?_eq]
    cases c.next? largest with
    | none => rfl
    | some next => exact ih next

lemma convergent_eq (target : Binary64) (largest : Nat) :
    convergent target largest = Convergents.nearest target largest := by
  rw [convergent, Convergents.nearest, lastConvergents_eq]

lemma bestFraction_ok (target : Binary64) {digits : Nat} (h : digits ≤ 9) :
    bestFraction target digits = .ok (SheetFormat.bestFraction target digits) := by
  have hw : word 64 (10 ^ max digits 1) = .ok (10 ^ max digits 1) :=
    word_ok ((Nat.pow_le_pow_right (by decide) (Nat.max_le.2 ⟨h, by decide⟩)).trans_lt (by decide))
  rw [bestFraction, hw, ok_bind, sub_ok (Nat.pow_pos (by decide)), ok_bind, convergent_eq,
    SheetFormat.bestFraction]
  split_ifs <;> rfl

lemma fractionOf_ok {d : Denominator} (h : d.IsProper) (target : Binary64) :
    fractionOf target d = .ok (d.fractionOf target) := by
  cases d with
  | bestFit placeholders => exact bestFraction_ok target (Nat.min_le_right ..)
  | fixed value =>
    rw [fractionOf, Nat.max_eq_left h.1]
    rfl

variable {l : FractionLayout}

lemma split_ok (h : l.denominator.IsProper) (x : Binary64) : split l x = .ok (l.split x) := by
  rw [split, FractionLayout.split]
  by_cases hm : l.isMixed = true
  · rw [if_pos hm, if_pos hm]
    refine (bind_ok (fractionOf_ok h _) _).trans ?_
    have hd := Denominator.fractionOf_denominator_pos h x.fract
    generalize l.denominator.fractionOf x.fract = f at hd ⊢
    simp only [div_ok _ hd, mod_ok _ hd, ok_bind]
    split_ifs <;> rfl
  · rw [if_neg hm, if_neg hm]
    exact bind_ok (fractionOf_ok h x) _

lemma wholeText_ok (l : FractionLayout) (x : MixedNumber) :
    wholeText l x = .ok (l.wholeText x) := by
  rw [wholeText, FractionLayout.wholeText]
  simp only [spread_ok]
  split_ifs <;> rfl

lemma numeratorText_ok (l : FractionLayout) (n : Nat) :
    numeratorText l n = .ok (l.numeratorText n) :=
  bind_ok (front_ok (Nat.sub_le ..)) _

lemma denominatorText_ok (value : Nat) (d : Denominator) :
    denominatorText value d = .ok (d.text value) := by
  cases d with
  | bestFit placeholders => exact bind_ok (front_ok (Nat.sub_le ..)) _
  | fixed n => rfl

lemma fractionText_ok (l : FractionLayout) (x : MixedNumber) :
    fractionText l x = .ok (l.fractionText x) := by
  rw [fractionText, FractionLayout.fractionText]
  simp only [numeratorText_ok, denominatorText_ok, ok_bind]
  split_ifs <;> rfl

lemma renderFraction_ok (h : l.denominator.IsProper) (x : Binary64) :
    renderFraction l x = .ok (l.render x) := by
  refine (bind_ok (split_ok h _) _).trans ?_
  simp only [wholeText_ok, fractionText_ok, ok_bind]
  rfl

end Checked

end SheetFormat
