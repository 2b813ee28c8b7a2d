import Mathlib.Tactic.Linarith
import Mathlib.Tactic.Positivity
import SheetFormat.Proofs.Number.Decimal
import SheetFormat.Proofs.Text.Digits

/-! Numerals without a zero too many in front or at the end. A number has at most one of them. -/

namespace SheetFormat.Text

attribute [local instance (2000)] instPowNat

structure IsWhole (t : Text) : Prop where
  digits : t.AllDigits
  ne_nil : t ≠ []
  eq_zero : t.head? = some '0' → t = ['0']

structure IsFraction (t : Text) : Prop where
  digits : t.AllDigits
  last : t.getLast? ≠ some '0'

inductive IsCanonical : Text → Prop
  | whole {w : Text} : IsWhole w → IsCanonical w
  | pointed {w f : Text} : IsWhole w → IsFraction f → f ≠ [] → IsCanonical (w ++ '.' :: f)

variable {s t w f g : Text} {n : Nat}

lemma isWhole_numeral (n : Nat) : IsWhole (numeral n) := by
  refine ⟨allDigits_numeral n, numeral_ne_nil n, fun h => ?_⟩
  obtain ⟨t, ht⟩ := List.head?_eq_some_iff.1 h
  have hd : AllDigits t := (ht ▸ allDigits_numeral n).tail
  have hv : n = valueOf t := by
    rw [← valueOf_numeral n, ht]
    exact (valueOf_cons (show 0 < 10 by decide) t).trans (by rw [Nat.zero_mul, Nat.zero_add])
  have hl := congrArg List.length ht
  rw [List.length_cons] at hl
  by_cases h0 : t = []
  · rw [ht, h0]
  · have := (length_numeral_le_iff (List.length_pos_of_ne_nil h0)).2 (hv ▸ valueOf_lt hd)
    omega

lemma IsWhole.eq_numeral (h : IsWhole w) : w = numeral (valueOf w) := by
  apply Text.eq_numeral h.digits rfl
  apply le_antisymm ((length_numeral_le_iff (List.length_pos_of_ne_nil h.ne_nil)).2
    (valueOf_lt h.digits))
  cases w with
  | nil => exact absurd rfl h.ne_nil
  | cons c t =>
    by_cases hc : c = '0'
    · rw [h.eq_zero (congrArg some hc)]
      exact length_numeral_pos _
    · obtain ⟨d, hd, rfl⟩ := exists_digitChar h.digits.head
      have h0 : d ≠ 0 := fun h0 => hc (by rw [h0]; rfl)
      have hp : 10 ^ t.length ≤ valueOf (Nat.digitChar d :: t) := by
        rw [valueOf_cons hd]
        exact Nat.le_add_right_of_le (Nat.le_mul_of_pos_left _ (Nat.pos_of_ne_zero h0))
      have hn := lt_pow_length_numeral (valueOf (Nat.digitChar d :: t))
      exact (Nat.pow_lt_pow_iff_right (by decide)).1 (hp.trans_lt hn)

lemma isFraction_dropTrailingZeros (h : t.AllDigits) : IsFraction (dropTrailingZeros t) := by
  refine ⟨h.dropTrailingZeros, fun hl => ?_⟩
  rw [dropTrailingZeros, List.getLast?_reverse] at hl
  have hn := List.head?_dropWhile_not (· == '0') t.reverse
  rw [hl] at hn
  exact Bool.noConfusion hn

lemma isCanonical_pointed (hw : IsWhole w) (hf : IsFraction f) :
    IsCanonical (Decimal.pointed w f) := by
  rw [Decimal.pointed]
  split_ifs with h
  · exact .whole hw
  · exact .pointed hw hf (by simpa using h)

lemma IsCanonical.eq_pointed (h : IsCanonical t) :
    ∃ w f, IsWhole w ∧ IsFraction f ∧ t = Decimal.pointed w f := by
  cases h with
  | whole hw => exact ⟨t, [], hw, ⟨List.forall_mem_nil _, nofun⟩, rfl⟩
  | pointed hw hf hn => exact ⟨_, _, hw, hf, (if_neg (by simpa using hn)).symm⟩

lemma fractionOf_nonneg (t : Text) : 0 ≤ fractionOf t := by
  rw [fractionOf]
  positivity

lemma fractionOf_lt_one (h : t.AllDigits) : fractionOf t < 1 := by
  rw [fractionOf, div_lt_one (by positivity)]
  exact_mod_cast valueOf_lt h

lemma IsFraction.eq_of_length_le (hf : IsFraction f) (hg : IsFraction g)
    (hl : f.length ≤ g.length) (h : fractionOf f = fractionOf g) : f = g := by
  obtain ⟨k, hk⟩ := Nat.exists_eq_add_of_le hl
  have hv : valueOf (f ++ List.replicate k '0') = valueOf g := by
    rw [← fractionOf_append_zeros f k, fractionOf, fractionOf, List.length_append,
      List.length_replicate, ← hk, div_left_inj' (by positivity)] at h
    exact_mod_cast h
  have he : f ++ List.replicate k '0' = g :=
    eq_of_valueOf (hf.digits.append (allDigits_zeros k)) hg.digits (by simp [hk]) hv
  cases k with
  | zero => simpa using he
  | succ k =>
    rw [List.replicate_succ', ← List.append_assoc] at he
    exact absurd (he ▸ List.getLast?_concat) hg.last

lemma IsFraction.eq_of_fractionOf (hf : IsFraction f) (hg : IsFraction g)
    (h : fractionOf f = fractionOf g) : f = g := by
  rcases Nat.le_total f.length g.length with hl | hl
  · exact hf.eq_of_length_le hg hl h
  · exact (hg.eq_of_length_le hf hl h.symm).symm

lemma IsCanonical.eq_of_decimalValue? (hs : IsCanonical s) (ht : IsCanonical t)
    (h : decimalValue? '.' s = decimalValue? '.' t) : s = t := by
  obtain ⟨w, f, hw, hf, rfl⟩ := hs.eq_pointed
  obtain ⟨v, g, hv, hg, rfl⟩ := ht.eq_pointed
  rw [Decimal.decimalValue?_pointed hw.digits hf.digits,
    Decimal.decimalValue?_pointed hv.digits hg.digits, Option.some.injEq] at h
  have hq : valueOf w = valueOf v := by
    have hf0 := fractionOf_nonneg f
    have hg0 := fractionOf_nonneg g
    have hf1 := fractionOf_lt_one hf.digits
    have hg1 := fractionOf_lt_one hg.digits
    have hl : valueOf w < valueOf v + 1 := by
      exact_mod_cast (by linarith : (valueOf w : ℚ) < valueOf v + 1)
    have hu : valueOf v < valueOf w + 1 := by
      exact_mod_cast (by linarith : (valueOf v : ℚ) < valueOf w + 1)
    omega
  rw [hq, add_right_inj] at h
  rw [hw.eq_numeral, hv.eq_numeral, hq, hf.eq_of_fractionOf hg h]

end SheetFormat.Text
