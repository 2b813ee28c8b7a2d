import Mathlib.Tactic.Lemma
import SheetFormat.Render.Number

/-! Numbers without a sign keep to themselves under what a section does to them. -/

namespace SheetFormat

namespace Binary64

inductive Unsigned : Binary64 → Prop
  | finite (m : Magnitude) : Unsigned (.finite false m)
  | infinite : Unsigned (.infinite false)
  | nan : Unsigned .nan

lemma unsigned_abs (x : Binary64) : x.abs.Unsigned := by
  cases x with
  | finite s m => exact .finite m
  | infinite s => exact .infinite
  | nan => exact .nan

lemma unsigned_ofQuanta (n d : Nat) : (ofQuanta false n d).Unsigned := by
  by_cases hd : 0 < d
  · by_cases h : Rounding.toBits 53 n d < limit
    · rw [ofQuanta, dif_pos hd]
      simp only [h, dif_pos]
      exact .finite _
    · rw [ofQuanta, dif_pos hd]
      simp only [h, dif_neg, not_false_eq_true]
      exact .infinite
  · rw [ofQuanta, dif_neg hd]
    exact .infinite

lemma unsigned_ofQuotient (n d : Nat) : (ofQuotient false n d).Unsigned :=
  unsigned_ofQuanta (n * perUnit) d

lemma unsigned_ofNat (n : Nat) : (ofNat n).Unsigned := unsigned_ofQuotient n 1

lemma Unsigned.mul {x y : Binary64} (hx : x.Unsigned) (hy : y.Unsigned) : (x.mul y).Unsigned := by
  cases hx with
  | finite m =>
    cases hy with
    | finite n => exact unsigned_ofQuanta (m.quanta * n.quanta) perUnit
    | infinite =>
      rw [Binary64.mul]
      split
      · exact .nan
      · exact .infinite
    | nan => exact .nan
  | infinite =>
    cases hy with
    | finite n =>
      rw [Binary64.mul]
      split
      · exact .nan
      · exact .infinite
    | infinite => exact .infinite
    | nan => exact .nan
  | nan => exact .nan

lemma Unsigned.div {x y : Binary64} (hx : x.Unsigned) (hy : y.Unsigned) : (x.div y).Unsigned := by
  cases hx with
  | finite m =>
    cases hy with
    | finite n =>
      rw [Binary64.div]
      split
      · split
        · exact .nan
        · exact .infinite
      · exact unsigned_ofQuanta (m.quanta * perUnit) n.quanta
    | infinite => exact unsigned_ofQuanta 0 1
    | nan => exact .nan
  | infinite =>
    cases hy with
    | finite n => exact .infinite
    | infinite => exact .nan
    | nan => exact .nan
  | nan => exact .nan

lemma Unsigned.reduced {x : Binary64} (hx : x.Unsigned) : x.reduced.Unsigned := by
  cases hx with
  | finite m =>
    rw [Binary64.reduced]
    split
    · exact .finite m
    · exact unsigned_ofQuotient (m.significant 15).numerator (m.significant 15).denominator
  | infinite => exact .infinite
  | nan => exact .nan

lemma Unsigned.abs_eq {x : Binary64} (hx : x.Unsigned) : x.abs = x := by cases hx <;> rfl

lemma Unsigned.eq_finite {x : Binary64} (hx : x.Unsigned) (hf : x.isFinite = true) :
    ∃ m, x = .finite false m := by
  cases hx with
  | finite m => exact ⟨m, rfl⟩
  | infinite => cases hf
  | nan => cases hf

end Binary64

lemma Scaling.unsigned_apply (s : Scaling) {x : Binary64} (hx : x.Unsigned) :
    (s.apply x).Unsigned := by
  have ht : ∀ n (x : Binary64), x.Unsigned → (thousandths n x).Unsigned := by
    intro n
    induction n with
    | zero => exact fun _ => id
    | succ n ih => exact fun x hx => ih _ (hx.div (Binary64.unsigned_ofNat 1000))
  apply ht
  split
  · exact hx.mul (Binary64.unsigned_ofNat 100)
  · exact hx

end SheetFormat
