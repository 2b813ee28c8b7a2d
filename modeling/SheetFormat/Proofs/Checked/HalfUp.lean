import SheetFormat.Proofs.Checked.Rounding
import SheetFormat.Proofs.Text.Canonical

namespace SheetFormat

open Text

attribute [local instance (2000)] instPowNat

def CarriesOut (whole fraction : Text) (places : Nat) : Prop :=
  (∀ c ∈ keptDigits whole fraction places, c = '9') ∧ ∃ c ∈ fraction[places]?, '5' ≤ c

instance (whole fraction : Text) (places : Nat) : Decidable (CarriesOut whole fraction places) :=
  @instDecidableAnd _ _ (List.decidableBAll _ _) (Option.decidableExistsMem _)

section Carry

variable {whole fraction : Text} {places : Nat}

lemma Checked.roundsUp_iff {digit : Option Char} :
    roundsUp digit = true ↔ ∃ c ∈ digit, '5' ≤ c := by
  simp [roundsUp, Option.any_eq_true]

lemma carriesOut_iff (hw : whole.AllDigits) (hf : fraction.AllDigits) :
    CarriesOut whole fraction places ↔
      valueOf (keptDigits whole fraction places) + (Checked.roundsUp fraction[places]?).toNat =
        10 ^ (whole.length + places) := by
  have hk := allDigits_keptDigits hw hf places
  rw [CarriesOut, ← Checked.roundsUp_iff, ← valueOf_add_one_eq_iff hk, length_keptDigits]
  cases Checked.roundsUp fraction[places]? with
  | true => exact and_iff_left rfl
  | false =>
    have hlt := valueOf_lt hk
    rw [length_keptDigits] at hlt
    exact iff_of_false (fun h => Bool.noConfusion h.2) hlt.ne

lemma length_carried (a : Nat) (hf : fraction.AllDigits) (places : Nat) :
    let r := valueOf (keptDigits (numeral a) fraction places) +
      (Checked.roundsUp fraction[places]?).toNat
    (numeral (r / 10 ^ places)).length =
      (numeral a).length + if CarriesOut (numeral a) fraction places then 1 else 0 := by
  intro r
  have ha := allDigits_numeral a
  have hr : CarriesOut (numeral a) fraction places ↔ r = _ := carriesOut_iff ha hf
  split_ifs with hc
  · rw [hr.1 hc, Nat.pow_add, Nat.mul_div_cancel _ (Nat.pow_pos (by decide)), length_numeral_pow]
  · have hk := valueOf_lt (allDigits_keptDigits ha hf places)
    have hu : (Checked.roundsUp fraction[places]?).toNat ≤ 1 := Bool.toNat_le _
    rw [length_keptDigits] at hk
    apply length_numeral_div
    · have h := le_valueOf_append_div a (Checked.roundsUp fraction[places]?).toNat
        ((hf.append (allDigits_zeros places)).take places)
      rwa [List.length_take_of_le (by simp)] at h
    · exact (Nat.le_of_lt_succ (by omega)).lt_of_ne (mt hr.2 hc)

end Carry

/-- The digits of a number rounded to a count of places: with `v` the number of its text, they are
`v` times the power of ten, rounded half up, and the whole ones have no zero in front. -/
theorem splitRounded_half_up (m : Magnitude) (places : Nat)
    (h : (Binary64.finite false m).reduced.isFinite = true) :
    let x := Binary64.finite false m
    ∃ (w f whole fraction : Text) (v : ℚ),
      (x.reduced.text = Decimal.pointed w f ∧ (w ++ f).AllDigits ∧
        decimalValue? '.' x.reduced.text = some v) ∧
      Checked.splitRounded x places = .ok (whole, fraction) ∧
      x.splitRounded places = (whole, fraction) ∧
      whole.IsWhole ∧ fraction.AllDigits ∧ fraction.length = places ∧
      (valueOf (whole ++ fraction) : ℤ) = ⌊v * 10 ^ places + 1 / 2⌋ ∧
      (whole ++ fraction).length =
        (keptDigits w f places).length + if CarriesOut w f places then 1 else 0 := by
  intro x
  obtain ⟨r, hr⟩ := (Binary64.Unsigned.finite m).reduced.eq_finite h
  let d := r.shortest
  have hx : x.splitRounded places =
      (numeral (d.roundAt places / 10 ^ places),
        Text.places places (d.roundAt places % 10 ^ places)) := by
    rw [Binary64.splitRounded, hr]
    rfl
  have ht : x.reduced.text = d.text := by
    rw [hr]
    rfl
  refine ⟨numeral (d.numerator / d.denominator), d.fraction, _, _, d.value,
    ⟨ht, (allDigits_numeral _).append d.allDigits_fraction, ?_⟩, ?_, hx, isWhole_numeral _,
    allDigits_places _ _, length_places _ _, ?_, ?_⟩
  · rw [ht, d.decimalValue?_text]
  · rw [Checked.splitRounded_ok (.finite m), hx]
  · rw [← d.roundAt_eq_floor, valueOf_append, valueOf_numeral, valueOf_places, length_places,
      Nat.mod_mod, Nat.div_add_mod']
  · have hl := length_carried (d.numerator / d.denominator) d.allDigits_fraction places
    rw [← d.roundAt_eq_valueOf] at hl
    rw [List.length_append, length_places, length_keptDigits, hl, Nat.add_right_comm]

theorem splitRounded_half_up_carried :
    let m : Magnitude := ⟨5626684784446013 * 2 ^ (1025 : Nat), by decide +kernel, by decide +kernel⟩
    let x := Binary64.finite false m
    x.reduced.isFinite = true ∧ x.reduced.text = "9.995".toList ∧
      CarriesOut ['9'] "995".toList 2 ∧
      Checked.splitRounded x 2 = .ok ("10".toList, "00".toList) ∧
      ∃ (w f whole fraction : Text) (v : ℚ),
        (x.reduced.text = Decimal.pointed w f ∧ (w ++ f).AllDigits ∧
          decimalValue? '.' x.reduced.text = some v) ∧
        Checked.splitRounded x 2 = .ok (whole, fraction) ∧ x.splitRounded 2 = (whole, fraction) ∧
        whole.IsWhole ∧ fraction.AllDigits ∧ fraction.length = 2 ∧
        (valueOf (whole ++ fraction) : ℤ) = ⌊v * 10 ^ 2 + 1 / 2⌋ ∧
        (whole ++ fraction).length =
          (keptDigits w f 2).length + if CarriesOut w f 2 then 1 else 0 := by
  intro m x
  have hf : x.reduced.isFinite = true := by decide +kernel
  exact ⟨hf, by decide +kernel, by decide, by decide +kernel, splitRounded_half_up m 2 hf⟩

end SheetFormat
