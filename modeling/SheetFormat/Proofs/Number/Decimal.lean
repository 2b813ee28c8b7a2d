import SheetFormat.Number.Shortest
import SheetFormat.Proofs.Text.Decimal

/-! The value of a decimal, in its text and rounded to a count of places. -/

namespace SheetFormat

lemma Rounding.halfUp_eq_floor (n : Nat) {d : Nat} (hd : 0 < d) :
    (halfUp n d : ℤ) = ⌊(n / d + 1 / 2 : ℚ)⌋ := by
  have hq : (n / d + 1 / 2 : ℚ) = (2 * n + d : ℕ) / (2 * d : ℕ) := by
    have hd : (d : ℚ) ≠ 0 := by exact_mod_cast hd.ne'
    push_cast
    field_simp
  rw [hq, Rat.floor_natCast_div_natCast]
  rfl

lemma div_add_fractionOf_places (places n : Nat) :
    ((n / 10 ^ places : ℕ) + Text.fractionOf (Text.places places (n % 10 ^ places)) : ℚ) =
      n / 10 ^ places := by
  have hp : (10 ^ places : ℚ) ≠ 0 := pow_ne_zero places (by norm_num)
  have hn : (n : ℚ) = 10 ^ places * (n / 10 ^ places : ℕ) + (n % 10 ^ places : ℕ) := by
    exact_mod_cast (Nat.div_add_mod n (10 ^ places)).symm
  rw [Text.fractionOf_places, eq_div_iff hp, add_mul, div_mul_cancel₀ _ hp, mul_comm, ← hn]

namespace Decimal

def value (d : Decimal) : ℚ := d.numerator / d.denominator

lemma value_eq_mul_zpow (d : Decimal) : d.value = d.coefficient * 10 ^ d.exponent := by
  conv => rhs; rw [← Int.toNat_sub_toNat_neg d.exponent, zpow_sub₀ (by norm_num)]
  rw [value, numerator, denominator, mul_div_assoc']
  push_cast
  rfl

lemma decimalValue?_pointed {whole fraction : Text} (hw : whole.AllDigits)
    (hf : fraction.AllDigits) : Text.decimalValue? '.' (pointed whole fraction) =
      some (Text.valueOf whole + Text.fractionOf fraction) := by
  cases fraction with
  | nil =>
    rw [Text.fractionOf_nil, add_zero]
    exact Text.decimalValue?_digits hw rfl
  | cons c fraction => exact Text.decimalValue?_pointed hw hf rfl

lemma decimalValue?_pointedAt (places n : Nat) :
    Text.decimalValue? '.' (pointedAt places n) = some (n / 10 ^ places : ℚ) := by
  have hf := Text.allDigits_places places (n % 10 ^ places)
  rw [pointedAt, decimalValue?_pointed (Text.allDigits_numeral _) hf.dropTrailingZeros,
    Text.valueOf_numeral, Text.fractionOf_dropTrailingZeros, div_add_fractionOf_places]

lemma decimalValue?_text (d : Decimal) : Text.decimalValue? '.' d.text = some d.value := by
  rw [text, decimalValue?_pointedAt, value, denominator]
  push_cast
  rfl

lemma roundAt_eq_floor (places : Nat) (d : Decimal) :
    (d.roundAt places : ℤ) = ⌊d.value * 10 ^ places + 1 / 2⌋ := by
  rw [roundAt, Rounding.halfUp_eq_floor _ d.denominator_pos, value, div_mul_eq_mul_div]
  push_cast
  rfl

end Decimal

end SheetFormat
