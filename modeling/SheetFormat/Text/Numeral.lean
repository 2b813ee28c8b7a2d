import SheetFormat.Text.Basic

namespace SheetFormat.Text

def numeral (n : Nat) : Text := Nat.toDigits 10 n

def valueOf (digits : Text) : Nat := Nat.ofDigitChars 10 digits 0

theorem valueOf_numeral (n : Nat) : valueOf (numeral n) = n :=
  Nat.ofDigitChars_toDigits (by decide) (by decide)

theorem isDigit_of_mem_numeral {n : Nat} {c : Char} (h : c ∈ numeral n) : c.isDigit = true :=
  Nat.isDigit_of_mem_toDigits (by decide) (by decide) h

theorem numeral_ne_nil (n : Nat) : numeral n ≠ [] := by
  rw [numeral, Nat.toDigits_eq_if (by decide)]
  split <;> simp

def places : Nat → Nat → Text
  | 0, _ => []
  | width + 1, n => places width (n / 10) ++ [Nat.digitChar (n % 10)]

@[simp] theorem length_places (width n : Nat) : (places width n).length = width := by
  induction width generalizing n with
  | zero => rfl
  | succ width ih => simp [places, ih]

def padded (width n : Nat) : Text :=
  List.replicate (width - (numeral n).length) '0' ++ numeral n

theorem le_length_padded (width n : Nat) : width ≤ (padded width n).length := by
  simp only [padded, List.length_append, List.length_replicate]
  omega

def dropTrailingZeros (digits : Text) : Text := (digits.reverse.dropWhile (· == '0')).reverse

end SheetFormat.Text
