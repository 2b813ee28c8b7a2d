import SheetFormat.Number.Binary64
import SheetFormat.Text.Numeral

/-! Decimal numbers, their plain text, and their rounding to a count of decimal places. -/

namespace SheetFormat

attribute [local instance (2000)] instPowNat

/-- The number `coefficient * 10 ^ exponent`. -/
structure Decimal where
  coefficient : Nat
  exponent : Int
  deriving DecidableEq

namespace Decimal

def numerator (d : Decimal) : Nat := d.coefficient * 10 ^ d.exponent.toNat

def denominator (d : Decimal) : Nat := 10 ^ (-d.exponent).toNat

theorem denominator_pos (d : Decimal) : 0 < d.denominator := Nat.pow_pos (by decide)

def toBinary64 (negative : Bool) (d : Decimal) : Binary64 :=
  Binary64.ofQuotient negative d.numerator d.denominator

def roundAt (places : Nat) (d : Decimal) : Nat :=
  Rounding.halfUp (d.numerator * 10 ^ places) d.denominator

def pointed (whole fraction : Text) : Text :=
  if fraction.isEmpty then whole else whole ++ '.' :: fraction

def pointedAt (places n : Nat) : Text :=
  pointed (Text.numeral (n / 10 ^ places))
    (Text.dropTrailingZeros (Text.places places (n % 10 ^ places)))

def text (d : Decimal) : Text :=
  pointedAt (-d.exponent).toNat d.numerator

end Decimal

end SheetFormat
