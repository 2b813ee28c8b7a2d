import SheetFormat.Number.Shortest

/-! The General format: at most eleven characters of digits, and scientific notation for very large
and very small magnitudes. -/

namespace SheetFormat.General

def fixedWidth : Nat := 11

def mantissaPlaces : Nat := 5

def tiny : Binary64 := (⟨1, -10⟩ : Decimal).toBinary64 false

def huge : Binary64 := (⟨1, 11⟩ : Decimal).toBinary64 false

def isScientific (x : Binary64) : Bool := x.abs.le tiny || huge.le x.abs

def fixed (m : Magnitude) : Text :=
  let d := m.shortest
  if d.text.length ≤ fixedWidth then d.text
  else
    let places := fixedWidth - 1 - (Text.numeral (d.numerator / d.denominator)).length
    Decimal.pointedAt places (d.roundAt places)

def scientific (m : Magnitude) : Text :=
  let s := Scientific.ofBinary64 mantissaPlaces (.finite false m)
  Decimal.pointed s.whole (Text.dropTrailingZeros s.fraction) ++ 'E' ::
    (if s.exponent < 0 then '-' else '+') :: Text.padded 2 s.exponent.natAbs

end SheetFormat.General

namespace SheetFormat

def generalText : Binary64 → Text
  | .nan => "NaN".toList
  | .infinite s => signText s ++ "Infinity".toList
  | .finite s m =>
    if m.quanta = 0 then ['0']
    else signText s ++
      if General.isScientific (.finite s m) then General.scientific m else General.fixed m

end SheetFormat
