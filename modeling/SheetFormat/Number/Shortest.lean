import SheetFormat.Number.Decimal

/-! The shortest decimal that reads back as a number, and what is made of it: its text, the fifteen
digits a cell keeps, digits rounded to decimal places, and scientific notation. -/

namespace SheetFormat

attribute [local instance (2000)] instPowNat

namespace Magnitude

def pointPosition (m : Magnitude) : Int :=
  if perUnit ≤ m.quanta then (Text.numeral (m.quanta / perUnit)).length
  else 1 - (Text.numeral ((perUnit - 1) / m.quanta)).length

def scaled (m : Magnitude) (exponent : Int) : Nat × Nat :=
  (m.quanta * 10 ^ (-exponent).toNat, perUnit * 10 ^ exponent.toNat)

/-- In quarter quanta, half the way to the number below; below a power of two that is nearer. -/
def lowerBound (m : Magnitude) : Nat :=
  let s := Rounding.spacing 53 m.quanta
  if 1 < s ∧ m.quanta = 2 ^ (52 : Nat) * s then 4 * m.quanta - s else 4 * m.quanta - 2 * s

def upperBound (m : Magnitude) : Nat := 4 * m.quanta + 2 * Rounding.spacing 53 m.quanta

def readsBack (m : Magnitude) (d : Decimal) : Bool :=
  let x := 4 * perUnit * d.numerator
  let low := m.lowerBound * d.denominator
  let high := m.upperBound * d.denominator
  if m.quanta / Rounding.spacing 53 m.quanta % 2 = 0 then low ≤ x && x ≤ high
  else low < x && x < high

def onGrid? (m : Magnitude) (exponent : Int) : Option Decimal :=
  let (n, d) := m.scaled exponent
  let low : Decimal := ⟨n / d, exponent⟩
  let high : Decimal := ⟨n / d + 1, exponent⟩
  match m.readsBack low, m.readsBack high with
  | true, true => some (if 2 * (n % d) < d then low else high)
  | true, false => some low
  | false, true => some high
  | false, false => none

def exact (m : Magnitude) : Decimal := ⟨m.quanta * 5 ^ (1074 : Nat), -1074⟩

def shortest (m : Magnitude) : Decimal :=
  if m.quanta = 0 then ⟨0, 0⟩
  else
    let position := m.pointPosition
    ((List.range 17).findSome? fun k => m.onGrid? (position - (k + 1 : Nat))).getD m.exact

def significant (digits : Nat) (m : Magnitude) : Decimal :=
  let exponent := m.pointPosition - digits
  let (n, d) := m.scaled exponent
  ⟨Rounding.halfEven n d, exponent⟩

end Magnitude

def signText (negative : Bool) : Text := if negative then ['-'] else []

namespace Binary64

def text : Binary64 → Text
  | .finite s m => signText s ++ m.shortest.text
  | .infinite s => signText s ++ "inf".toList
  | .nan => "NaN".toList

def reduced : Binary64 → Binary64
  | .finite s m => if m.quanta = 0 then .finite s m else (m.significant 15).toBinary64 s
  | x => x

/-- Digits before and after the point, rounded half up on the decimal text of the reduced number;
what is not finite has its name for digits. -/
def splitRounded (x : Binary64) (places : Nat) : Text × Text :=
  match x.reduced with
  | .finite s m =>
    let n := m.shortest.roundAt places
    (signText s ++ Text.numeral (n / 10 ^ places), Text.places places (n % 10 ^ places))
  | y => (y.text, List.replicate places '0')

end Binary64

structure Scientific where
  whole : Text
  fraction : Text
  exponent : Int
  deriving DecidableEq

namespace Scientific

def mantissa (m : Magnitude) : Decimal × Int :=
  let d := m.shortest
  let behind := (Text.numeral d.coefficient).length - 1
  (⟨d.coefficient, -(behind : Int)⟩, d.exponent + behind)

def carried (s : Scientific) : Scientific :=
  if s.whole = ['1', '0'] then
    ⟨['1'], List.replicate s.fraction.length '0', s.exponent + 1⟩
  else s

def ofBinary64 (places : Nat) : Binary64 → Scientific
  | .finite _ m =>
    let (d, exponent) := mantissa m
    let (whole, fraction) := (d.toBinary64 false).splitRounded places
    carried ⟨whole, fraction, exponent⟩
  | x =>
    let (whole, fraction) := x.splitRounded places
    ⟨whole, fraction, 0⟩

end Scientific

end SheetFormat
