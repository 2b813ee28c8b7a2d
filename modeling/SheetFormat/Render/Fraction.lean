import SheetFormat.Render.Number

/-! Fraction sections. Denominators of up to four digits are searched one by one, wider ones by
continued fractions. -/

namespace SheetFormat

attribute [local instance (2000)] instPowNat

structure Approximation where
  numerator : Nat
  denominator : Nat
  error : Binary64

namespace Approximation

def withDenominator (target : Binary64) (d : Nat) : Approximation :=
  let n := (target * .ofNat d).round
  ⟨n.toNat64, d, (target - n / .ofNat d).abs⟩

def whole (target : Binary64) : Approximation :=
  let n := target.round.toNat64
  ⟨n, 1, (target - .ofNat n).abs⟩

def search (target : Binary64) : Nat → Nat → Approximation → Approximation
  | 0, _, best => best
  | count + 1, d, best =>
    if best.error.isZero then best
    else
      let next := withDenominator target d
      search target count (d + 1) (if next.error.lt best.error then next else best)

/-- The best denominator up to `largest`, the smallest of equally good ones. -/
def nearest (target : Binary64) (largest : Nat) : Nat × Nat :=
  if target.le 0 then (0, 1)
  else
    let best := search target (largest - 1) 2 (whole target)
    (best.numerator, best.denominator)

end Approximation

structure Convergents where
  rest : Binary64
  part : Binary64
  numerators : Nat × Nat
  denominators : Nat × Nat

namespace Convergents

def negligible : Binary64 := (⟨1, -10⟩ : Decimal).toBinary64 false

def wordLimit : Nat := 2 ^ (64 : Nat)

def first (target : Binary64) : Convergents :=
  ⟨target, target.floor, (target.floor.toNat64, 1), (1, 0)⟩

def next? (largest : Nat) (c : Convergents) : Option Convergents :=
  let left := c.rest - c.part
  if left.abs.lt negligible then none
  else
    let rest := 1 / left
    let part := rest.floor
    let n := part.toNat64 * c.numerators.1 + c.numerators.2
    let d := part.toNat64 * c.denominators.1 + c.denominators.2
    if d ≤ largest ∧ n < wordLimit ∧ d < wordLimit then
      some ⟨rest, part, (n, c.numerators.1), (d, c.denominators.1)⟩
    else none

def last (largest : Nat) : Nat → Convergents → Convergents
  | 0, c => c
  | count + 1, c =>
    match c.next? largest with
    | some next => last largest count next
    | none => c

def nearest (target : Binary64) (largest : Nat) : Nat × Nat :=
  if target.le negligible then (0, 1)
  else
    let c := last largest 40 (first target)
    (c.numerators.1, max c.denominators.1 1)

end Convergents

def searchedDigits : Nat := 4

def bestFraction (target : Binary64) (digits : Nat) : Nat × Nat :=
  let largest := 10 ^ max digits 1 - 1
  if digits ≤ searchedDigits then Approximation.nearest target largest
  else Convergents.nearest target largest

namespace Denominator

def fractionOf (target : Binary64) : Denominator → Nat × Nat
  | bestFit placeholders => bestFraction target (digits placeholders)
  | fixed value => ((target * .ofNat value).round.toNat64, value)

def text (value : Nat) : Denominator → Text
  | bestFit placeholders =>
    let digits := Text.numeral value
    let unused := placeholders.take (placeholders.length - digits.length)
    List.replicate (unused.count .zero) '0' ++ digits ++ List.replicate (unused.count .question) ' '
  | fixed _ => Text.numeral value

end Denominator

structure MixedNumber where
  whole : Binary64
  numerator : Nat
  denominator : Nat

namespace FractionLayout

def isMixed (l : FractionLayout) : Bool := l.whole.any Part.isField

def split (l : FractionLayout) (x : Binary64) : MixedNumber :=
  if l.isMixed then
    let (n, d) := l.denominator.fractionOf x.fract
    if d ≤ n then ⟨x.trunc + .ofNat (n / d), n % d, d⟩ else ⟨x.trunc, n, d⟩
  else
    let (n, d) := l.denominator.fractionOf x
    ⟨0, n, d⟩

def wholeDigits : Binary64 → Text
  | .finite s m => signText s ++ Text.numeral (m.quanta / perUnit)
  | x => x.text

def isOptional : NumberPart → Bool
  | .field p => !p.isRequired
  | part => part = .literal ' '

def wholeText (l : FractionLayout) (x : MixedNumber) : Text :=
  if x.whole.isZero then
    if x.numerator = 0 then spread [] l.whole ['0']
    else if l.whole.all isOptional then []
    else spread [] l.whole []
  else spread [] l.whole (wholeDigits x.whole)

def numeratorText (l : FractionLayout) (n : Nat) : Text :=
  let digits := Text.numeral n
  (l.numerator.take (l.numerator.length - digits.length)).flatMap Placeholder.blank ++ digits

def fractionText (l : FractionLayout) (x : MixedNumber) : Text :=
  if l.isMixed && x.numerator = 0 then
    List.replicate (l.numerator.length + 1 + l.denominator.width) ' '
  else l.numeratorText x.numerator ++ '/' :: l.denominator.text x.denominator

def render (l : FractionLayout) (x : Binary64) : Text :=
  let shown := l.split (l.scaling.apply x).reduced
  l.wholeText shown ++ l.fractionText shown ++ l.suffix.flatMap (fixedText [])

end FractionLayout

end SheetFormat
