import SheetFormat.Locale
import SheetFormat.Render.Digits
import SheetFormat.Render.General

namespace SheetFormat

namespace Scaling

def thousandths : Nat → Binary64 → Binary64
  | 0, x => x
  | n + 1, x => thousandths n (x / 1000)

def apply (s : Scaling) (x : Binary64) : Binary64 :=
  thousandths s.thousands (if s.percent then x * 100 else x)

end Scaling

def significantDigits (digits : Text) : Text := if digits = ['0'] then [] else digits

namespace NumberLayout

/-- The whole part; with a point and no placeholder in front of it, an optional digit is added. -/
def wholeParts (l : NumberLayout) : List NumberPart :=
  if l.fractional.isSome ∧ placeholderCount l.whole = 0 then l.whole ++ [.field .hash]
  else l.whole

def places (l : NumberLayout) : Nat := placeholderCount (l.fractional.getD [])

def pointed (l : NumberLayout) (locale : Locale) (digits : Text) : Text :=
  match l.fractional with
  | none => []
  | some parts => locale.decimal :: fill parts (Text.dropTrailingZeros digits)

def front (l : NumberLayout) : List NumberPart :=
  if l.wholeParts.any Part.isField then (l.wholeParts.reverse.dropWhile (!·.isField)).reverse
  else l.wholeParts

def behind (l : NumberLayout) : List NumberPart :=
  if l.wholeParts.any Part.isField then (l.wholeParts.reverse.takeWhile (!·.isField)).reverse
  else []

def separate (l : NumberLayout) (locale : Locale) (shown : Text) : Text :=
  if l.scaling.grouped then groupThousands locale.thousands shown else shown

def grouped (l : NumberLayout) (locale : Locale) (general digits : Text) : Text :=
  l.separate locale (spread general l.front digits) ++ spread general l.behind []

def positional (l : NumberLayout) (locale : Locale) (general : Text) (x : Binary64) : Text :=
  let (whole, fraction) := x.splitRounded l.places
  l.grouped locale general (significantDigits whole) ++ l.pointed locale fraction

def scientific (l : NumberLayout) (locale : Locale) (mark : ExponentMark)
    (parts : List NumberPart) (x : Binary64) : Text :=
  let s := Scientific.ofBinary64 l.places x.reduced
  let sign := if s.exponent < 0 then ['-'] else if mark.showPlus then ['+'] else []
  spread [] l.whole (significantDigits s.whole) ++ l.pointed locale s.fraction ++
    mark.letter :: sign ++
    spread [] parts (significantDigits (Text.numeral s.exponent.natAbs))

def render (l : NumberLayout) (locale : Locale) (x : Binary64) : Text :=
  let scaled := l.scaling.apply x
  match l.exponent with
  | some (mark, parts) => l.scientific locale mark parts scaled
  | none => l.positional locale (generalText x) scaled

end NumberLayout

def Part.undated? : DatePart → Option NumberPart
  | literal c => some (literal c)
  | currency symbol => some (currency symbol)
  | text => some text
  | field _ => none

namespace Section

def asNumber (s : Section) : NumberLayout :=
  match s.body with
  | .number l => l
  | .general => ⟨[], none, none, s.scaling⟩
  | .fraction l => ⟨l.whole, none, none, l.scaling⟩
  | .date parts => ⟨parts.filterMap Part.undated?, none, none, s.scaling⟩

end Section

end SheetFormat
