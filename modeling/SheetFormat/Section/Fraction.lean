import SheetFormat.Section.Comma

/-! Fraction sections: the first slash is a fraction bar if, spaces apart, digits stand before it
and digits or a number after it. -/

namespace SheetFormat

attribute [local instance (2000)] instPowNat

namespace Mark

def numeralDigit? : Mark → Option Char
  | bare c => if c.isDigit then some c else none
  | part (.field .zero) => some '0'
  | _ => none

def startsDenominator : Mark → Bool
  | bare c => c.isDigit && c != '0'
  | m => m.isDigit

end Mark

namespace Denominator

def largest : Nat := 2 ^ (32 : Nat) - 1

def ofNumeral (digits : Text) : Denominator :=
  let n := Text.valueOf digits
  if 0 < n ∧ n ≤ largest then fixed n else bestFit [.question]

def read (marks : List Mark) : Denominator × List Mark :=
  if (marks.head?.map Mark.isDigit).getD false then
    (bestFit ((marks.takeWhile Mark.isDigit).filterMap Mark.placeholder?),
      marks.dropWhile Mark.isDigit)
  else
    (ofNumeral ((marks.takeWhile (·.numeralDigit?.isSome)).filterMap Mark.numeralDigit?),
      marks.dropWhile (·.numeralDigit?.isSome))

end Denominator

namespace FractionLayout

def bar? (marks : List Mark) : Option (List Mark × List Mark) :=
  match marks.dropWhile (· != .slash) with
  | [] => none
  | _ :: rest =>
    let before := ((marks.takeWhile (· != .slash)).reverse.dropWhile Mark.isSpace).reverse
    let after := rest.dropWhile Mark.isSpace
    if before.getLast?.any Mark.isDigit && after.head?.any Mark.startsDenominator then
      some (before, after)
    else none

def ofBar (before after : List Mark) : FractionLayout :=
  let digits := (before.reverse.takeWhile Mark.isDigit).reverse
  let whole := (before.reverse.dropWhile Mark.isDigit).reverse
  let (denominator, tail) := Denominator.read after
  let settled := Settled.ofWhole [] false whole
  { whole := settled.marks.flatMap Mark.parts
    numerator := digits.filterMap Mark.placeholder?
    denominator
    suffix := tail.flatMap Mark.parts
    scaling :=
      { percent := (whole ++ tail).any (· = .percent)
        thousands := min 255 settled.thousands
        grouped := settled.grouped } }

def ofMarks? (marks : List Mark) : Option FractionLayout :=
  (bar? marks).map fun (before, after) => ofBar before after

end FractionLayout

end SheetFormat
