import SheetFormat.Section.Element

/-! Number sections. The first exponent mark ends the mantissa and its first point the whole part;
a comma groups digits, divides by a thousand, or is a literal. -/

namespace SheetFormat

inductive CommaRole where
  | group
  | scale
  | literal
  deriving DecidableEq

namespace CommaRole

def closes (after : List Mark) : Bool :=
  match after.dropWhile (· = .comma) with
  | [] => true
  | m :: _ => m = .percent

/-- The role of a comma from the marks after it in the whole part and in the whole number;
`seen` tells whether a digit stands before it. -/
def ofContext (seen : Bool) (inWhole after : List Mark) : CommaRole :=
  if seen && inWhole.any Mark.isDigit then group
  else if seen && !after.any Mark.isDigit && closes after then scale
  else literal

end CommaRole

structure Settled where
  marks : List Mark
  grouped : Bool
  thousands : Nat

namespace Settled

def empty : Settled := ⟨[], false, 0⟩

def put (m : Mark) (s : Settled) : Settled := { s with marks := m :: s.marks }

def comma (role : CommaRole) (s : Settled) : Settled :=
  match role with
  | .group => { s with grouped := true }
  | .scale => { s with thousands := s.thousands + 1 }
  | .literal => s.put (.bare ',')

def ofWhole (beyond : List Mark) (seen : Bool) : List Mark → Settled
  | [] => empty
  | m :: rest =>
    let s := ofWhole beyond (seen || m.isDigit) rest
    if m = .comma then s.comma (.ofContext seen rest (rest ++ beyond)) else s.put m

def ofFractional (seen : Bool) : List Mark → Settled
  | [] => empty
  | m :: rest =>
    let s := ofFractional (seen || m.isDigit) rest
    if m = .comma then s.comma (.ofContext seen [] rest) else s.put m

end Settled

namespace NumberLayout

def exponentOf (marks : List Mark) : Option (ExponentMark × List NumberPart) :=
  match marks.dropWhile (!·.isExponent) with
  | .exponent e :: rest => some (e, rest.flatMap Mark.parts)
  | _ => none

def ofMarks (marks : List Mark) : NumberLayout :=
  let mantissa := marks.takeWhile (!·.isExponent)
  let whole := mantissa.takeWhile (· != .point)
  let point := mantissa.dropWhile (· != .point)
  let beyond := point.drop 1
  let before := Settled.ofWhole beyond false whole
  let after := Settled.ofFractional (whole.any Mark.isDigit) beyond
  { whole := before.marks.flatMap Mark.parts
    fractional := if point.isEmpty then none else some (after.marks.flatMap Mark.parts)
    exponent := exponentOf marks
    scaling :=
      { percent := marks.any (· = .percent)
        thousands := min 255 (before.thousands + after.thousands)
        grouped := before.grouped } }

end NumberLayout

end SheetFormat
