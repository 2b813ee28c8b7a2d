import SheetFormat.Section.Part

/-! A compiled section: a General, date, fraction or number section, and its color. -/

namespace SheetFormat

inductive NamedColor where
  | black
  | blue
  | cyan
  | green
  | magenta
  | red
  | white
  | yellow
  deriving DecidableEq

inductive Color where
  | named (c : NamedColor)
  | indexed (n : Nat)
  deriving DecidableEq

structure Scaling where
  percent : Bool
  thousands : Nat
  grouped : Bool
  deriving DecidableEq

structure NumberLayout where
  whole : List NumberPart
  fractional : Option (List NumberPart)
  exponent : Option (ExponentMark × List NumberPart)
  scaling : Scaling
  deriving DecidableEq

inductive Denominator where
  | bestFit (placeholders : List Placeholder)
  | fixed (value : Nat)
  deriving DecidableEq

structure FractionLayout where
  whole : List NumberPart
  numerator : List Placeholder
  denominator : Denominator
  suffix : List NumberPart
  scaling : Scaling
  deriving DecidableEq

inductive Body where
  | general
  | date (parts : List DatePart)
  | fraction (layout : FractionLayout)
  | number (layout : NumberLayout)
  deriving DecidableEq

structure Section where
  body : Body
  color : Option Color
  deriving DecidableEq

namespace Denominator

def digits (placeholders : List Placeholder) : Nat := min placeholders.length 9

def width : Denominator → Nat
  | bestFit placeholders => digits placeholders
  | fixed value => (Nat.toDigits 10 value).length

end Denominator

namespace Section

def general : Section := ⟨.general, none⟩

def isGeneral (s : Section) : Bool := s.body = .general

def isDate (s : Section) : Bool :=
  match s.body with
  | .date _ => true
  | _ => false

def scaling (s : Section) : Scaling :=
  match s.body with
  | .number l => l.scaling
  | .fraction l => l.scaling
  | _ => ⟨false, 0, false⟩

def isPercent (s : Section) : Bool := s.scaling.percent

def hasTextPlaceholder (s : Section) : Bool :=
  match s.body with
  | .general => false
  | .date parts => parts.any Part.isText
  | .fraction l => (l.whole ++ l.suffix).any Part.isText
  | .number l =>
    (l.whole ++ l.fractional.getD [] ++ (l.exponent.map Prod.snd).getD []).any Part.isText

end Section

def dateFields (parts : List DatePart) : List DateField :=
  parts.filterMap fun
    | .field f => some f
    | _ => none

def hasHalfDay (parts : List DatePart) : Bool := (dateFields parts).any DateField.isHalfDay

def subsecondDigits (parts : List DatePart) : Nat :=
  (dateFields parts).foldl (fun n f => max n f.subsecondDigits) 0

end SheetFormat
