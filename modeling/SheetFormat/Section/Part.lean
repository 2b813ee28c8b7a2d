import SheetFormat.Code.Token

/-! The parts of a section in the order they are shown. The fields of a number are digit
placeholders, those of a date are date fields. -/

namespace SheetFormat

inductive Part (α : Type) where
  | literal (c : Char)
  | currency (symbol : Text)
  | text
  | field (f : α)
  deriving DecidableEq

namespace Part

variable {α : Type}

def isField : Part α → Bool
  | field _ => true
  | _ => false

def isText : Part α → Bool
  | text => true
  | _ => false

end Part

abbrev NumberPart := Part Placeholder

inductive MonthStyle where
  | plain
  | padded
  | abbreviated
  | full
  | letter
  deriving DecidableEq

inductive DayStyle where
  | plain
  | padded
  | abbreviated
  | full
  deriving DecidableEq

inductive ClockUnit where
  | hour
  | minute
  | second
  deriving DecidableEq

inductive HalfDayStyle where
  | upper
  | lower
  | shortUpper
  | shortLower
  deriving DecidableEq

inductive DateField where
  | shortYear
  | longYear
  | month (style : MonthStyle)
  | day (style : DayStyle)
  | clock (unit : ClockUnit) (padded : Bool)
  | subsecond (digits : Nat)
  | elapsed (unit : ClockUnit) (padded : Bool)
  | halfDay (style : HalfDayStyle)
  deriving DecidableEq

namespace DateField

def isHour : DateField → Bool
  | clock .hour _ => true
  | elapsed .hour _ => true
  | _ => false

def isSecond : DateField → Bool
  | clock .second _ => true
  | elapsed .second _ => true
  | _ => false

def isHalfDay : DateField → Bool
  | halfDay _ => true
  | _ => false

def subsecondDigits : DateField → Nat
  | subsecond digits => digits
  | _ => 0

end DateField

abbrev DatePart := Part DateField

end SheetFormat
