import SheetFormat.Render.Basic

/-! Cell values of every kind, their serials, and their rendering and color. -/

namespace SheetFormat

inductive Value where
  | number (x : Binary64)
  | text (t : Text)
  | bool (b : Bool)
  | empty
  | date (d : Date)
  | time (t : TimeOfDay)
  | dateTime (d : Date) (t : TimeOfDay)
  deriving DecidableEq

namespace Value

def kind : Value → Text
  | number _ => "number".toList
  | text _ => "text".toList
  | bool _ => "boolean".toList
  | empty => "empty".toList
  | date _ => "date".toList
  | time _ => "time".toList
  | dateTime .. => "datetime".toList

def number? : Value → Option Binary64
  | number x => some x
  | _ => none

def text? : Value → Option Text
  | text t => some t
  | _ => none

def isEmpty (v : Value) : Bool := v = empty

def serial? (s : DateSystem) : Value → Option Binary64
  | number x => some x
  | date d => dateToSerial s d
  | time t => some (timeToSerial t)
  | dateTime d t => dateTimeToSerial s d t
  | _ => none

end Value

namespace NumberFormat

def renderValue (f : NumberFormat) (o : Options) : Value → Text
  | .text t => f.renderText o t
  | .bool b => if b then "TRUE".toList else "FALSE".toList
  | v =>
    match v.serial? o.system with
    | some x => f.render o x
    | none => []

/-- The color of the section for a value, with serials of the system of 1900. -/
def color? (f : NumberFormat) : Value → Option Color
  | .text _ => f.textSection?.bind (·.color)
  | v => (v.serial? .since1900).bind fun x => (f.select x).1.color

end NumberFormat

end SheetFormat
