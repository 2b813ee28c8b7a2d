import SheetFormat.Format
import SheetFormat.Locale
import SheetFormat.Render.Date
import SheetFormat.Render.Digits
import SheetFormat.Render.Fraction

/-! Rendering of numbers and texts with a format: which section shows a value, when that fails, and
what is shown instead. -/

namespace SheetFormat

inductive RenderError where
  | notFinite (x : Binary64)
  | dateOutOfRange (serial : Binary64)
  deriving DecidableEq

namespace RenderError

def message : RenderError → Text
  | notFinite x => "value is not finite: ".toList ++ x.text
  | dateOutOfRange serial => "date out of range: serial number ".toList ++ serial.text

end RenderError

namespace Section

/-- A number in one section; `unsigned` tells that the section stands for the minus sign. -/
def renderNumber (s : Section) (unsigned : Bool) (o : Options) (x : Binary64) :
    Except RenderError Text :=
  let sign := signText (x.lt 0 && !unsigned)
  match s.body with
  | .general => .ok (generalText (if unsigned then x.abs else x))
  | .date parts =>
    match renderDate o parts x with
    | some t => .ok t
    | none => .error (.dateOutOfRange x)
  | .fraction l => .ok (sign ++ l.render x.abs)
  | .number l => .ok (sign ++ l.render o.locale x.abs)

def textAround (s : Section) (locale : Locale) (text : Text) : Text :=
  match s.body with
  | .general => []
  | .date parts => parts.flatMap (fixedText text)
  | .fraction l => l.whole.flatMap (fixedText text)
  | .number l =>
    l.whole.flatMap (fixedText text) ++
      match l.fractional with
      | none => []
      | some parts => locale.decimal :: parts.flatMap (fixedText text)

def renderText (s : Section) (locale : Locale) (text : Text) : Text :=
  if s.hasTextPlaceholder then s.textAround locale text else text

end Section

namespace NumberFormat

/-- The section for a number, and whether it is for negative numbers only: of two sections the
second is, of more the third is for zero. -/
def select (f : NumberFormat) (x : Binary64) : Section × Bool :=
  match f.sections with
  | [] => (.general, false)
  | [s] => (s, false)
  | [s, negative] => if x.lt 0 then (negative, true) else (s, false)
  | positive :: negative :: zero :: _ =>
    if Binary64.lt 0 x then (positive, false)
    else if x.lt 0 then (negative, true)
    else (zero, false)

def render? (f : NumberFormat) (o : Options) (x : Binary64) : Except RenderError Text :=
  if x.isFinite then
    let (s, unsigned) := f.select x
    s.renderNumber unsigned o x
  else .error (.notFinite x)

def render (f : NumberFormat) (o : Options) (x : Binary64) : Text :=
  match f.render? o x with
  | .ok t => t
  | .error _ => generalText x

/-- The fourth section is for texts, or a lone section with a place for one. -/
def textSection? (f : NumberFormat) : Option Section :=
  match f.sections with
  | [s] => if s.hasTextPlaceholder then some s else none
  | [_, _, _, s] => some s
  | _ => none

def renderText (f : NumberFormat) (o : Options) (text : Text) : Text :=
  match f.textSection? with
  | some s => s.renderText o.locale text
  | none => text

end NumberFormat

end SheetFormat
