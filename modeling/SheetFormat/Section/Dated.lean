import SheetFormat.Section.Element

/-! Date sections. The nearest date elements tell whether a run of `m` counts minutes; a point
between a second and zeros starts a fraction of a second. -/

namespace SheetFormat

namespace Part

def toDate : NumberPart → DatePart
  | literal c => literal c
  | currency symbol => currency symbol
  | text => text
  | field p => literal p.symbol

end Part

namespace Element

def isZero (e : Element) : Bool := e = mark (.digit .zero)

def monthStyle (count : Nat) : MonthStyle :=
  match count with
  | 1 => .plain
  | 2 => .padded
  | 3 => .abbreviated
  | 4 => .full
  | _ => .letter

def monthOrMinute (before after : Option Element) (count : Nat) : DateField :=
  if count ≤ 2 && (before.any isHour || after.any isSecond) then .clock .minute (count = 2)
  else .month (monthStyle count)

def dateParts (before after : Option Element) : Element → List DatePart
  | mark m => m.parts.map Part.toDate
  | date f => [.field f]
  | month count => [.field (monthOrMinute before after count)]

/-- The parts of a date from the nearest date element on the left, the element right before, and
the count of zeros that a fraction of a second has taken. -/
def resolve (before last : Option Element) (taken : Nat) : List Element → List DatePart
  | [] => []
  | e :: rest =>
    let nearest := if e.isDate then some e else before
    match taken with
    | taken + 1 => resolve nearest (some e) taken rest
    | 0 =>
      let zeros := min 3 (rest.takeWhile isZero).length
      if e = mark .point && last.any isSecond && 0 < zeros then
        .field (.subsecond zeros) :: resolve before (some e) zeros rest
      else e.dateParts before (rest.find? isDate) ++ resolve nearest (some e) 0 rest

end Element

def datePartsOf (elements : List Element) : List DatePart := Element.resolve none none 0 elements

end SheetFormat
