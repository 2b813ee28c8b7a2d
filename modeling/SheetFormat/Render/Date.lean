import SheetFormat.Calendar.Timestamp
import SheetFormat.Render.Digits
import SheetFormat.Locale
import SheetFormat.Text.Numeral

namespace SheetFormat

def paddedText (padded : Bool) (n : Nat) : Text := Text.padded (if padded then 2 else 0) n

def twelveHour (hour : Nat) : Nat := if hour % 12 = 0 then 12 else hour % 12

namespace Timestamp

def monthText (t : Timestamp) (l : Locale) : MonthStyle → Text
  | .plain => Text.numeral t.date.month
  | .padded => Text.padded 2 t.date.month
  | .abbreviated => l.monthAbbreviation t.date.month
  | .full => l.monthName t.date.month
  | .letter => l.monthLetter t.date.month

def dayText (t : Timestamp) (l : Locale) : DayStyle → Text
  | .plain => Text.numeral t.date.day
  | .padded => Text.padded 2 t.date.day
  | .abbreviated => l.dayAbbreviation t.weekday
  | .full => l.dayName t.weekday

def clockValue (t : Timestamp) (twelve : Bool) : ClockUnit → Nat
  | .hour => if twelve then twelveHour t.hour else t.hour
  | .minute => t.minute
  | .second => t.second

def elapsedValue (t : Timestamp) : ClockUnit → Nat
  | .hour => t.totalSeconds / 3600
  | .minute => t.totalSeconds / 60
  | .second => t.totalSeconds

def halfDayText (t : Timestamp) (l : Locale) : HalfDayStyle → Text
  | .upper => if 12 ≤ t.hour then l.pm else l.am
  | .lower => if 12 ≤ t.hour then ['p', 'm'] else ['a', 'm']
  | .shortUpper => if 12 ≤ t.hour then ['P'] else ['A']
  | .shortLower => if 12 ≤ t.hour then ['p'] else ['a']

def fieldText (t : Timestamp) (l : Locale) (twelve : Bool) : DateField → Text
  | .shortYear => Text.padded 2 (t.date.year % 100).toNat
  | .longYear => Text.padded 4 t.date.year.toNat
  | .month style => t.monthText l style
  | .day style => t.dayText l style
  | .clock unit padded => paddedText padded (t.clockValue twelve unit)
  | .subsecond digits => l.decimal :: (Text.places t.subsecondDigits t.subsecond).take digits
  | .elapsed unit padded => paddedText padded (t.elapsedValue unit)
  | .halfDay style => t.halfDayText l style

def partText (t : Timestamp) (l : Locale) (twelve : Bool) : DatePart → Text
  | .field f => t.fieldText l twelve f
  | part => fixedText [] part

end Timestamp

def renderDate (o : Options) (parts : List DatePart) (x : Binary64) : Option Text :=
  (Timestamp.ofSerial o.system (subsecondDigits parts) x).map fun t =>
    parts.flatMap (t.partText o.locale (hasHalfDay parts))

end SheetFormat
