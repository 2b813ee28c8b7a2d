import SheetFormat.Calendar.Serial
import SheetFormat.Text.Basic

/-! Separators and calendar names, and the options of a rendering. -/

namespace SheetFormat

structure Locale where
  decimal : Char
  thousands : Char
  am : Text
  pm : Text
  months : Vector Text 12
  /-- Sunday first. -/
  days : Vector Text 7

namespace Locale

def english : Locale where
  decimal := '.'
  thousands := ','
  am := "AM".toList
  pm := "PM".toList
  months := #v["January".toList, "February".toList, "March".toList, "April".toList,
    "May".toList, "June".toList, "July".toList, "August".toList, "September".toList,
    "October".toList, "November".toList, "December".toList]
  days := #v["Sunday".toList, "Monday".toList, "Tuesday".toList, "Wednesday".toList,
    "Thursday".toList, "Friday".toList, "Saturday".toList]

def monthName (l : Locale) (month : Nat) : Text := l.months[min (max month 1) 12 - 1]

def monthAbbreviation (l : Locale) (month : Nat) : Text := Text.abbreviated 3 (l.monthName month)

def monthLetter (l : Locale) (month : Nat) : Text := Text.abbreviated 1 (l.monthName month)

def dayName (l : Locale) (weekday : Nat) : Text := l.days[weekday % 7]

def dayAbbreviation (l : Locale) (weekday : Nat) : Text := Text.abbreviated 3 (l.dayName weekday)

end Locale

structure Options where
  system : DateSystem
  locale : Locale

namespace Options

def standard : Options := ⟨.since1900, .english⟩

end Options

end SheetFormat
