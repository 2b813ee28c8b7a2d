import SheetFormat.Section.Bracket

/-! What the tokens of a section contribute in order, before its neighbours give a meaning to a
point, a comma, a slash, an exponent mark or a run of `m`. -/

namespace SheetFormat

inductive Mark where
  | part (p : NumberPart)
  | bare (c : Char)
  | point
  | comma
  | slash
  | percent
  | exponent (e : ExponentMark)
  deriving DecidableEq

inductive Element where
  | mark (m : Mark)
  | date (f : DateField)
  | month (count : Nat)
  deriving DecidableEq

namespace Mark

def quoted (c : Char) : Mark := part (.literal c)

def digit (p : Placeholder) : Mark := part (.field p)

def placeholder? : Mark → Option Placeholder
  | part (.field p) => some p
  | _ => none

def isDigit (m : Mark) : Bool := m.placeholder?.isSome

def isSpace (m : Mark) : Bool := m = bare ' ' || m = quoted ' '

def isExponent : Mark → Bool
  | exponent _ => true
  | _ => false

def parts : Mark → List NumberPart
  | part p => [p]
  | bare c => [.literal c]
  | point => [.literal '.']
  | comma => [.literal ',']
  | slash => [.literal '/']
  | percent => [.literal '%']
  | exponent e => [.literal e.letter, .literal e.sign]

end Mark

namespace Element

def mark? : Element → Option Mark
  | mark m => some m
  | _ => none

def isDate : Element → Bool
  | mark _ => false
  | _ => true

def isHour : Element → Bool
  | date f => f.isHour
  | _ => false

def isSecond : Element → Bool
  | date f => f.isSecond
  | _ => false

def ofLetters (l : DateLetter) (count : Nat) : Element :=
  match l with
  | .year => date (if 3 ≤ count then .longYear else .shortYear)
  | .month => month count
  | .day =>
    date (.day (match count with
      | 1 => .plain
      | 2 => .padded
      | 3 => .abbreviated
      | _ => .full))
  | .hour => date (.clock .hour (2 ≤ count))
  | .second => date (.clock .second (2 ≤ count))

def ofHalfDay (written : Text) : Element :=
  let lower := written.head? = some 'a'
  date (.halfDay (if written.length = 3 then (if lower then .shortLower else .shortUpper)
    else if lower then .lower else .upper))

def ofBracket : Bracket → List Element
  | .elapsed unit padded => [date (.elapsed unit padded)]
  | .currency symbol => if symbol.isEmpty then [] else [mark (.part (.currency symbol))]
  | _ => []

def ofToken : Token → List Element
  | .literal c => [mark (.bare c)]
  | .escaped c => [mark (.quoted c)]
  | .quoted t => t.map fun c => mark (.quoted c)
  | .placeholder p => [mark (.digit p)]
  | .letters l count => [ofLetters l count]
  | .exponent e => [mark (.exponent e)]
  | .bracket t => ofBracket (Bracket.ofText t)
  | .halfDay written => [ofHalfDay written]
  | .point => [mark .point]
  | .comma => [mark .comma]
  | .slash => [mark .slash]
  | .percent => [mark .percent]
  | .textMark => [mark (.part .text)]
  | .fill _ | .skip _ | .general | .separator | .eof => []

end Element

end SheetFormat
