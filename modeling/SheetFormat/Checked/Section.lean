import SheetFormat.Checked.Scan
import SheetFormat.Format

/-! Sections by indices into their elements. -/

namespace SheetFormat.Checked

def color? (t : Text) : Checked (Option Color) := do
  match NamedColor.ofText? t with
  | some c => return some (.named c)
  | none =>
    match Text.takeBytes? 5 t with
    | none => return none
    | some name =>
      if Text.folded name = "color".toList then
        return (Bracket.colorNumber? (← bytesFrom 5 t)).map .indexed
      else return none

def currency? : Text → Checked (Option Text)
  | '$' :: rest =>
    match findByte? '-' rest with
    | some dash => return some (← bytesTo dash rest)
    | none => return some rest
  | _ => return none

def bracket (written : Text) : Checked Bracket := do
  let t := Text.trimmed written
  match ← color? t with
  | some c => return .color c
  | none =>
    match Bracket.operand? t, Bracket.elapsed? t with
    | some x, _ => return .condition x
    | none, some (unit, padded) => return .elapsed unit padded
    | none, none =>
      match ← currency? t with
      | some symbol => return .currency symbol
      | none => return .unknown

def elements : Token → Checked (List Element × Option Color)
  | .bracket t => do
    match ← bracket t with
    | .color c => return ([], some c)
    | b => return (Element.ofBracket b, none)
  | t => return (Element.ofToken t, none)

def zeros (es : List Element) : Nat → Nat → Checked Nat
  | _, 0 => return 0
  | i, room + 1 =>
    if i < es.length then do
      if (← get es i).isZero then return (← zeros es (i + 1) room) + 1 else return 0
    else return 0

def subsecondZeros (es : List Element) (m : Mark) (i : Nat) : Checked Nat := do
  if m = .point ∧ 2 ≤ i then
    if (← get es (← sub i 2)).isSecond && es[i]?.any Element.isZero then zeros es i 3 else return 0
  else return 0

def isMinute (es : List Element) (i : Nat) : Checked Bool := do
  let before := (← front i es).reverse.find? Element.isDate
  let after := (← behind (i + 1) es).find? Element.isDate
  return before.any Element.isHour || after.any Element.isSecond

def monthOrMinute (es : List Element) (i count : Nat) : Checked DateField := do
  if count ≤ 2 then
    if ← isMinute es i then return .clock .minute (count = 2)
    else return .month (Element.monthStyle count)
  else return .month (Element.monthStyle count)

def dateParts (es : List Element) (i : Nat) : Checked (List DatePart) :=
  if _h : i < es.length then do
    match ← get es i with
    | .month count => return .field (← monthOrMinute es i count) :: (← dateParts es (i + 1))
    | .date f => return .field f :: (← dateParts es (i + 1))
    | .mark m =>
      let digits ← subsecondZeros es m (i + 1)
      if 0 < digits then return .field (.subsecond digits) :: (← dateParts es (i + 1 + digits))
      else return m.parts.map Part.toDate ++ (← dateParts es (i + 1))
  else return []
termination_by es.length - i

structure Commas where
  marks : List Mark
  boundary : Nat
  grouped : Bool
  thousands : Nat

namespace Commas

def put (m : Mark) (s : Commas) : Commas := { s with marks := s.marks ++ [m] }

def leave (inWhole : Bool) (s : Commas) : Checked Commas := do
  if inWhole then return { s with boundary := ← sub s.boundary 1 } else return s

def group (s : Commas) : Commas := { s with grouped := true }

def scale (s : Commas) : Commas := { s with thousands := min 255 (s.thousands + 1) }

end Commas

def restOfWhole (marks : List Mark) (whole i : Nat) : Checked (List Mark) :=
  if i < whole then slice (i + 1) whole marks else return []

def comma (marks : List Mark) (whole i : Nat) (s : Commas) : Checked Commas := do
  let seen := (← front i marks).any Mark.isDigit
  let inWhole ← restOfWhole marks whole i
  let after ← behind (i + 1) marks
  if seen && inWhole.any Mark.isDigit then s.group.leave (i < whole)
  else if seen && !after.any Mark.isDigit && CommaRole.closes after then s.scale.leave (i < whole)
  else return s.put (.bare ',')

def settleMark (marks : List Mark) (whole i : Nat) (m : Mark) (s : Commas) : Checked Commas :=
  if m = .comma then comma marks whole i s else return s.put m

def settle (marks : List Mark) (whole : Nat) : Nat → List Mark → Commas → Checked Commas
  | _, [], s => return s
  | i, m :: rest, s => do
    let s ← settleMark marks whole i m s
    settle marks whole (i + 1) rest s

def commas (marks : List Mark) (whole : Nat) : Checked Commas :=
  settle marks whole 0 marks ⟨[], whole, false, 0⟩

def slash? (marks : List Mark) : Checked (Option Nat) := do
  match marks.findIdx? (· = .slash) with
  | none => return none
  | some i =>
    let before := (← front i marks).reverse.find? (!·.isSpace)
    let after := (← behind (i + 1) marks).find? (!·.isSpace)
    if before.any Mark.isDigit && after.any Mark.startsDenominator then return some i
    else return none

def numeral (marks : List Mark) (i : Nat) : Checked (Text × Nat) :=
  if _h : i < marks.length then do
    match (← get marks i).numeralDigit? with
    | some c =>
      let (digits, stop) ← numeral marks (i + 1)
      return (c :: digits, stop)
    | none => return ([], i)
  else return ([], i)
termination_by marks.length - i

def denominator (marks : List Mark) (start : Nat) : Checked (Denominator × Nat) := do
  if (← get marks start).isDigit then
    let stop ← skipOn Mark.isDigit marks start
    return (.bestFit ((← slice start stop marks).filterMap Mark.placeholder?), stop)
  else
    let (digits, stop) ← numeral marks start
    return (.ofNumeral digits, stop)

def fraction (marks : List Mark) (slash : Nat) : Checked FractionLayout := do
  let stop ← skipBack Mark.isSpace marks slash
  let start ← skipBack Mark.isDigit marks stop
  let numerator ← slice start stop marks
  let (denominator, last) ← denominator marks (← skipOn Mark.isSpace marks (slash + 1))
  let (rest, tail) ← splitOff last marks
  let whole := rest.take start
  let settled ← commas whole whole.length
  return {
    whole := settled.marks.flatMap Mark.parts
    numerator := numerator.filterMap Mark.placeholder?
    denominator
    suffix := tail.flatMap Mark.parts
    scaling :=
      { percent := (whole ++ tail).any (· = .percent)
        thousands := settled.thousands
        grouped := settled.grouped } }

def cutAt (p : Mark → Bool) (marks : List Mark) : Checked (List Mark × Option (Mark × List Mark)) :=
  match marks.findIdx? p with
  | none => return (marks, none)
  | some i => do
    let (before, after) ← splitOff (i + 1) marks
    return (before.dropLast, before.getLast?.map (·, after))

def number (marks : List Mark) : Checked NumberLayout := do
  let (mantissa, exponent) ← cutAt Mark.isExponent marks
  let (whole, point) ← cutAt (· = .point) mantissa
  let settled ← commas (whole ++ (point.map Prod.snd).getD []) whole.length
  let (before, after) ← splitOff settled.boundary settled.marks
  return {
    whole := before.flatMap Mark.parts
    fractional := point.map fun _ => after.flatMap Mark.parts
    exponent :=
      match exponent with
      | some (.exponent e, rest) => some (e, rest.flatMap Mark.parts)
      | _ => none
    scaling :=
      { percent := marks.any (· = .percent)
        thousands := settled.thousands
        grouped := settled.grouped } }

def body (tokens : List Token) (es : List Element) : Checked Body := do
  if .general ∈ tokens then return .general
  else if es.any Element.isDate then return .date (← dateParts es 0)
  else
    let marks := es.filterMap Element.mark?
    match ← slash? marks with
    | some slash => return .fraction (← fraction marks slash)
    | none => return .number (← number marks)

def ofTokens (tokens : List Token) : Checked Section := do
  let parts ← tokens.mapM elements
  return ⟨← body tokens (parts.flatMap Prod.fst), (parts.filterMap Prod.snd).getLast?⟩

def sections (code : Text) : Checked (List Section) := do
  if code.isEmpty then return []
  else
    let tokens := ((← tokenize code).map Lexeme.token).filter (· ≠ .eof)
    (tokens.splitOn .separator).mapM ofTokens

def parse (code : Text) : Checked NumberFormat := do
  return .ofSections code (← sections code)

end SheetFormat.Checked
