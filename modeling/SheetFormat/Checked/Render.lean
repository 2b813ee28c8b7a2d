import SheetFormat.Checked.Digits
import SheetFormat.Checked.Section
import SheetFormat.Render.Basic

namespace SheetFormat.Checked

attribute [local instance (2000)] instPowNat

def cutBehindFields (parts : List NumberPart) : Checked (List NumberPart × List NumberPart) :=
  match lastIndex? Part.isField parts with
  | some last => splitOff (last + 1) parts
  | none => return (parts, [])

def separateThousands (l : NumberLayout) (locale : Locale) (shown : Text) : Checked Text :=
  if l.scaling.grouped then groupThousands locale.thousands shown else return shown

def grouped (l : NumberLayout) (locale : Locale) (general digits : Text) : Checked Text := do
  let (taking, behind) ← cutBehindFields l.wholeParts
  let shown ← separateThousands l locale (← spread general taking digits)
  return shown ++ (← spread general behind [])

def positional (l : NumberLayout) (locale : Locale) (general : Text) (x : Binary64) :
    Checked Text := do
  let (whole, fraction) ← splitRounded x l.places
  return (← grouped l locale general (significantDigits whole)) ++ l.pointed locale fraction

def exponential (l : NumberLayout) (locale : Locale) (mark : ExponentMark)
    (parts : List NumberPart) (x : Binary64) : Checked Text := do
  let s ← scientific l.places x.reduced
  let sign := if s.exponent < 0 then ['-'] else if mark.showPlus then ['+'] else []
  let digits ← spread [] parts (significantDigits (Text.numeral s.exponent.natAbs))
  return (← spread [] l.whole (significantDigits s.whole)) ++ l.pointed locale s.fraction ++
    mark.letter :: sign ++ digits

def renderNumber (l : NumberLayout) (locale : Locale) (x : Binary64) : Checked Text := do
  let scaled := l.scaling.apply x
  match l.exponent with
  | some (mark, parts) => exponential l locale mark parts scaled
  | none => positional l locale (← generalText x) scaled

def word? (n : Nat) : Option Nat := if n < Convergents.wordLimit then some n else none

def nextTerm? (step last before : Nat) : Option Nat :=
  (word? (step * last)).bind fun n => word? (n + before)

def next? (largest : Nat) (c : Convergents) : Option Convergents :=
  let left := c.rest - c.part
  if left.abs.lt Convergents.negligible then none
  else
    let rest := 1 / left
    let part := rest.floor
    (nextTerm? part.toNat64 c.denominators.1 c.denominators.2).bind fun d =>
      if largest < d then none
      else
        (nextTerm? part.toNat64 c.numerators.1 c.numerators.2).map fun n =>
          ⟨rest, part, (n, c.numerators.1), (d, c.denominators.1)⟩

def lastConvergents (largest : Nat) : Nat → Convergents → Convergents
  | 0, c => c
  | count + 1, c =>
    match next? largest c with
    | some next => lastConvergents largest count next
    | none => c

def convergent (target : Binary64) (largest : Nat) : Nat × Nat :=
  if target.le Convergents.negligible then (0, 1)
  else
    let c := lastConvergents largest 40 (Convergents.first target)
    (c.numerators.1, max c.denominators.1 1)

def bestFraction (target : Binary64) (digits : Nat) : Checked (Nat × Nat) := do
  let largest ← sub (← word 64 (10 ^ max digits 1)) 1
  if digits ≤ searchedDigits then return Approximation.nearest target largest
  else return convergent target largest

def fractionOf (target : Binary64) : Denominator → Checked (Nat × Nat)
  | .bestFit placeholders => bestFraction target (Denominator.digits placeholders)
  | .fixed value => do
    let d := max value 1
    return ((target * .ofNat d).round.toNat64, d)

def split (l : FractionLayout) (x : Binary64) : Checked MixedNumber := do
  if l.isMixed then
    let (n, d) ← fractionOf x.fract l.denominator
    if d ≤ n then return ⟨x.trunc + .ofNat (← div n d), ← mod n d, d⟩
    else return ⟨x.trunc, n, d⟩
  else
    let (n, d) ← fractionOf x l.denominator
    return ⟨0, n, d⟩

def wholeText (l : FractionLayout) (x : MixedNumber) : Checked Text := do
  if x.whole.isZero then
    if x.numerator = 0 then spread [] l.whole ['0']
    else if l.whole.all FractionLayout.isOptional then return []
    else spread [] l.whole []
  else spread [] l.whole (FractionLayout.wholeDigits x.whole)

def numeratorText (l : FractionLayout) (n : Nat) : Checked Text := do
  let digits := Text.numeral n
  let unused ← front (l.numerator.length - digits.length) l.numerator
  return unused.flatMap Placeholder.blank ++ digits

def denominatorText (value : Nat) : Denominator → Checked Text
  | .bestFit placeholders => do
    let digits := Text.numeral value
    let unused ← front (placeholders.length - digits.length) placeholders
    return List.replicate (unused.count .zero) '0' ++ digits ++
      List.replicate (unused.count .question) ' '
  | .fixed _ => return Text.numeral value

def fractionText (l : FractionLayout) (x : MixedNumber) : Checked Text := do
  if l.isMixed && x.numerator = 0 then
    return List.replicate (l.numerator.length + 1 + l.denominator.width) ' '
  else
    return (← numeratorText l x.numerator) ++ '/' :: (← denominatorText x.denominator l.denominator)

def renderFraction (l : FractionLayout) (x : Binary64) : Checked Text := do
  let shown ← split l (l.scaling.apply x).reduced
  return (← wholeText l shown) ++ (← fractionText l shown) ++ l.suffix.flatMap (fixedText [])

def weekday (s : DateSystem) (day : Nat) : Checked Nat := do
  match s with
  | .since1900 => mod (← word 63 (day + 6)) 7
  | .since1904 => mod (← word 63 (day + 5)) 7

def timestamp? (s : DateSystem) (digits : Nat) (x : Binary64) : Checked (Option Timestamp) := do
  let scale ← word 63 (10 ^ digits)
  let perDay ← word 63 (secondsPerDay * scale)
  let ticks ← word 63 (x * .ofNat perDay).round.toNat64
  let day ← div ticks perDay
  let ofDay ← mod ticks perDay
  let seconds ← word 32 (← div ofDay scale)
  let subsecond ← mod ofDay scale
  let weekday ← weekday s day
  let totalSeconds ← div ticks scale
  return (s.dateOfDay? day).map fun date =>
    { date
      weekday
      hour := seconds / 3600
      minute := seconds % 3600 / 60
      second := seconds % 60
      subsecond
      subsecondDigits := digits
      totalSeconds }

def timestamp (s : DateSystem) (digits : Nat) (x : Binary64) : Checked (Option Timestamp) := do
  if isDateSerial x then timestamp? s (min digits 3) x else return none

def monthName (l : Locale) (month : Nat) : Checked Text := do
  get l.months.toList (← sub (min (max month 1) 12) 1)

def dayName (l : Locale) (weekday : Nat) : Checked Text := do
  get l.days.toList (← mod weekday 7)

def monthText (t : Timestamp) (l : Locale) : MonthStyle → Checked Text
  | .plain => return Text.numeral t.date.month
  | .padded => return Text.padded 2 t.date.month
  | .abbreviated => return Text.abbreviated 3 (← monthName l t.date.month)
  | .full => monthName l t.date.month
  | .letter => return Text.abbreviated 1 (← monthName l t.date.month)

def dayText (t : Timestamp) (l : Locale) : DayStyle → Checked Text
  | .plain => return Text.numeral t.date.day
  | .padded => return Text.padded 2 t.date.day
  | .abbreviated => return Text.abbreviated 3 (← dayName l t.weekday)
  | .full => dayName l t.weekday

def fieldText (t : Timestamp) (l : Locale) (twelve : Bool) : DateField → Checked Text
  | .month style => monthText t l style
  | .day style => dayText t l style
  | f => return t.fieldText l twelve f

def partText (t : Timestamp) (l : Locale) (twelve : Bool) : DatePart → Checked Text
  | .field f => fieldText t l twelve f
  | part => return fixedText [] part

def renderDate (o : Options) (parts : List DatePart) (x : Binary64) : Checked (Option Text) := do
  match ← timestamp o.system (subsecondDigits parts) x with
  | some t => return some (← parts.mapM (partText t o.locale (hasHalfDay parts))).flatten
  | none => return none

def renderSection (s : Section) (unsigned : Bool) (o : Options) (x : Binary64) :
    Checked (Except RenderError Text) := do
  let sign := signText (x.lt 0 && !unsigned)
  match s.body with
  | .general => return .ok (← generalText (if unsigned then x.abs else x))
  | .date parts =>
    match ← renderDate o parts x with
    | some t => return .ok t
    | none => return .error (.dateOutOfRange x)
  | .fraction l => return .ok (sign ++ (← renderFraction l x.abs))
  | .number l => return .ok (sign ++ (← renderNumber l o.locale x.abs))

def select (f : NumberFormat) (x : Binary64) : Checked (Section × Bool) := do
  match f.sections.length with
  | 1 => return (← get f.sections 0, false)
  | 2 => if x.lt 0 then return (← get f.sections 1, true) else return (← get f.sections 0, false)
  | _ =>
    if Binary64.lt 0 x then return (← get f.sections 0, false)
    else if x.lt 0 then return (← get f.sections 1, true)
    else return (← get f.sections 2, false)

def render? (f : NumberFormat) (o : Options) (x : Binary64) :
    Checked (Except RenderError Text) := do
  if x.isFinite then
    let (s, unsigned) ← select f x
    renderSection s unsigned o x
  else return .error (.notFinite x)

def render (f : NumberFormat) (o : Options) (x : Binary64) : Checked Text := do
  match ← render? f o x with
  | .ok t => return t
  | .error _ => generalText x

def textSection? (f : NumberFormat) : Checked (Option Section) := do
  match f.sections.length with
  | 4 => return some (← get f.sections 3)
  | 1 =>
    let s ← get f.sections 0
    if s.hasTextPlaceholder then return some s else return none
  | _ => return none

def renderText (f : NumberFormat) (o : Options) (text : Text) : Checked Text := do
  match ← textSection? f with
  | some s => return s.renderText o.locale text
  | none => return text

end SheetFormat.Checked
