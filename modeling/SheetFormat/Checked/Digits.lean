import SheetFormat.Checked.Basic
import SheetFormat.Render.Digits
import SheetFormat.Render.General

/-! Digits by index: carries, digits against placeholders, and the grouping of a run of digits. -/

namespace SheetFormat.Checked

def increment : Text → Checked (Text × Bool)
  | [] => return ([], true)
  | c :: t => do
    let (t, carried) ← increment t
    if !carried then return (c :: t, false)
    else if c = '9' then return ('0' :: t, true)
    else return ((← nextDigit c) :: t, false)

def incrementPointed : Text → Checked (Text × Bool)
  | [] => return ([], true)
  | c :: t => do
    let (t, carried) ← incrementPointed t
    if !carried then return (c :: t, false)
    else if c = '.' then return (c :: t, true)
    else
      let (digit, carried) ← increment [c]
      return (digit ++ t, carried)

def roundsUp (digit : Option Char) : Bool := digit.any ('5' ≤ ·)

def roundedParts (whole fraction : Text) (places : Nat) : Checked (Text × Text) := do
  let digits := whole ++ (fraction ++ List.replicate places '0').take places
  if roundsUp fraction[places]? then
    let (digits, carried) ← increment digits
    if carried then splitOff (Text.byteSize whole + 1) ('1' :: digits)
    else splitOff (Text.byteSize whole) digits
  else splitOff (Text.byteSize whole) digits

def splitRounded (x : Binary64) (places : Nat) : Checked (Text × Text) :=
  let written := x.reduced.text
  roundedParts (written.takeWhile (· != '.')) ((written.dropWhile (· != '.')).drop 1) places

def spreadFrom (text digits : Text) (leftmost : Option Nat) :
    Nat → List NumberPart → Checked (Nat × Text)
  | _, [] => return (digits.length, [])
  | i, part :: rest => do
    let (left, shown) ← spreadFrom text digits leftmost (i + 1) rest
    match part with
    | .field p =>
      if leftmost = some i ∧ 0 < left then return (0, (← front left digits) ++ shown)
      else if 0 < left then
        let left ← sub left 1
        return (left, (← get digits left) :: shown)
      else return (left, p.blank ++ shown)
    | part => return (left, fixedText text part ++ shown)

def spread (text : Text) (parts : List NumberPart) (digits : Text) : Checked Text := do
  return (← spreadFrom text digits (parts.findIdx? Part.isField) 0 parts).2

def separated (separator : Char) (length : Nat) : Nat → Text → Checked Text
  | _, [] => return []
  | offset, d :: digits => do
    let rest ← separated separator length (offset + 1) digits
    if 0 < offset then
      if (← sub length offset) % 3 = 0 then return separator :: d :: rest else return d :: rest
    else return d :: rest

def groupThousands (separator : Char) (t : Text) : Checked Text := do
  match lastIndex? Char.isDigit t with
  | none => return t
  | some last =>
    let start ← skipBack Char.isDigit t last
    let length := (← sub last start) + 1
    let run ← separated separator length 0 (← slice start (last + 1) t)
    return (← front start t) ++ run ++ (← behind (last + 1) t)

def carried (s : Scientific) : Checked Scientific := do
  if s.whole = ['1', '0'] then
    return ⟨['1'], List.replicate s.fraction.length '0', ← signedWord 32 (s.exponent + 1)⟩
  else return s

def scientific (places : Nat) : Binary64 → Checked Scientific
  | .finite _ m => do
    let (d, exponent) := Scientific.mantissa m
    let (whole, fraction) ← splitRounded (d.toBinary64 false) places
    carried ⟨whole, fraction, exponent⟩
  | x => do
    let (whole, fraction) ← splitRounded x places
    return ⟨whole, fraction, 0⟩

def trimmedPoint (t : Text) : Text :=
  ((Text.dropTrailingZeros t).reverse.dropWhile (· == '.')).reverse

def roundedPointed (kept dropped : Text) : Checked Text := do
  if roundsUp (dropped.find? Char.isDigit) then
    let (kept, carried) ← incrementPointed kept
    return if carried then '1' :: kept else kept
  else return kept

def cut (written : Text) : Checked Text := do
  let kept ← front General.fixedWidth written
  let shown ← roundedPointed kept (← behind General.fixedWidth written)
  if '.' ∈ shown then bytesTo (Text.byteSize (trimmedPoint shown)) shown else return shown

def fixed (m : Magnitude) : Checked Text :=
  let written := m.shortest.text
  if Text.byteSize written ≤ General.fixedWidth then return written else cut written

def scientificText (m : Magnitude) : Checked Text := do
  let s ← scientific General.mantissaPlaces (.finite false m)
  return Decimal.pointed s.whole (Text.dropTrailingZeros s.fraction) ++ 'E' ::
    (if s.exponent < 0 then '-' else '+') :: Text.padded 2 s.exponent.natAbs

def generalText : Binary64 → Checked Text
  | .finite s m => do
    if m.quanta = 0 then return ['0']
    else if General.isScientific (.finite s m) then return signText s ++ (← scientificText m)
    else return signText s ++ (← fixed m)
  | x => return SheetFormat.generalText x

end SheetFormat.Checked
