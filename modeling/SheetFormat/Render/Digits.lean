import SheetFormat.Section.Basic

/-! Digits against placeholders, and the grouping of thousands. -/

namespace SheetFormat

def placeholderCount (parts : List NumberPart) : Nat := parts.countP Part.isField

def fixedText {α : Type} (text : Text) : Part α → Text
  | .literal c => [c]
  | .currency symbol => symbol
  | .text => text
  | .field _ => []

/-- Digits of a whole part, aligned to the right: each placeholder takes a digit, the first one
all that are left over, and one without a digit shows its blank. -/
def spread (text : Text) : List NumberPart → Text → Text
  | [], _ => []
  | .field p :: rest, digits =>
    let taken := digits.length - placeholderCount rest
    (if taken = 0 then p.blank else digits.take taken) ++ spread text rest (digits.drop taken)
  | part :: rest, digits => fixedText text part ++ spread text rest digits

def fill : List NumberPart → Text → Text
  | [], _ => []
  | .field _ :: rest, d :: digits => d :: fill rest digits
  | .field p :: rest, [] => p.blank ++ fill rest []
  | part :: rest, digits => fixedText [] part ++ fill rest digits

def groupDigits (separator : Char) : Text → Text
  | [] => []
  | d :: digits =>
    if digits.length % 3 = 0 ∧ digits ≠ [] then d :: separator :: groupDigits separator digits
    else d :: groupDigits separator digits

def groupThousands (separator : Char) (t : Text) : Text :=
  let behind := (t.reverse.takeWhile (!·.isDigit)).reverse
  let front := t.reverse.dropWhile (!·.isDigit)
  let run := (front.takeWhile Char.isDigit).reverse
  (front.dropWhile Char.isDigit).reverse ++ groupDigits separator run ++ behind

end SheetFormat
