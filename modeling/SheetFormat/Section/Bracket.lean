import SheetFormat.Section.Basic
import SheetFormat.Text.Basic
import SheetFormat.Text.Numeral
import SheetFormat.Text.NumericLiteral

/-! What stands in brackets: a color, a condition, an elapsed time, a currency, or nothing known.
-/

namespace SheetFormat

namespace NamedColor

def name : NamedColor → String
  | black => "Black"
  | blue => "Blue"
  | cyan => "Cyan"
  | green => "Green"
  | magenta => "Magenta"
  | red => "Red"
  | white => "White"
  | yellow => "Yellow"

def ofText? (t : Text) : Option NamedColor :=
  [black, blue, cyan, green, magenta, red, white, yellow].find? fun c =>
    Text.folded c.name.toList = Text.folded t

end NamedColor

inductive Bracket where
  | color (c : Color)
  | condition (operand : Text)
  | elapsed (unit : ClockUnit) (padded : Bool)
  | currency (symbol : Text)
  | unknown
  deriving DecidableEq

namespace Bracket

def colorNumber? (t : Text) : Option Nat :=
  let digits := if t.head? = some '+' then t.drop 1 else t
  let n := Text.valueOf digits
  if Text.isDigits digits ∧ 1 ≤ n ∧ n ≤ 56 then some n else none

def color? (t : Text) : Option Color :=
  match NamedColor.ofText? t with
  | some c => some (.named c)
  | none =>
    if Text.folded (t.take 5) = "color".toList then (colorNumber? (t.drop 5)).map .indexed
    else none

def comparisons : List Text :=
  [['<', '>'], ['>', '='], ['<', '='], ['>'], ['<'], ['=']]

def operand? (t : Text) : Option Text :=
  match comparisons.find? (·.isPrefixOf t) with
  | some sign =>
    let operand := Text.trimmed (t.drop sign.length)
    if Text.isOperand operand then some operand else none
  | none => none

def elapsed? (t : Text) : Option (ClockUnit × Bool) :=
  match Text.folded t with
  | ['h'] => some (.hour, false)
  | ['h', 'h'] => some (.hour, true)
  | ['m'] => some (.minute, false)
  | ['m', 'm'] => some (.minute, true)
  | ['s'] => some (.second, false)
  | ['s', 's'] => some (.second, true)
  | _ => none

def currency? : Text → Option Text
  | '$' :: rest => some (rest.takeWhile (· != '-'))
  | _ => none

def ofText (written : Text) : Bracket :=
  let t := Text.trimmed written
  match color? t, operand? t, elapsed? t, currency? t with
  | some c, _, _, _ => color c
  | none, some x, _, _ => condition x
  | none, none, some (unit, padded), _ => elapsed unit padded
  | none, none, none, some symbol => currency symbol
  | none, none, none, none => unknown

end Bracket

end SheetFormat
