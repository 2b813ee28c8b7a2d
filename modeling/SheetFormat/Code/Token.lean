import SheetFormat.Text.Basic

namespace SheetFormat

/-- What stands where the number has no digit: a zero, nothing, or a space. -/
inductive Placeholder where
  | zero
  | hash
  | question
  deriving DecidableEq

namespace Placeholder

def symbol : Placeholder → Char
  | zero => '0'
  | hash => '#'
  | question => '?'

def isRequired (p : Placeholder) : Bool := p = zero

def blank? : Placeholder → Option Char
  | zero => some '0'
  | hash => none
  | question => some ' '

def blank (p : Placeholder) : Text := p.blank?.toList

end Placeholder

structure ExponentMark where
  upper : Bool
  showPlus : Bool
  deriving DecidableEq

namespace ExponentMark

def letter (e : ExponentMark) : Char := if e.upper then 'E' else 'e'

def sign (e : ExponentMark) : Char := if e.showPlus then '+' else '-'

end ExponentMark

inductive DateLetter where
  | year
  | month
  | day
  | hour
  | second
  deriving DecidableEq

inductive Token where
  | literal (c : Char)
  | escaped (c : Char)
  | quoted (t : Text)
  | placeholder (p : Placeholder)
  | letters (l : DateLetter) (count : Nat)
  | fill (c : Char)
  | skip (c : Char)
  | exponent (e : ExponentMark)
  | bracket (t : Text)
  | halfDay (written : Text)
  | general
  | point
  | comma
  | separator
  | slash
  | percent
  | textMark
  | eof
  deriving DecidableEq

structure Lexeme where
  token : Token
  start : Nat
  stop : Nat
  deriving DecidableEq

end SheetFormat
