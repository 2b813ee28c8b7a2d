import SheetFormat.Text.Basic

/-! The literals of a stored number, whose exponent needs a sign, and the operands of a condition,
which are read more freely. -/

namespace SheetFormat

namespace Text

def dropSign : Text → Text
  | '+' :: t => t
  | '-' :: t => t
  | t => t

def isExponentMark (c : Char) : Bool := c == 'e' || c == 'E'

def isDigits (t : Text) : Bool := !t.isEmpty && t.all Char.isDigit

def isScale : Text → Bool
  | [] => true
  | e :: rest => isExponentMark e && isDigits (dropSign rest)

def isOperand (t : Text) : Bool :=
  let body := dropSign t
  let whole := body.takeWhile Char.isDigit
  folded body ∈ ["inf".toList, "infinity".toList, "nan".toList] ||
    match body.dropWhile Char.isDigit with
    | '.' :: rest =>
      !(whole.isEmpty && (rest.takeWhile Char.isDigit).isEmpty) &&
        isScale (rest.dropWhile Char.isDigit)
    | rest => !whole.isEmpty && isScale rest

def bytes (t : Text) : List UInt8 := t.flatMap String.utf8EncodeChar

end Text

inductive LiteralMark where
  | sign
  | digit
  | point
  | exponent
  deriving DecidableEq

namespace LiteralMark

def ofByte? (b : UInt8) : Option LiteralMark :=
  if 48 ≤ b ∧ b ≤ 57 then some digit
  else if b = 43 ∨ b = 45 then some sign
  else if b = 46 then some point
  else if b = 69 ∨ b = 101 then some exponent
  else none

end LiteralMark

inductive LiteralState where
  | start
  | sign
  | whole
  | point
  | fraction
  | exponent
  | exponentSign
  | exponentDigits
  deriving DecidableEq

namespace LiteralState

def next? : LiteralState → LiteralMark → Option LiteralState
  | start, .sign => some sign
  | start, .digit | sign, .digit | whole, .digit => some whole
  | start, .point | sign, .point | whole, .point => some point
  | point, .digit | fraction, .digit => some fraction
  | whole, .exponent | fraction, .exponent => some exponent
  | exponent, .sign => some exponentSign
  | exponentSign, .digit | exponentDigits, .digit => some exponentDigits
  | _, _ => none

def isComplete : LiteralState → Bool
  | whole | fraction | exponentDigits => true
  | _ => false

def read : LiteralState → List UInt8 → Option LiteralState
  | s, [] => some s
  | s, b :: rest =>
    match (LiteralMark.ofByte? b).bind s.next? with
    | some next => next.read rest
    | none => none

end LiteralState

def Text.isNumeric (t : Text) : Bool :=
  (LiteralState.start.read t.bytes).any LiteralState.isComplete

end SheetFormat
