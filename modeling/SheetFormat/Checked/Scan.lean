import SheetFormat.Checked.Basic
import SheetFormat.Code.Scan

/-! The tokens of a code by a position in its bytes, from which every step slices the code again.
-/

namespace SheetFormat

structure Lexer where
  input : Text
  position : Nat

namespace Lexer

def remaining (l : Lexer) : Checked Text := Checked.bytesFrom l.position l.input

def current (l : Lexer) : Checked (Option Char) := do return (← l.remaining).head?

def peek (l : Lexer) (offset : Nat) : Checked (Option Char) := do
  return (← l.remaining)[offset]?

def moved (l : Lexer) (bytes : Nat) : Lexer := ⟨l.input, l.position + bytes⟩

def advance (l : Lexer) : Checked Lexer := do
  match ← l.current with
  | some c => return l.moved c.utf8Size
  | none => return l

def single (l : Lexer) (t : Token) : Checked (Token × Lexer) := do return (t, ← l.advance)

def countRun (c : Char) : Nat → Lexer → Checked (Nat × Lexer)
  | 0, _ => .error .endless
  | fuel + 1, l => do
    match ← l.current with
    | none => return (0, l)
    | some next =>
      if next.toLower = c.toLower then
        let (count, stop) ← countRun c fuel (← l.advance)
        return (count + 1, stop)
      else return (0, l)

def quoted (l : Lexer) : Checked (Token × Lexer) := do
  let l ← l.advance
  let rest ← l.remaining
  match Checked.findByte? '"' rest with
  | some close => return (.quoted (← Checked.bytesTo close rest), l.moved (close + 1))
  | none => return (.quoted rest, ⟨l.input, Text.byteSize l.input⟩)

def bracket (l : Lexer) : Checked (Token × Lexer) := do
  let l ← l.advance
  let rest ← l.remaining
  match Checked.findByte? ']' rest with
  | some close => return (.bracket (← Checked.bytesTo close rest), l.moved (close + 1))
  | none => return (.literal '[', l)

def withNext (l : Lexer) (dangling : Token) (make : Char → Token) : Checked (Token × Lexer) := do
  let l ← l.advance
  match ← l.current with
  | some c => return (make c, ← l.advance)
  | none => return (dangling, l)

def exponent (l : Lexer) (c : Char) : Checked (Token × Lexer) := do
  match ← l.peek 1 with
  | some '+' => return (.exponent ⟨c = 'E', true⟩, ← (← l.advance).advance)
  | some '-' => return (.exponent ⟨c = 'E', false⟩, ← (← l.advance).advance)
  | _ => l.single (.literal c)

def word? (l : Lexer) (word : Text) : Checked (Option (Text × Lexer)) := do
  match Text.takeBytes? (Text.byteSize word) (← l.remaining) with
  | some w =>
    if Text.folded w = word then return some (w, l.moved (Text.byteSize word)) else return none
  | none => return none

def general (l : Lexer) (c : Char) : Checked (Token × Lexer) := do
  match ← l.word? "general".toList with
  | some (_, stop) => return (.general, stop)
  | none => l.single (.literal c)

def halfDay (l : Lexer) (c : Char) : Checked (Token × Lexer) := do
  match ← l.word? "am/pm".toList with
  | some (w, stop) => return (.halfDay w, stop)
  | none =>
    match ← l.word? "a/p".toList with
    | some (w, stop) => return (.halfDay w, stop)
    | none => l.single (.literal c)

def letters (l : Lexer) (c : Char) (letter : DateLetter) : Checked (Token × Lexer) := do
  let (count, stop) ← countRun c (l.input.length + 1) l
  return (.letters letter count, stop)

def word (l : Lexer) (c : Char) : Checked (Token × Lexer) :=
  if c.toLower = 'g' then l.general c
  else if c.toLower = 'a' then l.halfDay c
  else
    match DateLetter.ofChar? c with
    | some letter => l.letters c letter
    | none => l.single (.literal c)

def token (l : Lexer) (c : Char) : Checked (Token × Lexer) :=
  if c = '"' then l.quoted
  else if c = '\\' then l.withNext (.literal '\\') .escaped
  else if c = '[' then l.bracket
  else
    match Token.ofChar? c with
    | some t => l.single t
    | none =>
      if c = '_' then l.withNext (.skip ' ') .skip
      else if c = '*' then l.withNext (.skip ' ') .fill
      else if c = 'E' ∨ c = 'e' then l.exponent c
      else l.word c

def next (l : Lexer) : Checked (Lexeme × Lexer) := do
  match ← l.current with
  | none => return (⟨.eof, l.position, l.position⟩, l)
  | some c =>
    let (t, stop) ← l.token c
    return (⟨t, l.position, stop.position⟩, stop)

def lexemes : Nat → Lexer → Checked (List Lexeme)
  | 0, _ => .error .endless
  | fuel + 1, l => do
    let (x, l) ← l.next
    if x.token = .eof then return [x] else return x :: (← lexemes fuel l)

end Lexer

namespace Checked

def tokenize (code : Text) : Checked (List Lexeme) := Lexer.lexemes (code.length + 1) ⟨code, 0⟩

end Checked

end SheetFormat
