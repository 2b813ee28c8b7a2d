import SheetFormat.Text.Basic

/-! Partial operations that tell when they are applied outside their domain. -/

namespace SheetFormat

attribute [local instance (2000)] instPowNat

inductive Fault where
  | outOfRange
  | cutCharacter
  | underflow
  | overflow
  | zeroDivisor
  | notDigit
  | endless
  deriving DecidableEq

abbrev Checked := Except Fault

namespace Checked

variable {α β : Type}

@[simp] theorem ok_bind (a : α) (f : α → Checked β) : (Except.ok a >>= f) = f a := rfl

@[simp] theorem pure_eq (a : α) : (pure a : Checked α) = .ok a := rfl

def get (l : List α) (i : Nat) : Checked α :=
  match l[i]? with
  | some a => .ok a
  | none => .error .outOfRange

def front (n : Nat) (l : List α) : Checked (List α) :=
  if n ≤ l.length then .ok (l.take n) else .error .outOfRange

def behind (n : Nat) (l : List α) : Checked (List α) :=
  if n ≤ l.length then .ok (l.drop n) else .error .outOfRange

def slice (start stop : Nat) (l : List α) : Checked (List α) := do
  behind start (← front stop l)

def splitOff (n : Nat) (l : List α) : Checked (List α × List α) := do
  return (← front n l, ← behind n l)

def bytesFrom : Nat → Text → Checked Text
  | 0, t => .ok t
  | _ + 1, [] => .error .outOfRange
  | n + 1, c :: t =>
    if c.utf8Size ≤ n + 1 then bytesFrom (n + 1 - c.utf8Size) t else .error .cutCharacter

def bytesTo (n : Nat) (t : Text) : Checked Text :=
  match Text.takeBytes? n t with
  | some s => .ok s
  | none => .error (if n ≤ Text.byteSize t then .cutCharacter else .outOfRange)

def findByte? (c : Char) (t : Text) : Option Nat :=
  if c ∈ t then some (Text.byteSize (t.takeWhile (· != c))) else none

def lastIndex? (p : α → Bool) : List α → Option Nat
  | [] => none
  | a :: l =>
    match lastIndex? p l with
    | some i => some (i + 1)
    | none => if p a then some 0 else none

def skipBack (p : α → Bool) (l : List α) : Nat → Checked Nat
  | 0 => .ok 0
  | i + 1 => do if p (← get l i) then skipBack p l i else return i + 1

def skipOn (p : α → Bool) (l : List α) (i : Nat) : Checked Nat :=
  if _h : i < l.length then do
    if p (← get l i) then skipOn p l (i + 1) else return i
  else return i
termination_by l.length - i

def sub (a b : Nat) : Checked Nat := if b ≤ a then .ok (a - b) else .error .underflow

def div (a b : Nat) : Checked Nat := if b = 0 then .error .zeroDivisor else .ok (a / b)

def mod (a b : Nat) : Checked Nat := if b = 0 then .error .zeroDivisor else .ok (a % b)

def word (bits n : Nat) : Checked Nat := if n < 2 ^ bits then .ok n else .error .overflow

def signedWord (bits : Nat) (i : Int) : Checked Int :=
  if -(2 ^ (bits - 1) : Nat) ≤ i ∧ i < (2 ^ (bits - 1) : Nat) then .ok i else .error .overflow

def nextDigit (c : Char) : Checked Char :=
  if c.isDigit then .ok (Char.ofNat (c.toNat + 1)) else .error .notDigit

end Checked

end SheetFormat
