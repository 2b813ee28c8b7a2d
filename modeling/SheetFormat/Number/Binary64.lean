import SheetFormat.Number.Rounding

/-! Double-precision numbers: a finite magnitude is a whole number of quanta of `2^-1074` with at
most 53 significant bits, and every operation rounds the exact result once. -/

namespace SheetFormat

attribute [local instance (2000)] instPowNat

/-- Quanta in one. -/
def perUnit : Nat := 2 ^ (1074 : Nat)

/-- Quanta in the first power of two that is out of range. -/
def limit : Nat := 2 ^ (2098 : Nat)

theorem perUnit_pos : 0 < perUnit := by decide +kernel

structure Magnitude where
  quanta : Nat
  aligned : Rounding.spacing 53 quanta ∣ quanta
  bounded : quanta < limit
  deriving DecidableEq

inductive Binary64 where
  | finite (negative : Bool) (magnitude : Magnitude)
  | infinite (negative : Bool)
  | nan
  deriving DecidableEq

namespace Binary64

def ofQuanta (negative : Bool) (n d : Nat) : Binary64 :=
  if hd : 0 < d then
    let q := Rounding.toBits 53 n d
    if h : q < limit then
      .finite negative ⟨q, Rounding.spacing_dvd_toBits (by decide) hd, h⟩
    else .infinite negative
  else .infinite negative

theorem ofQuanta_quanta (s : Bool) (m : Magnitude) : ofQuanta s m.quanta 1 = .finite s m := by
  simp [ofQuanta, Rounding.toBits_of_dvd m.aligned, m.bounded]

def ofQuotient (negative : Bool) (n d : Nat) : Binary64 := ofQuanta negative (n * perUnit) d

def ofNat (n : Nat) : Binary64 := ofQuotient false n 1

def ofInt (i : Int) : Binary64 := ofQuotient (i < 0) i.natAbs 1

instance (n : Nat) : OfNat Binary64 n := ⟨ofNat n⟩

instance : Inhabited Binary64 := ⟨0⟩

def ofFields (negative : Bool) (exponent fraction : Nat) : Binary64 :=
  if exponent = 2047 then
    if fraction = 0 then .infinite negative else .nan
  else if exponent = 0 then ofQuanta negative fraction 1
  else ofQuanta negative ((2 ^ (52 : Nat) + fraction) * 2 ^ (exponent - 1)) 1

def ofWord (w : Nat) : Binary64 :=
  ofFields (w / 2 ^ (63 : Nat) % 2 == 1) (w / 2 ^ (52 : Nat) % 2048) (w % 2 ^ (52 : Nat))

def toSingle : Binary64 → Binary64
  | .finite s m =>
    let quantum := 2 ^ (925 : Nat)
    let q := Rounding.toBits 24 m.quanta quantum * quantum
    if q < 2 ^ (1202 : Nat) then ofQuanta s q 1 else .infinite s
  | x => x

def isFinite : Binary64 → Bool
  | .finite .. => true
  | _ => false

def isZero : Binary64 → Bool
  | .finite _ m => m.quanta == 0
  | _ => false

def abs : Binary64 → Binary64
  | .finite _ m => .finite false m
  | .infinite _ => .infinite false
  | .nan => .nan

def neg : Binary64 → Binary64
  | .finite s m => .finite (!s) m
  | .infinite s => .infinite (!s)
  | .nan => .nan

def signed (negative : Bool) (m : Magnitude) : Int :=
  if negative then -(m.quanta : Int) else m.quanta

def rank : Binary64 → Option Int
  | .finite s m => some (signed s m)
  | .infinite s => some (if s then -(limit : Int) else limit)
  | .nan => none

def lt (x y : Binary64) : Bool :=
  match x.rank, y.rank with
  | some a, some b => a < b
  | _, _ => false

def le (x y : Binary64) : Bool :=
  match x.rank, y.rank with
  | some a, some b => a ≤ b
  | _, _ => false

def add : Binary64 → Binary64 → Binary64
  | .finite s m, .finite t n =>
    let sum := signed s m + signed t n
    ofQuanta (if sum = 0 then s && t else sum < 0) sum.natAbs 1
  | .nan, _ => .nan
  | _, .nan => .nan
  | .infinite s, .infinite t => if s == t then .infinite s else .nan
  | .infinite s, .finite .. => .infinite s
  | .finite .., .infinite t => .infinite t

def sub (x y : Binary64) : Binary64 := add x (neg y)

def mul : Binary64 → Binary64 → Binary64
  | .finite s m, .finite t n => ofQuanta (s != t) (m.quanta * n.quanta) perUnit
  | .nan, _ => .nan
  | _, .nan => .nan
  | .infinite s, .infinite t => .infinite (s != t)
  | .infinite s, .finite t n => if n.quanta = 0 then .nan else .infinite (s != t)
  | .finite s m, .infinite t => if m.quanta = 0 then .nan else .infinite (s != t)

def div : Binary64 → Binary64 → Binary64
  | .finite s m, .finite t n =>
    if n.quanta = 0 then
      if m.quanta = 0 then .nan else .infinite (s != t)
    else ofQuanta (s != t) (m.quanta * perUnit) n.quanta
  | .nan, _ => .nan
  | _, .nan => .nan
  | .infinite _, .infinite _ => .nan
  | .infinite s, .finite t _ => .infinite (s != t)
  | .finite s _, .infinite t => ofQuanta (s != t) 0 1

instance : Add Binary64 := ⟨add⟩
instance : Sub Binary64 := ⟨sub⟩
instance : Mul Binary64 := ⟨mul⟩
instance : Div Binary64 := ⟨div⟩

def trunc : Binary64 → Binary64
  | .finite s m => ofQuotient s (m.quanta / perUnit) 1
  | x => x

def floor : Binary64 → Binary64
  | .finite false m => ofQuotient false (m.quanta / perUnit) 1
  | .finite true m => ofQuotient true ((m.quanta + (perUnit - 1)) / perUnit) 1
  | x => x

def round : Binary64 → Binary64
  | .finite s m => ofQuotient s (Rounding.halfUp m.quanta perUnit) 1
  | x => x

def fract (x : Binary64) : Binary64 := x - x.trunc

def toNat64 : Binary64 → Nat
  | .finite false m => min (m.quanta / perUnit) (2 ^ (64 : Nat) - 1)
  | .infinite false => 2 ^ (64 : Nat) - 1
  | _ => 0

def toInt64 : Binary64 → Int
  | .finite false m => (min (m.quanta / perUnit) (2 ^ (63 : Nat) - 1) : Nat)
  | .finite true m => -(min (m.quanta / perUnit) (2 ^ (63 : Nat)) : Nat)
  | .infinite s => if s then -(2 ^ (63 : Nat) : Nat) else (2 ^ (63 : Nat) - 1 : Nat)
  | .nan => 0

end Binary64

end SheetFormat
