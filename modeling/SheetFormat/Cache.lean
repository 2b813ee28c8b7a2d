import SheetFormat.Builtin
import SheetFormat.Render.Basic

/-! Caches that map codes to handles of compiled formats, which stay usable when a cache is
cleared. A session has a cache of its own and a shared one. -/

namespace SheetFormat

abbrev Handle := Nat

abbrev Cache := List (Text × Handle)

structure Session where
  compiled : List NumberFormat
  own : Cache
  shared : Cache

namespace Session

inductive Place where
  | own
  | shared
  deriving DecidableEq

def empty : Session := ⟨[], [], []⟩

def cache (s : Session) : Place → Cache
  | .own => s.own
  | .shared => s.shared

def withCache (s : Session) (c : Cache) : Place → Session
  | .own => { s with own := c }
  | .shared => { s with shared := c }

def get (s : Session) (p : Place) (code : Text) : Handle × Session :=
  match (s.cache p).lookup code with
  | some h => (h, s)
  | none =>
    let h := s.compiled.length
    let s := { s with compiled := s.compiled ++ [NumberFormat.parse code] }
    (h, s.withCache ((code, h) :: s.cache p) p)

def clear (s : Session) : Session := { s with own := [] }

def size (s : Session) : Nat := s.own.length

def isEmpty (s : Session) : Bool := s.own.isEmpty

def format? (s : Session) (h : Handle) : Option NumberFormat := s.compiled[h]?

end Session

inductive Request where
  | get (place : Session.Place) (code : Text)
  | clear
  | format (handle : Handle) (x : Binary64)

inductive Reply where
  | handle (h : Handle)
  | cleared
  | rendered (source text : Text)
  | noFormat
  deriving DecidableEq

namespace Session

def step (o : Options) (s : Session) : Request → Reply × Session
  | .get p code =>
    let (h, s) := s.get p code
    (.handle h, s)
  | .clear => (.cleared, s.clear)
  | .format h x =>
    match s.format? h with
    | some f => (.rendered f.source (f.render o x), s)
    | none => (.noFormat, s)

def run (o : Options) : Session → List Request → List (Reply × Nat)
  | _, [] => []
  | s, r :: rest => ((s.step o r).1, (s.step o r).2.size) :: run o (s.step o r).2 rest

def compile (s : Session) (code : Text) : Option NumberFormat × Session :=
  let (h, s) := s.get .shared code
  (s.format? h, s)

def renderCode? (s : Session) (o : Options) (code : Text) (x : Binary64) :
    Option (Except RenderError Text) × Session :=
  let (f, s) := s.compile code
  (f.map (·.render? o x), s)

def renderCode (s : Session) (code : Text) (x : Binary64) : Option Text × Session :=
  let (f, s) := s.compile code
  (f.map (·.render .standard x), s)

def renderBuiltin? (s : Session) (o : Options) (id : Nat) (x : Binary64) :
    Option (Except RenderError Text) × Session :=
  s.renderCode? o (Builtin.code id) x

def renderBuiltin (s : Session) (id : Nat) (x : Binary64) : Option Text × Session :=
  s.renderCode (Builtin.code id) x

end Session

end SheetFormat
