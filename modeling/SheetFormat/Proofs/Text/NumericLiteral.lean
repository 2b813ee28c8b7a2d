import Mathlib.Data.List.Induction
import SheetFormat.Proofs.Text.Digits
import SheetFormat.Text.NumericLiteral

namespace SheetFormat

namespace Text

def IsDigits (t : Text) : Prop := t ≠ [] ∧ t.AllDigits

def IsSign (c : Char) : Prop := c = '+' ∨ c = '-'

def IsExponentLetter (c : Char) : Prop := c = 'E' ∨ c = 'e'

inductive IsOptionalSign : Text → Prop
  | none : IsOptionalSign []
  | some {c : Char} (hc : IsSign c) : IsOptionalSign [c]

inductive IsMantissa : Text → Prop
  | whole {w : Text} (hw : IsDigits w) : IsMantissa w
  | decimal {w f : Text} (hw : IsDigits w) (hf : IsDigits f) : IsMantissa (w ++ '.' :: f)
  | fraction {w f : Text} (hw : AllDigits w) (hf : IsDigits f) : IsMantissa (w ++ '.' :: f)

inductive IsOptionalExponent : Text → Prop
  | none : IsOptionalExponent []
  | some {e s : Char} {d : Text} (he : IsExponentLetter e) (hs : IsSign s) (hd : IsDigits d) :
      IsOptionalExponent (e :: s :: d)

inductive IsLiteral : Text → Prop
  | intro {u m e : Text} (hu : IsOptionalSign u) (hm : IsMantissa m) (he : IsOptionalExponent e) :
      IsLiteral (u ++ m ++ e)

variable {s t u w f d : Text} {c : Char}

lemma isDigits_singleton (hc : c.isDigit = true) : IsDigits [c] :=
  ⟨List.cons_ne_nil c [], AllDigits.cons hc (List.forall_mem_nil _)⟩

lemma AllDigits.append_digit (h : AllDigits t) (hc : c.isDigit = true) : IsDigits (t ++ [c]) :=
  ⟨List.append_ne_nil_of_right_ne_nil t (List.cons_ne_nil c []),
    h.append (isDigits_singleton hc).2⟩

end Text

namespace LiteralMark

def ofChar? (c : Char) : Option LiteralMark :=
  if c.isDigit then some digit
  else if c = '+' ∨ c = '-' then some sign
  else if c = '.' then some point
  else if c = 'E' ∨ c = 'e' then some exponent
  else none

def Writes : LiteralMark → Char → Prop
  | digit, c => c.isDigit = true
  | sign, c => Text.IsSign c
  | point, c => c = '.'
  | exponent, c => Text.IsExponentLetter c

lemma writes_of_ofChar? {c : Char} {k : LiteralMark} (h : ofChar? c = some k) : k.Writes c := by
  rw [ofChar?] at h
  split_ifs at h with hd hs hp he <;> cases h
  · exact hd
  · exact hs
  · exact hp
  · exact he

lemma ofChar?_of_writes {c : Char} {k : LiteralMark} (h : k.Writes c) : ofChar? c = some k := by
  cases k with
  | digit => exact if_pos h
  | sign => rcases h with rfl | rfl <;> rfl
  | point => rw [show c = '.' from h]; rfl
  | exponent => rcases h with rfl | rfl <;> rfl

lemma ofByte?_ascii : ∀ n < 128, ofByte? (UInt8.ofNat n) = ofChar? (Char.ofNat n) := by decide

lemma ofByte?_of_le {b : UInt8} (h : 128 ≤ b.toNat) : ofByte? b = none := by
  have hb : ∀ a : UInt8, a.toNat < 128 → ¬b = a := by
    rintro a ha rfl
    omega
  rw [ofByte?, if_neg, if_neg, if_neg, if_neg]
  · exact not_or.2 ⟨hb _ (by decide), hb _ (by decide)⟩
  · exact hb _ (by decide)
  · exact not_or.2 ⟨hb _ (by decide), hb _ (by decide)⟩
  · rintro ⟨-, hu⟩
    exact absurd (UInt8.le_iff_toNat_le.1 hu) (by simp; omega)

lemma ofChar?_of_le {c : Char} (h : 128 ≤ c.toNat) : ofChar? c = none := by
  cases hk : ofChar? c with
  | none => rfl
  | some k =>
    exfalso
    have hw := writes_of_ofChar? hk
    cases k with
    | digit =>
      have hc : 48 ≤ c.toNat ∧ c.toNat ≤ 57 := by
        simpa [Writes, Char.isDigit, UInt32.le_iff_toNat_le] using hw
      omega
    | point => rw [show c = '.' from hw] at h; exact absurd h (by decide)
    | _ => rcases hw with rfl | rfl <;> exact absurd h (by decide)

lemma ofByte?_head (c : Char) :
    ∃ b rest, String.utf8EncodeChar c = b :: rest ∧ ofByte? b = ofChar? c ∧
      (ofChar? c ≠ none → rest = []) := by
  have hv : c.val.toNat = c.toNat := rfl
  by_cases hc : c.toNat < 128
  · refine ⟨UInt8.ofNat c.toNat, [], ?_, ?_, fun _ => rfl⟩
    · rw [String.utf8EncodeChar, hv]
      exact if_pos (by omega)
    · rw [ofByte?_ascii _ hc, Char.ofNat_toNat]
  · have hn := ofChar?_of_le (Nat.le_of_not_lt hc)
    have hl : ∀ {a : Nat}, 128 ≤ a → a < 256 → ofByte? (UInt8.ofNat a) = none := by
      intro a hl hu
      apply ofByte?_of_le
      rwa [UInt8.toNat_ofNat_of_lt' hu]
    rw [hn]
    simp only [String.utf8EncodeChar, hv, if_neg (show ¬c.toNat ≤ 127 by omega)]
    split_ifs
    · exact ⟨_, _, rfl, hl (by omega) (by omega), fun h => absurd rfl h⟩
    · exact ⟨_, _, rfl, hl (by omega) (by omega), fun h => absurd rfl h⟩
    · exact ⟨_, _, rfl, hl (by omega) (by omega), fun h => absurd rfl h⟩

end LiteralMark

namespace LiteralState

open Text

lemma read_cons (s : LiteralState) (c : Char) (t : Text) :
    s.read (bytes (c :: t)) =
      ((LiteralMark.ofChar? c).bind s.next?).bind fun next => next.read (bytes t) := by
  obtain ⟨b, rest, hb, hk, hr⟩ := LiteralMark.ofByte?_head c
  rw [bytes, List.flatMap_cons, hb, List.cons_append, read, hk]
  cases hc : LiteralMark.ofChar? c with
  | none => rfl
  | some k =>
    rw [hr (by simp [hc])]
    cases hn : s.next? k <;> simp [hn, bytes]

lemma read_append (s : LiteralState) (t u : Text) :
    s.read (bytes (t ++ u)) = (s.read (bytes t)).bind fun next => next.read (bytes u) := by
  induction t generalizing s with
  | nil => rfl
  | cons c t ih =>
    rw [List.cons_append, read_cons, read_cons]
    cases (LiteralMark.ofChar? c).bind s.next? with
    | none => rfl
    | some next => exact ih next

lemma read_singleton (s : LiteralState) (c : Char) :
    s.read (bytes [c]) = (LiteralMark.ofChar? c).bind s.next? := by
  rw [read_cons]
  cases (LiteralMark.ofChar? c).bind s.next? <;> rfl

inductive Follows : LiteralState → Text → Prop
  | start : Follows start []
  | sign {c : Char} (hc : IsSign c) : Follows sign [c]
  | whole {u w : Text} (hu : IsOptionalSign u) (hw : IsDigits w) : Follows whole (u ++ w)
  | point {u w : Text} (hu : IsOptionalSign u) (hw : w.AllDigits) : Follows point (u ++ w ++ ['.'])
  | fraction {u w f : Text} (hu : IsOptionalSign u) (hw : w.AllDigits) (hf : IsDigits f) :
      Follows fraction (u ++ (w ++ '.' :: f))
  | exponent {u m : Text} {e : Char} (hu : IsOptionalSign u) (hm : IsMantissa m)
      (he : IsExponentLetter e) : Follows exponent (u ++ m ++ [e])
  | exponentSign {u m : Text} {e s : Char} (hu : IsOptionalSign u) (hm : IsMantissa m)
      (he : IsExponentLetter e) (hs : IsSign s) : Follows exponentSign (u ++ m ++ [e, s])
  | exponentDigits {u m d : Text} {e s : Char} (hu : IsOptionalSign u) (hm : IsMantissa m)
      (he : IsExponentLetter e) (hs : IsSign s) (hd : IsDigits d) :
      Follows exponentDigits (u ++ m ++ e :: s :: d)

variable {r s : LiteralState} {t : Text} {c : Char} {k : LiteralMark}

lemma Follows.next (h : Follows r t) (hc : k.Writes c) (hn : r.next? k = some s) :
    Follows s (t ++ [c]) := by
  cases h with
  | start =>
    cases k <;> cases hn
    · exact .sign hc
    · exact .whole .none (isDigits_singleton hc)
    · rw [show c = '.' from hc]
      exact .point .none (List.forall_mem_nil _)
  | @sign d hd =>
    cases k <;> cases hn
    · exact .whole (.some hd) (isDigits_singleton hc)
    · rw [show c = '.' from hc]
      exact .point (.some hd) (List.forall_mem_nil _)
  | whole hu hw =>
    cases k <;> cases hn
    · rw [List.append_assoc]
      exact .whole hu (hw.2.append_digit hc)
    · rw [show c = '.' from hc]
      exact .point hu hw.2
    · exact .exponent hu (.whole hw) hc
  | @point u w hu hw =>
    cases k <;> cases hn
    rw [List.append_assoc, List.append_assoc]
    exact .fraction hu hw (isDigits_singleton hc)
  | @fraction u w f hu hw hf =>
    cases k <;> cases hn
    · rw [List.append_assoc, List.append_assoc]
      exact .fraction hu hw (hf.2.append_digit hc)
    · exact .exponent hu (.fraction hw hf) hc
  | exponent hu hm he =>
    cases k <;> cases hn
    rw [List.append_assoc]
    exact .exponentSign hu hm he hc
  | exponentSign hu hm he hs =>
    cases k <;> cases hn
    rw [List.append_assoc]
    exact .exponentDigits hu hm he hs (isDigits_singleton hc)
  | exponentDigits hu hm he hs hd =>
    cases k <;> cases hn
    rw [List.append_assoc]
    exact .exponentDigits hu hm he hs (hd.2.append_digit hc)

lemma follows_of_read (h : start.read (bytes t) = some s) : Follows s t := by
  induction t using List.reverseRecOn generalizing s with
  | nil =>
    cases h
    exact .start
  | append_singleton t c ih =>
    rw [read_append] at h
    obtain ⟨r, hr, hc⟩ := Option.bind_eq_some_iff.1 h
    rw [read_singleton] at hc
    obtain ⟨k, hk, hn⟩ := Option.bind_eq_some_iff.1 hc
    exact (ih hr).next (LiteralMark.writes_of_ofChar? hk) hn

lemma Follows.isLiteral (h : Follows s t) (hc : s.isComplete = true) : IsLiteral t := by
  rw [← List.append_nil t]
  cases h with
  | whole hu hw => exact .intro hu (.whole hw) .none
  | fraction hu hw hf => exact .intro hu (.fraction hw hf) .none
  | exponentDigits hu hm he hs hd =>
    rw [List.append_nil]
    exact .intro hu hm (.some he hs hd)
  | _ => cases hc

lemma read_of_writes (hc : k.Writes c) (hn : r.next? k = some s) (t : Text) :
    r.read (bytes (c :: t)) = s.read (bytes t) := by
  rw [read_cons, LiteralMark.ofChar?_of_writes hc, Option.bind_some, hn, Option.bind_some]

lemma read_allDigits {d : Text} (hd : d.AllDigits) (hr : r.next? .digit = some r) (t : Text) :
    r.read (bytes (d ++ t)) = r.read (bytes t) := by
  induction d with
  | nil => rfl
  | cons c d ih => rw [List.cons_append, read_of_writes (k := .digit) hd.head hr, ih hd.tail]

lemma read_digits {d : Text} (hd : IsDigits d) (hn : r.next? .digit = some s)
    (hs : s.next? .digit = some s) (t : Text) :
    r.read (bytes (d ++ t)) = s.read (bytes t) := by
  obtain ⟨c, d, rfl⟩ := List.exists_cons_of_ne_nil hd.1
  rw [List.cons_append, read_of_writes (k := .digit) hd.2.head hn, read_allDigits hd.2.tail hs]

lemma read_optionalSign {u : Text} (hu : IsOptionalSign u) (t : Text) :
    ∃ r, (r = start ∨ r = sign) ∧ start.read (bytes (u ++ t)) = r.read (bytes t) := by
  cases hu with
  | none => exact ⟨start, .inl rfl, rfl⟩
  | some hc => exact ⟨sign, .inr rfl, read_of_writes (k := .sign) hc rfl t⟩

lemma read_mantissa {m : Text} (hr : r = start ∨ r = sign) (hm : IsMantissa m) (t : Text) :
    ∃ s, (s = whole ∨ s = fraction) ∧ r.read (bytes (m ++ t)) = s.read (bytes t) := by
  have hd : r.next? .digit = some whole := by rcases hr with rfl | rfl <;> rfl
  have hp : r.next? .point = some point := by rcases hr with rfl | rfl <;> rfl
  have hf : ∀ {s : LiteralState} {f : Text}, s.next? .point = some point → IsDigits f →
      s.read (bytes ('.' :: f ++ t)) = fraction.read (bytes t) := by
    intro s f hs hf
    rw [List.cons_append, read_of_writes (k := .point) rfl hs, read_digits hf rfl rfl]
  cases hm with
  | whole hw => exact ⟨whole, .inl rfl, read_digits hw hd rfl t⟩
  | decimal hw hg =>
    refine ⟨fraction, .inr rfl, ?_⟩
    rw [List.append_assoc, read_digits hw hd rfl, hf rfl hg]
  | @fraction w g hw hg =>
    refine ⟨fraction, .inr rfl, ?_⟩
    by_cases hn : w = []
    · rw [hn, List.nil_append, hf hp hg]
    · rw [List.append_assoc, read_digits ⟨hn, hw⟩ hd rfl, hf rfl hg]

lemma read_optionalExponent {e : Text} (hs : s = whole ∨ s = fraction)
    (he : IsOptionalExponent e) : (s.read (bytes e)).any isComplete = true := by
  cases he with
  | none => rcases hs with rfl | rfl <;> rfl
  | @some c g d hc hg hd =>
    have hn : s.next? .exponent = some exponent := by rcases hs with rfl | rfl <;> rfl
    rw [read_of_writes (k := .exponent) hc hn, read_of_writes (k := .sign) hg rfl,
      ← List.append_nil d, read_digits hd rfl rfl]
    rfl

end LiteralState

namespace Text

/-- The automaton accepts exactly the literals of the grammar. -/
theorem isNumeric_iff_isLiteral (t : Text) : t.isNumeric = true ↔ IsLiteral t := by
  rw [isNumeric]
  constructor
  · intro h
    obtain ⟨s, hr, hs⟩ := (Option.any_eq_true _ _).1 h
    exact (LiteralState.follows_of_read hr).isLiteral hs
  · rintro ⟨hu, hm, he⟩
    obtain ⟨r, hr, hu⟩ := LiteralState.read_optionalSign hu _
    obtain ⟨s, hs, hm⟩ := LiteralState.read_mantissa hr hm _
    rw [List.append_assoc, hu, hm]
    exact LiteralState.read_optionalExponent hs he

example : isNumeric "-.5e+10".toList = true ∧ isNumeric "1.23E10".toList = false := by decide

end Text

end SheetFormat
