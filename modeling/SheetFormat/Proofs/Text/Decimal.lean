import Mathlib.Data.List.TakeWhile
import Mathlib.Data.Rat.Floor
import Mathlib.Tactic.FieldSimp
import SheetFormat.Text.Numeral

/-! The number that a text of digits denotes, with or without a decimal point. -/

namespace SheetFormat.Text

def AllDigits (t : Text) : Prop := ∀ c ∈ t, c.isDigit = true

def fractionOf (digits : Text) : ℚ := valueOf digits / 10 ^ digits.length

def decimalValue? (point : Char) (t : Text) : Option ℚ :=
  let whole := t.takeWhile (· ≠ point)
  let fraction := (t.dropWhile (· ≠ point)).drop 1
  if (whole ++ fraction).all Char.isDigit then some (valueOf whole + fractionOf fraction) else none

lemma AllDigits.append {s t : Text} (hs : AllDigits s) (ht : AllDigits t) :
    AllDigits (s ++ t) := by
  intro c hc
  rcases List.mem_append.1 hc with hc | hc
  · exact hs c hc
  · exact ht c hc

lemma allDigits_zeros (k : Nat) : AllDigits (List.replicate k '0') := by
  intro c hc
  rw [List.eq_of_mem_replicate hc]
  rfl

lemma allDigits_numeral (n : Nat) : AllDigits (numeral n) := fun _ => isDigit_of_mem_numeral

lemma allDigits_places (width n : Nat) : AllDigits (places width n) := by
  induction width generalizing n with
  | zero => intro c hc; cases hc
  | succ width ih =>
    refine (ih (n / 10)).append fun c hc => ?_
    rw [List.mem_singleton.1 hc, Nat.isDigit_digitChar]
    exact decide_eq_true (Nat.mod_lt n (by decide))

lemma valueOf_append (s t : Text) : valueOf (s ++ t) = valueOf s * 10 ^ t.length + valueOf t := by
  rw [valueOf, Nat.ofDigitChars_append, Nat.ofDigitChars_eq_ofDigitChars_zero, Nat.mul_comm]
  rfl

lemma valueOf_zeros (k : Nat) : valueOf (List.replicate k '0') = 0 := by
  rw [valueOf, Nat.ofDigitChars_replicate_zero, Nat.mul_zero]

lemma valueOf_zeros_append (k : Nat) (t : Text) :
    valueOf (List.replicate k '0' ++ t) = valueOf t := by
  rw [valueOf_append, valueOf_zeros, Nat.zero_mul, Nat.zero_add]

lemma valueOf_places (width n : Nat) : valueOf (places width n) = n % 10 ^ width := by
  induction width generalizing n with
  | zero => rw [Nat.pow_zero, Nat.mod_one]; rfl
  | succ width ih =>
    have hd : valueOf [Nat.digitChar (n % 10)] = n % 10 := by
      rw [valueOf, Nat.ofDigitChars_cons_digitChar_of_lt_ten (Nat.mod_lt n (by decide))]
      exact Nat.zero_add _
    rw [places, valueOf_append, ih, hd, Nat.pow_succ', Nat.mod_mul, List.length_singleton]
    omega

lemma fractionOf_nil : fractionOf [] = 0 := by
  rw [fractionOf, valueOf, Nat.ofDigitChars_nil, Nat.cast_zero, zero_div]

lemma fractionOf_append_zeros (t : Text) (k : Nat) :
    fractionOf (t ++ List.replicate k '0') = fractionOf t := by
  rw [fractionOf, fractionOf, valueOf_append, valueOf_zeros, List.length_append,
    List.length_replicate, pow_add]
  push_cast
  field_simp
  simp

lemma fractionOf_zeros (k : Nat) : fractionOf (List.replicate k '0') = 0 :=
  (fractionOf_append_zeros [] k).trans fractionOf_nil

lemma fractionOf_places (width n : Nat) :
    fractionOf (places width (n % 10 ^ width)) = (n % 10 ^ width : ℕ) / 10 ^ width := by
  rw [fractionOf, valueOf_places, length_places, Nat.mod_mod]

lemma exists_dropTrailingZeros (t : Text) :
    ∃ k, t = dropTrailingZeros t ++ List.replicate k '0' := by
  let zeros := t.reverse.takeWhile (· == '0')
  have hz : zeros = List.replicate zeros.length '0' := by
    apply List.eq_replicate_of_mem
    intro c hc
    have hb := List.mem_takeWhile_imp hc
    exact eq_of_beq hb
  refine ⟨zeros.length, ?_⟩
  rw [dropTrailingZeros, ← List.reverse_replicate, ← hz, ← List.reverse_append,
    List.takeWhile_append_dropWhile, List.reverse_reverse]

lemma fractionOf_dropTrailingZeros (t : Text) :
    fractionOf (dropTrailingZeros t) = fractionOf t := by
  obtain ⟨k, hk⟩ := exists_dropTrailingZeros t
  conv => rhs; rw [hk]
  rw [fractionOf_append_zeros]

lemma AllDigits.dropTrailingZeros {t : Text} (h : AllDigits t) :
    AllDigits (dropTrailingZeros t) := by
  intro c hc
  apply h c
  obtain ⟨k, hk⟩ := exists_dropTrailingZeros t
  rw [hk]
  exact List.mem_append_left _ hc

lemma length_dropTrailingZeros_le (t : Text) : (dropTrailingZeros t).length ≤ t.length := by
  obtain ⟨k, hk⟩ := exists_dropTrailingZeros t
  conv => rhs; rw [hk]
  rw [List.length_append]
  exact Nat.le_add_right _ _

section Reading

variable {point : Char} {whole fraction : Text}

lemma AllDigits.cut_at (h : AllDigits whole) (hp : point.isDigit = false) (rest : Text) :
    (whole ++ rest).takeWhile (· ≠ point) = whole ++ rest.takeWhile (· ≠ point) ∧
      (whole ++ rest).dropWhile (· ≠ point) = rest.dropWhile (· ≠ point) := by
  have hn : ∀ c ∈ whole, decide (c ≠ point) = true := by
    intro c hc
    apply decide_eq_true
    rintro rfl
    rw [h c hc] at hp
    cases hp
  exact ⟨List.takeWhile_append_of_pos hn, List.dropWhile_append_of_pos hn⟩

lemma decimalValue?_digits (h : AllDigits whole) (hp : point.isDigit = false) :
    decimalValue? point whole = some (valueOf whole : ℚ) := by
  obtain ⟨ht, hd⟩ := h.cut_at hp []
  rw [List.append_nil] at ht hd
  rw [decimalValue?, ht, hd, if_pos]
  · simp [fractionOf_nil]
  · simpa using List.all_eq_true.2 h

lemma decimalValue?_pointed (hw : AllDigits whole) (hf : AllDigits fraction)
    (hp : point.isDigit = false) :
    decimalValue? point (whole ++ point :: fraction) =
      some (valueOf whole + fractionOf fraction) := by
  obtain ⟨ht, hd⟩ := hw.cut_at hp (point :: fraction)
  rw [decimalValue?, ht, hd, if_pos]
  · simp
  · simpa using List.all_eq_true.2 (hw.append hf)

end Reading

end SheetFormat.Text
