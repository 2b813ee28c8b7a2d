import SheetFormat.Proofs.Code.Tiling
import SheetFormat.Proofs.Text.Canonical

/-! Numerals in a code. A zero is a placeholder, and the other digits stand for themselves. -/

namespace SheetFormat

namespace Token

def AlwaysPlain (c : Char) : Prop :=
  c ∉ ['"', '_', '*', '[', '\\', 'E', 'e'] ∧ ofChar? c = none ∧ DateLetter.ofChar? c = none ∧
    ∀ w ∈ keywords, w.head? ≠ some c.toLower

instance : DecidablePred AlwaysPlain := fun _ => inferInstanceAs (Decidable (_ ∧ _ ∧ _ ∧ _))

lemma AlwaysPlain.plain {c : Char} (h : AlwaysPlain c) (after : Text) : Plain c after := by
  obtain ⟨hn, ho, hl, hk⟩ := h
  simp only [List.mem_cons, List.not_mem_nil, or_false, not_or] at hn
  obtain ⟨hq, hs, hf, hb, he, hE, he'⟩ := hn
  refine ⟨hq, ⟨hs, hf⟩, fun h => absurd h hb, fun h => absurd h he, ?_, ho, hl, fun w hw => ?_⟩
  · rintro (h | h)
    · exact absurd h hE
    · exact absurd h he'
  · cases w with
    | nil => exact absurd hw (by decide)
    | cons x w => exact startsWith_cons_of_ne (fun hx => hk _ hw (congrArg some hx.symm)) w after

lemma alwaysPlain_digit {c : Char} (hc : c.isDigit = true) (h0 : c ≠ '0') : AlwaysPlain c := by
  obtain ⟨d, hd, rfl⟩ := Text.exists_digitChar hc
  have hm : ∀ d < 10, Nat.digitChar d ≠ '0' → AlwaysPlain (Nat.digitChar d) := by decide
  exact hm d hd h0

def ofDigit (c : Char) : Token := if c = '0' then .placeholder .zero else .literal c

lemma ofDigit_spells {c : Char} (hc : c.isDigit = true) (after : Text) :
    Spells (ofDigit c) [c] after := by
  rw [ofDigit]
  split_ifs with h
  · exact h ▸ .placeholder .zero after
  · exact .literal ((alwaysPlain_digit hc h).plain after)

end Token

lemma Text.AllDigits.spelled {t : Text} (h : t.AllDigits) :
    Spelled (t.map fun c => (Token.ofDigit c, [c])) t := by
  induction t with
  | nil => exact .nil
  | cons c t ih => exact .cons (Token.ofDigit_spells h.head t) (ih h.tail)

lemma Text.exists_numeral_cons {n : Nat} (h : 1 ≤ n) :
    ∃ c t, numeral n = c :: t ∧ c.isDigit = true ∧ c ≠ '0' := by
  obtain ⟨c, t, ht⟩ := List.exists_cons_of_ne_nil (numeral_ne_nil n)
  have hd := allDigits_numeral n
  refine ⟨c, t, ht, (ht ▸ hd).head, ?_⟩
  rintro rfl
  have h0 : numeral n = ['0'] := (isWhole_numeral n).eq_zero (ht ▸ rfl)
  have hv : n = 0 := by
    rw [← valueOf_numeral n, h0]
    rfl
  omega

end SheetFormat
