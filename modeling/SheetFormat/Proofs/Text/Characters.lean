import Mathlib.Data.List.Perm.Subperm
import SheetFormat.Locale
import SheetFormat.Proofs.Text.Digits

/-! The characters of a number as a section shows it, and the words that cannot be among them. -/

namespace SheetFormat

namespace Text

def numberSigns : Text := " -+/Ee%".toList

def isFigure (c : Char) : Bool := c.isDigit || numberSigns.contains c

def AllFigures (t : Text) : Prop := ∀ c ∈ t, isFigure c = true

variable {s t : Text} {c : Char}

lemma AllFigures.append (hs : AllFigures s) (ht : AllFigures t) : AllFigures (s ++ t) :=
  List.forall_mem_append.2 ⟨hs, ht⟩

lemma AllFigures.cons (hc : isFigure c = true) (ht : AllFigures t) : AllFigures (c :: t) :=
  List.forall_mem_cons.2 ⟨hc, ht⟩

lemma allFigures_nil : AllFigures [] := List.forall_mem_nil _

lemma AllFigures.notMem (h : AllFigures t) (hc : isFigure c = false) : c ∉ t := by
  intro hm
  rw [h c hm] at hc
  cases hc

lemma AllDigits.allFigures (h : AllDigits t) : AllFigures t := by
  intro c hc
  rw [isFigure, h c hc, Bool.true_or]

lemma allFigures_numeral (n : Nat) : AllFigures (numeral n) := (allDigits_numeral n).allFigures

lemma allFigures_spaces (k : Nat) : AllFigures (List.replicate k ' ') := by
  intro c hc
  rw [List.eq_of_mem_replicate hc]
  rfl

end Text

namespace Locale

open Text

inductive IsNumberText (l : Locale) : Text → Prop
  | nil : IsNumberText l []
  | cons {c : Char} {t : Text} (hc : isFigure c = true ∨ c = l.thousands)
      (ht : IsNumberText l t) : IsNumberText l (c :: t)
  | point {t : Text} (ht : AllFigures t) : IsNumberText l (l.decimal :: t)

def IsNumberChar (l : Locale) (c : Char) : Prop :=
  isFigure c = true ∨ c = l.decimal ∨ c = l.thousands

variable {l : Locale} {s t : Text} {a b c : Char}

lemma IsNumberText.prepend (ht : l.IsNumberText t)
    (hs : ∀ c ∈ s, isFigure c = true ∨ c = l.thousands) : l.IsNumberText (s ++ t) := by
  induction s with
  | nil => exact ht
  | cons c s ih =>
    rw [List.forall_mem_cons] at hs
    exact .cons hs.1 (ih hs.2)

lemma IsNumberText.figures_append (ht : l.IsNumberText t) (hs : AllFigures s) :
    l.IsNumberText (s ++ t) := ht.prepend fun c hc => .inl (hs c hc)

lemma isNumberText_of_allFigures (h : AllFigures t) : l.IsNumberText t := by
  rw [← List.append_nil t]
  exact IsNumberText.nil.figures_append h

lemma IsNumberText.append (hs : l.IsNumberText s) (ht : AllFigures t) :
    l.IsNumberText (s ++ t) := by
  induction hs with
  | nil => exact isNumberText_of_allFigures ht
  | cons hc _ ih => exact .cons hc ih
  | point hs => exact .point (hs.append ht)

lemma IsNumberText.isNumberChar (h : l.IsNumberText t) : ∀ c ∈ t, l.IsNumberChar c := by
  induction h with
  | nil => exact List.forall_mem_nil _
  | cons hc _ ih =>
    rw [List.forall_mem_cons]
    exact ⟨hc.imp_right .inr, ih⟩
  | point ht =>
    rw [List.forall_mem_cons]
    exact ⟨.inr (.inl rfl), fun c hc => .inl (ht c hc)⟩

lemma IsNumberText.not_infix (h : l.IsNumberText t) (ha : isFigure a = false)
    (hb : isFigure b = false) (hc : isFigure c = false) (hab : a ≠ b) :
    ¬[a, b, c] <:+: t := by
  induction h with
  | nil => exact fun hi => List.cons_ne_nil _ _ (List.infix_nil.1 hi)
  | @cons d t hd ht ih =>
    rw [List.infix_cons_iff, not_or]
    refine ⟨fun hp => ?_, ih⟩
    obtain ⟨had, hp'⟩ := List.cons_prefix_cons.1 hp
    subst had
    have hat := hd.resolve_left (by simp [ha])
    cases ht with
    | nil => exact List.cons_ne_nil _ _ (List.prefix_nil.1 hp')
    | @cons e t he _ =>
      obtain ⟨hbe, -⟩ := List.cons_prefix_cons.1 hp'
      subst hbe
      exact hab (hat.trans (he.resolve_left (by simp [hb])).symm)
    | point hu =>
      obtain ⟨-, hp''⟩ := List.cons_prefix_cons.1 hp'
      exact hu.notMem hc (hp''.subset (List.mem_singleton_self c))
  | point hu =>
    rw [List.infix_cons_iff, not_or]
    refine ⟨fun hp => ?_, fun hi => hu.notMem ha (hi.subset (List.mem_cons_self ..))⟩
    obtain ⟨-, hp'⟩ := List.cons_prefix_cons.1 hp
    exact hu.notMem hb (hp'.subset (List.mem_cons_self ..))

lemma isFigure_of_mem_inf (h : c ∈ "inf".toList) : isFigure c = false := by
  have hc : c = 'i' ∨ c = 'n' ∨ c = 'f' := by simpa using h
  rcases hc with rfl | rfl | rfl <;> rfl

lemma exists_not_isNumberChar (l : Locale) (h : "inf".toList ⊆ t) :
    ∃ c ∈ t, ¬l.IsNumberChar c := by
  by_contra hn
  have hs : "inf".toList ⊆ [l.decimal, l.thousands] := by
    intro c hc
    have hi := isFigure_of_mem_inf hc
    have hl : l.IsNumberChar c := by
      by_contra hl
      exact hn ⟨c, h hc, hl⟩
    simpa [IsNumberChar, hi] using hl
  have hl := (List.Nodup.subperm (by decide : "inf".toList.Nodup) hs).length_le
  exact absurd hl (by decide : ¬3 ≤ 2)

end Locale

end SheetFormat
