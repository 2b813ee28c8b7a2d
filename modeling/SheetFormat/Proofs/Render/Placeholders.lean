import Mathlib.Data.List.Flatten
import SheetFormat.Proofs.Checked.Digits
import SheetFormat.Proofs.Render.Pieces

namespace SheetFormat

def placeholders (parts : List NumberPart) : List Placeholder :=
  parts.filterMap fun
    | .field p => some p
    | _ => none

def placeholderTexts (pieces : List Piece) : List Text :=
  (pieces.filter (·.part.isField)).map Piece.text

def placeholderText (pieces : List Piece) : Text := shown (pieces.filter (·.part.isField))

def dealt : List Placeholder → Text → List Text
  | [], _ => []
  | p :: rest, digits =>
    let taken := digits.length - rest.length
    (if taken = 0 then p.blank else digits.take taken) :: dealt rest (digits.drop taken)

section Shown

variable {parts : List NumberPart} {part : NumberPart} {p : Placeholder} {ps : List Placeholder}
  {digits : Text}

lemma placeholders_fixed (h : part.isField = false) (rest : List NumberPart) :
    placeholders (part :: rest) = placeholders rest := by
  cases part with
  | field p => cases h
  | _ => rfl

lemma length_placeholders (parts : List NumberPart) :
    (placeholders parts).length = placeholderCount parts := by
  induction parts with
  | nil => rfl
  | cons part parts ih =>
    cases hp : part.isField with
    | false => rw [placeholders_fixed hp, placeholderCount_fixed hp, ih]
    | true =>
      obtain ⟨p, rfl⟩ := exists_field hp
      rw [placeholderCount_field, ← ih]
      rfl

lemma placeholders_of_count (h : placeholderCount parts = 0) : placeholders parts = [] :=
  List.length_eq_zero_iff.1 ((length_placeholders parts).trans h)

lemma exists_placeholders (h : placeholderCount parts ≠ 0) :
    ∃ p ps, placeholders parts = p :: ps ∧ placeholderCount parts = ps.length + 1 := by
  rw [← length_placeholders] at h ⊢
  obtain ⟨p, ps, hp⟩ := List.exists_cons_of_ne_nil (mt List.length_eq_zero_iff.2 h)
  exact ⟨p, ps, hp, by rw [hp, List.length_cons]⟩

lemma placeholderText_eq (pieces : List Piece) :
    placeholderText pieces = (placeholderTexts pieces).flatten := rfl

lemma placeholderText_append (pieces more : List Piece) :
    placeholderText (pieces ++ more) = placeholderText pieces ++ placeholderText more := by
  rw [placeholderText, List.filter_append, shown, List.flatMap_append]
  rfl

lemma placeholderText_sublist (pieces : List Piece) :
    (placeholderText pieces).Sublist (shown pieces) :=
  List.filter_sublist.flatMap Piece.text

lemma placeholderTexts_spreadPieces (text : Text) (parts : List NumberPart) (digits : Text) :
    placeholderTexts (spreadPieces text parts digits) = dealt (placeholders parts) digits := by
  induction parts generalizing digits with
  | nil => rfl
  | cons part parts ih =>
    cases part with
    | field p =>
      have hl : placeholders (.field p :: parts) = p :: placeholders parts := rfl
      rw [hl, spreadPieces, dealt, length_placeholders, ← ih]
      rfl
    | _ => exact ih digits

lemma dealt_of_le (h : digits.length ≤ ps.length) :
    dealt ps digits =
      (ps.take (ps.length - digits.length)).map Placeholder.blank ++ digits.map ([·]) := by
  induction ps generalizing digits with
  | nil =>
    obtain rfl := List.length_eq_zero_iff.1 (Nat.le_zero.1 h)
    rfl
  | cons p ps ih =>
    rw [List.length_cons] at h ⊢
    rcases Nat.le_or_eq_of_le_succ h with hl | hl
    · have hz : digits.length - ps.length = 0 := Nat.sub_eq_zero_of_le hl
      have hs : ps.length + 1 - digits.length = ps.length - digits.length + 1 := by omega
      rw [dealt, hz, if_pos rfl, List.drop_zero, ih hl, hs, List.take_succ_cons, List.map_cons,
        List.cons_append]
    · obtain ⟨d, rest, rfl⟩ := List.exists_cons_of_length_eq_add_one hl
      have hr : rest.length = ps.length := Nat.succ.inj hl
      have h1 : (d :: rest).length - ps.length = 1 := by omega
      rw [dealt, h1, if_neg Nat.one_ne_zero, List.drop_one, List.tail_cons, ih hr.le, hr,
        Nat.sub_self, hl, Nat.sub_self]
      rfl

lemma dealt_of_lt (h : ps.length < digits.length) :
    dealt (p :: ps) digits = digits.take (digits.length - ps.length) ::
      (digits.drop (digits.length - ps.length)).map ([·]) := by
  have hl : (digits.drop (digits.length - ps.length)).length = ps.length := by
    rw [List.length_drop]
    omega
  rw [dealt, if_neg (by omega), dealt_of_le hl.le, hl, Nat.sub_self]
  rfl

lemma flatten_dealt (ps : List Placeholder) (digits : Text) :
    (dealt ps digits).flatten =
      if ps = [] then [] else (ps.take (ps.length - digits.length)).flatMap Placeholder.blank ++
        digits := by
  cases ps with
  | nil => rfl
  | cons p ps =>
    rw [if_neg (List.cons_ne_nil p ps)]
    rcases Nat.lt_or_ge ps.length digits.length with hl | hl
    · rw [dealt_of_lt hl, List.flatten_cons, ← List.flatMap_def, List.flatMap_singleton',
        List.take_append_drop, List.length_cons, Nat.sub_eq_zero_of_le hl]
      rfl
    · rw [dealt_of_le (Nat.le_succ_of_le hl), List.flatten_append, ← List.flatMap_def,
        ← List.flatMap_def, List.flatMap_singleton']

lemma placeholderText_spreadPieces (text : Text) (parts : List NumberPart) (digits : Text) :
    placeholderText (spreadPieces text parts digits) =
      if placeholderCount parts = 0 then []
      else ((placeholders parts).take (placeholderCount parts - digits.length)).flatMap
        Placeholder.blank ++ digits := by
  rw [placeholderText_eq, placeholderTexts_spreadPieces, flatten_dealt, length_placeholders]
  simp only [← List.length_eq_zero_iff, length_placeholders]

end Shown

end SheetFormat
