import SheetFormat.Proofs.Render.Digits
import SheetFormat.Proofs.Render.Substitution

/-! A number as a row of pieces, one for each part of its layout. -/

namespace SheetFormat

structure Piece where
  part : NumberPart
  text : Text

def shown (pieces : List Piece) : Text := pieces.flatMap Piece.text

structure Piece.Shows (text : Text) (part : NumberPart) (p : Piece) : Prop where
  part_eq : p.part = part
  fixed : part.isField = false → p.text = fixedText text part

def Covers (text : Text) (parts : List NumberPart) (pieces : List Piece) : Prop :=
  List.Forall₂ (Piece.Shows text) parts pieces

def spreadPieces (text : Text) : List NumberPart → Text → List Piece
  | [], _ => []
  | .field p :: rest, digits =>
    let taken := digits.length - placeholderCount rest
    ⟨.field p, if taken = 0 then p.blank else digits.take taken⟩ ::
      spreadPieces text rest (digits.drop taken)
  | part :: rest, digits => ⟨part, fixedText text part⟩ :: spreadPieces text rest digits

def fillPieces : List NumberPart → Text → List Piece
  | [], _ => []
  | .field p :: rest, d :: digits => ⟨.field p, [d]⟩ :: fillPieces rest digits
  | .field p :: rest, [] => ⟨.field p, p.blank⟩ :: fillPieces rest []
  | part :: rest, digits => ⟨part, fixedText [] part⟩ :: fillPieces rest digits

section Shown

variable {text : Text} {parts : List NumberPart} {pieces : List Piece}

lemma Covers.append {others : List NumberPart} {more : List Piece} (h : Covers text parts pieces)
    (hm : Covers text others more) : Covers text (parts ++ others) (pieces ++ more) :=
  List.rel_append h hm

lemma Covers.occursApart (h : Covers text parts pieces) :
    text.OccursApart (parts.countP Part.isText) (shown pieces) := by
  induction h with
  | nil => exact .zero []
  | @cons part p parts pieces hp _ ih =>
    rw [shown, List.flatMap_cons, ← shown]
    cases part with
    | text =>
      rw [hp.fixed rfl, List.countP_cons_of_pos rfl, Nat.add_comm]
      exact text.occursApart_self.append ih
    | _ =>
      rw [List.countP_cons_of_neg (by simp [Part.isText])]
      exact ih.prepend _

lemma covers_spreadPieces (text : Text) (parts : List NumberPart) (digits : Text) :
    Covers text parts (spreadPieces text parts digits) := by
  induction parts generalizing digits with
  | nil => exact .nil
  | cons part parts ih =>
    cases part with
    | field p => exact .cons ⟨rfl, nofun⟩ (ih _)
    | _ => exact .cons ⟨rfl, fun _ => rfl⟩ (ih _)

lemma covers_fillPieces (parts : List NumberPart) (digits : Text) :
    Covers [] parts (fillPieces parts digits) := by
  induction parts generalizing digits with
  | nil => exact .nil
  | cons part parts ih =>
    cases part with
    | field p => cases digits <;> exact .cons ⟨rfl, nofun⟩ (ih _)
    | _ => exact .cons ⟨rfl, fun _ => rfl⟩ (ih _)

lemma shown_spreadPieces (text : Text) (parts : List NumberPart) (digits : Text) :
    shown (spreadPieces text parts digits) = spread text parts digits := by
  induction parts generalizing digits with
  | nil => rfl
  | cons part parts ih => cases part <;> exact congrArg (_ ++ ·) (ih _)

lemma shown_fillPieces (parts : List NumberPart) (digits : Text) :
    shown (fillPieces parts digits) = fill parts digits := by
  induction parts generalizing digits with
  | nil => rfl
  | cons part parts ih =>
    cases part with
    | field p => cases digits <;> exact congrArg (_ ++ ·) (ih _)
    | _ => exact congrArg (_ ++ ·) (ih _)

lemma exists_flatMap (text : Text) (parts : List NumberPart) :
    ∃ pieces, Covers text parts pieces ∧ parts.flatMap (fixedText text) = shown pieces := by
  refine ⟨parts.map fun part => ⟨part, fixedText text part⟩, ?_, ?_⟩
  · rw [Covers, List.forall₂_map_right_iff, List.forall₂_same]
    exact fun part _ => ⟨rfl, fun _ => rfl⟩
  · rw [shown, List.flatMap_map]

end Shown

namespace NumberLayout

variable (l : NumberLayout)

def pointText (locale : Locale) : Text := if l.fractional.isSome then [locale.decimal] else []

def digits (x : Binary64) : Text × Text :=
  let (whole, fraction) := (l.scaling.apply x).splitRounded l.places
  (significantDigits whole, Text.dropTrailingZeros fraction)

def frontPieces (x : Binary64) : List Piece :=
  spreadPieces (generalText x) l.front (l.digits x).1

def behindPieces (x : Binary64) : List Piece := spreadPieces (generalText x) l.behind []

def fractionalPieces (digits : Text) : List Piece := fillPieces (l.fractional.getD []) digits

lemma pointed_eq (locale : Locale) (digits : Text) :
    l.pointed locale digits =
      l.pointText locale ++ shown (l.fractionalPieces (Text.dropTrailingZeros digits)) := by
  rw [pointed, pointText, fractionalPieces, shown_fillPieces]
  cases l.fractional <;> rfl

variable {l}

lemma render_eq (h : l.exponent = none) (locale : Locale) (x : Binary64) :
    l.render locale x = l.separate locale (shown (l.frontPieces x)) ++ shown (l.behindPieces x) ++
      (l.pointText locale ++ shown (l.fractionalPieces (l.digits x).2)) := by
  rw [frontPieces, behindPieces, shown_spreadPieces, shown_spreadPieces, render, h]
  exact congrArg (_ ++ ·) (l.pointed_eq locale _)

end NumberLayout

end SheetFormat
