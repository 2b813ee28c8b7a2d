import Mathlib.Data.List.TakeWhile
import SheetFormat.Section.Fraction

/-! The fraction of a section has a numerator, and a denominator that is not zero. -/

namespace SheetFormat

lemma Mark.isDigit_iff {m : Mark} : m.isDigit = true ↔ ∃ p, m = .digit p := by
  constructor
  · intro h
    obtain ⟨p, hp⟩ := Option.isSome_iff_exists.1 h
    unfold placeholder? at hp
    split at hp
    next q => exact ⟨q, rfl⟩
    next => simp at hp
  · rintro ⟨p, rfl⟩
    rfl

lemma placeholders_ne_nil {marks : List Mark} (h : marks.head?.any Mark.isDigit = true) :
    (marks.takeWhile Mark.isDigit).filterMap Mark.placeholder? ≠ [] := by
  cases marks with
  | nil => simp at h
  | cons m marks =>
    have hm : m.isDigit = true := by simpa using h
    obtain ⟨p, rfl⟩ := Mark.isDigit_iff.1 hm
    rw [List.takeWhile_cons_of_pos hm]
    simp [Mark.digit, Mark.placeholder?]

namespace Denominator

def IsProper : Denominator → Prop
  | bestFit placeholders => placeholders ≠ []
  | fixed value => 1 ≤ value ∧ value ≤ largest

lemma ofNumeral_isProper (digits : Text) : (ofNumeral digits).IsProper := by
  unfold ofNumeral
  dsimp only
  split_ifs with h
  · exact h
  · exact List.cons_ne_nil _ _

lemma read_isProper (marks : List Mark) : (read marks).1.IsProper := by
  rw [read]
  split_ifs with h
  · refine placeholders_ne_nil ?_
    cases marks with
    | nil => simp at h
    | cons m marks => simpa using h
  · exact ofNumeral_isProper _

end Denominator

namespace FractionLayout

structure IsProper (l : FractionLayout) : Prop where
  numerator : l.numerator ≠ []
  denominator : l.denominator.IsProper
  thousands : l.scaling.thousands ≤ 255

lemma bar?_eq_some {marks before after : List Mark} (h : bar? marks = some (before, after)) :
    before.getLast?.any Mark.isDigit = true ∧
      after.head?.any Mark.startsDenominator = true := by
  rw [bar?] at h
  split at h
  · simp at h
  next rest hd =>
    dsimp only at h
    split_ifs at h with hb
    obtain ⟨rfl, rfl⟩ := Prod.mk.inj (Option.some.inj h)
    simpa using hb

lemma ofBar_isProper {before after : List Mark} (h : before.getLast?.any Mark.isDigit = true) :
    (ofBar before after).IsProper := by
  refine ⟨?_, Denominator.read_isProper after, Nat.min_le_left ..⟩
  have hr : before.reverse.head?.any Mark.isDigit = true := by rwa [List.head?_reverse]
  intro hn
  have hf : ((before.reverse.takeWhile Mark.isDigit).filterMap Mark.placeholder?).reverse = [] := by
    rw [← List.filterMap_reverse]
    exact hn
  exact placeholders_ne_nil hr (List.reverse_eq_nil_iff.1 hf)

lemma ofMarks?_isProper {marks : List Mark} {l : FractionLayout} (h : ofMarks? marks = some l) :
    l.IsProper := by
  obtain ⟨⟨before, after⟩, hb, rfl⟩ := Option.map_eq_some_iff.1 h
  exact ofBar_isProper (bar?_eq_some hb).1

end FractionLayout

end SheetFormat
