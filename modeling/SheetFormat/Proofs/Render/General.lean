import SheetFormat.Proofs.Checked.General
import SheetFormat.Proofs.Render.Finite
import SheetFormat.Proofs.Text.NumericLiteral

namespace SheetFormat

open Text

namespace General

def IsFixed (t : Text) : Prop :=
  ∃ w f, IsDigits w ∧ AllDigits f ∧ t = Decimal.pointed w f

def IsScientific (t : Text) : Prop :=
  ∃ m c d, IsFixed m ∧ IsSign c ∧ AllDigits d ∧ 2 ≤ d.length ∧ t = m ++ 'E' :: c :: d

variable {t : Text}

lemma IsFixed.isMantissa (h : IsFixed t) : IsMantissa t := by
  obtain ⟨w, f, hw, hf, rfl⟩ := h
  rw [Decimal.pointed]
  split_ifs with hn
  · exact .whole hw
  · exact .decimal hw ⟨by simpa using hn, hf⟩

lemma isDigits_numeral (n : Nat) : IsDigits (numeral n) :=
  ⟨numeral_ne_nil n, allDigits_numeral n⟩

lemma isFixed_pointedAt (places n : Nat) : IsFixed (Decimal.pointedAt places n) :=
  ⟨_, _, isDigits_numeral _, (allDigits_places _ _).dropTrailingZeros, rfl⟩

lemma isFixed_fixed (m : Magnitude) : IsFixed (fixed m) := by
  rw [fixed]
  dsimp only
  split_ifs
  · exact isFixed_pointedAt _ _
  · exact isFixed_pointedAt _ _

lemma isDigits_whole {x : Binary64} (hu : x.Unsigned) (hf : x.FitsDigits) (places : Nat) :
    IsDigits (x.splitRounded places).1 := by
  obtain ⟨m, hm⟩ := hu.reduced.eq_finite hf.reduced.isFinite
  rw [Binary64.splitRounded, hm]
  exact isDigits_numeral _

lemma isDigits_mantissa (places : Nat) (m : Magnitude) :
    IsDigits (Scientific.ofBinary64 places (.finite false m)).whole := by
  have hu : ((Scientific.mantissa m).1.toBinary64 false).Unsigned :=
    Binary64.unsigned_ofQuotient _ _
  rw [Scientific.ofBinary64]
  dsimp only
  rcases Scientific.carried_cases _ with h | h <;> rw [h]
  · exact isDigits_whole hu (Scientific.fitsDigits_mantissa m) places
  · exact isDigits_singleton rfl

lemma allDigits_padded (width n : Nat) : AllDigits (padded width n) :=
  (allDigits_zeros _).append (allDigits_numeral n)

lemma isScientific_scientific (m : Magnitude) : IsScientific (scientific m) := by
  let s := Scientific.ofBinary64 mantissaPlaces (.finite false m)
  have hf : AllDigits s.fraction := Scientific.allDigits_ofBinary64 _ _
  refine ⟨_, _, _, ⟨s.whole, _, isDigits_mantissa _ m, hf.dropTrailingZeros, rfl⟩, ?_,
    allDigits_padded _ _, le_length_padded 2 s.exponent.natAbs, rfl⟩
  split_ifs
  · exact .inr rfl
  · exact .inl rfl

lemma isOptionalSign_signText (s : Bool) : IsOptionalSign (signText s) := by
  cases s with
  | false => exact .none
  | true => exact .some (.inr rfl)

def HasForm (s : Bool) (m : Magnitude) (t : Text) : Prop :=
  if m.quanta ≠ 0 ∧ isScientific (.finite s m) = true then IsScientific t else IsFixed t

lemma exists_hasForm (s : Bool) (m : Magnitude) :
    ∃ u t, IsOptionalSign u ∧ HasForm s m t ∧ generalText (.finite s m) = u ++ t := by
  rw [generalText]
  by_cases hz : m.quanta = 0
  · refine ⟨[], ['0'], .none, ?_, if_pos hz⟩
    rw [HasForm, if_neg fun h => h.1 hz]
    exact ⟨['0'], [], isDigits_singleton rfl, List.forall_mem_nil _, rfl⟩
  rw [if_neg hz]
  refine ⟨_, _, isOptionalSign_signText s, ?_, rfl⟩
  rw [HasForm]
  by_cases hs : isScientific (.finite s m) = true
  · rw [if_pos ⟨hz, hs⟩, if_pos hs]
    exact isScientific_scientific m
  · rw [if_neg fun h => hs h.2, if_neg hs]
    exact isFixed_fixed m

lemma HasForm.isLiteral {s : Bool} {m : Magnitude} {u t : Text} (h : HasForm s m t)
    (hu : IsOptionalSign u) : IsLiteral (u ++ t) := by
  rw [HasForm] at h
  split_ifs at h
  · obtain ⟨w, c, d, hw, hc, hd, hl, rfl⟩ := h
    rw [← List.append_assoc]
    refine .intro hu hw.isMantissa (.some (.inl rfl) hc ⟨?_, hd⟩)
    exact List.ne_nil_of_length_pos (by omega)
  · rw [← List.append_nil (u ++ t)]
    exact .intro hu h.isMantissa .none

end General

/-- The General form of a finite number, made without a fault from its written digits, is accepted
as a number: positional digits, with one in front of any point and one behind it, or a mantissa of
that kind and a signed exponent. -/
theorem isNumeric_generalText (s : Bool) (m : Magnitude) :
    ∃ u t, IsOptionalSign u ∧ General.HasForm s m t ∧
      Checked.generalText (.finite s m) = .ok (u ++ t) ∧ generalText (.finite s m) = u ++ t ∧
      isNumeric (u ++ t) = true := by
  obtain ⟨u, t, hu, h, ht⟩ := General.exists_hasForm s m
  refine ⟨u, t, hu, h, ?_, ht, ?_⟩
  · rw [Checked.generalText_ok, ht]
  · rw [isNumeric_iff_isLiteral]
    exact h.isLiteral hu

end SheetFormat
