import SheetFormat.Proofs.Number.Decimal
import SheetFormat.Proofs.Number.Unsigned
import SheetFormat.Proofs.Render.Digits

namespace SheetFormat

namespace Locale

/-- The separators can be told from each other, and the decimal one from the spaces of a number. -/
structure IsReadable (l : Locale) : Prop where
  distinct : l.decimal ≠ l.thousands
  decimal_space : l.decimal ≠ ' '
  decimal_digit : l.decimal.isDigit = false
  thousands_digit : l.thousands.isDigit = false

def keeps (l : Locale) (c : Char) : Bool := c != ' ' && c != l.thousands

def bare (l : Locale) (t : Text) : Text := t.filter l.keeps

variable {l : Locale}

lemma IsReadable.keepsDigits (h : l.IsReadable) : KeepsDigits l.keeps := by
  refine ⟨fun c hc => ?_, rfl⟩
  rw [keeps, Bool.and_eq_true, bne_iff_ne, bne_iff_ne]
  refine ⟨?_, ?_⟩
  · rintro rfl
    cases hc
  · rintro rfl
    rw [h.thousands_digit] at hc
    cases hc

lemma IsReadable.keeps_decimal (h : l.IsReadable) : l.keeps l.decimal = true := by
  rw [keeps, Bool.and_eq_true, bne_iff_ne, bne_iff_ne]
  exact ⟨h.decimal_space, h.distinct⟩

lemma keeps_thousands (l : Locale) : l.keeps l.thousands = false := by
  rw [keeps, bne_self_eq_false, Bool.and_false]

end Locale

namespace NumberLayout

structure IsPlain (l : NumberLayout) : Prop where
  exponent : l.exponent = none
  whole : FieldsOnly l.whole
  fractional : FieldsOnly (l.fractional.getD [])
  shown : l.whole ≠ [] ∨ l.fractional.isSome = true

variable {l : NumberLayout} {locale : Locale}

lemma IsPlain.wholeParts (h : l.IsPlain) : FieldsOnly l.wholeParts ∧ l.wholeParts ≠ [] := by
  rw [NumberLayout.wholeParts, h.whole.count]
  split
  next hc =>
    obtain ⟨-, hw⟩ := hc
    rw [List.length_eq_zero_iff.1 hw]
    refine ⟨fun p hp => ?_, List.cons_ne_nil _ _⟩
    rw [List.mem_singleton.1 hp]
    rfl
  next hc =>
    refine ⟨h.whole, fun hw => hc ⟨?_, List.length_eq_zero_iff.2 hw⟩⟩
    exact h.shown.resolve_left fun hn => hn hw

lemma IsPlain.length_fractional (h : l.IsPlain) : l.places = (l.fractional.getD []).length :=
  h.fractional.count

lemma grouped_eq (l : NumberLayout) (locale : Locale) (general digits : Text) :
    ∃ front behind, l.wholeParts = front ++ behind ∧
      placeholderCount front = placeholderCount l.wholeParts ∧
      l.grouped locale general digits =
        (if l.scaling.grouped then groupThousands locale.thousands (spread general front digits)
        else spread general front digits) ++ spread general behind [] := by
  refine ⟨_, _, l.front_append_behind.symm, ?_, rfl⟩
  conv => rhs; rw [← l.front_append_behind, placeholderCount, List.countP_append]
  exact (congrArg (placeholderCount _ + ·) l.placeholderCount_behind).symm

lemma grouped_of_fieldsOnly (hw : FieldsOnly l.wholeParts) (general digits : Text) :
    l.grouped locale general digits =
      if l.scaling.grouped then groupThousands locale.thousands (spread general l.wholeParts digits)
      else spread general l.wholeParts digits := by
  obtain ⟨front, behind, hp, hc, hg⟩ := l.grouped_eq locale general digits
  have hb : behind = [] := by
    have hl : placeholderCount front ≤ front.length := List.countP_le_length
    rw [hc, hw.count, hp, List.length_append] at hl
    exact List.length_eq_zero_iff.1 (by omega)
  rw [hb, List.append_nil] at hp
  rw [hg, hb, hp]
  exact List.append_nil _

lemma IsPlain.bare_grouped (h : l.IsPlain) (hs : locale.IsReadable) (general : Text)
    {digits : Text} (ht : digits.AllDigits) :
    ∃ k, locale.bare (l.grouped locale general digits) = List.replicate k '0' ++ digits := by
  obtain ⟨hw, hn⟩ := h.wholeParts
  obtain ⟨k, -, hk⟩ := filter_spread hs.keepsDigits general hw ht fun hc => absurd hc hn
  refine ⟨k, ?_⟩
  rw [grouped_of_fieldsOnly hw, Locale.bare]
  split
  · rw [filter_groupThousands locale.keeps_thousands, hk]
  · exact hk

lemma IsPlain.bare_pointed (h : l.IsPlain) (hs : locale.IsReadable) {parts : List NumberPart}
    (hf : l.fractional = some parts) {digits : Text} (ht : digits.AllDigits)
    (hl : digits.length ≤ l.places) :
    ∃ k, locale.bare (l.pointed locale digits) =
      locale.decimal :: (Text.dropTrailingZeros digits ++ List.replicate k '0') := by
  have hp := h.fractional
  rw [h.length_fractional, hf] at hl
  rw [hf] at hp
  exact filter_pointed hs.keepsDigits hs.keeps_decimal hf hp ht hl

end NumberLayout

lemma significantDigits_subset (t : Text) : significantDigits t ⊆ t := by
  rw [significantDigits]
  split
  · exact List.nil_subset t
  · exact List.Subset.refl t

lemma allDigits_significantDigits {t : Text} (h : t.AllDigits) :
    (significantDigits t).AllDigits := fun c hc => h c (significantDigits_subset t hc)

lemma valueOf_significantDigits (t : Text) :
    Text.valueOf (significantDigits t) = Text.valueOf t := by
  rw [significantDigits]
  split
  next h =>
    rw [h]
    rfl
  next => rfl

namespace NumberLayout

variable {l : NumberLayout} {locale : Locale}

lemma IsPlain.decimalValue?_digits (h : l.IsPlain) (hs : locale.IsReadable) (general : Text)
    (n : Nat) : Text.decimalValue? locale.decimal (locale.bare
      (l.grouped locale general (significantDigits (Text.numeral (n / 10 ^ l.places))) ++
        l.pointed locale (Text.places l.places (n % 10 ^ l.places)))) =
      some (n / 10 ^ l.places : ℚ) := by
  have hw := allDigits_significantDigits (Text.allDigits_numeral (n / 10 ^ l.places))
  have hf := Text.allDigits_places l.places (n % 10 ^ l.places)
  obtain ⟨j, hj⟩ := h.bare_grouped hs general hw
  have hz := (Text.allDigits_zeros j).append hw
  have hv : Text.valueOf (List.replicate j '0' ++
      significantDigits (Text.numeral (n / 10 ^ l.places))) = n / 10 ^ l.places := by
    rw [Text.valueOf_zeros_append, valueOf_significantDigits, Text.valueOf_numeral]
  rw [← div_add_fractionOf_places l.places n]
  cases hp : l.fractional with
  | none =>
    have hn : l.places = 0 := by rw [h.length_fractional, hp]; rfl
    have he : l.pointed locale (Text.places l.places (n % 10 ^ l.places)) = [] := by
      rw [pointed, hp]
    rw [he, List.append_nil, hj, Text.decimalValue?_digits hz hs.decimal_digit, hv]
    simp [hn, Text.places, Text.fractionOf_nil]
  | some parts =>
    obtain ⟨k, hk⟩ := h.bare_pointed hs hp hf (Text.length_places ..).le
    have hr := hf.dropTrailingZeros.append (Text.allDigits_zeros k)
    rw [Locale.bare, List.filter_append, ← Locale.bare, ← Locale.bare, hj, hk,
      Text.decimalValue?_pointed hz hr hs.decimal_digit, hv, Text.fractionOf_append_zeros,
      Text.fractionOf_dropTrailingZeros]

/-- The text denotes the printed decimal of the scaled number, rounded half up to the places. -/
theorem render_denotes (h : l.IsPlain) (hs : locale.IsReadable) (m : Magnitude)
    (hf : (l.scaling.apply (.finite false m)).reduced.isFinite = true) :
    ∃ d : ℚ,
      Text.decimalValue? '.' (l.scaling.apply (.finite false m)).reduced.text = some d ∧
        Text.decimalValue? locale.decimal (locale.bare (l.render locale (.finite false m))) =
          some (⌊d * 10 ^ l.places + 1 / 2⌋ / 10 ^ l.places : ℚ) := by
  have hu := (l.scaling.unsigned_apply (.finite m)).reduced
  obtain ⟨r, hr⟩ := hu.eq_finite hf
  refine ⟨r.shortest.value, ?_, ?_⟩
  · rw [hr]
    exact r.shortest.decimalValue?_text
  · have hd := h.decimalValue?_digits hs (generalText (.finite false m))
      (r.shortest.roundAt l.places)
    rw [render, h.exponent]
    simp only [positional, Binary64.splitRounded, hr, signText, Bool.false_eq_true, if_false,
      List.nil_append]
    rw [hd, ← Decimal.roundAt_eq_floor, Int.cast_natCast]

theorem render_denotes_carried :
    let l : NumberLayout :=
      ⟨[.field .hash, .field .question, .field .zero], some [.field .zero, .field .hash], none,
        ⟨true, 1, true⟩⟩
    let locale : Locale := { Locale.english with decimal := ',', thousands := '.' }
    let m : Magnitude := ⟨5368709098525164 * 2 ^ 1045, by decide +kernel, by decide +kernel⟩
    (l.IsPlain ∧ locale.IsReadable ∧
        (l.scaling.apply (.finite false m)).reduced.isFinite = true) ∧
      ∃ d : ℚ,
        Text.decimalValue? '.' (l.scaling.apply (.finite false m)).reduced.text = some d ∧
          Text.decimalValue? locale.decimal (locale.bare (l.render locale (.finite false m))) =
            some (⌊d * 10 ^ l.places + 1 / 2⌋ / 10 ^ l.places : ℚ) := by
  intro l locale m
  have hl : l.IsPlain := ⟨rfl, by decide, by decide, .inl (by decide)⟩
  have hs : locale.IsReadable := ⟨by decide, by decide, by decide, by decide⟩
  have hf : (l.scaling.apply (.finite false m)).reduced.isFinite = true := by decide +kernel
  exact ⟨⟨hl, hs, hf⟩, render_denotes hl hs m hf⟩

end NumberLayout

end SheetFormat
