import SheetFormat.Proofs.Checked.Number
import SheetFormat.Proofs.Number.Scientific
import SheetFormat.Proofs.Render.General
import SheetFormat.Proofs.Render.Value
import SheetFormat.Proofs.Text.Canonical
import SheetFormat.Text.NumericLiteral

namespace SheetFormat

open Text

namespace Text

def exponentValue? (t : Text) : Option Int :=
  let digits := dropSign t
  if digits.all Char.isDigit then
    some (if t.head? = some '-' then -(valueOf digits : Int) else valueOf digits)
  else none

def scientificValue? (point mark : Char) (t : Text) : Option ℚ :=
  let mantissa := ((t.reverse.dropWhile (· ≠ mark)).drop 1).reverse
  let exponent := (t.reverse.takeWhile (· ≠ mark)).reverse
  match decimalValue? point mantissa, exponentValue? exponent with
  | some m, some e => some (m * 10 ^ e)
  | _, _ => none

def exponentSign (plus : Bool) (e : Int) : Text :=
  if e < 0 then ['-'] else if plus then ['+'] else []

variable {point mark : Char} {plus : Bool} {digits mantissa exponent : Text} {e : Int} {q : ℚ}

lemma dropSign_digits (h : digits.AllDigits) :
    dropSign digits = digits ∧ digits.head? ≠ some '-' := by
  cases digits with
  | nil => exact ⟨rfl, nofun⟩
  | cons c t =>
    have hc := h.head
    refine ⟨?_, fun hn => ?_⟩
    · unfold dropSign
      split
      next heq => cases heq; cases hc
      next heq => cases heq; cases hc
      next => rfl
    · rw [List.head?_cons, Option.some.injEq] at hn
      rw [hn] at hc
      cases hc

lemma exponentValue?_sign (h : digits.AllDigits) (hv : valueOf digits = e.natAbs) :
    exponentValue? (exponentSign plus e ++ digits) = some e := by
  have ha : digits.all Char.isDigit = true := List.all_eq_true.2 h
  rw [exponentSign]
  split_ifs with hn hp
  · simp only [exponentValue?, List.singleton_append, dropSign, ha, if_true, List.head?_cons, hv]
    congr 1
    omega
  · simp only [exponentValue?, List.singleton_append, dropSign, ha, if_true, List.head?_cons, hv]
    rw [if_neg (by decide)]
    congr 1
    omega
  · obtain ⟨hd, hh⟩ := dropSign_digits h
    rw [List.nil_append, exponentValue?, hd, if_pos ha, if_neg hh, hv]
    congr 1
    omega

lemma scientificValue?_append (hm : decimalValue? point mantissa = some q)
    (he : exponentValue? exponent = some e) (hn : mark ∉ exponent) :
    scientificValue? point mark (mantissa ++ mark :: exponent) = some (q * 10 ^ e) := by
  have hp : ∀ c ∈ exponent.reverse, decide (c ≠ mark) = true := by
    intro c hc
    exact decide_eq_true (ne_of_mem_of_not_mem (List.mem_reverse.1 hc) hn)
  have ht : (mantissa ++ mark :: exponent).reverse =
      exponent.reverse ++ mark :: mantissa.reverse := by simp
  rw [scientificValue?, ht, List.takeWhile_append_of_pos hp, List.dropWhile_append_of_pos hp]
  simp [hm, he]

end Text

lemma ExponentMark.letter_notMem (mark : ExponentMark) (e : Int) {digits : Text}
    (h : digits.AllDigits) : mark.letter ∉ exponentSign mark.showPlus e ++ digits := by
  have hd : mark.letter ∉ digits := h.notMem (by rw [letter]; split_ifs <;> rfl)
  have hs : mark.letter ∉ exponentSign mark.showPlus e := by
    rw [letter, exponentSign]
    split_ifs <;> decide
  simp [hs, hd]

namespace Scientific

inductive Tail (point : Char) : ℚ → Text → Prop
  | nil : Tail point 0 []
  | point {f : Text} : f.AllDigits → Tail point (fractionOf f) (point :: f)

inductive Shows (point : Char) (mark : ExponentMark) : ℚ → Text → Prop
  | intro (zeros : Nat) {d : Nat} {q : ℚ} {e : Int} {tail digits : Text} : 0 < d → d < 10 →
      Tail point q tail → digits.AllDigits → valueOf digits = e.natAbs →
      Shows point mark ((d + q) * 10 ^ e)
        (List.replicate zeros '0' ++ [Nat.digitChar d] ++ tail ++
          mark.letter :: exponentSign mark.showPlus e ++ digits)

variable {point : Char} {mark : ExponentMark} {t : Text} {v : ℚ}

lemma Shows.scientificValue? (h : Shows point mark v t) (hp : point.isDigit = false) :
    scientificValue? point mark.letter t = some v := by
  cases h with
  | @intro zeros d q e tail digits _ h9 ht hd hv =>
    have hw : AllDigits (List.replicate zeros '0' ++ [Nat.digitChar d]) :=
      (allDigits_zeros zeros).append (allDigits_digitChar h9)
    have hn : valueOf (List.replicate zeros '0' ++ [Nat.digitChar d]) = d := by
      rw [valueOf_zeros_append, valueOf_digitChar h9]
    rw [List.append_assoc, List.cons_append]
    apply scientificValue?_append _ (exponentValue?_sign hd hv) (mark.letter_notMem e hd)
    cases ht with
    | nil => rw [List.append_nil, decimalValue?_digits hw hp, hn, add_zero]
    | point hf => rw [decimalValue?_pointed hw hf hp, hn]

structure Denotes (point : Char) (mark : ExponentMark) (places : Nat) (w : Magnitude) (t : Text) :
    Prop where
  one_le : 1 ≤ (mantissa w).1.value
  lt_ten : (mantissa w).1.value < 10
  exact : (mantissa w).1.value * 10 ^ (mantissa w).2 = w.shortest.value
  shows : Shows point mark (rounded places w * 10 ^ (mantissa w).2) t
  read : Text.scientificValue? point mark.letter t =
    some (rounded places w * 10 ^ (mantissa w).2)

variable {places : Nat} {w : Magnitude}

lemma denotes_of_shows (hw : w.quanta ≠ 0) (hp : point.isDigit = false)
    (h : Shows point mark (ofBinary64 places (.finite false w)).value t) :
    Denotes point mark places w t := by
  obtain ⟨h1, h10⟩ := value_mantissa_bounds hw
  obtain ⟨-, hv⟩ := ofBinary64_normal hw false places
  rw [hv] at h
  exact ⟨h1, h10, value_mantissa w, h, h.scientificValue? hp⟩

end Scientific

namespace NumberLayout

structure IsExponential (l : NumberLayout) (mark : ExponentMark) (parts : List NumberPart) :
    Prop where
  exponent : l.exponent = some (mark, parts)
  whole : FieldsOnly l.whole
  whole_ne : l.whole ≠ []
  fractional : FieldsOnly (l.fractional.getD [])
  digits : FieldsOnly parts
  digits_ne : parts ≠ []

variable {l : NumberLayout} {locale : Locale} {mark : ExponentMark} {parts : List NumberPart}

lemma keepsDigits_blank : KeepsDigits (· != ' ') := by
  refine ⟨fun c hc => bne_iff_ne.2 ?_, rfl⟩
  rintro rfl
  cases hc

lemma tail_pointed (hf : FieldsOnly (l.fractional.getD [])) (hd : locale.decimal ≠ ' ')
    {fraction : Text} (ht : fraction.AllDigits) (hl : fraction.length = l.places) :
    Scientific.Tail locale.decimal (fractionOf fraction)
      ((l.pointed locale fraction).filter (· != ' ')) := by
  rw [places, hf.count] at hl
  cases hp : l.fractional with
  | none =>
    rw [hp] at hl
    obtain rfl := List.length_eq_zero_iff.1 hl
    rw [pointed, hp, fractionOf_nil]
    exact .nil
  | some parts =>
    rw [hp] at hl hf
    obtain ⟨k, hk⟩ := filter_pointed keepsDigits_blank (bne_iff_ne.2 hd) hp hf ht hl.le
    rw [hk, ← fractionOf_dropTrailingZeros, ← fractionOf_append_zeros _ k]
    exact .point (ht.dropTrailingZeros.append (allDigits_zeros k))

lemma filter_mark (mark : ExponentMark) (e : Int) :
    (mark.letter :: exponentSign mark.showPlus e).filter (· != ' ') =
      mark.letter :: exponentSign mark.showPlus e := by
  rw [ExponentMark.letter, exponentSign]
  split_ifs <;> rfl

lemma filter_exponent (hp : FieldsOnly parts) (hn : parts ≠ []) (n : Nat) :
    let digits : Text := (spread [] parts (significantDigits (numeral n))).filter (· != ' ')
    digits.AllDigits ∧ valueOf digits = n := by
  intro digits
  have ht := allDigits_significantDigits (allDigits_numeral n)
  obtain ⟨k, -, hk⟩ := filter_spread keepsDigits_blank [] hp ht fun h => absurd h hn
  have hd : digits = List.replicate k '0' ++ significantDigits (numeral n) := hk
  rw [hd]
  refine ⟨(allDigits_zeros k).append ht, ?_⟩
  rw [valueOf_zeros_append, valueOf_significantDigits, valueOf_numeral]

lemma significantDigits_digitChar {d : Nat} (hd : 0 < d) :
    significantDigits [Nat.digitChar d] = [Nat.digitChar d] := by
  apply if_neg
  intro hz
  exact hd.ne' (Nat.digitChar_eq_zero.1 (List.cons.inj hz).1)

lemma IsExponential.shows (h : l.IsExponential mark parts) (hd : locale.decimal ≠ ' ')
    {x : Binary64} {s : Scientific} (hs : Scientific.ofBinary64 l.places x.reduced = s)
    (hn : s.IsNormal l.places) : Scientific.Shows locale.decimal mark s.value
      ((l.scientific locale mark parts x).filter (· != ' ')) := by
  obtain ⟨d, h0, h9, hw⟩ := hn.whole
  have ht := tail_pointed h.fractional hd hn.fraction hn.length
  obtain ⟨ha, hv⟩ := filter_exponent h.digits h.digits_ne s.exponent.natAbs
  obtain ⟨zeros, -, hz⟩ := filter_spread keepsDigits_blank [] h.whole
    (allDigits_digitChar h9) fun hn => absurd hn h.whole_ne
  have hsign : (if s.exponent < 0 then ['-'] else if mark.showPlus then ['+'] else []) =
    exponentSign mark.showPlus s.exponent := rfl
  rw [scientific, hs, hsign, hw, significantDigits_digitChar h0, List.filter_append,
    List.filter_append, List.filter_append, hz, filter_mark, Scientific.value, hw,
    valueOf_digitChar h9]
  exact .intro zeros h0 h9 ht ha hv

lemma IsExponential.denotes (h : l.IsExponential mark parts) (hd : locale.decimal ≠ ' ')
    (hi : locale.decimal.isDigit = false) {x : Binary64} {w : Magnitude}
    (hx : x.reduced = .finite false w) (hw : w.quanta ≠ 0) :
    Scientific.Denotes locale.decimal mark l.places w
      ((l.scientific locale mark parts x).filter (· != ' ')) := by
  obtain ⟨hn, -⟩ := Scientific.ofBinary64_normal hw false l.places
  exact Scientific.denotes_of_shows hw hi (h.shows hd (by rw [hx]) hn)

end NumberLayout

namespace General

lemma exists_tail (whole : Text) {fraction : Text} (hf : fraction.AllDigits) :
    ∃ tail, Scientific.Tail '.' (fractionOf fraction) tail ∧
      Decimal.pointed whole fraction = whole ++ tail := by
  cases fraction with
  | nil =>
    refine ⟨[], ?_, (List.append_nil whole).symm⟩
    rw [fractionOf_nil]
    exact .nil
  | cons c fraction => exact ⟨_, .point hf, rfl⟩

lemma valueOf_padded (width n : Nat) : valueOf (padded width n) = n := by
  rw [padded, valueOf_zeros_append, valueOf_numeral]

variable {places : Nat} {s : Scientific} {m : Magnitude}

lemma isCanonical_of_normal (h : s.IsNormal places) :
    (Decimal.pointed s.whole (dropTrailingZeros s.fraction)).IsCanonical := by
  obtain ⟨d, -, h9, hw⟩ := h.whole
  have hd : s.whole = numeral d := hw.trans (Nat.toDigits_of_lt_base h9).symm
  rw [hd]
  exact isCanonical_pointed (isWhole_numeral d) (isFraction_dropTrailingZeros h.fraction)

lemma shows_of_normal (h : s.IsNormal places) : Scientific.Shows '.' ⟨true, true⟩ s.value
    (Decimal.pointed s.whole (dropTrailingZeros s.fraction) ++
      'E' :: (if s.exponent < 0 then '-' else '+') :: padded 2 s.exponent.natAbs) := by
  obtain ⟨d, h0, h9, hw⟩ := h.whole
  obtain ⟨tail, ht, hp⟩ := exists_tail s.whole h.fraction.dropTrailingZeros
  rw [fractionOf_dropTrailingZeros] at ht
  have hsign : 'E' :: (if s.exponent < 0 then '-' else '+') :: padded 2 s.exponent.natAbs =
      'E' :: exponentSign true s.exponent ++ padded 2 s.exponent.natAbs := by
    by_cases hn : s.exponent < 0
    · rw [exponentSign, if_pos hn, if_pos hn]
      rfl
    · rw [exponentSign, if_neg hn, if_neg hn]
      rfl
  rw [hsign, hp, ← List.append_assoc, Scientific.value, hw, valueOf_digitChar h9]
  exact .intro 0 h0 h9 ht (allDigits_padded _ _) (valueOf_padded _ _)

lemma denotes_scientific (hm : m.quanta ≠ 0) :
    Scientific.Denotes '.' ⟨true, true⟩ 5 m (scientific m) ∧
      ∃ mantissa exponent, scientific m = mantissa ++ 'E' :: exponent ∧ mantissa.IsCanonical := by
  obtain ⟨hn, -⟩ := Scientific.ofBinary64_normal hm false mantissaPlaces
  exact ⟨Scientific.denotes_of_shows hm rfl (shows_of_normal hn), _, _, rfl,
    isCanonical_of_normal hn⟩

end General

/-- The text of a section, without its blanks, and that of the General format denote the rounded
mantissa times the power of ten. -/
theorem scientific_denotes :
    (∀ (l : NumberLayout) (locale : Locale) (mark : ExponentMark) (parts : List NumberPart)
        (x : Binary64), l.IsExponential mark parts → locale.decimal ≠ ' ' →
        locale.decimal.isDigit = false → x.isFinite = true → Binary64.lt 0 x = true →
        (l.scaling.apply x).reduced.isFinite = true → (l.scaling.apply x).reduced.isZero = false →
        ∃ w t, (l.scaling.apply x).reduced = .finite false w ∧
          Checked.renderNumber l locale x = .ok t ∧ l.render locale x = t ∧
          Scientific.Denotes locale.decimal mark l.places w (t.filter (· != ' '))) ∧
      ∀ (s : Bool) (m : Magnitude), m.quanta ≠ 0 → General.isScientific (.finite s m) = true →
        ∃ t, Checked.generalText (.finite s m) = .ok (signText s ++ t) ∧
          generalText (.finite s m) = signText s ++ t ∧
          Scientific.Denotes '.' ⟨true, true⟩ 5 m t ∧
          ∃ mantissa exponent, t = mantissa ++ 'E' :: exponent ∧ mantissa.IsCanonical := by
  refine ⟨fun l locale mark parts x hl hd hi hx h0 hf hz => ?_, fun s m hm hs => ?_⟩
  · obtain ⟨m, -, rfl⟩ := Binary64.eq_of_pos hx h0
    obtain ⟨w, hw⟩ := (l.scaling.unsigned_apply (.finite m)).reduced.eq_finite hf
    rw [hw] at hz
    refine ⟨w, _, hw, Checked.renderNumber_ok l locale (.finite m), rfl, ?_⟩
    rw [NumberLayout.render, hl.exponent]
    exact hl.denotes hd hi hw (by simpa [Binary64.isZero] using hz)
  · have ht : generalText (.finite s m) = signText s ++ General.scientific m := by
      rw [generalText, if_neg hm, if_pos hs]
    exact ⟨_, (Checked.generalText_ok _).trans (congrArg _ ht), ht, General.denotes_scientific hm⟩

theorem scientific_denotes_carried :
    let l : NumberLayout :=
      ⟨[.field .hash, .field .zero], some [.field .zero, .field .question],
        some (⟨false, true⟩, [.field .hash]), ⟨false, 0, false⟩⟩
    let locale : Locale := { Locale.english with decimal := ',' }
    let x : Binary64 := (⟨9996, -4⟩ : Decimal).toBinary64 false
    let m : Magnitude := ⟨7737124936048617 * 2 ^ (988 : Nat), by decide +kernel, by decide +kernel⟩
    (l.IsExponential ⟨false, true⟩ [.field .hash] ∧ locale.decimal ≠ ' ' ∧
        locale.decimal.isDigit = false ∧ x.isFinite = true ∧ Binary64.lt 0 x = true ∧
        (l.scaling.apply x).reduced.isFinite = true ∧
        (l.scaling.apply x).reduced.isZero = false ∧
        ∃ w t, (l.scaling.apply x).reduced = .finite false w ∧
          Checked.renderNumber l locale x = .ok t ∧ l.render locale x = t ∧
          Scientific.Denotes locale.decimal ⟨false, true⟩ l.places w (t.filter (· != ' '))) ∧
      m.quanta ≠ 0 ∧ General.isScientific (.finite true m) = true ∧
      ∃ t, Checked.generalText (.finite true m) = .ok (signText true ++ t) ∧
        generalText (.finite true m) = signText true ++ t ∧
        Scientific.Denotes '.' ⟨true, true⟩ 5 m t ∧
        ∃ mantissa exponent, t = mantissa ++ 'E' :: exponent ∧ mantissa.IsCanonical := by
  intro l locale x m
  have hl : l.IsExponential ⟨false, true⟩ [.field .hash] :=
    ⟨rfl, by decide, by decide, by decide, by decide, by decide⟩
  have hx : x.isFinite = true := by decide +kernel
  have h0 : Binary64.lt 0 x = true := by decide +kernel
  have hf : (l.scaling.apply x).reduced.isFinite = true := by decide +kernel
  have hz : (l.scaling.apply x).reduced.isZero = false := by decide +kernel
  have hm : m.quanta ≠ 0 := by decide +kernel
  have hs : General.isScientific (.finite true m) = true := by decide +kernel
  exact ⟨⟨hl, by decide, by decide, hx, h0, hf, hz,
    scientific_denotes.1 l locale _ _ x hl (by decide) (by decide) hx h0 hf hz⟩, hm, hs,
    scientific_denotes.2 true m hm hs⟩

end SheetFormat
