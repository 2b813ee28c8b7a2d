import SheetFormat.Proofs.Checked.General
import SheetFormat.Proofs.Number.Bounds
import SheetFormat.Proofs.Number.Whole
import SheetFormat.Proofs.Text.Canonical

namespace SheetFormat

open Text

attribute [local instance (2000)] instPowNat
attribute [local irreducible] perUnit limit

namespace General

variable {x : Binary64} {m : Magnitude}

lemma exists_fixed (hl : tiny.lt x.abs = true) (hu : x.abs.lt huge = true) :
    ∃ m, x.abs = .finite false m ∧ m.quanta < 10 ^ 11 * perUnit ∧
      generalText x = signText (x.lt 0) ++ fixed m := by
  cases x with
  | finite s m =>
    have hs : ¬isScientific (.finite s m) = true := by
      rw [isScientific, Binary64.le_eq_false_of_lt hl, Binary64.le_eq_false_of_lt hu]
      exact Bool.false_ne_true
    have hz : m.quanta ≠ 0 := by
      intro hz
      have hn : tiny.Unsigned := by
        rw [tiny]
        exact Binary64.unsigned_ofQuotient _ _
      have ht : tiny.lt 0 = false := hn.abs_eq ▸ tiny.abs_lt_zero
      have hr : (Binary64.finite false m).rank = Binary64.rank 0 := by
        rw [Binary64.rank_zero, Binary64.rank, Binary64.signed, hz]
        rfl
      rw [Binary64.lt, Binary64.abs, hr] at hl
      rw [Binary64.lt, hl] at ht
      cases ht
    refine ⟨m, rfl, Checked.lt_huge hs, ?_⟩
    have hn : Binary64.lt (.finite s m) 0 = s := by
      rw [Bool.eq_iff_iff, Binary64.lt_zero_iff, Binary64.signed]
      cases s <;> simp [hz, Nat.pos_iff_ne_zero]
    rw [generalText, if_neg hz, if_neg hs, hn]
  | infinite s =>
    have hh : huge = .ofNat (10 ^ 11) := rfl
    have hi := Binary64.whole_lt_limit (n := 10 ^ 11) (by decide)
    rw [Binary64.abs, hh, Binary64.lt, Binary64.rank_ofNat (by decide)] at hu
    exact absurd (Int.ofNat_lt.1 (of_decide_eq_true hu)) hi.not_gt
  | nan =>
    rw [Binary64.abs, Binary64.lt, Binary64.rank] at hu
    cases hu

lemma whole_text (d : Decimal) :
    d.text.takeWhile (· != '.') = numeral (d.numerator / d.denominator) :=
  (Decimal.pointed_cut (allDigits_numeral _) d.fraction).1

lemma fixed_of_length_le (h : m.shortest.text.length ≤ 11) : fixed m = m.shortest.text := if_pos h

lemma fixed_of_lt_length (h : 11 < m.shortest.text.length) :
    fixed m = Decimal.pointedAt (10 - (m.shortest.text.takeWhile (· != '.')).length)
      (m.shortest.roundAt (10 - (m.shortest.text.takeWhile (· != '.')).length)) := by
  rw [whole_text]
  exact if_neg (Nat.not_le.2 h)

lemma isCanonical_pointedAt (places n : Nat) : (Decimal.pointedAt places n).IsCanonical :=
  isCanonical_pointed (isWhole_numeral _) (isFraction_dropTrailingZeros (allDigits_places _ _))

/-- A text that is too long is rounded half up to the places behind its whole digits and the point;
what is shown is the only canonical numeral of that number. -/
theorem generalText_rounds (hl : tiny.lt x.abs = true) (hu : x.abs.lt huge = true) :
    let places := 10 - (x.abs.text.takeWhile (· != '.')).length
    ∃ (r : ℚ) (t : Text), decimalValue? '.' x.abs.text = some r ∧
      Checked.generalText x = .ok (signText (x.lt 0) ++ t) ∧
      generalText x = signText (x.lt 0) ++ t ∧
      (x.abs.text.length ≤ 11 → t = x.abs.text) ∧
      (11 < x.abs.text.length →
        decimalValue? '.' t = some (⌊r * 10 ^ places + 1 / 2⌋ / 10 ^ places : ℚ) ∧
        t.IsCanonical ∧
        ∀ u : Text, u.IsCanonical → decimalValue? '.' u = decimalValue? '.' t → u = t) := by
  obtain ⟨m, hx, -, ht⟩ := exists_fixed hl hu
  have hm : x.abs.text = m.shortest.text := by rw [hx]; rfl
  rw [hm]
  intro places
  refine ⟨m.shortest.value, fixed m, m.shortest.decimalValue?_text, ?_, ht, fixed_of_length_le,
    fun h => ?_⟩
  · rw [Checked.generalText_ok, ht]
  · rw [fixed_of_lt_length h, Decimal.decimalValue?_pointedAt, ← Decimal.roundAt_eq_floor,
      Int.cast_natCast]
    refine ⟨rfl, isCanonical_pointedAt _ _, fun u hc hv => ?_⟩
    exact hc.eq_of_decimalValue? (isCanonical_pointedAt _ _)
      (hv.trans (Decimal.decimalValue?_pointedAt _ _).symm)

theorem generalText_rounds_carried :
    let x := (⟨999999999999, -2⟩ : Decimal).toBinary64 true
    let places := 10 - (x.abs.text.takeWhile (· != '.')).length
    (tiny.lt x.abs = true ∧ x.abs.lt huge = true) ∧
      ∃ (r : ℚ) (t : Text), decimalValue? '.' x.abs.text = some r ∧
        Checked.generalText x = .ok (signText (x.lt 0) ++ t) ∧
        generalText x = signText (x.lt 0) ++ t ∧
        (x.abs.text.length ≤ 11 → t = x.abs.text) ∧
        (11 < x.abs.text.length →
          decimalValue? '.' t = some (⌊r * 10 ^ places + 1 / 2⌋ / 10 ^ places : ℚ) ∧
          t.IsCanonical ∧
          ∀ u : Text, u.IsCanonical → decimalValue? '.' u = decimalValue? '.' t → u = t) := by
  intro x places
  have hl : tiny.lt x.abs = true := by decide +kernel
  have hu : x.abs.lt huge = true := by decide +kernel
  exact ⟨⟨hl, hu⟩, generalText_rounds hl hu⟩

lemma length_pointed_le (whole fraction : Text) :
    (Decimal.pointed whole fraction).length ≤ whole.length + (fraction.length + 1) := by
  rw [Decimal.pointed]
  split_ifs <;> simp

lemma dropTrailingZeros_places_zero (places : Nat) :
    dropTrailingZeros (Text.places places 0) = [] := by
  rw [places_zero, dropTrailingZeros]
  simp

lemma length_pointedAt_le {i places n : Nat} (hi : 0 < i) (h : n ≤ 10 ^ i * 10 ^ places) :
    (Decimal.pointedAt places n).length ≤ i + (places + 1) := by
  have hp : 0 < 10 ^ places := Nat.pow_pos (by decide)
  rw [Decimal.pointedAt]
  rcases h.lt_or_eq with hlt | rfl
  · apply (length_pointed_le _ _).trans
    have hw := (length_numeral_le_iff hi).2 ((Nat.div_lt_iff_lt_mul hp).2 hlt)
    have hf := length_dropTrailingZeros_le (Text.places places (n % 10 ^ places))
    rw [length_places] at hf
    exact Nat.add_le_add hw (Nat.succ_le_succ hf)
  · rw [Nat.mul_div_cancel _ hp, Nat.mul_mod_left, dropTrailingZeros_places_zero]
    exact (length_numeral_pow i).le.trans (Nat.add_le_add_left (Nat.succ_pos _) i)

lemma mod_of_fraction_eq_nil {d : Decimal} (h : d.fraction = []) :
    d.numerator % d.denominator = 0 := by
  obtain ⟨k, hk⟩ :=
    exists_dropTrailingZeros (Text.places (-d.exponent).toNat (d.numerator % d.denominator))
  change _ = d.fraction ++ _ at hk
  have hv := congrArg valueOf hk
  rwa [h, List.nil_append, valueOf_zeros, valueOf_places, ← Decimal.denominator, Nat.mod_mod] at hv

lemma halfUp_of_mod {n d : Nat} (hd : 0 < d) (h : n % d = 0) : Rounding.halfUp n d = n / d := by
  conv => lhs; rw [← Nat.div_mul_cancel (Nat.dvd_of_mod_eq_zero h), Rounding.halfUp_mul _ hd]

lemma fixed_of_width (h : (m.shortest.text.takeWhile (· != '.')).length = 11) :
    fixed m = numeral (m.shortest.roundAt 0) := by
  rcases Nat.lt_or_ge 11 m.shortest.text.length with hl | hl
  · rw [fixed_of_lt_length hl, h, Decimal.pointedAt, Nat.pow_zero, Nat.div_one]
    rfl
  · rw [whole_text] at h
    have hf : m.shortest.fraction = [] := by
      by_contra hf
      rw [Decimal.text_eq, Decimal.pointed, if_neg (by simpa using hf), List.length_append,
        List.length_cons] at hl
      omega
    rw [fixed_of_length_le hl, Decimal.text_eq, hf, Decimal.roundAt, Nat.pow_zero, Nat.mul_one,
      halfUp_of_mod m.shortest.denominator_pos (mod_of_fraction_eq_nil hf)]
    rfl

lemma length_fixed_le (h : (m.shortest.text.takeWhile (· != '.')).length < 11) :
    (fixed m).length ≤ 11 := by
  rcases Nat.lt_or_ge 11 m.shortest.text.length with hl | hl
  · rw [fixed_of_lt_length hl]
    rw [whole_text] at h ⊢
    let d := m.shortest
    let i := (numeral (d.numerator / d.denominator)).length
    have hn : d.numerator < 10 ^ i * d.denominator :=
      (Nat.div_lt_iff_lt_mul d.denominator_pos).1 (lt_pow_length_numeral _)
    have hr : d.roundAt (10 - i) ≤ 10 ^ i * 10 ^ (10 - i) := by
      apply Binary64.halfUp_le d.denominator_pos
      rw [Nat.mul_right_comm]
      exact Nat.mul_le_mul_right _ hn.le
    apply (length_pointedAt_le (length_numeral_pos _) hr).trans
    change i + (10 - i + 1) ≤ 11
    change i < 11 at h
    omega
  · rw [fixed_of_length_le hl]
    exact hl

/-- The least number of eleven digits that are rounded up to twelve. -/
def widthLimit : Decimal := ⟨999999999995, -1⟩

lemma widthLimit_eq : ∃ w : Magnitude, widthLimit.toBinary64 false = .finite false w ∧
    2 * w.shortest.numerator = 199999999999 * w.shortest.denominator ∧
    2 * w.quanta = 199999999999 * perUnit :=
  ⟨⟨199999999999 * 2 ^ (1073 : Nat), by decide +kernel, by decide +kernel⟩, by decide +kernel,
    by decide +kernel, by decide +kernel⟩

lemma mul_lt_mul_iff_of_two_mul {a b k n unit : Nat} (hu : 0 < unit) (h : 2 * n = k * unit) :
    unit * a < n * b ↔ 2 * a < k * b :=
  calc unit * a < n * b ↔ 2 * (unit * a) < 2 * (n * b) := (Nat.mul_lt_mul_left Nat.two_pos).symm
    _ ↔ unit * (2 * a) < unit * (k * b) := by
      rw [Nat.mul_left_comm, ← Nat.mul_assoc 2 n, h, Nat.mul_comm k, Nat.mul_assoc unit]
    _ ↔ 2 * a < k * b := Nat.mul_lt_mul_left hu

lemma lt_widthLimit_iff :
    Binary64.lt (.finite false m) (widthLimit.toBinary64 false) = true ↔
      2 * m.shortest.numerator < 199999999999 * m.shortest.denominator := by
  obtain ⟨w, hw, hs, hq⟩ := widthLimit_eq
  have hr : Binary64.lt (.finite false m) (.finite false w) = true ↔ m.quanta < w.quanta := by
    simp [Binary64.lt, Binary64.rank, Binary64.signed]
  have hm := mul_lt_mul_iff_of_two_mul (a := m.shortest.numerator)
    (b := m.shortest.denominator) perUnit_pos hq
  rw [hw, hr, ← hm]
  rcases Nat.lt_trichotomy m.quanta w.quanta with hlt | heq | hgt
  · exact iff_of_true hlt (Magnitude.numerator_lt_of_lt w.aligned hlt)
  · obtain rfl : m = w := by
      cases m
      cases w
      cases heq
      rfl
    rw [hm]
    exact iff_of_false (lt_irrefl _) hs.not_lt
  · exact iff_of_false hgt.not_gt (Magnitude.le_numerator_of_lt w.aligned hgt).not_gt

lemma roundAt_zero_lt_iff {d : Decimal} :
    d.roundAt 0 < 10 ^ 11 ↔ 2 * d.numerator < 199999999999 * d.denominator := by
  have hd := d.denominator_pos
  rw [Decimal.roundAt, Rounding.halfUp, Nat.pow_zero, Nat.mul_one,
    Nat.div_lt_iff_lt_mul (by omega)]
  omega

lemma width_eq (hn : m.shortest.numerator / m.shortest.denominator < 10 ^ 11)
    (h : ¬2 * m.shortest.numerator < 199999999999 * m.shortest.denominator) :
    (m.shortest.text.takeWhile (· != '.')).length = 11 := by
  rw [whole_text]
  apply ((length_numeral_le_iff (by decide)).2 hn).eq_of_not_lt
  intro hlt
  have ht := (length_numeral_le_iff (w := 10) (by decide)).1 (Nat.le_of_lt_succ hlt)
  rw [Nat.div_lt_iff_lt_mul m.shortest.denominator_pos] at ht
  omega

lemma fixed_of_lt (hn : m.shortest.numerator / m.shortest.denominator < 10 ^ 11)
    (h : 2 * m.shortest.numerator < 199999999999 * m.shortest.denominator) :
    (fixed m).length ≤ 11 := by
  have hw : (m.shortest.text.takeWhile (· != '.')).length ≤ 11 := by
    rw [whole_text]
    exact (length_numeral_le_iff (by decide)).2 hn
  rcases hw.lt_or_eq with hw | hw
  · exact length_fixed_le hw
  · rw [fixed_of_width hw]
    exact (length_numeral_le_iff (by decide)).2 (roundAt_zero_lt_iff.2 h)

lemma fixed_of_not_lt (hn : m.shortest.numerator / m.shortest.denominator < 10 ^ 11)
    (h : ¬2 * m.shortest.numerator < 199999999999 * m.shortest.denominator) :
    fixed m = numeral (10 ^ 11) := by
  have hle : m.shortest.roundAt 0 ≤ 10 ^ 11 := by
    apply Binary64.halfUp_le m.shortest.denominator_pos
    rw [Nat.pow_zero, Nat.mul_one]
    exact ((Nat.div_lt_iff_lt_mul m.shortest.denominator_pos).1 hn).le
  have hge := Nat.le_of_not_lt (mt roundAt_zero_lt_iff.1 h)
  rw [fixed_of_width (width_eq hn h), hle.antisymm hge]

/-- The text without its sign has at most eleven characters below 99999999999.5. From there on its
eleven digits are rounded up to twelve, which are not cut again. -/
theorem length_generalText (hl : tiny.lt x.abs = true) (hu : x.abs.lt huge = true) :
    ∃ t : Text, generalText x = signText (x.lt 0) ++ t ∧
      (x.abs.lt (widthLimit.toBinary64 false) = true → t.length ≤ 11) ∧
      (x.abs.lt (widthLimit.toBinary64 false) = false → t = numeral (10 ^ 11)) := by
  obtain ⟨m, hx, hq, ht⟩ := exists_fixed hl hu
  have hn := Magnitude.shortest_lt (by decide) hq
  rw [hx, ← Bool.not_eq_true, lt_widthLimit_iff]
  exact ⟨fixed m, ht, fixed_of_lt hn, fixed_of_not_lt hn⟩

theorem length_generalText_limit :
    let x := widthLimit.toBinary64 true
    (tiny.lt x.abs = true ∧ x.abs.lt huge = true) ∧
      ∃ t : Text, generalText x = signText (x.lt 0) ++ t ∧
        (x.abs.lt (widthLimit.toBinary64 false) = true → t.length ≤ 11) ∧
        (x.abs.lt (widthLimit.toBinary64 false) = false → t = numeral (10 ^ 11)) := by
  intro x
  have hl : tiny.lt x.abs = true := by decide +kernel
  have hu : x.abs.lt huge = true := by decide +kernel
  exact ⟨⟨hl, hu⟩, length_generalText hl hu⟩

theorem exists_twelve_characters : ∃ x : Binary64, tiny.lt x.abs = true ∧ x.abs.lt huge = true ∧
    generalText x = "100000000000".toList ∧ 11 < (generalText x).length :=
  ⟨widthLimit.toBinary64 false, by decide +kernel, by decide +kernel, by decide +kernel,
    by decide +kernel⟩

end General

end SheetFormat
