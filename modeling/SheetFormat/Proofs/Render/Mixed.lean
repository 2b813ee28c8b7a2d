import SheetFormat.Proofs.Number.Unsigned
import SheetFormat.Proofs.Render.LowestTerms
import SheetFormat.Proofs.Section.Kinds

namespace SheetFormat

attribute [local instance (2000)] instPowNat
attribute [local irreducible] perUnit limit

namespace Binary64

variable {x : Binary64} {s : Bool} {m : Magnitude} {n k : Nat}

lemma atMost_zero_iff : (finite s m).AtMost 0 ↔ m.quanta = 0 := by
  constructor
  · rintro ⟨t, k, he, hk⟩
    cases he
    rw [Nat.zero_mul] at hk
    exact Nat.le_zero.1 hk
  · intro h
    exact ⟨s, m, rfl, by rw [h]; exact Nat.zero_le _⟩

lemma AtMost.div_ofNat (hx : x.AtMost n) (hn : n ≤ exactLimit) (h0 : 0 < k)
    (hk : k ≤ exactLimit) : (x / ofNat k).AtMost n := by
  obtain ⟨s, m, rfl, hm⟩ := hx
  rw [div_ofNat_eq s m h0 hk]
  apply atMost_ofQuanta hn _ (Nat.mul_pos h0 perUnit_pos)
  exact Nat.mul_le_mul hm (Nat.le_mul_of_pos_left _ h0)

lemma AtMost.reduced_zero (hx : x.AtMost 0) : x.reduced = x := by
  obtain ⟨s, m, rfl, hm⟩ := hx
  rw [Nat.zero_mul] at hm
  rw [reduced, if_pos (Nat.le_zero.1 hm)]

lemma unsigned_or_zero (hf : x.isFinite = true) (h0 : le 0 x = true) :
    x.Unsigned ∨ x.AtMost 0 := by
  obtain ⟨s, m, rfl⟩ := exists_finite hf
  cases s with
  | false => exact .inl (.finite m)
  | true =>
    have hm : 0 ≤ -(m.quanta : Int) := zero_le_iff.1 h0
    exact .inr (atMost_zero_iff.2 (by omega))

end Binary64

namespace Scaling

variable {x : Binary64}

lemma thousandths_atMost_zero (n : Nat) (h : x.AtMost 0) : (thousandths n x).AtMost 0 := by
  induction n generalizing x with
  | zero => exact h
  | succ n ih => exact ih (h.div_ofNat (Nat.zero_le _) (by decide) (by decide))

lemma apply_atMost_zero (s : Scaling) (h : x.AtMost 0) : (s.apply x).AtMost 0 := by
  apply thousandths_atMost_zero
  split
  · have hp := h.mul_ofNat (k := 100) (by decide) (by decide)
    rwa [Nat.zero_mul] at hp
  · exact h

lemma exists_reduced_apply (s : Scaling) (hf : x.isFinite = true)
    (h0 : Binary64.le 0 x = true) (hr : (s.apply x).reduced.isFinite = true) :
    ∃ t m, (s.apply x).reduced = .finite t m ∧ (t = true → m.quanta = 0) := by
  rcases Binary64.unsigned_or_zero hf h0 with hu | hz
  · obtain ⟨m, hm⟩ := (s.unsigned_apply hu).reduced.eq_finite hr
    exact ⟨false, m, hm, Bool.noConfusion⟩
  · have ha := s.apply_atMost_zero hz
    cases hm : s.apply x with
    | finite t m =>
      rw [hm] at ha
      exact ⟨t, m, ha.reduced_zero, fun _ => Binary64.atMost_zero_iff.1 ha⟩
    | infinite t =>
      rw [hm] at hr
      cases hr
    | nan =>
      rw [hm] at hr
      cases hr

end Scaling

namespace Denominator

variable {d : Denominator} {m : Magnitude}

lemma digits_pos {placeholders : List Placeholder} (h : placeholders ≠ []) :
    1 ≤ digits placeholders :=
  le_min (List.length_pos_iff.2 h) (by decide)

lemma fractionOf_le (h : d.IsProper) (hm : m.quanta < perUnit) :
    (d.fractionOf (.finite false m)).1 ≤ (d.fractionOf (.finite false m)).2 := by
  cases d with
  | bestFit placeholders =>
    exact (bestFraction_of_nonneg (s := false) (digits_pos h) (Int.natCast_nonneg _)
      (Int.ofNat_lt.2 hm)).2
  | fixed value =>
    have hv : value ≤ Binary64.exactLimit := h.2.trans (by decide)
    have hx : (Binary64.finite false m).AtMost 1 :=
      ⟨false, m, rfl, by rw [Nat.one_mul]; exact hm.le⟩
    have hp := hx.mul_ofNat hv (by rwa [Nat.one_mul])
    rw [Nat.one_mul] at hp
    exact (hp.round hv).toNat64_le

lemma fractionOf_zero (h : d.IsProper) (s : Bool) (hm : m.quanta = 0) :
    (d.fractionOf (.finite s m)).1 = 0 := by
  cases d with
  | bestFit placeholders =>
    have hz : (Binary64.finite s m).isZero = true := beq_iff_eq.2 hm
    exact congrArg Prod.fst (bestFraction_of_isZero hz _)
  | fixed value =>
    have hv : value ≤ Binary64.exactLimit := h.2.trans (by decide)
    have hx : (Binary64.finite s m).AtMost 0 := Binary64.atMost_zero_iff.2 hm
    have hp := hx.mul_ofNat hv (by rw [Nat.zero_mul]; exact Nat.zero_le _)
    rw [Nat.zero_mul] at hp
    exact Nat.le_zero.1 (hp.round (Nat.zero_le _)).toNat64_le

end Denominator

namespace FractionLayout

variable {l : FractionLayout} {s : Bool} {m z : Magnitude} {n d w : Nat}

lemma split_balance (hp : l.denominator.IsProper) (hm : l.isMixed = true)
    (hs : s = true → m.quanta = 0) :
    ∃ n₀ d w n z, l.denominator.fractionOf (Binary64.finite s m).fract = (n₀, d) ∧
      n < d ∧ w * d + n = m.quanta / perUnit * d + n₀ ∧
      l.split (.finite s m) = ⟨.finite s z, n, d⟩ ∧ z.quanta = w * perUnit ∧
      (s = true → w = 0) := by
  have hle := Denominator.fractionOf_le hp m.fraction_lt
  have hpos := Denominator.fractionOf_denominator_pos hp (.finite false m.fraction)
  have hz := Denominator.fractionOf_zero (m := m.fraction) hp false
  rw [split, if_pos hm, Binary64.fract_finite hs]
  obtain ⟨⟨n₀, d⟩, hf⟩ : ∃ f, l.denominator.fractionOf (.finite false m.fraction) = f := ⟨_, rfl⟩
  rw [hf] at hle hpos hz ⊢
  dsimp only at hle hpos hz ⊢
  have hw0 : s = true → m.quanta / perUnit = 0 := fun h => by rw [hs h, Nat.zero_div]
  rcases hle.lt_or_eq with hlt | rfl
  · refine ⟨n₀, d, m.quanta / perUnit, n₀, m.truncated, rfl, hlt, rfl, ?_, rfl, hw0⟩
    rw [if_neg (Nat.not_le.2 hlt), Binary64.trunc_finite]
  · have hq : m.fraction.quanta ≠ 0 := fun h => hpos.ne' (hz h)
    obtain rfl : s = false := by
      cases s with
      | false => rfl
      | true =>
        have h0 : m.fraction.quanta = 0 := (congrArg (· % perUnit) (hs rfl)).trans (Nat.zero_mod _)
        exact absurd h0 hq
    -- only a number below the exact ones has a fraction, so that the carry is exact
    have hw : m.quanta / perUnit + 1 ≤ Binary64.exactLimit :=
      Nat.div_lt_of_lt_mul (by rw [Nat.mul_comm]; exact m.quanta_lt_of_fraction hq)
    have ht : (Binary64.finite false m).trunc = .ofNat (m.quanta / perUnit) := rfl
    refine ⟨n₀, n₀, m.quanta / perUnit + 1, 0, Binary64.whole _ hw, rfl, hpos, ?_, ?_, rfl,
      Bool.noConfusion⟩
    · rw [Nat.succ_mul, Nat.add_zero]
    · rw [if_pos le_rfl, Nat.div_self hpos, Nat.mod_self, ht, Binary64.ofNat_add hw,
        Binary64.ofNat_eq_finite hw]

lemma isOptional_iff {part : NumberPart} :
    isOptional part = true ↔
      part = .field .hash ∨ part = .field .question ∨ part = .literal ' ' := by
  cases part with
  | field p => cases p <;> decide
  | literal c => simp [isOptional]
  | currency symbol => simp [isOptional]
  | text => simp [isOptional]

lemma wholeText_eq (hz : z.quanta = w * perUnit) (hs : s = true → w = 0) :
    l.wholeText ⟨.finite s z, n, d⟩ =
      if w = 0 ∧ n ≠ 0 then
        if l.whole.all isOptional then [] else spread [] l.whole []
      else spread [] l.whole (Text.numeral w) := by
  have hp := perUnit_pos
  by_cases hw : w = 0
  · subst hw
    have hi : (Binary64.finite s z).isZero = true := by
      rw [Binary64.isZero, hz, Nat.zero_mul]
      rfl
    rw [wholeText, if_pos hi]
    by_cases hn : n = 0
    · rw [if_pos hn, if_neg fun h => h.2 hn]
      rfl
    · have hc : 0 = 0 ∧ n ≠ 0 := ⟨rfl, hn⟩
      rw [if_neg hn, if_pos hc]
  · have hi : ¬(Binary64.finite s z).isZero = true := by
      rw [Binary64.isZero, hz, beq_iff_eq]
      exact (Nat.mul_pos (Nat.pos_of_ne_zero hw) hp).ne'
    have hf : s = false := Bool.eq_false_iff.2 fun h => hw (hs h)
    rw [wholeText, if_neg hi, if_neg fun h => hw h.1, wholeDigits, hz, hf, Nat.mul_div_cancel w hp]
    rfl

lemma fractionText_blank_iff (hm : l.isMixed = true) (x : MixedNumber) :
    (∀ c ∈ l.fractionText x, c = ' ') ↔ x.numerator = 0 := by
  rw [fractionText, hm, Bool.true_and]
  by_cases hn : x.numerator = 0
  · rw [if_pos (decide_eq_true hn)]
    exact iff_of_true (fun c hc => List.eq_of_mem_replicate hc) hn
  · rw [if_neg (by simpa using hn)]
    refine iff_of_false (fun h => ?_) hn
    exact absurd (h '/' (List.mem_append_right _ (List.mem_cons_self ..))) (by decide)

/-- The whole number and the fraction that are shown add up to those the number was split into, and
the fraction is proper. It is blank where it is zero; the whole number is left out where it is zero,
the fraction is not, and nothing in front of the numerator has to be shown. -/
theorem render_conserves {code : Text} {s : Section} {x : Binary64}
    (hs : s ∈ (NumberFormat.parse code).sections) (hl : s.body = .fraction l)
    (hm : l.isMixed = true) (hx : x.isFinite = true) (h0 : Binary64.le 0 x = true)
    (hr : (l.scaling.apply x).reduced.isFinite = true) :
    ∃ negative t w₀ n₀ d w n whole fraction,
      (l.scaling.apply x).reduced.trunc = .finite negative t ∧ t.quanta = w₀ * perUnit ∧
      l.denominator.fractionOf (l.scaling.apply x).reduced.fract = (n₀, d) ∧
      n < d ∧ w * d + n = w₀ * d + n₀ ∧
      Checked.renderFraction l x = .ok (l.render x) ∧
      l.render x = whole ++ fraction ++ l.suffix.flatMap (fixedText []) ∧
      ((∀ c ∈ fraction, c = ' ') ↔ n = 0) ∧
      (n = 0 → fraction = List.replicate (l.numerator.length + 1 + l.denominator.width) ' ' ∧
        whole = spread [] l.whole (Text.numeral w)) ∧
      (n ≠ 0 → fraction = l.numeratorText n ++ '/' :: l.denominator.text d) ∧
      (w ≠ 0 → whole = spread [] l.whole (Text.numeral w)) ∧
      (w = 0 → n ≠ 0 → whole =
        if ∀ part ∈ l.whole, part = .field .hash ∨ part = .field .question ∨ part = .literal ' '
        then [] else spread [] l.whole []) := by
  have hp : l.IsProper := by
    have h := NumberFormat.body_isProper hs
    rwa [hl] at h
  obtain ⟨negative, m, hf, hz⟩ := l.scaling.exists_reduced_apply hx h0 hr
  obtain ⟨n₀, d, w, n, z, hd, hnd, hsum, hsplit, hw, hw0⟩ := split_balance hp.denominator hm hz
  have hall : l.whole.all isOptional = true ↔
      ∀ part ∈ l.whole, part = .field .hash ∨ part = .field .question ∨ part = .literal ' ' := by
    simp only [List.all_eq_true, isOptional_iff]
  have hrender : l.render x = l.wholeText ⟨.finite negative z, n, d⟩ ++
      l.fractionText ⟨.finite negative z, n, d⟩ ++ l.suffix.flatMap (fixedText []) := by
    rw [render, hf, hsplit]
  rw [hf]
  refine ⟨negative, m.truncated, m.quanta / perUnit, n₀, d, w, n, _, _,
    Binary64.trunc_finite negative m, rfl, hd, hnd, hsum,
    Checked.renderFraction_ok hp.denominator x, hrender, fractionText_blank_iff hm _,
    fun hn => ⟨?_, ?_⟩, fun hn => ?_, fun h => ?_, fun h hn => ?_⟩
  · rw [fractionText, hm, Bool.true_and, if_pos (decide_eq_true hn)]
  · rw [wholeText_eq hw hw0, if_neg fun h => h.2 hn]
  · rw [fractionText, hm, Bool.true_and, if_neg (by simpa using hn)]
  · rw [wholeText_eq hw hw0, if_neg fun h' => h h'.1]
  · rw [wholeText_eq hw hw0, if_pos ⟨h, hn⟩]
    simp only [hall]

theorem render_conserves_carried :
    let l : FractionLayout := ⟨[.field .hash, .literal ' '], [.question], .bestFit [.question], [],
      ⟨false, 0, false⟩⟩
    let s : Section := ⟨.fraction l, none⟩
    let x := Binary64.ofNat 95 / .ofNat 32
    s ∈ (NumberFormat.parse "# ?/?".toList).sections ∧ l.isMixed = true ∧ x.isFinite = true ∧
      Binary64.le 0 x = true ∧ (l.scaling.apply x).reduced.isFinite = true ∧
      l.render x = "3    ".toList ∧
      ∃ negative t w₀ n₀ d w n whole fraction,
        (l.scaling.apply x).reduced.trunc = .finite negative t ∧ t.quanta = w₀ * perUnit ∧
        l.denominator.fractionOf (l.scaling.apply x).reduced.fract = (n₀, d) ∧
        n < d ∧ w * d + n = w₀ * d + n₀ ∧
        Checked.renderFraction l x = .ok (l.render x) ∧
        l.render x = whole ++ fraction ++ l.suffix.flatMap (fixedText []) ∧
        ((∀ c ∈ fraction, c = ' ') ↔ n = 0) ∧
        (n = 0 → fraction = List.replicate (l.numerator.length + 1 + l.denominator.width) ' ' ∧
          whole = spread [] l.whole (Text.numeral w)) ∧
        (n ≠ 0 → fraction = l.numeratorText n ++ '/' :: l.denominator.text d) ∧
        (w ≠ 0 → whole = spread [] l.whole (Text.numeral w)) ∧
        (w = 0 → n ≠ 0 → whole =
          if ∀ part ∈ l.whole, part = .field .hash ∨ part = .field .question ∨ part = .literal ' '
          then [] else spread [] l.whole []) := by
  intro l s x
  have hs : s ∈ (NumberFormat.parse "# ?/?".toList).sections := by decide +kernel
  have hm : l.isMixed = true := by decide
  have hx : x.isFinite = true := by decide +kernel
  have h0 : Binary64.le 0 x = true := by decide +kernel
  have hr : (l.scaling.apply x).reduced.isFinite = true := by decide +kernel
  exact ⟨hs, hm, hx, h0, hr, by decide +kernel, render_conserves hs rfl hm hx h0 hr⟩

end FractionLayout

end SheetFormat
