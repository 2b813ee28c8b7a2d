import SheetFormat.Proofs.Render.Mixed

namespace SheetFormat

attribute [local instance (2000)] instPowNat
attribute [local irreducible] perUnit limit

namespace Approximation

lemma nearest_le_largest (target : Binary64) {largest : Nat} (h : 1 ≤ largest) :
    (nearest target largest).2 ≤ largest := by
  rw [nearest]
  split_ifs
  · exact h
  · exact (search_denominator_le target _).trans_eq (Nat.sub_add_cancel h)

end Approximation

lemma bestFraction_denominator_lt (target : Binary64) {digits : Nat} (h : 1 ≤ digits) :
    (bestFraction target digits).2 < 10 ^ digits := by
  have h1 := one_le_largest h
  have hle : (bestFraction target digits).2 ≤ 10 ^ digits - 1 := by
    rw [bestFraction, Nat.max_eq_left h]
    split_ifs
    · exact Approximation.nearest_le_largest target h1
    · exact (Convergents.nearest_isLowest target h1).le_largest
  omega

namespace Denominator

lemma length_fractionOf_le {placeholders : List Placeholder} (h : placeholders ≠ [])
    (target : Binary64) :
    (Text.numeral ((bestFit placeholders).fractionOf target).2).length ≤ placeholders.length := by
  have hd := digits_pos h
  refine ((Text.length_numeral_le_iff hd).2 ?_).trans (Nat.min_le_left ..)
  exact bestFraction_denominator_lt target hd

lemma text_question (q n : Nat) :
    (bestFit (List.replicate q .question)).text n = (Text.numeral n).rightpad q ' ' := by
  have hz : (Placeholder.question == Placeholder.zero) = false := rfl
  simp [text, List.take_replicate, List.count_replicate, hz, List.rightpad]

lemma width_question (q : Nat) : (bestFit (List.replicate q .question)).width = min q 9 := by
  rw [width, digits, List.length_replicate]

end Denominator

namespace FractionLayout

variable {l : FractionLayout} {p q : Nat}

lemma numeratorText_question (h : l.numerator = List.replicate p .question) (n : Nat) :
    l.numeratorText n = (Text.numeral n).leftpad p ' ' := by
  have hb : Placeholder.question.blank = [' '] := rfl
  rw [numeratorText, h, List.length_replicate, List.take_replicate,
    min_eq_left (Nat.sub_le ..), List.flatMap_replicate, hb, List.flatten_replicate_singleton]
  rfl

lemma split_lt (hp : l.denominator.IsProper) (hm : l.isMixed = true) (x : Binary64) :
    (l.split x).numerator < (l.split x).denominator ∧
      (l.split x).denominator = (l.denominator.fractionOf x.fract).2 := by
  have hpos := Denominator.fractionOf_denominator_pos hp x.fract
  rw [split, if_pos hm]
  generalize l.denominator.fractionOf x.fract = f at hpos
  obtain ⟨n, d⟩ := f
  dsimp only at hpos ⊢
  split_ifs with h
  · exact ⟨Nat.mod_lt n hpos, rfl⟩
  · exact ⟨Nat.lt_of_not_le h, rfl⟩

lemma fractionText_of_zero (hm : l.isMixed = true) {shown : MixedNumber}
    (h : shown.numerator = 0) :
    l.fractionText shown =
      List.replicate (l.numerator.length + 1 + l.denominator.width) ' ' := by
  rw [fractionText, hm, Bool.true_and, if_pos (decide_eq_true h)]

lemma fractionText_of_ne_zero {shown : MixedNumber} (h : shown.numerator ≠ 0) :
    l.fractionText shown =
      l.numeratorText shown.numerator ++ '/' :: l.denominator.text shown.denominator := by
  rw [fractionText, if_neg fun hc => h (of_decide_eq_true (Bool.and_eq_true_iff.1 hc).2)]

/-- The text for the fraction of a mixed number over `q` question marks, `p` of them above. -/
structure IsAligned (p q : Nat) (shown : MixedNumber) (field : Text) : Prop where
  blank : shown.numerator = 0 → field = List.replicate (p + 1 + min q 9) ' '
  padded : shown.numerator ≠ 0 → field =
    (Text.numeral shown.numerator).leftpad p ' ' ++
      '/' :: (Text.numeral shown.denominator).rightpad q ' '
  bar : shown.numerator ≠ 0 → field[p]? = some '/'
  length_iff : field.length = p + 1 + q ↔ q ≤ 9 ∨ shown.numerator ≠ 0

lemma isAligned (hp : l.denominator.IsProper) (hm : l.isMixed = true)
    (hn : l.numerator = List.replicate p .question)
    (hd : l.denominator = .bestFit (List.replicate q .question)) (hq : q ≤ p) (x : Binary64) :
    IsAligned p q (l.split x) (l.fractionText (l.split x)) := by
  obtain ⟨hlt, hden⟩ := split_lt hp hm x
  generalize l.split x = shown at hlt hden ⊢
  have hdlen : (Text.numeral shown.denominator).length ≤ q := by
    rw [hd] at hp hden
    rw [hden]
    exact (Denominator.length_fractionOf_le hp _).trans_eq List.length_replicate
  have hnlen : (Text.numeral shown.numerator).length ≤ p :=
    (Text.length_numeral_mono hlt.le).trans (hdlen.trans hq)
  have hleft : ((Text.numeral shown.numerator).leftpad p ' ').length = p := by
    rw [List.length_leftpad, max_eq_left hnlen]
  have hblank : shown.numerator = 0 →
      l.fractionText shown = List.replicate (p + 1 + min q 9) ' ' := by
    intro h
    rw [fractionText_of_zero hm h, hn, hd, List.length_replicate, Denominator.width_question]
  have hfield : shown.numerator ≠ 0 →
      l.fractionText shown = (Text.numeral shown.numerator).leftpad p ' ' ++
        '/' :: (Text.numeral shown.denominator).rightpad q ' ' := by
    intro h
    rw [fractionText_of_ne_zero h, numeratorText_question hn, hd, Denominator.text_question]
  refine ⟨hblank, hfield, fun h => ?_, ?_⟩
  · rw [hfield h, List.getElem?_append_right hleft.le, hleft, Nat.sub_self]
    rfl
  · by_cases h : shown.numerator = 0
    · rw [hblank h, List.length_replicate, Nat.add_left_cancel_iff, min_eq_left_iff]
      simp [h]
    · refine iff_of_true ?_ (.inr h)
      rw [hfield h, List.length_append, hleft, List.length_cons, List.length_rightpad,
        max_eq_left hdlen]
      omega

/-- Beside a whole number a fraction of question marks is as wide as its code, with the bar in its
place, unless it is zero and its denominator has more than nine digits. -/
theorem render_question_field {code : Text} {s : Section}
    (hs : s ∈ (NumberFormat.parse code).sections) (hl : s.body = .fraction l)
    (hm : l.isMixed = true) (hn : l.numerator = List.replicate p .question)
    (hd : l.denominator = .bestFit (List.replicate q .question)) (hq : q ≤ p) (x : Binary64) :
    ∃ shown field, shown = l.split (l.scaling.apply x).reduced ∧
      Checked.renderFraction l x = .ok (l.render x) ∧
      l.render x = l.wholeText shown ++ field ++ l.suffix.flatMap (fixedText []) ∧
      IsAligned p q shown field := by
  have hp : l.IsProper := by
    have h := NumberFormat.body_isProper hs
    rwa [hl] at h
  exact ⟨_, _, rfl, Checked.renderFraction_ok hp.denominator x, rfl,
    isAligned hp.denominator hm hn hd hq _⟩

theorem render_question_field_half :
    let l : FractionLayout := ⟨[.field .hash, .literal ' '],
      List.replicate 3 .question, .bestFit (List.replicate 2 .question), [], ⟨false, 0, false⟩⟩
    let s : Section := ⟨.fraction l, none⟩
    let x := Binary64.ofQuotient false 3 2
    s ∈ (NumberFormat.parse "# ???/??".toList).sections ∧ l.isMixed = true ∧ 2 ≤ 3 ∧
      ∃ shown field, shown = l.split (l.scaling.apply x).reduced ∧
        l.render x = l.wholeText shown ++ field ++ l.suffix.flatMap (fixedText []) ∧
        field = "  1/2 ".toList ∧ IsAligned 3 2 shown field := by
  intro l s x
  have hs : s ∈ (NumberFormat.parse "# ???/??".toList).sections := by decide +kernel
  have hm : l.isMixed = true := by decide
  have hn : (l.split (l.scaling.apply x).reduced).numerator = 1 := by decide +kernel
  have hd : (l.split (l.scaling.apply x).reduced).denominator = 2 := by decide +kernel
  obtain ⟨shown, field, rfl, -, hr, hi⟩ := render_question_field hs rfl hm rfl rfl (by decide) x
  have hf := hi.padded
  rw [hn, hd] at hf
  exact ⟨hs, hm, by decide, _, field, rfl, hr, hf (by decide), hi⟩

theorem exists_short_blank :
    let code := "# ??????????/??????????".toList
    let l : FractionLayout := ⟨[.field .hash, .literal ' '],
      List.replicate 10 .question, .bestFit (List.replicate 10 .question), [], ⟨false, 0, false⟩⟩
    (NumberFormat.parse code).sections = [⟨.fraction l, none⟩] ∧
      l.render (.ofNat 1) = '1' :: List.replicate 21 ' ' ∧
      l.render (.ofQuotient false 3 2) = "1          1/2".toList ++ List.replicate 9 ' ' ∧
      ¬∀ code (s : Section) (l : FractionLayout) p q (x : Binary64),
        s ∈ (NumberFormat.parse code).sections → s.body = .fraction l → l.isMixed = true →
          l.numerator = List.replicate p .question →
            l.denominator = .bestFit (List.replicate q .question) → 1 ≤ q → q ≤ p →
              x.isFinite = true → Binary64.le 0 x = true →
                (l.fractionText (l.split (l.scaling.apply x).reduced)).length = p + 1 + q := by
  intro code l
  have hs : (NumberFormat.parse code).sections = [⟨.fraction l, none⟩] := by decide +kernel
  refine ⟨hs, by decide +kernel, by decide +kernel, fun h => ?_⟩
  have hw := h code ⟨.fraction l, none⟩ l 10 10 (.ofNat 1) (hs ▸ List.mem_singleton_self _) rfl
    (by decide) rfl rfl (by decide) le_rfl (by decide +kernel) (by decide +kernel)
  exact absurd hw (by decide +kernel)

end FractionLayout

end SheetFormat
