import SheetFormat.Proofs.Checked.Render
import SheetFormat.Proofs.Render.Integers
import SheetFormat.Proofs.Render.Mixed

namespace SheetFormat

attribute [local instance (2000)] instPowNat
attribute [local irreducible] perUnit limit

section Grouping

variable {separator : Char} {t : Text}

lemma length_groupDigits (separator : Char) (t : Text) :
    (groupDigits separator t).length = t.length + (t.length - 1) / 3 := by
  induction t with
  | nil => rfl
  | cons d t ih =>
    rw [groupDigits]
    split_ifs with h
    · obtain ⟨hm, hn⟩ := h
      have hl : 0 < t.length := List.length_pos_iff.2 hn
      simp only [List.length_cons, ih]
      omega
    · have hz : t.length % 3 = 0 → t.length = 0 := by
        intro hm
        by_contra hl
        exact h ⟨hm, fun hn => hl (List.length_eq_zero_iff.2 hn)⟩
      simp only [List.length_cons, ih]
      omega

lemma groupThousands_eq_self_iff :
    groupThousands separator t = t ↔ (lastRun Char.isDigit t).length ≤ 3 := by
  have hc := lastRun_cut Char.isDigit t
  rw [groupThousands_eq]
  constructor
  · intro h
    have hl := congrArg List.length (h.trans hc.symm)
    simp only [List.length_append, length_groupDigits] at hl
    omega
  · intro h
    rw [groupDigits_of_length_le h, hc]

end Grouping

section Spread

variable {front back parts : List NumberPart}

lemma spread_append (h : placeholderCount back = 0) (text digits : Text) :
    spread text (front ++ back) digits = spread text front digits ++ spread text back [] := by
  induction front generalizing digits with
  | nil => exact spread_of_count h text digits
  | cons part front ih =>
    cases hp : part.isField with
    | false =>
      rw [List.cons_append, spread_fixed hp, spread_fixed hp, ih, List.append_assoc]
    | true =>
      obtain ⟨p, rfl⟩ := exists_field hp
      have hc : placeholderCount (front ++ back) = placeholderCount front := by
        have ha : placeholderCount (front ++ back) =
            placeholderCount front + placeholderCount back := List.countP_append
        rw [ha, h, Nat.add_zero]
      rw [List.cons_append, spread, spread, hc, ih, List.append_assoc]

lemma spread_of_no_text (h : ∀ p ∈ parts, p.isText = false) (text digits : Text) :
    spread text parts digits = spread [] parts digits := by
  induction parts generalizing digits with
  | nil => rfl
  | cons part parts ih =>
    have ht := ih fun p hp => h p (List.mem_cons_of_mem _ hp)
    cases part with
    | text => exact absurd (h .text (List.mem_cons_self ..)) (by decide)
    | field p => rw [spread, spread, ht]
    | _ => rw [spread_fixed rfl, spread_fixed rfl, ht]; rfl

end Spread

namespace NumberLayout

def ofWhole (parts : List NumberPart) (grouped : Bool) : NumberLayout :=
  ⟨parts, none, none, ⟨false, 0, grouped⟩⟩

variable {parts : List NumberPart} {grouped : Bool} {w : Nat}

lemma wholeParts_ofWhole : (ofWhole parts grouped).wholeParts = parts :=
  if_neg fun h => by cases h.1

lemma render_ofWhole_of_split (ht : ∀ p ∈ parts, p.isText = false) {x : Binary64}
    {digits : Text} (hx : x.splitRounded 0 = (digits, [])) (locale : Locale) :
    (ofWhole parts grouped).render locale x =
      (ofWhole parts grouped).separate locale
        (spread [] (ofWhole parts grouped).front (significantDigits digits)) ++
      spread [] (ofWhole parts grouped).behind [] := by
  have hp : (ofWhole parts grouped).places = 0 := rfl
  have hm : ∀ p ∈ (ofWhole parts grouped).front ++ (ofWhole parts grouped).behind,
      p.isText = false := by
    rwa [front_append_behind, wholeParts_ofWhole]
  change (ofWhole parts grouped).positional locale (generalText x) x = _
  rw [positional, hp, hx]
  dsimp only
  rw [NumberLayout.grouped, spread_of_no_text fun p h => hm p (List.mem_append_left _ h),
    spread_of_no_text fun p h => hm p (List.mem_append_right _ h)]
  exact List.append_nil _

lemma render_ofWhole (ht : ∀ p ∈ parts, p.isText = false) (locale : Locale) (h0 : w ≠ 0)
    (hw : w < 10 ^ 15) :
    (ofWhole parts grouped).render locale (.ofNat w) =
      (ofWhole parts grouped).separate locale
        (spread [] (ofWhole parts grouped).front (Text.numeral w)) ++
      spread [] (ofWhole parts grouped).behind [] := by
  have he : w ≤ Binary64.exactLimit := hw.le.trans (by decide)
  have hs : (Binary64.ofNat w).splitRounded 0 = (Text.numeral w, []) := by
    rw [Binary64.ofNat_eq_finite he]
    exact splitRounded_whole he hw
  have hd : Text.numeral w ≠ ['0'] := by
    intro hd
    have hv := congrArg Text.valueOf hd
    rw [Text.valueOf_numeral] at hv
    exact h0 hv
  rw [render_ofWhole_of_split ht hs, significantDigits, if_neg hd]

end NumberLayout

namespace FractionLayout

variable {l : FractionLayout} {shown : MixedNumber} {w : Nat}

def wholeNumber (l : FractionLayout) : NumberLayout := .ofWhole l.whole l.scaling.grouped

def wholeDigitsText (l : FractionLayout) (w : Nat) : Text :=
  spread [] l.wholeNumber.front (Text.numeral w)

lemma wholeText_of_ofNat (hs : shown.whole = .ofNat w) (h0 : w ≠ 0) (hw : w < 10 ^ 15) :
    l.wholeText shown = l.wholeDigitsText w ++ spread [] l.wholeNumber.behind [] := by
  have he : w ≤ Binary64.exactLimit := hw.le.trans (by decide)
  obtain ⟨whole, n, d⟩ := shown
  obtain rfl : whole = .ofNat w := hs
  have hz : (Binary64.whole w he).quanta = w * perUnit := rfl
  rw [Binary64.ofNat_eq_finite he, wholeText_eq hz Bool.noConfusion, if_neg fun h => h0 h.1,
    wholeDigitsText, ← spread_append (NumberLayout.placeholderCount_behind _),
    NumberLayout.front_append_behind]
  exact congrArg (spread [] · _) NumberLayout.wholeParts_ofWhole.symm

lemma no_text_of_section {s : Section} (hl : s.body = .fraction l)
    (ht : s.hasTextPlaceholder = false) : ∀ p ∈ l.whole, p.isText = false := by
  intro p hp
  rw [Section.hasTextPlaceholder, hl] at ht
  exact Bool.eq_false_iff.2 fun h =>
    absurd ht (by simp [List.any_eq_true.2 ⟨p, List.mem_append_left _ hp, h⟩])

/-- In front of the numerator a fraction shows its whole number as a number section with the same
parts and no grouping. One that groups shows the same exactly if the digits are three at most. -/
theorem renderNumber_whole {code : Text} {s : Section} {x : Binary64}
    (hs : s ∈ (NumberFormat.parse code).sections) (hl : s.body = .fraction l)
    (ht : s.hasTextPlaceholder = false)
    (hsplit : l.split (l.scaling.apply x.abs).reduced = shown) (hw : shown.whole = .ofNat w)
    (h0 : w ≠ 0) (h15 : w < 10 ^ 15) (unsigned : Bool) (o : Options) :
    ∃ whole rest,
      s.renderNumber unsigned o x = .ok (signText (x.lt 0 && !unsigned) ++ whole ++ rest) ∧
      Checked.renderSection s unsigned o x = .ok (s.renderNumber unsigned o x) ∧
      rest = l.fractionText shown ++ l.suffix.flatMap (fixedText []) ∧
      whole = (NumberLayout.ofWhole l.whole false).render o.locale (.ofNat w) ∧
      l.wholeNumber.render o.locale (.ofNat w) =
        l.wholeNumber.separate o.locale (l.wholeDigitsText w) ++
          spread [] l.wholeNumber.behind [] ∧
      (whole = l.wholeNumber.render o.locale (.ofNat w) ↔
        l.scaling.grouped = false ∨ (lastRun Char.isDigit (l.wholeDigitsText w)).length ≤ 3) := by
  have hn := no_text_of_section hl ht
  have hwhole := wholeText_of_ofNat (l := l) hw h0 h15
  have hp : l.wholeNumber.render o.locale (.ofNat w) =
      l.wholeNumber.separate o.locale (l.wholeDigitsText w) ++
        spread [] l.wholeNumber.behind [] := NumberLayout.render_ofWhole hn o.locale h0 h15
  refine ⟨l.wholeText shown, _, ?_,
    Checked.renderSection_ok (NumberFormat.body_isProper hs) unsigned o x, rfl, ?_, hp, ?_⟩
  · rw [Section.renderNumber, hl]
    simp only [render, hsplit, List.append_assoc]
  · rw [hwhole, NumberLayout.render_ofWhole hn o.locale h0 h15]
    rfl
  · rw [hwhole, hp, List.append_left_inj, NumberLayout.separate]
    cases hg : l.scaling.grouped with
    | false =>
      have hf : l.wholeNumber.scaling.grouped = false := hg
      simp [hf]
    | true =>
      have hf : l.wholeNumber.scaling.grouped = true := hg
      simp [hf, eq_comm (a := l.wholeDigitsText w), groupThousands_eq_self_iff]

theorem renderNumber_whole_separated :
    let whole : List NumberPart := [.currency ['€'], .field .hash, .field .hash, .field .hash,
      .field .zero, .literal ' ']
    let l : FractionLayout := ⟨whole, [.question], .fixed 4, [], ⟨false, 0, true⟩⟩
    let s : Section := ⟨.fraction l, none⟩
    let x := Binary64.ofInt (-5003) / .ofNat 4
    let plain := (NumberLayout.ofWhole whole true).render .english (.ofNat 1250)
    s ∈ (NumberFormat.parse "[$€]#,##0 ?/4".toList).sections ∧ s.hasTextPlaceholder = false ∧
      (l.split (l.scaling.apply x.abs).reduced).whole = .ofNat 1250 ∧
      s.renderNumber false .standard x = .ok "-€1250 3/4".toList ∧ plain = "€1,250 ".toList ∧
      (NumberLayout.ofWhole whole false).render .english (.ofNat 1250) = "€1250 ".toList ∧
      "€1250 ".toList ≠ plain := by
  intro whole l s x plain
  have hs : s ∈ (NumberFormat.parse "[$€]#,##0 ?/4".toList).sections := by decide +kernel
  have ht : s.hasTextPlaceholder = false := by decide
  have hw : (l.split (l.scaling.apply x.abs).reduced).whole = .ofNat 1250 := by decide +kernel
  obtain ⟨front, rest, -, -, -, hf, hp, hi⟩ := renderNumber_whole hs rfl ht rfl hw (by decide)
    (by decide) false .standard
  have hplain : plain = "€1,250 ".toList := hp.trans (by decide +kernel)
  have hfront : front = "€1250 ".toList := hf.trans (by decide +kernel)
  refine ⟨hs, ht, hw, by decide +kernel, hplain, by rw [← hfront]; exact hf.symm, ?_⟩
  exact fun h => absurd (hi.1 (hfront.trans h)) (by decide +kernel)

theorem exists_ungrouped_whole :
    let x := Binary64.ofNat 2469 / .ofNat 2
    (NumberFormat.parse "#,##0 ?/?".toList).render? .standard x = .ok "1234 1/2".toList ∧
      ¬∀ code (s : Section) (l : FractionLayout) o y w rest,
        s ∈ (NumberFormat.parse code).sections → s.body = .fraction l → l.isMixed = true →
          s.hasTextPlaceholder = false → y.isFinite = true → w ≠ 0 → w < 10 ^ 15 →
            (l.split (l.scaling.apply y.abs).reduced).whole = .ofNat w →
              rest = l.fractionText (l.split (l.scaling.apply y.abs).reduced) ++
                l.suffix.flatMap (fixedText []) →
                s.renderNumber false o y =
                  .ok (signText (y.lt 0) ++ l.wholeNumber.render o.locale (.ofNat w) ++ rest) := by
  intro x
  refine ⟨by decide +kernel, fun h => ?_⟩
  let l : FractionLayout := ⟨[.field .hash, .field .hash, .field .hash, .field .zero, .literal ' '],
    [.question], .bestFit [.question], [], ⟨false, 0, true⟩⟩
  let s : Section := ⟨.fraction l, none⟩
  have hs : s ∈ (NumberFormat.parse "#,##0 ?/?".toList).sections := by decide +kernel
  have hr := h _ s l .standard x 1234 "1/2".toList hs rfl (by decide) (by decide)
    (by decide +kernel) (by decide) (by decide) (by decide +kernel) (by decide +kernel)
  exact absurd hr (by decide +kernel)

end FractionLayout

end SheetFormat
