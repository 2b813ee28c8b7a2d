import SheetFormat.Proofs.Render.Dispatch
import SheetFormat.Proofs.Render.Fraction
import SheetFormat.Proofs.Render.Value
import SheetFormat.Proofs.Text.Characters

namespace SheetFormat

open Text

def Part.isBare {α : Type} : Part α → Bool
  | .literal c => c == ' ' || c == '%'
  | .field _ => true
  | _ => false

section Digits

variable {parts : List NumberPart} {text digits : Text} {c : Char}

lemma allFigures_fixedText {p : NumberPart} (hp : p.isBare = true) (text : Text) :
    AllFigures (fixedText text p) := by
  cases p with
  | literal c =>
    have hc : c = ' ' ∨ c = '%' := by simpa [Part.isBare] using hp
    rcases hc with rfl | rfl
    · exact allFigures_nil.cons rfl
    · exact allFigures_nil.cons rfl
  | field f => exact allFigures_nil
  | _ => cases hp

lemma allFigures_blank (p : Placeholder) : AllFigures p.blank := by
  cases p with
  | zero => exact allFigures_nil.cons rfl
  | hash => exact allFigures_nil
  | question => exact allFigures_nil.cons rfl

lemma allFigures_spread (hp : parts.all Part.isBare = true) (text : Text)
    (hd : AllFigures digits) : AllFigures (spread text parts digits) := by
  induction parts generalizing digits with
  | nil => exact allFigures_nil
  | cons p parts ih =>
    rw [List.all_cons, Bool.and_eq_true] at hp
    cases hf : p.isField with
    | false =>
      rw [spread_fixed hf]
      exact (allFigures_fixedText hp.1 text).append (ih hp.2 hd)
    | true =>
      obtain ⟨f, rfl⟩ := exists_field hf
      rw [spread]
      refine .append ?_ (ih hp.2 fun c hc => hd c (List.mem_of_mem_drop hc))
      split
      · exact allFigures_blank f
      · exact fun c hc => hd c (List.mem_of_mem_take hc)

lemma mem_spread (h : 0 < placeholderCount parts) (text : Text) (hc : c ∈ digits) :
    c ∈ spread text parts digits := by
  induction parts generalizing digits with
  | nil => exact absurd h (Nat.lt_irrefl 0)
  | cons p parts ih =>
    cases hf : p.isField with
    | false =>
      rw [placeholderCount_fixed hf] at h
      rw [spread_fixed hf]
      exact List.mem_append_right _ (ih h hc)
    | true =>
      obtain ⟨f, rfl⟩ := exists_field hf
      rw [spread]
      by_cases ht : digits.length - placeholderCount parts = 0
      · have hl := List.length_pos_of_mem hc
        rw [ht, List.drop_zero]
        exact List.mem_append_right _ (ih (by omega) hc)
      · simp only [ht, if_false]
        rw [← List.take_append_drop (digits.length - placeholderCount parts) digits,
          List.mem_append] at hc
        rcases hc with hc | hc
        · exact List.mem_append_left _ hc
        · have hl := List.length_pos_of_mem hc
          rw [List.length_drop] at hl
          exact List.mem_append_right _ (ih (by omega) hc)

lemma allFigures_fill (hp : parts.all Part.isBare = true) (hd : AllFigures digits) :
    AllFigures (fill parts digits) := by
  induction parts generalizing digits with
  | nil => exact allFigures_nil
  | cons p parts ih =>
    rw [List.all_cons, Bool.and_eq_true] at hp
    cases hf : p.isField with
    | false =>
      have he : fill (p :: parts) digits = fixedText [] p ++ fill parts digits := by
        cases p with
        | field f => cases hf
        | _ => rfl
      rw [he]
      exact (allFigures_fixedText hp.1 []).append (ih hp.2 hd)
    | true =>
      obtain ⟨f, rfl⟩ := exists_field hf
      cases digits with
      | nil => exact (allFigures_blank f).append (ih hp.2 allFigures_nil)
      | cons d digits =>
        obtain ⟨hd, hr⟩ := List.forall_mem_cons.1 hd
        exact (ih hp.2 hr).cons hd

end Digits

section Rounded

variable {x : Binary64}

lemma allFigures_signText (s : Bool) : AllFigures (signText s) := by
  cases s with
  | false => exact allFigures_nil
  | true => exact allFigures_nil.cons rfl

lemma allDigits_fraction (x : Binary64) (places : Nat) :
    AllDigits (x.splitRounded places).2 := by
  rw [Binary64.splitRounded]
  split
  · exact allDigits_places _ _
  · exact allDigits_zeros places

lemma allFigures_whole (h : x.FitsDigits) (places : Nat) :
    AllFigures (x.splitRounded places).1 := by
  obtain ⟨s, m, hr⟩ := Binary64.exists_finite h.reduced.isFinite
  rw [Binary64.splitRounded, hr]
  exact (allFigures_signText s).append (allFigures_numeral _)

lemma inf_subset_whole {s : Bool} (h : x.reduced = .infinite s) (places : Nat) :
    "inf".toList ⊆ (x.splitRounded places).1 := by
  rw [Binary64.splitRounded, h]
  exact List.subset_append_right _ _

lemma allFigures_significantDigits {t : Text} (h : AllFigures t) :
    AllFigures (significantDigits t) := fun c hc => h c (significantDigits_subset t hc)

lemma subset_significantDigits {t : Text} (h : "inf".toList ⊆ t) :
    "inf".toList ⊆ significantDigits t := by
  rw [significantDigits]
  split
  next ht =>
    rw [ht] at h
    exact absurd (h (List.mem_cons_self ..)) (by decide)
  next => exact h

end Rounded

namespace NumberLayout

variable {l : NumberLayout} {locale : Locale} {x : Binary64}

def wholeShown (l : NumberLayout) : List NumberPart :=
  if l.exponent.isSome then l.whole else l.wholeParts

def showsWhole (l : NumberLayout) : Bool := 0 < placeholderCount l.wholeShown

def isBare (l : NumberLayout) : Bool :=
  (l.whole ++ l.fractional.getD [] ++ (l.exponent.map Prod.snd).getD []).all Part.isBare

lemma isBare_whole (h : l.isBare = true) : l.whole.all Part.isBare = true := by
  rw [isBare, List.all_append, List.all_append] at h
  exact (Bool.and_eq_true_iff.1 (Bool.and_eq_true_iff.1 h).1).1

lemma isBare_wholeParts (h : l.isBare = true) : l.wholeParts.all Part.isBare = true := by
  rw [wholeParts]
  split
  · rw [List.all_append, isBare_whole h]
    rfl
  · exact isBare_whole h

lemma isBare_fractional (h : l.isBare = true) {parts : List NumberPart}
    (hf : l.fractional = some parts) : parts.all Part.isBare = true := by
  rw [isBare, hf, List.all_append, List.all_append] at h
  exact (Bool.and_eq_true_iff.1 (Bool.and_eq_true_iff.1 h).1).2

lemma isBare_exponent (h : l.isBare = true) {mark : ExponentMark} {parts : List NumberPart}
    (he : l.exponent = some (mark, parts)) : parts.all Part.isBare = true := by
  rw [isBare, he, List.all_append] at h
  exact (Bool.and_eq_true_iff.1 h).2

lemma isNumberText_pointed (h : l.isBare = true) {digits : Text} (hd : AllDigits digits) :
    locale.IsNumberText (l.pointed locale digits) := by
  cases hf : l.fractional with
  | none =>
    rw [pointed, hf]
    exact .nil
  | some parts =>
    rw [pointed, hf]
    exact .point (allFigures_fill (isBare_fractional h hf) hd.dropTrailingZeros.allFigures)

lemma grouped_figures (h : l.isBare = true) (general : Text) {digits : Text}
    (hd : AllFigures digits ∨ placeholderCount l.wholeParts = 0) :
    ∀ c ∈ l.grouped locale general digits, isFigure c = true ∨ c = locale.thousands := by
  obtain ⟨front, behind, hp, hc, hg⟩ := l.grouped_eq locale general digits
  have hb := isBare_wholeParts h
  rw [hp, List.all_append, Bool.and_eq_true] at hb
  have hs : AllFigures (spread general front digits) := by
    rcases hd with hd | hd
    · exact allFigures_spread hb.1 general hd
    · rw [spread_of_count (hc.trans hd)]
      exact allFigures_spread hb.1 general allFigures_nil
  rw [hg, List.forall_mem_append]
  refine ⟨?_, fun c hc => .inl (allFigures_spread hb.2 general allFigures_nil c hc)⟩
  split
  · exact fun c hc => (mem_of_mem_groupThousands hc).imp_left (hs c)
  · exact fun c hc => .inl (hs c hc)

lemma subset_grouped (h : 0 < placeholderCount l.wholeParts) (general digits : Text) :
    digits ⊆ l.grouped locale general digits := by
  obtain ⟨front, behind, -, hc, hg⟩ := l.grouped_eq locale general digits
  have hs : digits ⊆ spread general front digits := fun c => mem_spread (hc ▸ h) general
  rw [hg]
  apply List.subset_append_of_subset_left
  split
  · exact List.Subset.trans hs (sublist_groupThousands _ _).subset
  · exact hs

lemma isNumberText_positional (h : l.isBare = true) (general : Text)
    (hx : x.FitsDigits ∨ placeholderCount l.wholeParts = 0) :
    locale.IsNumberText (l.positional locale general x) :=
  (isNumberText_pointed h (allDigits_fraction x l.places)).prepend
    (grouped_figures h general
      (hx.imp_left fun hx => allFigures_significantDigits (allFigures_whole hx l.places)))

lemma inf_subset_positional (h : 0 < placeholderCount l.wholeParts) (general : Text) {s : Bool}
    (hx : x.reduced = .infinite s) : "inf".toList ⊆ l.positional locale general x :=
  List.subset_append_of_subset_left _
    (List.Subset.trans (subset_significantDigits (inf_subset_whole hx l.places))
      (subset_grouped h general _))

end NumberLayout

namespace Scientific

lemma carried_cases (s : Scientific) :
    s.carried = s ∨
      s.carried = ⟨['1'], List.replicate s.fraction.length '0', s.exponent + 1⟩ := by
  rw [carried]
  split
  · exact .inr rfl
  · exact .inl rfl

lemma allDigits_ofBinary64 (places : Nat) (x : Binary64) :
    AllDigits (ofBinary64 places x).fraction := by
  cases x with
  | finite s m =>
    rw [ofBinary64]
    dsimp only
    rcases carried_cases _ with h | h <;> rw [h]
    · exact allDigits_fraction _ places
    · exact allDigits_zeros _
  | infinite s => exact allDigits_fraction (.infinite s) places
  | nan => exact allDigits_fraction .nan places

lemma allFigures_ofBinary64 (places : Nat) {x : Binary64} (hx : x.isFinite = true) :
    AllFigures (ofBinary64 places x).whole := by
  obtain ⟨s, m, rfl⟩ := Binary64.exists_finite hx
  rw [ofBinary64]
  dsimp only
  rcases carried_cases _ with h | h <;> rw [h]
  · exact allFigures_whole (fitsDigits_mantissa m) places
  · exact allFigures_nil.cons rfl

lemma inf_subset_ofBinary64 (places : Nat) (s : Bool) :
    "inf".toList ⊆ (ofBinary64 places (.infinite s)).whole :=
  inf_subset_whole (x := .infinite s) rfl places

end Scientific

namespace NumberLayout

variable {l : NumberLayout} {locale : Locale} {x : Binary64}

lemma isNumberText_scientific (h : l.isBare = true) {mark : ExponentMark}
    {parts : List NumberPart} (he : l.exponent = some (mark, parts))
    (hx : x.FitsDigits ∨ placeholderCount l.whole = 0) :
    locale.IsNumberText (l.scientific locale mark parts x) := by
  let s := Scientific.ofBinary64 l.places x.reduced
  have hw : AllFigures (spread [] l.whole (significantDigits s.whole)) := by
    rcases hx with hx | hx
    · exact allFigures_spread (isBare_whole h) [] (allFigures_significantDigits
        (Scientific.allFigures_ofBinary64 l.places hx.reduced.isFinite))
    · rw [spread_of_count hx]
      exact allFigures_spread (isBare_whole h) [] allFigures_nil
  have hp : locale.IsNumberText (l.pointed locale s.fraction) :=
    isNumberText_pointed h (Scientific.allDigits_ofBinary64 l.places x.reduced)
  have hm : AllFigures (mark.letter ::
      if s.exponent < 0 then ['-'] else if mark.showPlus then ['+'] else []) := by
    apply AllFigures.cons
    · rw [ExponentMark.letter]
      split <;> rfl
    · split_ifs
      · exact allFigures_nil.cons rfl
      · exact allFigures_nil.cons rfl
      · exact allFigures_nil
  have hb := allFigures_spread (isBare_exponent h he) []
    (allFigures_significantDigits (allFigures_numeral s.exponent.natAbs))
  exact ((hp.figures_append hw).append hm).append hb

lemma inf_subset_scientific (h : 0 < placeholderCount l.whole) (mark : ExponentMark)
    (parts : List NumberPart) {s : Bool} (hx : x.reduced = .infinite s) :
    "inf".toList ⊆ l.scientific locale mark parts x := by
  have hw := subset_significantDigits (Scientific.inf_subset_ofBinary64 l.places s)
  rw [scientific, hx]
  intro c hc
  simp only [List.mem_append]
  exact .inl (.inl (.inl (mem_spread h [] (hw hc))))

lemma isNumberText_render (h : l.isBare = true)
    (hx : (l.scaling.apply x).FitsDigits ∨ l.showsWhole = false) :
    locale.IsNumberText (l.render locale x) := by
  have hw : l.showsWhole = false → placeholderCount l.wholeShown = 0 := by simp [showsWhole]
  replace hx := hx.imp_right hw
  rw [render]
  cases he : l.exponent with
  | some e =>
    rw [wholeShown, he] at hx
    exact isNumberText_scientific h he hx
  | none =>
    rw [wholeShown, he] at hx
    exact isNumberText_positional h _ hx

lemma inf_subset_render (h : l.showsWhole = true) {s : Bool}
    (hx : (l.scaling.apply x).reduced = .infinite s) : "inf".toList ⊆ l.render locale x := by
  have hw : 0 < placeholderCount l.wholeShown := by simpa [showsWhole] using h
  rw [render]
  cases he : l.exponent with
  | some e =>
    rw [wholeShown, he] at hw
    exact inf_subset_scientific hw e.1 e.2 hx
  | none =>
    rw [wholeShown, he] at hw
    exact inf_subset_positional hw _ hx

end NumberLayout

attribute [local irreducible] perUnit limit

lemma Denominator.allFigures_text (d : Denominator) (value : Nat) :
    AllFigures (d.text value) := by
  cases d with
  | bestFit placeholders =>
    exact ((allDigits_zeros _).allFigures.append (allFigures_numeral value)).append
      (allFigures_spaces _)
  | fixed n => exact allFigures_numeral value

namespace FractionLayout

variable {l : FractionLayout} {x : Binary64}

def isBare (l : FractionLayout) : Bool := (l.whole ++ l.suffix).all Part.isBare

lemma isFinite_split (l : FractionLayout) (hx : x.FitsDigits ∨ l.isMixed = false) :
    (l.split x).whole.isFinite = true := by
  rw [split]
  by_cases hm : l.isMixed = true
  · have ht := (hx.resolve_right (by simp [hm])).trunc
    have hn := (l.denominator.fractionOf_numerator_lt x.fract).le
    rw [if_pos hm]
    dsimp only
    split
    · exact ht.isFinite_add_ofNat ((Nat.div_le_self ..).trans hn)
    · exact ht.isFinite
  · rw [if_neg hm]
    change (Binary64.ofNat 0).isFinite = true
    rw [Binary64.ofNat_eq_finite (Nat.zero_le _)]
    rfl

lemma split_infinite (hm : l.isMixed = true) (s : Bool) :
    (l.split (.infinite s)).whole = .infinite s := by
  have hn := (l.denominator.fractionOf_numerator_lt (Binary64.infinite s).fract).le
  rw [split, if_pos hm]
  dsimp only
  split
  · obtain ⟨m, hm, -⟩ := Binary64.ofNat_le_word ((Nat.div_le_self ..).trans hn)
    rw [hm]
    rfl
  · rfl

lemma allFigures_wholeText (h : l.whole.all Part.isBare = true) {x : MixedNumber}
    (hx : x.whole.isFinite = true) : AllFigures (l.wholeText x) := by
  have hd : AllFigures (wholeDigits x.whole) := by
    obtain ⟨s, m, hm⟩ := Binary64.exists_finite hx
    rw [hm]
    exact (allFigures_signText s).append (allFigures_numeral _)
  rw [wholeText]
  split_ifs
  · exact allFigures_spread h [] (allFigures_nil.cons rfl)
  · exact allFigures_nil
  · exact allFigures_spread h [] allFigures_nil
  · exact allFigures_spread h [] hd

lemma allFigures_fractionText (l : FractionLayout) (x : MixedNumber) :
    AllFigures (l.fractionText x) := by
  rw [fractionText]
  split
  · exact allFigures_spaces _
  · refine .append (.append ?_ (allFigures_numeral _)) (.cons rfl (l.denominator.allFigures_text _))
    intro c hc
    obtain ⟨p, -, hp⟩ := List.mem_flatMap.1 hc
    exact allFigures_blank p c hp

lemma allFigures_render (h : l.isBare = true)
    (hx : (l.scaling.apply x).FitsDigits ∨ l.isMixed = false) : AllFigures (l.render x) := by
  rw [isBare, List.all_append, Bool.and_eq_true] at h
  have hw := allFigures_wholeText h.1 (l.isFinite_split (hx.imp_left Binary64.FitsDigits.reduced))
  refine (hw.append (l.allFigures_fractionText _)).append fun c hc => ?_
  obtain ⟨p, hp, hm⟩ := List.mem_flatMap.1 hc
  exact allFigures_fixedText (List.all_eq_true.1 h.2 p hp) [] c hm

lemma inf_subset_render (hm : l.isMixed = true) {s : Bool}
    (hx : (l.scaling.apply x).reduced = .infinite s) : "inf".toList ⊆ l.render x := by
  have hw : 0 < placeholderCount l.whole := by
    rw [placeholderCount, List.countP_pos_iff]
    exact List.any_eq_true.1 hm
  have hs : "inf".toList ⊆ l.wholeText (l.split (.infinite s)) := by
    rw [wholeText, split_infinite hm]
    exact fun c hc => mem_spread hw [] (List.mem_append_right _ hc)
  rw [render, hx]
  exact List.subset_append_of_subset_left _ (List.subset_append_of_subset_left _ hs)

end FractionLayout

namespace Section

/-- A section of digits with no currency, no place of a text, and no literals but spaces and
percent signs. -/
def isBare (s : Section) : Bool :=
  match s.body with
  | .number l => l.isBare
  | .fraction l => l.isBare
  | _ => false

def showsWhole (s : Section) : Bool :=
  match s.body with
  | .number l => l.showsWhole
  | .fraction l => l.isMixed
  | _ => false

variable {s : Section} {o : Options} {x : Binary64}

lemma isNumberText_renderNumber (h : s.isBare = true) (unsigned : Bool)
    (hx : (s.scaling.apply x.abs).FitsDigits ∨ s.showsWhole = false) :
    ∃ t, s.renderNumber unsigned o x = .ok t ∧ o.locale.IsNumberText t := by
  rcases s with ⟨body, color⟩
  cases body with
  | fraction l =>
    exact ⟨_, rfl, Locale.isNumberText_of_allFigures
      ((allFigures_signText _).append (FractionLayout.allFigures_render h hx))⟩
  | number l =>
    exact ⟨_, rfl, (NumberLayout.isNumberText_render h hx).figures_append (allFigures_signText _)⟩
  | _ => cases h

lemma inf_subset_renderNumber (h : s.showsWhole = true) (unsigned : Bool) {sign : Bool}
    (hx : (s.scaling.apply x.abs).reduced = .infinite sign) :
    ∃ t, s.renderNumber unsigned o x = .ok t ∧ "inf".toList ⊆ t := by
  rcases s with ⟨body, color⟩
  cases body with
  | fraction l =>
    exact ⟨_, rfl, List.subset_append_of_subset_right _ (FractionLayout.inf_subset_render h hx)⟩
  | number l =>
    exact ⟨_, rfl, List.subset_append_of_subset_right _ (NumberLayout.inf_subset_render h hx)⟩
  | _ => cases h

end Section

namespace NumberFormat

open Binary64

/-- A finite number is shown by figures and separators exactly if its scaled magnitude fits its
fifteen digits or no whole part is shown, and then no name of another number is in its text. A
magnitude up to `10 ^ 306` fits whatever the scaling. -/
theorem render?_figures_iff (f : NumberFormat) (o : Options) (x : Binary64)
    (hx : x.isFinite = true) (hs : (f.select x).1.isBare = true) :
    let s := (f.select x).1
    let y := s.scaling.apply x.abs
    (y.reduced.isFinite = true ↔ y.FitsDigits) ∧ (x.AtMost percentLimit → y.FitsDigits) ∧
      ∃ t, f.render? o x = .ok t ∧
        ((∀ c ∈ t, o.locale.IsNumberChar c) ↔ y.FitsDigits ∨ s.showsWhole = false) ∧
        (y.FitsDigits ∨ s.showsWhole = false → ¬"inf".toList <:+: t ∧ ¬"NaN".toList <:+: t) := by
  intro s y
  have hy : x.abs.isFinite = true := (isFinite_abs x).trans hx
  refine ⟨isFinite_reduced_iff, fun h => s.scaling.apply_fitsDigits h.abs, ?_⟩
  rw [render?_finite f o hx]
  by_cases hc : y.FitsDigits ∨ s.showsWhole = false
  · obtain ⟨t, ht, hn⟩ := Section.isNumberText_renderNumber (o := o) hs (f.select x).2 hc
    refine ⟨t, ht, ⟨fun _ => hc, fun _ => hn.isNumberChar⟩, fun _ => ⟨?_, ?_⟩⟩
    · exact hn.not_infix rfl rfl rfl (by decide)
    · exact hn.not_infix rfl rfl rfl (by decide)
  · rw [not_or, Bool.not_eq_false] at hc
    obtain ⟨sign, hr⟩ := (s.scaling.reduced_apply_cases hy).resolve_left hc.1 |>.2
    obtain ⟨t, ht, hi⟩ := Section.inf_subset_renderNumber (o := o) hc.2 (f.select x).2 hr
    obtain ⟨c, hm, hl⟩ := o.locale.exists_not_isNumberChar hi
    have hn : ¬(y.FitsDigits ∨ s.showsWhole = false) := by simp [hc]
    exact ⟨t, ht, ⟨fun h => absurd (h c hm) hl, fun h => absurd h hn⟩, fun h => absurd h hn⟩

theorem render?_figures_iff_largest :
    let f := parse "# ?/?".toList
    let g := parse "?/?".toList
    (largest.isFinite = true ∧ (f.select largest).1.isBare = true ∧
      (g.select largest).1.isBare = true) ∧
      (∃ t, f.render? .standard largest = .ok t ∧ ¬∀ c ∈ t, Locale.english.IsNumberChar c) ∧
      ∃ t, g.render? .standard largest = .ok t ∧ ∀ c ∈ t, Locale.english.IsNumberChar c := by
  intro f g
  have hf : (f.select largest).1.isBare = true := by decide +kernel
  have hg : (g.select largest).1.isBare = true := by decide +kernel
  refine ⟨⟨rfl, hf, hg⟩, ?_, ?_⟩
  · obtain ⟨hr, -, t, ht, hi, -⟩ := render?_figures_iff f .standard largest rfl hf
    refine ⟨t, ht, fun h => ?_⟩
    have hn : ¬(((f.select largest).1.scaling.apply largest.abs).reduced.isFinite = true) := by
      decide +kernel
    rw [hr] at hn
    exact absurd ((hi.1 h).resolve_left hn) (by decide +kernel)
  · obtain ⟨-, -, t, ht, hi, -⟩ := render?_figures_iff g .standard largest rfl hg
    exact ⟨t, ht, hi.2 (.inr (by decide +kernel))⟩

theorem exists_infinite_text :
    let x := ofNat (10 ^ (307 : Nat))
    (parse ['0']).render? .standard largest = .ok "inf".toList ∧
      (parse "0%".toList).render? .standard x = .ok "inf%".toList ∧
      (parse "# ?/?".toList).render? .standard largest = .ok "inf    ".toList ∧
      ¬∀ code o x t, x.isFinite = true → ((parse code).select x).1.isBare = true →
        (parse code).render? o x = .ok t →
          (∀ c ∈ t, o.locale.IsNumberChar c) ∧ ¬"inf".toList <:+: t ∧ ¬"NaN".toList <:+: t := by
  intro x
  have hl : (parse ['0']).render? .standard largest = .ok "inf".toList := by decide +kernel
  refine ⟨hl, by decide +kernel, by decide +kernel, fun h => ?_⟩
  have hs : ((parse ['0']).select largest).1.isBare = true := by decide +kernel
  exact (h _ _ _ _ rfl hs hl).2.1 (List.infix_refl _)

end NumberFormat

end SheetFormat
