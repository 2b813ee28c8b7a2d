import SheetFormat.Proofs.Checked.Render
import SheetFormat.Proofs.Code.Numeral
import SheetFormat.Proofs.Format.Independence
import SheetFormat.Proofs.Render.Alignment
import SheetFormat.Proofs.Render.Dispatch
import SheetFormat.Proofs.Section.Bar

namespace SheetFormat

attribute [local irreducible] perUnit limit

namespace Mark

def ofDigit (c : Char) : Mark := if c = '0' then .digit .zero else .bare c

lemma ofToken_ofDigit (c : Char) :
    Element.ofToken (Token.ofDigit c) = [.mark (.ofDigit c)] := by
  rw [Token.ofDigit, ofDigit]
  split_ifs <;> rfl

lemma numeralDigit?_ofDigit {c : Char} (hc : c.isDigit = true) :
    (ofDigit c).numeralDigit? = some c := by
  rw [ofDigit]
  split_ifs with h
  · rw [h]
    rfl
  · exact if_pos hc

lemma ofDigit_of_ne {c : Char} (h : c ≠ '0') : ofDigit c = .bare c := if_neg h

end Mark

namespace Denominator

variable {n : Nat}

lemma ofNumeral_numeral (h : 1 ≤ n) :
    ofNumeral (Text.numeral n) = if n ≤ largest then .fixed n else .bestFit [.question] := by
  rw [ofNumeral, Text.valueOf_numeral]
  simp only [Nat.pos_of_ne_zero (Nat.one_le_iff_ne_zero.1 h), true_and]

lemma read_numeral (h : 1 ≤ n) :
    read ((Text.numeral n).map Mark.ofDigit) = (ofNumeral (Text.numeral n), []) := by
  have hd := Text.allDigits_numeral n
  obtain ⟨c, t, ht, -, h0⟩ := Text.exists_numeral_cons h
  have hhead : (((Text.numeral n).map Mark.ofDigit).head?.map Mark.isDigit).getD false = false := by
    rw [ht, List.map_cons, Mark.ofDigit_of_ne h0]
    rfl
  have hall : ∀ m ∈ (Text.numeral n).map Mark.ofDigit, m.numeralDigit?.isSome = true := by
    rw [List.forall_mem_map]
    intro c hc
    rw [Mark.numeralDigit?_ofDigit (hd c hc)]
    rfl
  have hread : ((Text.numeral n).map Mark.ofDigit).filterMap Mark.numeralDigit? =
      Text.numeral n := by
    rw [List.filterMap_map]
    exact (List.filterMap_congr fun c hc => Mark.numeralDigit?_ofDigit (hd c hc)).trans
      List.filterMap_some
  rw [read, hhead, if_neg Bool.false_ne_true, List.takeWhile_eq_self_iff.2 hall,
    List.dropWhile_eq_nil_iff.2 hall, hread]

end Denominator

namespace FractionLayout

def besideHash (d : Denominator) : FractionLayout :=
  ⟨[.field .hash, .literal ' '], [.question], d, [], ⟨false, 0, false⟩⟩

def besideHashMarks : List Mark := [.digit .hash, .bare ' ', .digit .question]

variable {n : Nat}

lemma ofBar_numeral (h : 1 ≤ n) :
    ofBar besideHashMarks ((Text.numeral n).map Mark.ofDigit) =
      besideHash (.ofNumeral (Text.numeral n)) := by
  rw [ofBar, Denominator.read_numeral h]
  rfl

lemma isBar_numeral (h : 1 ≤ n) :
    IsBar (besideHashMarks ++ .slash :: (Text.numeral n).map Mark.ofDigit) besideHashMarks
      ((Text.numeral n).map Mark.ofDigit) := by
  obtain ⟨c, t, ht, hc, h0⟩ := Text.exists_numeral_cons h
  refine ⟨⟨[], [], rfl, List.forall_mem_nil _, List.forall_mem_nil _⟩,
    ⟨[.digit .hash, .bare ' '], .question, rfl⟩, .bare c, t.map Mark.ofDigit, ?_, ?_⟩
  · rw [ht, List.map_cons, Mark.ofDigit_of_ne h0]
  · exact .bare (Mark.nonzero_digit_iff.1 (by simp [hc, h0]))

lemma ofMarks?_numeral (h : 1 ≤ n) :
    ofMarks? (besideHashMarks ++ .slash :: (Text.numeral n).map Mark.ofDigit) =
      some (besideHash (.ofNumeral (Text.numeral n))) := by
  rw [ofMarks?, bar?_of_isBar (isBar_numeral h) (by decide), ← ofBar_numeral h]
  rfl

variable {l : FractionLayout}

lemma numeratorText_singleton (h : l.numerator = [.question]) (n : Nat) :
    l.numeratorText n = Text.numeral n := by
  rw [numeratorText_question (p := 1) h, List.leftpad,
    Nat.sub_eq_zero_of_le (Text.length_numeral_pos n)]
  rfl

lemma split_fixed (hm : l.isMixed = true) (hd : l.denominator = .fixed n)
    (hp : l.denominator.IsProper) (x : Binary64) :
    (l.split x).numerator < n ∧ (l.split x).denominator = n := by
  obtain ⟨hlt, hden⟩ := split_lt hp hm x
  have hn : (l.split x).denominator = n := by
    rw [hden, hd]
    rfl
  exact ⟨hn ▸ hlt, hn⟩

lemma renderNumber_plain (hs : l.suffix = []) (c : Option Color) (o : Options) (x : Binary64) :
    Section.renderNumber ⟨.fraction l, c⟩ false o x =
      .ok (signText (x.lt 0) ++ l.wholeText (l.split (l.scaling.apply x.abs).reduced) ++
        l.fractionText (l.split (l.scaling.apply x.abs).reduced)) := by
  simp only [Section.renderNumber, render, hs, List.flatMap_nil, List.append_nil, Bool.not_false,
    Bool.and_true, List.append_assoc]

end FractionLayout

namespace NumberFormat

variable {n : Nat}

def overNumeral (n : Nat) : Text := '#' :: ' ' :: '?' :: '/' :: Text.numeral n

lemma tokens_overNumeral (n : Nat) :
    tokens (overNumeral n) =
      .placeholder .hash :: .literal ' ' :: .placeholder .question :: .slash ::
        (Text.numeral n).map Token.ofDigit := by
  have hspace : Token.Spells (.literal ' ') [' '] ('?' :: '/' :: Text.numeral n) :=
    .literal (Token.AlwaysPlain.plain (by decide) _)
  have hs : Spelled ((.placeholder .hash, ['#']) :: (.literal ' ', [' ']) ::
      (.placeholder .question, ['?']) :: (.slash, ['/']) ::
        (Text.numeral n).map fun c => (Token.ofDigit c, [c])) (overNumeral n) :=
    .cons (.placeholder .hash _) (.cons hspace (.cons (.placeholder .question _)
      (.cons (.slash _) (Text.allDigits_numeral n).spelled)))
  rw [tokens_of_spelled hs]
  simp [List.map_map, Function.comp_def]

lemma elements_overNumeral (n : Nat) :
    (tokens (overNumeral n)).flatMap Element.ofToken =
      (FractionLayout.besideHashMarks ++ .slash :: (Text.numeral n).map Mark.ofDigit).map
        Element.mark := by
  have hd : ((Text.numeral n).map Token.ofDigit).flatMap Element.ofToken =
      (Text.numeral n).map fun c => Element.mark (.ofDigit c) := by
    rw [List.flatMap_map, List.flatMap_congr fun c _ => Mark.ofToken_ofDigit c]
    exact List.map_eq_flatMap.symm
  rw [tokens_overNumeral]
  simp only [List.flatMap_cons, hd]
  simp [FractionLayout.besideHashMarks, Element.ofToken, Function.comp_def]

lemma only_marks {t : Token} (h : t ∈ tokens (overNumeral n)) :
    t ≠ .general ∧ t ≠ .separator ∧ t.color? = none := by
  rw [tokens_overNumeral] at h
  simp only [List.mem_cons, List.mem_map] at h
  rcases h with rfl | rfl | rfl | rfl | ⟨c, -, rfl⟩
  · simp [Token.color?]
  · simp [Token.color?]
  · simp [Token.color?]
  · simp [Token.color?]
  · rw [Token.ofDigit]
    split_ifs <;> simp [Token.color?]

lemma body_overNumeral (h : 1 ≤ n) :
    Body.ofTokens (tokens (overNumeral n)) =
      .fraction (.besideHash (.ofNumeral (Text.numeral n))) := by
  have hg : .general ∉ tokens (overNumeral n) := fun hm => (only_marks hm).1 rfl
  rw [Body.ofTokens, if_neg hg, elements_overNumeral]
  generalize hm : FractionLayout.besideHashMarks ++
    .slash :: (Text.numeral n).map Mark.ofDigit = marks
  have hd : ¬(marks.map Element.mark).any Element.isDate = true := by
    simp [Element.isDate]
  have hk : (marks.map Element.mark).filterMap Element.mark? = marks := by
    rw [List.filterMap_map]
    exact List.filterMap_some
  rw [Body.ofElements, if_neg hd, hk, Body.ofMarks, ← hm, FractionLayout.ofMarks?_numeral h]

lemma sections_overNumeral (h : 1 ≤ n) :
    (parse (overNumeral n)).sections =
      [⟨.fraction (.besideHash (.ofNumeral (Text.numeral n))), none⟩] := by
  have hn : overNumeral n ≠ [] := List.cons_ne_nil _ _
  have hs : .separator ∉ tokens (overNumeral n) := fun hm => (only_marks hm).2.1 rfl
  have hc : (tokens (overNumeral n)).filterMap Token.color? = [] :=
    List.filterMap_eq_nil_iff.2 fun t ht => (only_marks ht).2.2
  rw [sections_of_tokens hn hs, Section.ofTokens, body_overNumeral h, hc]
  rfl

/-- A number below the bar that is a word of 32 bits is the denominator, and stands behind the bar
of every fraction that is not zero; a larger one is taken for a placeholder. -/
theorem parse_overNumeral (h : 1 ≤ n) :
    ∃ l : FractionLayout, (parse (overNumeral n)).sections = [⟨.fraction l, none⟩] ∧
      l.whole = [.field .hash, .literal ' '] ∧ l.scaling = ⟨false, 0, false⟩ ∧
      (n ≤ Denominator.largest → l.record = ⟨[.question], .fixed n, [], []⟩) ∧
      (Denominator.largest < n → l.record = ⟨[.question], .upToDigits 1, [.question], []⟩) ∧
      (n ≤ Denominator.largest → ∀ o x, x.isFinite = true → ∃ shown fraction t,
        shown = l.split (l.scaling.apply x.abs).reduced ∧
        shown.numerator < n ∧ shown.denominator = n ∧
        (parse (overNumeral n)).render? o x = .ok t ∧
        Checked.render? (parse (overNumeral n)) o x = .ok (.ok t) ∧
        t = signText (x.lt 0) ++ l.wholeText shown ++ fraction ∧
        (shown.numerator = 0 →
          fraction = List.replicate (2 + (Text.numeral n).length) ' ') ∧
        (shown.numerator ≠ 0 →
          fraction = Text.numeral shown.numerator ++ '/' :: Text.numeral n)) := by
  have hsec := sections_overNumeral h
  rw [Denominator.ofNumeral_numeral h] at hsec
  refine ⟨_, hsec, rfl, rfl, fun hn => ?_, fun hn => ?_, fun hn o x hx => ?_⟩
  · rw [if_pos hn]
    rfl
  · rw [if_neg (Nat.not_le.2 hn)]
    rfl
  · rw [if_pos hn] at hsec ⊢
    generalize hl : FractionLayout.besideHash (.fixed n) = l at hsec ⊢
    have hd : l.denominator = .fixed n := hl ▸ rfl
    have hm : l.isMixed = true := hl ▸ rfl
    have hp : l.denominator.IsProper := hd ▸ ⟨h, hn⟩
    obtain ⟨hlt, hden⟩ := FractionLayout.split_fixed hm hd hp (l.scaling.apply x.abs).reduced
    have hnum : l.numerator = [.question] := hl ▸ rfl
    have hs : l.suffix = [] := hl ▸ rfl
    have hr := (parse (overNumeral n)).render?_finite o hx
    rw [select_one hsec, FractionLayout.renderNumber_plain hs] at hr
    refine ⟨_, _, _, rfl, hlt, hden, hr, ?_, rfl, fun h0 => ?_, fun h0 => ?_⟩
    · rw [Checked.render?_ok, hr]
    · rw [FractionLayout.fractionText_of_zero hm h0, hd, ← hl]
      rfl
    · rw [FractionLayout.fractionText_of_ne_zero h0, hd, hden,
        FractionLayout.numeratorText_singleton hnum]
      rfl

theorem parse_overNumeral_hundredths :
    let l : FractionLayout := .besideHash (.fixed 100)
    let x := Binary64.ofQuotient true 21 4
    overNumeral 100 = "# ?/100".toList ∧ 1 ≤ 100 ∧ 100 ≤ Denominator.largest ∧
      x.isFinite = true ∧ (parse (overNumeral 100)).sections = [⟨.fraction l, none⟩] ∧
      (parse (overNumeral 100)).render? .standard x = .ok "-5 25/100".toList ∧
      ∃ shown fraction t, shown = l.split (l.scaling.apply x.abs).reduced ∧
        (parse (overNumeral 100)).render? .standard x = .ok t ∧
        t = signText (x.lt 0) ++ l.wholeText shown ++ fraction ∧
        fraction = "25/".toList ++ Text.numeral 100 := by
  intro l x
  have hx : x.isFinite = true := by decide +kernel
  have hle : 100 ≤ Denominator.largest := by decide
  obtain ⟨l', hs, -, -, -, -, hrender⟩ := @parse_overNumeral 100 (by decide)
  have hl : (parse (overNumeral 100)).sections = [⟨.fraction l, none⟩] := by decide +kernel
  obtain rfl : l = l' := by
    rw [hl] at hs
    cases hs
    rfl
  obtain ⟨shown, fraction, t, rfl, -, -, hr, -, ht, -, hf⟩ := hrender hle .standard x hx
  have hn : (l.split (l.scaling.apply x.abs).reduced).numerator = 25 := by decide +kernel
  rw [hn] at hf
  exact ⟨by decide, by decide, hle, hx, hl, by decide +kernel, _, _, _, rfl, hr, ht,
    (hf (by decide)).trans (by decide)⟩

end NumberFormat

end SheetFormat
