import SheetFormat.Proofs.Code.Insertion

/-! Tokens that show nothing: colors, conditions, languages without a symbol, gaps and fills. -/

namespace SheetFormat

namespace Bracket

inductive NamesColor : Text → Prop
  | named {t : Text} (c : NamedColor) : Text.folded t = Text.folded c.name.toList → NamesColor t
  | indexed {t : Text} {n : Nat} : Text.folded t = "color".toList → 1 ≤ n → n ≤ 56 →
      NamesColor (t ++ Text.numeral n)

inductive Compares : Text → Prop
  | sign {s t : Text} : s ∈ comparisons → Text.isOperand (Text.trimmed t) = true →
      Compares (s ++ t)

inductive NamesLocale : Text → Prop
  | dollar (t : Text) : NamesLocale ('$' :: '-' :: t)

lemma isSome_ofText? {t : Text} {c : NamedColor}
    (h : Text.folded t = Text.folded c.name.toList) : (NamedColor.ofText? t).isSome = true := by
  rw [NamedColor.ofText?, List.find?_isSome]
  refine ⟨c, ?_, decide_eq_true h.symm⟩
  cases c <;> simp

lemma colorNumber?_numeral {n : Nat} (h₁ : 1 ≤ n) (h₂ : n ≤ 56) :
    colorNumber? (Text.numeral n) = some n := by
  have hd : ∀ c ∈ Text.numeral n, c.isDigit = true := fun c => Text.isDigit_of_mem_numeral
  have hh : (Text.numeral n).head? ≠ some '+' := by
    intro h
    have hp := hd _ (List.mem_of_head? h)
    simp at hp
  have hi : Text.isDigits (Text.numeral n) = true := by
    simpa [Text.isDigits, Text.numeral_ne_nil] using hd
  rw [colorNumber?, if_neg hh, Text.valueOf_numeral, if_pos ⟨hi, h₁, h₂⟩]

lemma NamesColor.isSome_color? {t : Text} (h : NamesColor t) : (color? t).isSome = true := by
  rw [color?]
  cases h with
  | named c h =>
    obtain ⟨d, hd⟩ := Option.isSome_iff_exists.1 (isSome_ofText? h)
    rw [hd]
    rfl
  | @indexed t n h h₁ h₂ =>
    have hl : t.length = 5 := by simpa [Text.folded] using congrArg List.length h
    cases NamedColor.ofText? (t ++ Text.numeral n) with
    | some c => rfl
    | none =>
      dsimp only
      rw [List.take_left' hl, List.drop_left' hl, if_pos h, colorNumber?_numeral h₁ h₂]
      rfl

lemma color?_of_head {c : Char} (hc : c ∈ ['<', '>', '=', '$']) (t : Text) :
    color? (c :: t) = none := by
  have hn : NamedColor.ofText? (c :: t) = none := by
    rw [NamedColor.ofText?, List.find?_eq_none]
    intro d _
    simp only [List.mem_cons, List.not_mem_nil, or_false] at hc
    rcases hc with rfl | rfl | rfl | rfl <;> cases d <;> simp [NamedColor.name, Text.folded]
  have hw : Text.folded ((c :: t).take 5) ≠ "color".toList := by
    simp only [List.mem_cons, List.not_mem_nil, or_false] at hc
    rcases hc with rfl | rfl | rfl | rfl <;> simp [Text.folded]
  rw [color?, hn, if_neg hw]

lemma trimmed_cons {c : Char} (h : Text.isBlank c = false) (t : Text) :
    ∃ u, Text.trimmed (c :: t) = c :: u := by
  have hd : (c :: t).dropWhile Text.isBlank = c :: t := by simp [h]
  rw [Text.trimmed, hd, List.reverse_cons, List.dropWhile_append]
  split
  · exact ⟨[], by simp [h]⟩
  · exact ⟨(t.reverse.dropWhile Text.isBlank).reverse, by simp⟩

lemma head?_of_isOperand {t : Text} (h : Text.isOperand (Text.trimmed t) = true) {c : Char}
    (hc : c = '>' ∨ c = '=') : t.head? ≠ some c := by
  intro ht
  obtain ⟨u, rfl⟩ := List.head?_eq_some_iff.1 ht
  have hb : Text.isBlank c = false := by rcases hc with rfl | rfl <;> rfl
  obtain ⟨v, hv⟩ := trimmed_cons hb u
  rw [hv] at h
  rcases hc with rfl | rfl <;> simp [Text.isOperand, Text.dropSign, Text.folded] at h

lemma find?_comparisons {s t : Text} (hs : s ∈ comparisons)
    (ht : ∀ c, c = '>' ∨ c = '=' → t.head? ≠ some c) :
    comparisons.find? (·.isPrefixOf (s ++ t)) = some s := by
  simp only [comparisons, List.mem_cons, List.not_mem_nil, or_false] at hs
  cases t with
  | nil => rcases hs with rfl | rfl | rfl | rfl | rfl | rfl <;> rfl
  | cons c t =>
    have hg : '>' ≠ c := fun h => ht '>' (.inl rfl) (congrArg some h.symm)
    have he : '=' ≠ c := fun h => ht '=' (.inr rfl) (congrArg some h.symm)
    rcases hs with rfl | rfl | rfl | rfl | rfl | rfl <;> simp [comparisons, List.isPrefixOf, hg, he]

lemma Compares.operand? {t : Text} (h : Compares t) : ∃ x, operand? t = some x := by
  cases h with
  | @sign s t hs ht =>
    refine ⟨Text.trimmed t, ?_⟩
    rw [Bracket.operand?, find?_comparisons hs fun c => head?_of_isOperand ht]
    simp only [List.drop_left, if_pos ht]

lemma Compares.color? {t : Text} (h : Compares t) : Bracket.color? t = none := by
  cases h with
  | @sign s t hs =>
    simp only [comparisons, List.mem_cons, List.not_mem_nil, or_false] at hs
    rcases hs with rfl | rfl | rfl | rfl | rfl | rfl <;> exact color?_of_head (by decide) _

lemma ofText_color {t : Text} (h : NamesColor (Text.trimmed t)) : ∃ c, ofText t = .color c := by
  obtain ⟨c, hc⟩ := Option.isSome_iff_exists.1 h.isSome_color?
  exact ⟨c, by simp only [ofText, hc]⟩

lemma ofText_condition {t : Text} (h : Compares (Text.trimmed t)) :
    ∃ x, ofText t = .condition x := by
  obtain ⟨x, hx⟩ := h.operand?
  exact ⟨x, by simp only [ofText, h.color?, hx]⟩

lemma ofText_locale {t : Text} (h : NamesLocale (Text.trimmed t)) : ofText t = .currency [] := by
  simp only [ofText]
  generalize Text.trimmed t = s at h ⊢
  cases h with
  | dollar u =>
    have hc : color? ('$' :: '-' :: u) = none := color?_of_head (by decide) _
    have ho : operand? ('$' :: '-' :: u) = none := rfl
    have he : elapsed? ('$' :: '-' :: u) = none := rfl
    simp [hc, ho, he, currency?]

end Bracket

open Token

inductive Colors : Text → Prop
  | bracket {t : Text} : ']' ∉ t → Bracket.NamesColor (Text.trimmed t) →
      Colors ('[' :: (t ++ [']']))

inductive LaysOut : Text → Prop
  | condition {t : Text} : ']' ∉ t → Bracket.Compares (Text.trimmed t) →
      LaysOut ('[' :: (t ++ [']']))
  | locale {t : Text} : ']' ∉ t → Bracket.NamesLocale (Text.trimmed t) →
      LaysOut ('[' :: (t ++ [']']))
  | skip (c : Char) : LaysOut ['_', c]
  | fill (c : Char) : LaysOut ['*', c]

structure Token.IsInert (t : Token) : Prop where
  elements : Element.ofToken t = []
  ne_general : t ≠ .general
  ne_separator : t ≠ .separator

lemma breaks_bracket {t : Text} (h : ']' ∉ t) : Breaks (.bracket t) ('[' :: (t ++ [']'])) :=
  ⟨fun after => .bracket after h, '[', by decide, t ++ [']'], rfl⟩

lemma Colors.exists_token {w : Text} (h : Colors w) : ∃ t, Breaks t w ∧ t.IsInert := by
  cases h with
  | @bracket t ht hc =>
    obtain ⟨c, hc⟩ := Bracket.ofText_color hc
    refine ⟨.bracket t, breaks_bracket ht, ?_, by simp, by simp⟩
    rw [Element.ofToken, hc]
    rfl

lemma LaysOut.exists_token {w : Text} (h : LaysOut w) :
    ∃ t, Breaks t w ∧ t.IsInert ∧ t.color? = none := by
  cases h with
  | @condition t ht hc =>
    obtain ⟨x, hx⟩ := Bracket.ofText_condition hc
    refine ⟨.bracket t, breaks_bracket ht, ⟨?_, by simp, by simp⟩, ?_⟩
    · rw [Element.ofToken, hx]
      rfl
    · rw [color?, hx]
  | @locale t ht hl =>
    have hx := Bracket.ofText_locale hl
    refine ⟨.bracket t, breaks_bracket ht, ⟨?_, by simp, by simp⟩, ?_⟩
    · rw [Element.ofToken, hx]
      rfl
    · rw [color?, hx]
  | skip c =>
    exact ⟨.skip c, ⟨.skip c, '_', by decide, [c], rfl⟩, ⟨rfl, by simp, by simp⟩, rfl⟩
  | fill c =>
    exact ⟨.fill c, ⟨.fill c, '*', by decide, [c], rfl⟩, ⟨rfl, by simp, by simp⟩, rfl⟩

namespace Section

variable {t : Token} {ts us : List Token}

lemma body_insert (h : t.IsInert) :
    (ofTokens (ts ++ t :: us)).body = (ofTokens (ts ++ us)).body := by
  have hg : .general ∈ ts ++ t :: us ↔ .general ∈ ts ++ us := by
    simp [h.ne_general.symm]
  have he : (ts ++ t :: us).flatMap Element.ofToken = (ts ++ us).flatMap Element.ofToken := by
    simp [h.elements]
  simp only [ofTokens, Body.ofTokens, hg, he]

lemma ofTokens_insert (h : t.IsInert) (hc : t.color? = none) :
    ofTokens (ts ++ t :: us) = ofTokens (ts ++ us) := by
  have hb : Body.ofTokens (ts ++ t :: us) = Body.ofTokens (ts ++ us) := body_insert h
  have hl : (ts ++ t :: us).filterMap Token.color? = (ts ++ us).filterMap Token.color? := by
    simp [hc]
  rw [ofTokens, ofTokens, hb, hl]

end Section

end SheetFormat
