import SheetFormat.Format
import SheetFormat.Proofs.Checked.Basic
import SheetFormat.Proofs.Section.Fraction

namespace SheetFormat

lemma dropWhile_append_cons {α : Type} {p : α → Bool} {l : List α} {a : α}
    (hl : ∀ b ∈ l, p b = true) (ha : p a = false) (rest : List α) :
    (l ++ a :: rest).dropWhile p = a :: rest := by
  rw [List.dropWhile_append_of_pos hl, List.dropWhile_cons_of_neg (by simp [ha])]

lemma takeWhile_append_cons {α : Type} {p : α → Bool} {l : List α} {a : α}
    (hl : ∀ b ∈ l, p b = true) (ha : p a = false) (rest : List α) :
    (l ++ a :: rest).takeWhile p = l := by
  rw [List.takeWhile_append_of_pos hl, List.takeWhile_cons_of_neg (by simp [ha]), List.append_nil]

namespace Mark

inductive OpensDenominator : Mark → Prop
  | digit (p : Placeholder) : OpensDenominator (.digit p)
  | bare {c : Char} (h : '1' ≤ c ∧ c ≤ '9') : OpensDenominator (.bare c)

lemma nonzero_digit_iff {c : Char} :
    (c.isDigit && c != '0') = true ↔ '1' ≤ c ∧ c ≤ '9' := by
  simp only [Char.isDigit, Bool.and_eq_true, decide_eq_true_iff, bne_iff_ne, ne_eq, Char.le_def,
    ← Char.val_inj, UInt32.le_iff_toNat_le, ← UInt32.toNat_inj]
  have h0 : '0'.val.toNat = 48 := rfl
  have h1 : '1'.val.toNat = 49 := rfl
  have h9 : '9'.val.toNat = 57 := rfl
  have g0 : (48 : UInt32).toNat = 48 := rfl
  have g9 : (57 : UInt32).toNat = 57 := rfl
  omega

lemma startsDenominator_iff {m : Mark} : m.startsDenominator = true ↔ m.OpensDenominator := by
  constructor
  · intro h
    cases m with
    | bare c => exact .bare (nonzero_digit_iff.1 h)
    | part q =>
      obtain ⟨p, hp⟩ := isDigit_iff.1 h
      exact hp ▸ .digit p
    | _ => simp [startsDenominator, isDigit, placeholder?] at h
  · rintro (p | h)
    · rfl
    · exact nonzero_digit_iff.2 h

lemma OpensDenominator.not_space {m : Mark} (h : m.OpensDenominator) : m.isSpace = false := by
  cases h with
  | digit p => rfl
  | @bare c hc =>
    have hn : c ≠ ' ' := by
      rintro rfl
      exact absurd hc.1 (by decide)
    simp [isSpace, quoted, hn]

end Mark

/-- A slash in the marks with a placeholder at the end of `front` and the start of a denominator at
the front of `back`, and nothing but spaces between. -/
structure IsBar (marks front back : List Mark) : Prop where
  beside : ∃ left right, marks = front ++ left ++ .slash :: (right ++ back) ∧
    (∀ m ∈ left, m.isSpace = true) ∧ ∀ m ∈ right, m.isSpace = true
  numerator : ∃ l p, front = l ++ [.digit p]
  denominator : ∃ m l, back = m :: l ∧ m.OpensDenominator

def HasBar (marks : List Mark) : Prop := ∃ front back, IsBar marks front back

namespace FractionLayout

variable {marks front back : List Mark}

lemma bar?_of_isBar (h : IsBar marks front back) (hf : .slash ∉ front) :
    bar? marks = some (front, back) := by
  obtain ⟨⟨left, right, rfl, hl, hr⟩, ⟨l, p, rfl⟩, m, rest, rfl, hm⟩ := h
  have hn : ∀ m ∈ l ++ [.digit p] ++ left, (m != Mark.slash) = true := by
    intro m hm
    rw [bne_iff_ne]
    rintro rfl
    rcases List.mem_append.1 hm with hm | hm
    · exact hf hm
    · exact absurd (hl _ hm) (by decide)
  have hs : left.reverse ++ Mark.digit p :: l.reverse = (l ++ [Mark.digit p] ++ left).reverse := by
    simp
  rw [bar?, dropWhile_append_cons hn (by decide), takeWhile_append_cons hn (by decide), ← hs]
  simp only [dropWhile_append_cons hr hm.not_space]
  rw [dropWhile_append_cons (by simpa using hl) rfl]
  simp [Mark.startsDenominator_iff.2 hm, Mark.isDigit_iff]

lemma exists_of_bar? (h : bar? marks = some (front, back)) :
    ∃ before after, marks = before ++ .slash :: after ∧ .slash ∉ before ∧
      front = (before.reverse.dropWhile Mark.isSpace).reverse ∧
      back = after.dropWhile Mark.isSpace := by
  by_cases hm : .slash ∈ marks
  · obtain ⟨before, after, rfl, hb⟩ := List.eq_append_cons_of_mem hm
    have hn : ∀ m ∈ before, (m != Mark.slash) = true := by
      intro m hm
      simpa using ne_of_mem_of_not_mem hm hb
    rw [bar?, dropWhile_append_cons hn (by decide), takeWhile_append_cons hn (by decide)] at h
    dsimp only at h
    split_ifs at h
    cases h
    exact ⟨before, after, rfl, hb, rfl, rfl⟩
  · have hd : marks.dropWhile (· != .slash) = [] := by
      rw [List.dropWhile_eq_nil_iff]
      intro m hs
      simpa using ne_of_mem_of_not_mem hs hm
    rw [bar?, hd] at h
    cases h

lemma isBar_of_bar? (h : bar? marks = some (front, back)) :
    IsBar marks front back ∧ .slash ∉ front := by
  obtain ⟨hn, hd⟩ := bar?_eq_some h
  obtain ⟨before, after, rfl, hs, hf, hb⟩ := exists_of_bar? h
  have hl : front ++ (before.reverse.takeWhile Mark.isSpace).reverse = before := by
    rw [hf]
    exact List.rdropWhile_append_rtakeWhile
  have hr : after.takeWhile Mark.isSpace ++ back = after := by
    rw [hb, List.takeWhile_append_dropWhile]
  obtain ⟨m, hm, hp⟩ := (Option.any_eq_true ..).1 hn
  obtain ⟨l, rfl⟩ := List.getLast?_eq_some_iff.1 hm
  obtain ⟨p, rfl⟩ := Mark.isDigit_iff.1 hp
  obtain ⟨c, hc, ho⟩ := (Option.any_eq_true ..).1 hd
  obtain ⟨rest, rfl⟩ := List.head?_eq_some_iff.1 hc
  refine ⟨⟨⟨_, _, by rw [hl, hr], ?_, ?_⟩, ⟨l, p, rfl⟩, c, rest, rfl,
    Mark.startsDenominator_iff.1 ho⟩, ?_⟩
  · intro m hm
    exact List.mem_takeWhile_imp (List.mem_reverse.1 hm)
  · intro m hm
    exact List.mem_takeWhile_imp hm
  · rw [← hl] at hs
    exact fun hm => hs (List.mem_append_left _ hm)

lemma bar?_eq_some_iff :
    bar? marks = some (front, back) ↔ IsBar marks front back ∧ .slash ∉ front :=
  ⟨isBar_of_bar?, fun h => bar?_of_isBar h.1 h.2⟩

end FractionLayout

namespace NumberFormat

variable {code : Text} {i : Nat} {s : Section} {tokens : List Token}

lemma eq_ofTokens (hs : (parse code).sections[i]? = some s) (hg : s.isGeneral = false)
    (ht : (tokenGroups code)[i]? = some tokens) : s = .ofTokens tokens ∧ .general ∉ tokens := by
  cases code with
  | nil =>
    obtain rfl : s = .general := List.mem_singleton.1 (List.mem_of_getElem? hs)
    cases hg
  | cons c code =>
    rw [sections_of_ne_nil (List.cons_ne_nil c code)] at hs
    rw [List.getElem?_take, List.getElem?_map, ht] at hs
    obtain ⟨-, hs⟩ := (Option.ite_none_right_eq_some ..).1 hs
    obtain rfl := Option.some.inj hs
    refine ⟨rfl, fun hm => ?_⟩
    simp [Section.isGeneral, Section.ofTokens, Body.ofTokens, hm] at hg

lemma body_eq_ofMarks (hs : (parse code).sections[i]? = some s) (hg : s.isGeneral = false)
    (ht : (tokenGroups code)[i]? = some tokens)
    (hd : ∀ e ∈ tokens.flatMap Element.ofToken, e.isDate = false) :
    s.body = .ofMarks ((tokens.flatMap Element.ofToken).filterMap Element.mark?) := by
  obtain ⟨rfl, hn⟩ := eq_ofTokens hs hg ht
  have hd : ¬(tokens.flatMap Element.ofToken).any Element.isDate = true := by
    rw [List.any_eq_true]
    rintro ⟨e, he, h⟩
    exact absurd (hd e he) (by simp [h])
  rw [Section.ofTokens, Body.ofTokens, if_neg hn, Body.ofElements, if_neg hd]

/-- A section that is neither General nor a date is a fraction if its first slash is a bar, and
then split there; else it is a number. It is a fraction exactly if some slash is a bar, as long as
no bar stands behind a first slash that is none. -/
theorem parse_fraction_iff (hs : (parse code).sections[i]? = some s) (hg : s.isGeneral = false)
    (ht : (tokenGroups code)[i]? = some tokens)
    (hd : ∀ e ∈ tokens.flatMap Element.ofToken, e.isDate = false) :
    let marks := (tokens.flatMap Element.ofToken).filterMap Element.mark?
    (∀ l, s.body = .fraction l ↔
      ∃ front back, IsBar marks front back ∧ .slash ∉ front ∧ l = .ofBar front back) ∧
    ((∃ l, s.body = .fraction l) ∨ s.body = .number (.ofMarks marks)) ∧
    (((∃ l, s.body = .fraction l) ↔ HasBar marks) ↔
      (HasBar marks → ∃ front back, IsBar marks front back ∧ .slash ∉ front)) := by
  intro marks
  have hb : s.body = .ofMarks marks := body_eq_ofMarks hs hg ht hd
  have hl : ∀ l, s.body = .fraction l ↔
      ∃ front back, IsBar marks front back ∧ .slash ∉ front ∧ l = .ofBar front back := by
    intro l
    rw [hb, Body.ofMarks, FractionLayout.ofMarks?]
    constructor
    · intro h
      cases hm : FractionLayout.bar? marks with
      | none => simp [hm] at h
      | some c =>
        obtain ⟨front, back⟩ := c
        obtain ⟨hi, hn⟩ := FractionLayout.bar?_eq_some_iff.1 hm
        rw [hm] at h
        cases h
        exact ⟨front, back, hi, hn, rfl⟩
    · rintro ⟨front, back, hi, hn, rfl⟩
      rw [FractionLayout.bar?_of_isBar hi hn]
      rfl
  refine ⟨hl, ?_, ?_⟩
  · rw [hb, Body.ofMarks]
    split
    next l _ => exact .inl ⟨l, rfl⟩
    next => exact .inr rfl
  · have he : (∃ l, s.body = .fraction l) ↔
        ∃ front back, IsBar marks front back ∧ .slash ∉ front := by
      constructor
      · rintro ⟨l, h⟩
        obtain ⟨front, back, hi, hn, -⟩ := (hl l).1 h
        exact ⟨front, back, hi, hn⟩
      · rintro ⟨front, back, hi, hn⟩
        exact ⟨_, (hl _).2 ⟨front, back, hi, hn, rfl⟩⟩
    rw [he]
    constructor
    · exact fun h => h.2
    · exact fun h => ⟨fun ⟨front, back, hi, _⟩ => ⟨front, back, hi⟩, h⟩

theorem parse_fraction_iff_spaces :
    let code := "\"x/z\" # ? / 16 x/z".toList
    let tokens := ((tokenize code).map Lexeme.token).filter (· ≠ .eof)
    let marks := (tokens.flatMap Element.ofToken).filterMap Element.mark?
    let s : Section := ⟨.ofMarks marks, none⟩
    ((parse code).sections[0]? = some s ∧ s.isGeneral = false ∧
      (tokenGroups code)[0]? = some tokens ∧
      ∀ e ∈ tokens.flatMap Element.ofToken, e.isDate = false) ∧
    (∃ l, s.body = .fraction l) ∧ HasBar marks := by
  intro code tokens marks s
  have hs : (parse code).sections[0]? = some s := by decide +kernel
  have hg : s.isGeneral = false := by decide +kernel
  have ht : (tokenGroups code)[0]? = some tokens := by decide +kernel
  have hd : ∀ e ∈ tokens.flatMap Element.ofToken, e.isDate = false := by decide +kernel
  obtain ⟨hl, hn, -⟩ := parse_fraction_iff hs hg ht hd
  have hf : ∃ l, s.body = .fraction l := hn.resolve_right (by decide +kernel)
  refine ⟨⟨hs, hg, ht, hd⟩, hf, ?_⟩
  obtain ⟨l, h⟩ := hf
  obtain ⟨front, back, hi, -⟩ := (hl l).1 h
  exact ⟨front, back, hi⟩

theorem exists_hidden_bar :
    let code := "kg/l # ?/?".toList
    let tokens := ((tokenize code).map Lexeme.token).filter (· ≠ .eof)
    let marks := (tokens.flatMap Element.ofToken).filterMap Element.mark?
    let s : Section := ⟨.number (.ofMarks marks), none⟩
    ((parse code).sections[0]? = some s ∧ s.isGeneral = false ∧
      (tokenGroups code)[0]? = some tokens ∧
      ∀ e ∈ tokens.flatMap Element.ofToken, e.isDate = false) ∧
    HasBar marks ∧ ¬∃ l, s.body = .fraction l := by
  intro code tokens marks s
  refine ⟨⟨by decide +kernel, by decide +kernel, by decide +kernel, by decide +kernel⟩,
    ⟨marks.take 8, marks.drop 9, ⟨[], [], by decide +kernel, by simp, by simp⟩,
      ⟨marks.take 7, .question, by decide +kernel⟩,
      ⟨.digit .question, [], by decide +kernel, .digit .question⟩⟩, ?_⟩
  rintro ⟨l, h⟩
  cases h

end NumberFormat

end SheetFormat
