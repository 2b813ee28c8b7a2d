import SheetFormat.Proofs.Section.Order
import SheetFormat.Render.Basic

namespace SheetFormat

inductive Text.OccursApart (t : Text) : Nat → Text → Prop
  | zero (w : Text) : OccursApart t 0 w
  | succ (u : Text) {n : Nat} {w : Text} (h : OccursApart t n w) :
      OccursApart t (n + 1) (u ++ t ++ w)

namespace Text

variable {t u w : Text} {n k : Nat}

lemma OccursApart.prepend (h : t.OccursApart n w) (u : Text) : t.OccursApart n (u ++ w) := by
  cases h with
  | zero => exact .zero _
  | succ v h =>
    rw [← List.append_assoc, ← List.append_assoc]
    exact .succ (u ++ v) h

lemma OccursApart.append (h : t.OccursApart n u) (g : t.OccursApart k w) :
    t.OccursApart (n + k) (u ++ w) := by
  induction h with
  | zero u =>
    rw [Nat.zero_add]
    exact g.prepend u
  | succ u _ ih =>
    rw [Nat.add_right_comm, List.append_assoc]
    exact .succ u ih

lemma occursApart_self (t : Text) : t.OccursApart 1 t := by
  simpa using OccursApart.succ [] (.zero (t := t) [])

end Text

section Parts

variable {α β : Type}

lemma fixedText_map (f : α → β) (t : Text) (p : Part α) :
    fixedText t (p.map f) = fixedText t p := by
  cases p <;> rfl

lemma flatMap_fixedText_map (f : α → β) (t : Text) (parts : List (Part α)) :
    (parts.map (Part.map f)).flatMap (fixedText t) = parts.flatMap (fixedText t) := by
  rw [List.flatMap_map]
  exact List.flatMap_congr fun p _ => fixedText_map f t p

lemma occursApart_flatMap (t : Text) (parts : List (Part α)) :
    t.OccursApart (parts.countP Part.isText) (parts.flatMap (fixedText t)) := by
  induction parts with
  | nil => exact .zero []
  | cons p parts ih =>
    rw [List.flatMap_cons]
    cases p with
    | text =>
      rw [List.countP_cons_of_pos rfl, Nat.add_comm]
      exact t.occursApart_self.append ih
    | _ =>
      rw [List.countP_cons_of_neg (by simp [Part.isText])]
      exact ih.prepend _

lemma flatMap_fixedText_fields {parts : List (Part α)}
    (h : parts.all Part.isField = true) (t : Text) : parts.flatMap (fixedText t) = [] := by
  rw [List.flatMap_eq_nil_iff]
  intro p hp
  have hf := List.all_eq_true.1 h p hp
  cases p with
  | field f => rfl
  | _ => cases hf

end Parts

namespace SectionRecord

def behind (r : SectionRecord) : List AnyPart :=
  r.exponent ++ (r.fraction.map FractionRecord.suffix).getD []

lemma parts_eq (r : SectionRecord) : r.parts = r.whole ++ (r.fractional ++ r.behind) := by
  simp [parts, behind]

end SectionRecord

namespace Section

lemma isText_map {α β : Type} (f : α → β) (p : Part α) : (p.map f).isText = p.isText := by
  cases p <;> rfl

lemma any_isText_map {α β : Type} (f : α → β) (parts : List (Part α)) :
    (parts.map (Part.map f)).any Part.isText = parts.any Part.isText := by
  rw [List.any_map]
  exact congrArg _ (funext (isText_map f))

lemma hasTextPlaceholder_eq (s : Section) :
    s.hasTextPlaceholder = s.record.parts.any Part.isText := by
  rcases s with ⟨body, color⟩
  cases body <;>
    simp [hasTextPlaceholder, record, SectionRecord.parts, FractionLayout.record, digitParts,
      dateFieldParts, any_isText_map, -List.any_map]

lemma textAround_eq (s : Section) (l : Locale) (t : Text) :
    s.textAround l t = s.record.whole.flatMap (fixedText t) ++
      (if s.record.hasPoint then [l.decimal] else []) ++
        s.record.fractional.flatMap (fixedText t) := by
  rcases s with ⟨body, color⟩
  cases body with
  | number layout =>
    cases hf : layout.fractional <;>
      simp [textAround, record, hf, digitParts, flatMap_fixedText_map]
  | _ => simp [textAround, record, digitParts, dateFieldParts, flatMap_fixedText_map]

/-- Nothing but fields stands behind an exponent mark or a fraction, so a text shows every part
that is no field. -/
def ShowsAll (s : Section) : Prop := s.record.behind.all Part.isField = true

variable {s : Section}

lemma ShowsAll.flatMap_parts (h : s.ShowsAll) (t : Text) :
    s.record.parts.flatMap (fixedText t) =
      s.record.whole.flatMap (fixedText t) ++ s.record.fractional.flatMap (fixedText t) := by
  rw [SectionRecord.parts_eq, List.flatMap_append, List.flatMap_append,
    flatMap_fixedText_fields h, List.append_nil]

lemma ShowsAll.occursApart (h : s.ShowsAll) (l : Locale) (t : Text) :
    t.OccursApart (s.record.parts.countP Part.isText) (s.textAround l t) := by
  have hb : s.record.behind.countP Part.isText = 0 := by
    rw [List.countP_eq_zero]
    intro p hp
    have hf := List.all_eq_true.1 h p hp
    cases p <;> simp_all [Part.isText, Part.isField]
  rw [textAround_eq, SectionRecord.parts_eq, List.countP_append, List.countP_append, hb,
    List.append_assoc]
  exact (occursApart_flatMap t _).append ((occursApart_flatMap t _).prepend _)

end Section

namespace NumberFormat

variable {f : NumberFormat} {s : Section}

def IsTextSection (f : NumberFormat) (s : Section) : Prop :=
  f.sections = [s] ∨ ∃ a b c, f.sections = [a, b, c, s]

lemma textSection?_eq_some (h : f.textSection? = some s) : f.IsTextSection s := by
  rw [textSection?] at h
  split at h
  next r hs =>
    split_ifs at h
    exact .inl (Option.some.inj h ▸ hs)
  next a b c r hs => exact .inr ⟨a, b, c, Option.some.inj h ▸ hs⟩
  next => cases h

lemma IsTextSection.renderText (h : f.IsTextSection s) (hs : s.hasTextPlaceholder = true)
    (o : Options) (t : Text) : f.renderText o t = s.textAround o.locale t := by
  have hf : f.textSection? = some s := by
    rcases h with h | ⟨a, b, c, h⟩
    · simp [textSection?, h, hs]
    · simp [textSection?, h]
  rw [NumberFormat.renderText, hf]
  exact if_pos hs

lemma renderText_of_no_place (h : ∀ s, f.IsTextSection s → s.hasTextPlaceholder = false)
    (o : Options) (t : Text) : f.renderText o t = t := by
  rw [NumberFormat.renderText]
  cases hf : f.textSection? with
  | none => rfl
  | some s =>
    have hs := h s (textSection?_eq_some hf)
    simp [Section.renderText, hs]

lemma exists_tokens {code : Text} (hs : s ∈ (parse code).sections)
    (ht : s.hasTextPlaceholder = true) :
    ∃ tokens ∈ tokenGroups code, s = .ofTokens tokens ∧ .general ∉ tokens := by
  have hg : s.body ≠ .general := by
    intro hg
    rw [Section.hasTextPlaceholder, hg] at ht
    cases ht
  cases code with
  | nil =>
    obtain rfl : s = .general := List.mem_singleton.1 hs
    exact absurd rfl hg
  | cons c code =>
    rw [sections_of_ne_nil (List.cons_ne_nil c code)] at hs
    obtain ⟨tokens, hm, rfl⟩ := List.mem_map.1 (List.mem_of_mem_take hs)
    refine ⟨tokens, hm, rfl, fun hn => hg ?_⟩
    exact if_pos hn

/-- A text takes its places before an exponent mark or a fraction, between the literals and symbols
of the section in the order of the code. These are all its places and all literals if nothing but
fields stands behind; without a place a text is shown as it is. -/
theorem renderText_substitutes (code : Text) (o : Options) (t : Text) :
    let f := parse code
    (∀ s, f.IsTextSection s → s.record.parts.any Part.isText = true →
      (∃ tokens ∈ tokenGroups code, s = .ofTokens tokens ∧
        (tokens.flatMap Token.kept).Sublist s.record.parts) ∧
      (let front := s.record.whole.flatMap (fixedText t)
      let back := s.record.fractional.flatMap (fixedText t)
      f.renderText o t = front ++ (if s.record.hasPoint then [o.locale.decimal] else []) ++ back ∧
      (s.ShowsAll → s.record.parts.flatMap (fixedText t) = front ++ back ∧
        t.OccursApart (s.record.parts.countP Part.isText) (f.renderText o t)))) ∧
    ((∀ s, f.IsTextSection s → s.record.parts.any Part.isText = false) →
      f.renderText o t = t) := by
  intro f
  simp only [← Section.hasTextPlaceholder_eq]
  refine ⟨fun s hf hs => ⟨?_, ?_, fun ha => ⟨ha.flatMap_parts t, ?_⟩⟩, fun h => ?_⟩
  · have hm : s ∈ f.sections := by
      rcases hf with hf | ⟨a, b, c, hf⟩ <;> simp [hf]
    obtain ⟨tokens, hg, rfl, hn⟩ := exists_tokens hm hs
    exact ⟨tokens, hg, rfl, Section.kept_sublist hn⟩
  · rw [hf.renderText hs, Section.textAround_eq]
  · rw [hf.renderText hs]
    exact ha.occursApart o.locale t
  · exact renderText_of_no_place h o t

theorem renderText_substitutes_twice :
    let code := "0;0;0;\"a\"@.[$€-407]@".toList
    let s : Section := ⟨.number ⟨[.literal 'a', .text], some [.currency ['€'], .text], none,
      ⟨false, 0, false⟩⟩, none⟩
    let t : Text := "xy".toList
    ((parse code).IsTextSection s ∧ s.record.parts.any Part.isText = true ∧ s.ShowsAll) ∧
      (parse code).renderText .standard t = "axy.€xy".toList ∧
      t.OccursApart 2 ((parse code).renderText .standard t) ∧
      (∀ s, (parse ['0']).IsTextSection s → s.record.parts.any Part.isText = false) ∧
      (parse ['0']).renderText .standard t = t := by
  intro code s t
  let z : Section := ⟨.number ⟨[.field .zero], none, none, ⟨false, 0, false⟩⟩, none⟩
  have hs : (parse code).IsTextSection s := .inr ⟨z, z, z, by decide +kernel⟩
  have hp : s.record.parts.any Part.isText = true := by decide
  have ha : s.ShowsAll := rfl
  have hn : ∀ s, (parse ['0']).IsTextSection s → s.record.parts.any Part.isText = false := by
    have hz : (parse ['0']).sections = [z] := by decide +kernel
    rintro s (h | ⟨a, b, c, h⟩) <;> rw [hz] at h <;> cases h
    rfl
  obtain ⟨-, he, ho⟩ := (renderText_substitutes code .standard t).1 s hs hp
  exact ⟨⟨hs, hp, ha⟩, he, (ho ha).2, hn, (renderText_substitutes ['0'] .standard t).2 hn⟩

theorem exists_lost_text :
    let t : Text := "abc".toList
    (parse "?/?@".toList).renderText .standard t = [] ∧
      (parse "0E+0@".toList).renderText .standard t = [] ∧
      ¬∀ code o (w : Text) s, (parse code).IsTextSection s →
        s.record.parts.any Part.isText = true →
          w.OccursApart (s.record.parts.countP Part.isText) ((parse code).renderText o w) := by
  intro t
  have hf : (parse "?/?@".toList).renderText .standard t = [] := by decide +kernel
  refine ⟨hf, by decide +kernel, fun h => ?_⟩
  let s : Section := ⟨.fraction ⟨[], [.question], .bestFit [.question], [.text],
    ⟨false, 0, false⟩⟩, none⟩
  have hs : (parse "?/?@".toList).IsTextSection s := .inl (by decide +kernel)
  have ho := h _ .standard t s hs (by decide)
  rw [hf] at ho
  have ho : t.OccursApart 1 [] := ho
  generalize hw : ([] : Text) = w at ho
  cases ho with
  | succ u h => simp [t] at hw

end NumberFormat

end SheetFormat
