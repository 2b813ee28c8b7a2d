import SheetFormat.Proofs.Section.Dated
import SheetFormat.Proofs.Section.Woven

/-! Literal characters pass through every kind of section: which they are decides nothing. -/

namespace SheetFormat

structure NumberLayout.Carries (whole fractional exponent : List (Char × Char))
    (l m : NumberLayout) : Prop where
  whole : Woven Part.literal whole l.whole m.whole
  point : l.fractional.isSome = m.fractional.isSome
  fractional : Woven Part.literal fractional (l.fractional.getD []) (m.fractional.getD [])
  mark : l.exponent.map Prod.fst = m.exponent.map Prod.fst
  exponent : Woven Part.literal exponent ((l.exponent.map Prod.snd).getD [])
    ((m.exponent.map Prod.snd).getD [])
  scaling : l.scaling = m.scaling

structure FractionLayout.Carries (whole suffix : List (Char × Char)) (l m : FractionLayout) :
    Prop where
  whole : Woven Part.literal whole l.whole m.whole
  numerator : l.numerator = m.numerator
  denominator : l.denominator = m.denominator
  suffix : Woven Part.literal suffix l.suffix m.suffix
  scaling : l.scaling = m.scaling

/-- Bodies of one kind that agree but for the pairs of literals that they carry in their order; a
General section shows no literals. -/
inductive Body.Carries : List (Char × Char) → Body → Body → Prop
  | general (cs : List (Char × Char)) : Carries cs .general .general
  | date {cs : List (Char × Char)} {ps qs : List DatePart} : Woven Part.literal cs ps qs →
      Carries cs (.date ps) (.date qs)
  | fraction {cs ds : List (Char × Char)} {l m : FractionLayout} : l.Carries cs ds m →
      Carries (cs ++ ds) (.fraction l) (.fraction m)
  | number {cs ds es : List (Char × Char)} {l m : NumberLayout} : l.Carries cs ds es m →
      Carries (cs ++ ds ++ es) (.number l) (.number m)

structure Section.Carries (cs : List (Char × Char)) (s t : Section) : Prop where
  body : s.body.Carries cs t.body
  color : s.color = t.color

namespace Mark

variable {cs : List (Char × Char)} {ms ns : List Mark}

lemma woven_parts (h : Woven quoted cs ms ns) :
    Woven Part.literal cs (ms.flatMap parts) (ns.flatMap parts) :=
  h.flatMap fun _ => rfl

lemma any_isDigit_eq (h : Woven quoted cs ms ns) : ms.any isDigit = ns.any isDigit :=
  h.any_eq fun _ _ => rfl

lemma isSpace_quoted {c : Char} (hc : c ≠ ' ') : isSpace (quoted c) = false := by
  simp [isSpace, quoted, hc]

end Mark

namespace Settled

variable {cs ds : List (Char × Char)} {ms ns us vs : List Mark} {s t : Settled}

structure Carries (cs : List (Char × Char)) (s t : Settled) : Prop where
  marks : Woven Mark.quoted cs s.marks t.marks
  grouped : s.grouped = t.grouped
  thousands : s.thousands = t.thousands

lemma Carries.put (h : Carries cs s t) (m : Mark) : Carries cs (s.put m) (t.put m) :=
  ⟨.same m h.marks, h.grouped, h.thousands⟩

lemma Carries.put_quoted {c d : Char} (hc : c ≠ ' ') (hd : d ≠ ' ') (h : Carries cs s t) :
    Carries ((c, d) :: cs) (s.put (.quoted c)) (t.put (.quoted d)) :=
  ⟨.changed hc hd h.marks, h.grouped, h.thousands⟩

lemma Carries.comma (h : Carries cs s t) (role : CommaRole) :
    Carries cs (s.comma role) (t.comma role) := by
  cases role with
  | group => exact ⟨h.marks, rfl, h.thousands⟩
  | scale => exact ⟨h.marks, h.grouped, congrArg (· + 1) h.thousands⟩
  | literal => exact h.put _

lemma closes_eq (h : Woven Mark.quoted cs ms ns) : CommaRole.closes ms = CommaRole.closes ns := by
  have hs := (h.takeWhile_eq_and_dropWhile (p := (· = .comma)) fun _ _ => rfl).2
  unfold CommaRole.closes
  generalize ms.dropWhile _ = us at hs ⊢
  generalize ns.dropWhile _ = vs at hs ⊢
  cases hs with
  | nil => rfl
  | same => rfl
  | changed => rfl

lemma ofContext_eq (seen : Bool) (h : Woven Mark.quoted cs ms ns)
    (h' : Woven Mark.quoted ds us vs) :
    CommaRole.ofContext seen ms us = CommaRole.ofContext seen ns vs := by
  simp only [CommaRole.ofContext, Mark.any_isDigit_eq h, Mark.any_isDigit_eq h', closes_eq h']

lemma carries_ofWhole (h : Woven Mark.quoted cs ms ns) (h' : Woven Mark.quoted ds us vs)
    (seen : Bool) : Carries cs (ofWhole us seen ms) (ofWhole vs seen ns) := by
  induction h generalizing seen with
  | nil => exact ⟨.nil, rfl, rfl⟩
  | @same m cs ms ns h ih =>
    have hi := ih (seen || m.isDigit)
    rw [ofWhole, ofWhole, ofContext_eq seen h (h.append h')]
    split_ifs
    · exact hi.comma _
    · exact hi.put m
  | changed hc hd h ih =>
    exact (ih (seen || false)).put_quoted hc hd

lemma carries_ofFractional (h : Woven Mark.quoted cs ms ns) (seen : Bool) :
    Carries cs (ofFractional seen ms) (ofFractional seen ns) := by
  induction h generalizing seen with
  | nil => exact ⟨.nil, rfl, rfl⟩
  | @same m cs ms ns h ih =>
    have hi := ih (seen || m.isDigit)
    rw [ofFractional, ofFractional, ofContext_eq seen (.nil) h]
    split_ifs
    · exact hi.comma _
    · exact hi.put m
  | changed hc hd h ih =>
    exact (ih (seen || false)).put_quoted hc hd

end Settled

namespace NumberLayout

variable {cs : List (Char × Char)} {ms ns : List Mark}

lemma carries_exponentOf (h : Woven Mark.quoted cs ms ns) :
    ∃ cs₁ cs₂, cs = cs₁ ++ cs₂ ∧
      Woven Mark.quoted cs₁ (ms.takeWhile (!·.isExponent)) (ns.takeWhile (!·.isExponent)) ∧
      (exponentOf ms).map Prod.fst = (exponentOf ns).map Prod.fst ∧
      Woven Part.literal cs₂ (((exponentOf ms).map Prod.snd).getD [])
        (((exponentOf ns).map Prod.snd).getD []) := by
  obtain ⟨cs₁, cs₂, rfl, ht, hd⟩ :=
    h.exists_takeWhile_dropWhile (p := (!·.isExponent)) fun _ _ => rfl
  refine ⟨cs₁, cs₂, rfl, ht, ?_⟩
  rcases hd with ⟨hm, hn, rfl⟩ | ⟨x, us, vs, hx, hm, hn, hw⟩
  · rw [exponentOf, exponentOf, hm, hn]
    exact ⟨rfl, .nil⟩
  · rw [exponentOf, exponentOf, hm, hn]
    cases x with
    | exponent e => exact ⟨rfl, Mark.woven_parts hw⟩
    | _ => cases hx

lemma carries_beyond (h : Woven Mark.quoted cs ms ns) :
    ∃ cs₁ cs₂, cs = cs₁ ++ cs₂ ∧
      Woven Mark.quoted cs₁ (ms.takeWhile (· != .point)) (ns.takeWhile (· != .point)) ∧
      (ms.dropWhile (· != .point)).isEmpty = (ns.dropWhile (· != .point)).isEmpty ∧
      Woven Mark.quoted cs₂ ((ms.dropWhile (· != .point)).drop 1)
        ((ns.dropWhile (· != .point)).drop 1) ∧
      ((ms.dropWhile (· != .point)).isEmpty = true → cs₂ = []) := by
  obtain ⟨cs₁, cs₂, rfl, hw, hd⟩ := h.exists_takeWhile_dropWhile (p := (· != .point)) fun _ _ => rfl
  refine ⟨cs₁, cs₂, rfl, hw, ?_⟩
  rcases hd with ⟨hm, hn, rfl⟩ | ⟨x, us, vs, -, hm, hn, hb⟩
  · rw [hm, hn]
    exact ⟨rfl, .nil, fun _ => rfl⟩
  · rw [hm, hn]
    exact ⟨rfl, hb, fun he => Bool.noConfusion he⟩

lemma carries_ofMarks (h : Woven Mark.quoted cs ms ns) :
    ∃ cs₁ cs₂ cs₃, cs = cs₁ ++ cs₂ ++ cs₃ ∧ (ofMarks ms).Carries cs₁ cs₂ cs₃ (ofMarks ns) := by
  have hpercent : ms.any (· = .percent) = ns.any (· = .percent) := h.any_eq fun _ _ => rfl
  obtain ⟨cs', cs₃, rfl, hmantissa, hmark, hexponent⟩ := carries_exponentOf h
  obtain ⟨cs₁, cs₂, rfl, hwhole, hempty, hbeyond, hnil⟩ := carries_beyond hmantissa
  have hb := Settled.carries_ofWhole hwhole hbeyond false
  have ha := Settled.carries_ofFractional hbeyond
    (((ns.takeWhile (!·.isExponent)).takeWhile (· != .point)).any Mark.isDigit)
  refine ⟨cs₁, cs₂, cs₃, rfl, Mark.woven_parts hb.marks, ?_, ?_, hmark, hexponent, ?_⟩
  · simp only [ofMarks, hempty]
    split <;> rfl
  · simp only [ofMarks, Mark.any_isDigit_eq hwhole, ← hempty]
    split
    · next he =>
      rw [hnil he]
      exact .nil
    · exact Mark.woven_parts ha.marks
  · simp only [ofMarks, Mark.any_isDigit_eq hwhole, hpercent, hb.grouped, hb.thousands,
      ha.thousands]

end NumberLayout

namespace FractionLayout

variable {cs ds : List (Char × Char)} {ms ns us vs : List Mark}

lemma head?_isDigit_eq (h : Woven Mark.quoted cs ms ns) :
    (ms.head?.map Mark.isDigit).getD false = (ns.head?.map Mark.isDigit).getD false := by
  cases h with
  | nil => rfl
  | same => rfl
  | changed => rfl

lemma carries_read (h : Woven Mark.quoted cs ms ns) :
    (Denominator.read ms).1 = (Denominator.read ns).1 ∧
      Woven Mark.quoted cs (Denominator.read ms).2 (Denominator.read ns).2 := by
  obtain ⟨hd, hd'⟩ := h.takeWhile_eq_and_dropWhile (p := Mark.isDigit) fun _ _ => rfl
  obtain ⟨hn, hn'⟩ := h.takeWhile_eq_and_dropWhile (p := (·.numeralDigit?.isSome)) fun _ _ => rfl
  unfold Denominator.read
  rw [head?_isDigit_eq h]
  split
  · exact ⟨by rw [hd], hd'⟩
  · exact ⟨by rw [hn], hn'⟩

lemma carries_ofBar (h : Woven Mark.quoted cs ms ns) (h' : Woven Mark.quoted ds us vs) :
    (ofBar ms us).Carries cs ds (ofBar ns vs) := by
  obtain ⟨hdigits, hfront⟩ :=
    h.reverse.takeWhile_eq_and_dropWhile (p := Mark.isDigit) fun _ _ => rfl
  have hwhole := hfront.reverse
  rw [List.reverse_reverse] at hwhole
  have hs := Settled.carries_ofWhole hwhole (Woven.refl Mark.quoted []) false
  obtain ⟨hden, htail⟩ := carries_read h'
  refine ⟨Mark.woven_parts hs.marks, ?_, hden, Mark.woven_parts htail, ?_⟩
  · simp only [ofBar, hdigits]
  · have hpercent := (hwhole.append htail).any_eq (p := (· = .percent)) fun _ _ => rfl
    simp only [ofBar, hpercent, hs.grouped, hs.thousands]

lemma carries_bar? (h : Woven Mark.quoted cs ms ns) :
    (bar? ms = none ∧ bar? ns = none) ∨
      ∃ cs₁ cs₂ before before' after after', cs = cs₁ ++ cs₂ ∧
        bar? ms = some (before, after) ∧ bar? ns = some (before', after') ∧
        Woven Mark.quoted cs₁ before before' ∧ Woven Mark.quoted cs₂ after after' := by
  obtain ⟨cs₁, cs₂, rfl, hfront, hd⟩ :=
    h.exists_takeWhile_dropWhile (p := (· != .slash)) fun _ _ => rfl
  rcases hd with ⟨hm, hn, -⟩ | ⟨x, us, vs, -, hm, hn, hrest⟩
  · exact .inl ⟨by rw [bar?, hm], by rw [bar?, hn]⟩
  · have hbefore :=
      (hfront.reverse.takeWhile_eq_and_dropWhile fun _ => Mark.isSpace_quoted).2.reverse
    have hafter := (hrest.takeWhile_eq_and_dropWhile fun _ => Mark.isSpace_quoted).2
    rw [List.reverse_reverse] at hbefore
    have hlast := hbefore.getLast?_any_eq (p := Mark.isDigit) fun _ _ => rfl
    have hfirst := hafter.head?_any_eq (p := Mark.startsDenominator) fun _ _ => rfl
    simp only [bar?, hm, hn, hlast, hfirst]
    split
    · exact .inr ⟨cs₁, cs₂, _, _, _, _, rfl, rfl, rfl, hbefore, hafter⟩
    · exact .inl ⟨rfl, rfl⟩

end FractionLayout

lemma Body.carries_ofMarks {cs : List (Char × Char)} {ms ns : List Mark}
    (h : Woven Mark.quoted cs ms ns) : (ofMarks ms).Carries cs (ofMarks ns) := by
  unfold ofMarks FractionLayout.ofMarks?
  rcases FractionLayout.carries_bar? h with
    ⟨hm, hn⟩ | ⟨cs₁, cs₂, b, b', a, a', rfl, hm, hn, hb, ha⟩
  · rw [hm, hn]
    obtain ⟨cs₁, cs₂, cs₃, rfl, hc⟩ := NumberLayout.carries_ofMarks h
    exact .number hc
  · rw [hm, hn]
    exact .fraction (FractionLayout.carries_ofBar hb ha)

namespace Element

variable {cs : List (Char × Char)} {es fs : List Element}

def quoted (c : Char) : Element := mark (.quoted c)

lemma zerosAhead_eq (h : Woven quoted cs es fs) : zerosAhead es = zerosAhead fs := by
  rw [zerosAhead, zerosAhead, (h.takeWhile_eq_and_dropWhile (p := isZero) fun _ _ => rfl).1]

lemma resolve_quoted (before last : Option Element) (c : Char) (es : List Element) :
    resolve before last 0 (quoted c :: es) =
      .literal c :: resolve before (some (quoted c)) 0 es := by
  rcases resolve_cons before last (quoted c) es with ⟨⟨he, -⟩, -⟩ | ⟨-, hr⟩
  · cases he
  · exact hr

lemma carries_resolve (h : Woven quoted cs es fs) {last last' : Option Element}
    (hl : last.any isSecond = last'.any isSecond) {taken : Nat}
    (hz : taken ≤ (es.takeWhile isZero).length) (before : Option Element) :
    Woven Part.literal cs (resolve before last taken es) (resolve before last' taken fs) := by
  induction h generalizing last last' taken before with
  | nil => exact .nil
  | @same e cs es fs h ih =>
    cases taken with
    | succ taken =>
      have he : e.isZero = true := by
        by_contra hn
        simp [hn] at hz
      rw [List.takeWhile_cons_of_pos he, List.length_cons] at hz
      rw [resolve_taken, resolve_taken]
      exact ih rfl (Nat.le_of_succ_le_succ hz) _
    | zero =>
      have hs : StartsFraction last e es ↔ StartsFraction last' e fs := by
        rw [StartsFraction, StartsFraction, hl, zerosAhead_eq h]
      rcases resolve_cons before last e es with ⟨h₁, hr⟩ | ⟨h₁, hr⟩ <;>
        rcases resolve_cons before last' e fs with ⟨h₂, hr'⟩ | ⟨h₂, hr'⟩
      · rw [hr, hr', ← zerosAhead_eq h]
        exact .same _ (ih rfl (Nat.min_le_right ..) before)
      · exact absurd (hs.1 h₁) h₂
      · exact absurd (hs.2 h₂) h₁
      · rw [hr, hr', h.find?_eq fun _ _ => rfl]
        exact (Woven.refl Part.literal _).append (ih rfl (Nat.zero_le _) _)
  | @changed c d cs es fs hc hd h ih =>
    cases taken with
    | succ taken => exact absurd hz (Nat.not_succ_le_zero taken)
    | zero =>
      have hn : (some (quoted c)).any isSecond = (some (quoted d)).any isSecond := rfl
      rw [resolve_quoted, resolve_quoted]
      exact .changed hc hd (ih hn (Nat.zero_le _) before)

end Element

lemma Body.carries_ofElements {cs : List (Char × Char)} {es fs : List Element}
    (h : Woven Element.quoted cs es fs) : (ofElements es).Carries cs (ofElements fs) := by
  unfold ofElements
  rw [h.any_eq (p := Element.isDate) fun _ _ => rfl]
  split
  · exact .date (Element.carries_resolve h rfl (Nat.zero_le _) none)
  · exact carries_ofMarks (h.filterMap fun _ => rfl)

end SheetFormat
