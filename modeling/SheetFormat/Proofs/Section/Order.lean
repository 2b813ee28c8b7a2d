import SheetFormat.Proofs.Section.Kinds

/-! A section keeps its literals, currency symbols and places of a text in the order of the code.
-/

namespace SheetFormat

section Dropped

variable {α β : Type} {f : α → Option β} {p : α → Bool}

lemma filterMap_dropWhile (h : ∀ a, p a = true → f a = none) (l : List α) :
    (l.dropWhile p).filterMap f = l.filterMap f := by
  induction l with
  | nil => rfl
  | cons a l ih =>
    by_cases ha : p a = true
    · rw [List.dropWhile_cons_of_pos ha, List.filterMap_cons_none (h a ha), ih]
    · rw [List.dropWhile_cons_of_neg ha]

lemma filterMap_dropWhile_reverse (h : ∀ a, p a = true → f a = none) (l : List α) :
    (l.reverse.dropWhile p).reverse.filterMap f = l.filterMap f := by
  rw [List.filterMap_reverse, filterMap_dropWhile h, List.filterMap_reverse, List.reverse_reverse]

end Dropped

namespace Mark

def kept? : Mark → Option AnyPart
  | bare c => if c = ' ' ∨ c = ',' ∨ c.isDigit = true then none else some (.literal c)
  | part p =>
    match p with
    | .literal c => if c = ' ' then none else some (.literal c)
    | .currency symbol => some (.currency symbol)
    | .text => some .text
    | .field _ => none
  | _ => none

lemma kept?_bare (c : Char) : (bare c).kept? =
    if c = ' ' ∨ c = ',' ∨ c.isDigit = true then none else some (.literal c) := rfl

lemma kept?_quoted (c : Char) :
    (quoted c).kept? = if c = ' ' then none else some (.literal c) := rfl

lemma numeralDigit?_bare (c : Char) :
    (bare c).numeralDigit? = if c.isDigit then some c else none := rfl

variable {m : Mark} {p : AnyPart}

lemma parts_of_kept? (h : m.kept? = some p) :
    ∃ q, m.parts = [q] ∧ q.map .inl = p ∧ q.toDate.map .inr = p := by
  cases m with
  | bare c =>
    rw [kept?_bare] at h
    split_ifs at h
    exact ⟨.literal c, rfl, Option.some.inj h, Option.some.inj h⟩
  | part q =>
    refine ⟨q, rfl, ?_⟩
    cases q with
    | literal c =>
      rw [← quoted, kept?_quoted] at h
      split_ifs at h
      exact ⟨Option.some.inj h, Option.some.inj h⟩
    | currency symbol => exact ⟨Option.some.inj h, Option.some.inj h⟩
    | text => exact ⟨Option.some.inj h, Option.some.inj h⟩
    | field f => cases h
  | _ => cases h

lemma kept?_of_isSpace (h : m.isSpace = true) : m.kept? = none := by
  simp only [isSpace, Bool.or_eq_true, decide_eq_true_eq] at h
  rcases h with rfl | rfl <;> rfl

lemma kept?_of_isDigit (h : m.isDigit = true) : m.kept? = none := by
  obtain ⟨p, rfl⟩ := isDigit_iff.1 h
  rfl

lemma kept?_of_numeralDigit (h : m.numeralDigit?.isSome = true) : m.kept? = none := by
  cases m with
  | bare c =>
    rw [numeralDigit?_bare] at h
    split_ifs at h with hc
    · exact if_pos (.inr (.inr hc))
    · cases h
  | part q =>
    cases q with
    | field f => rfl
    | _ => cases h
  | _ => cases h

lemma kept_sublist (marks : List Mark) :
    (marks.filterMap kept?).Sublist (digitParts (marks.flatMap parts)) := by
  induction marks with
  | nil => exact .slnil
  | cons m marks ih =>
    rw [List.flatMap_cons, digitParts, List.map_append]
    cases hm : m.kept? with
    | none =>
      rw [List.filterMap_cons_none hm]
      exact ih.trans (List.sublist_append_right ..)
    | some p =>
      obtain ⟨q, hq, rfl, -⟩ := parts_of_kept? hm
      rw [List.filterMap_cons_some hm, hq]
      exact ih.cons_cons _

end Mark

namespace Settled

lemma kept_settled {m : Mark} {marks : List Mark} {s : Settled} (role : CommaRole)
    (h : s.marks.filterMap Mark.kept? = marks.filterMap Mark.kept?) :
    (if m = .comma then s.comma role else s.put m).marks.filterMap Mark.kept? =
      (m :: marks).filterMap Mark.kept? := by
  split_ifs with hm
  · subst hm
    cases role <;> exact h
  · rw [put, List.filterMap_cons, h, ← List.filterMap_cons]

lemma kept_ofWhole (beyond : List Mark) (seen : Bool) (marks : List Mark) :
    (ofWhole beyond seen marks).marks.filterMap Mark.kept? = marks.filterMap Mark.kept? := by
  induction marks generalizing seen with
  | nil => rfl
  | cons m marks ih => exact kept_settled _ (ih _)

lemma kept_ofFractional (seen : Bool) (marks : List Mark) :
    (ofFractional seen marks).marks.filterMap Mark.kept? = marks.filterMap Mark.kept? := by
  induction marks generalizing seen with
  | nil => rfl
  | cons m marks ih => exact kept_settled _ (ih _)

end Settled

def SectionRecord.parts (r : SectionRecord) : List AnyPart :=
  r.whole ++ r.fractional ++ r.exponent ++ (r.fraction.map FractionRecord.suffix).getD []

lemma kept_cut {p : Mark → Bool} (h : ∀ m, p m = false → m.kept? = none) (marks : List Mark) :
    marks.filterMap Mark.kept? = (marks.takeWhile p).filterMap Mark.kept? ++
      ((marks.dropWhile p).drop 1).filterMap Mark.kept? := by
  induction marks with
  | nil => rfl
  | cons m marks ih =>
    cases hm : p m with
    | true =>
      rw [List.takeWhile_cons_of_pos hm, List.dropWhile_cons_of_pos hm, List.filterMap_cons,
        List.filterMap_cons, ih]
      cases m.kept? <;> rfl
    | false =>
      have hn : ¬p m = true := by simp [hm]
      rw [List.takeWhile_cons_of_neg hn, List.dropWhile_cons_of_neg hn,
        List.filterMap_cons_none (h m hm)]
      rfl

namespace NumberLayout

lemma parts_exponentOf (marks : List Mark) :
    ((exponentOf marks).map Prod.snd).getD [] =
      ((marks.dropWhile (!·.isExponent)).drop 1).flatMap Mark.parts := by
  rw [exponentOf]
  cases hd : marks.dropWhile (!·.isExponent) with
  | nil => rfl
  | cons m rest =>
    have hm : m.isExponent = true := by
      have := List.head_dropWhile_not (!·.isExponent) (l := marks) (by simp [hd])
      simpa [hd] using this
    cases m with
    | exponent e => rfl
    | _ => cases hm

lemma parts_ofMarks (marks : List Mark) (c : Option Color) :
    let mantissa := marks.takeWhile (!·.isExponent)
    let whole := mantissa.takeWhile (· != .point)
    let beyond := (mantissa.dropWhile (· != .point)).drop 1
    (Section.record ⟨.number (ofMarks marks), c⟩).parts =
      digitParts ((Settled.ofWhole beyond false whole).marks.flatMap Mark.parts) ++
        digitParts
          ((Settled.ofFractional (whole.any Mark.isDigit) beyond).marks.flatMap Mark.parts) ++
          digitParts (((marks.dropWhile (!·.isExponent)).drop 1).flatMap Mark.parts) := by
  intro mantissa whole beyond
  have hf : ∀ (point : List Mark) seen, (if point.isEmpty then none else
      some ((Settled.ofFractional seen (point.drop 1)).marks.flatMap Mark.parts)).getD [] =
        (Settled.ofFractional seen (point.drop 1)).marks.flatMap Mark.parts := by
    intro point seen
    cases point <;> rfl
  simp only [SectionRecord.parts, Section.record, ofMarks, hf, parts_exponentOf, Option.map_none,
    Option.getD_none, List.append_nil]
  rfl

lemma kept_sublist (marks : List Mark) (c : Option Color) :
    (marks.filterMap Mark.kept?).Sublist (Section.record ⟨.number (ofMarks marks), c⟩).parts := by
  have he : ∀ m : Mark, (!m.isExponent) = false → m.kept? = none := by
    intro m hm
    cases m with
    | exponent e => rfl
    | _ => cases hm
  have hp : ∀ m : Mark, (m != .point) = false → m.kept? = none := by
    intro m hm
    obtain rfl : m = .point := by simpa using hm
    rfl
  rw [parts_ofMarks, kept_cut he marks, kept_cut hp (marks.takeWhile _)]
  refine .append (.append ?_ ?_) (Mark.kept_sublist _)
  · rw [← Settled.kept_ofWhole]
    exact Mark.kept_sublist _
  · rw [← Settled.kept_ofFractional]
    exact Mark.kept_sublist _

end NumberLayout

namespace FractionLayout

lemma kept_read (marks : List Mark) :
    (Denominator.read marks).2.filterMap Mark.kept? = marks.filterMap Mark.kept? := by
  rw [Denominator.read]
  split_ifs
  · exact filterMap_dropWhile (fun _ => Mark.kept?_of_isDigit) marks
  · exact filterMap_dropWhile (fun _ => Mark.kept?_of_numeralDigit) marks

lemma kept_sublist_ofBar (before after : List Mark) (c : Option Color) :
    (before.filterMap Mark.kept? ++ after.filterMap Mark.kept?).Sublist
      (Section.record ⟨.fraction (ofBar before after), c⟩).parts := by
  simp only [SectionRecord.parts, Section.record, record, ofBar, List.append_nil, Option.map_some,
    Option.getD_some]
  refine .append ?_ ?_
  · rw [← filterMap_dropWhile_reverse (fun _ => Mark.kept?_of_isDigit),
      ← Settled.kept_ofWhole [] false]
    exact Mark.kept_sublist _
  · rw [← kept_read]
    exact Mark.kept_sublist _

lemma kept_sublist {marks : List Mark} {l : FractionLayout} (h : ofMarks? marks = some l)
    (c : Option Color) :
    (marks.filterMap Mark.kept?).Sublist (Section.record ⟨.fraction l, c⟩).parts := by
  have hs : ∀ m : Mark, (m != .slash) = false → m.kept? = none := by
    intro m hm
    obtain rfl : m = .slash := by simpa using hm
    rfl
  obtain ⟨⟨before, after⟩, hb, rfl⟩ := Option.map_eq_some_iff.1 h
  rw [bar?] at hb
  split at hb
  next => cases hb
  next m rest hd =>
    dsimp only at hb
    split_ifs at hb
    obtain ⟨rfl, rfl⟩ := Prod.mk.inj (Option.some.inj hb)
    have hk := kept_sublist_ofBar ((marks.takeWhile (· != .slash)).reverse.dropWhile
      Mark.isSpace).reverse (rest.dropWhile Mark.isSpace) c
    rw [filterMap_dropWhile_reverse (fun _ => Mark.kept?_of_isSpace),
      filterMap_dropWhile (fun _ => Mark.kept?_of_isSpace)] at hk
    rw [kept_cut hs, hd]
    exact hk

end FractionLayout

namespace Element

def kept? : Element → Option AnyPart
  | mark m => m.kept?
  | _ => none

lemma kept?_of_isZero {e : Element} (h : e.isZero = true) : e.kept? = none := by
  obtain rfl : e = .mark (.digit .zero) := of_decide_eq_true h
  rfl

lemma kept_dateParts {e : Element} {p : AnyPart} (h : e.kept? = some p)
    (before after : Option Element) :
    dateFieldParts (e.dateParts before after) = [p] := by
  cases e with
  | mark m =>
    obtain ⟨q, hq, -, rfl⟩ := Mark.parts_of_kept? h
    rw [dateParts, hq]
    rfl
  | _ => cases h

lemma kept_sublist_resolve {es : List Element} {before last : Option Element} {taken : Nat}
    (hz : ∀ e ∈ es.take taken, e.isZero = true) :
    (es.filterMap kept?).Sublist (dateFieldParts (resolve before last taken es)) := by
  induction es generalizing before last taken with
  | nil => exact .slnil
  | cons e es ih =>
    cases taken with
    | succ taken =>
      rw [resolve_taken, List.filterMap_cons_none (kept?_of_isZero (hz e (List.mem_cons_self ..)))]
      exact ih fun x hx => hz x (List.mem_cons_of_mem _ hx)
    | zero =>
      rcases resolve_cons before last e es with ⟨⟨rfl, -, -⟩, hr⟩ | ⟨-, hr⟩ <;> rw [hr]
      · exact (ih isZero_of_mem_take).cons _
      · have hs : (es.filterMap kept?).Sublist
            (dateFieldParts (resolve (if e.isDate then some e else before) (some e) 0 es)) :=
          ih (by simp)
        rw [dateFieldParts, List.map_append]
        cases he : e.kept? with
        | none =>
          rw [List.filterMap_cons_none he]
          exact hs.trans (List.sublist_append_right ..)
        | some p =>
          rw [List.filterMap_cons_some he, ← dateFieldParts, kept_dateParts he]
          exact hs.cons_cons _

end Element

lemma Body.kept_sublist (elements : List Element) (c : Option Color) :
    (elements.filterMap Element.kept?).Sublist
      (Section.record ⟨.ofElements elements, c⟩).parts := by
  rw [ofElements]
  split_ifs
  · have hr : (Section.record ⟨.date (datePartsOf elements), c⟩).parts =
        dateFieldParts (datePartsOf elements) := by
      simp [SectionRecord.parts, Section.record]
    rw [hr]
    exact Element.kept_sublist_resolve (by simp)
  · have hm : elements.filterMap Element.kept? =
        (elements.filterMap Element.mark?).filterMap Mark.kept? := by
      rw [List.filterMap_filterMap]
      congr 1
      funext e
      cases e <;> rfl
    rw [hm, ofMarks]
    split
    next l hl => exact FractionLayout.kept_sublist hl c
    next => exact NumberLayout.kept_sublist _ c

namespace Token

def keptOfBracket : Bracket → List AnyPart
  | .currency symbol => if symbol.isEmpty then [] else [.currency symbol]
  | _ => []

def kept : Token → List AnyPart
  | literal c => if c = ' ' ∨ c = ',' ∨ c.isDigit = true then [] else [.literal c]
  | escaped c => ([c].filter (· ≠ ' ')).map .literal
  | quoted t => (t.filter (· ≠ ' ')).map .literal
  | bracket t => keptOfBracket (Bracket.ofText t)
  | textMark => [.text]
  | _ => []

lemma kept_literal (c : Char) : (literal c).kept =
    if c = ' ' ∨ c = ',' ∨ c.isDigit = true then [] else [.literal c] := rfl

lemma kept_ofBracket (b : Bracket) :
    (Element.ofBracket b).filterMap Element.kept? = keptOfBracket b := by
  cases b with
  | currency symbol =>
    cases symbol <;> rfl
  | _ => rfl

lemma kept_quoted (t : Text) :
    (t.map fun c => Element.mark (.quoted c)).filterMap Element.kept? =
      (t.filter (· ≠ ' ')).map .literal := by
  induction t with
  | nil => rfl
  | cons c t ih =>
    by_cases hc : c = ' '
    · rw [List.map_cons, List.filter_cons_of_neg (by simp [hc]), ← ih]
      exact List.filterMap_cons_none (if_pos hc)
    · rw [List.map_cons, List.filter_cons_of_pos (by simp [hc]), List.map_cons, ← ih]
      exact List.filterMap_cons_some (if_neg hc)

lemma kept_ofToken (t : Token) : (Element.ofToken t).filterMap Element.kept? = t.kept := by
  cases t with
  | literal c =>
    by_cases hc : c = ' ' ∨ c = ',' ∨ c.isDigit = true
    · rw [kept_literal, if_pos hc]
      exact List.filterMap_cons_none (if_pos hc)
    · rw [kept_literal, if_neg hc]
      exact List.filterMap_cons_some (if_neg hc)
  | escaped c => exact kept_quoted [c]
  | quoted t => exact kept_quoted t
  | bracket t => exact kept_ofBracket (Bracket.ofText t)
  | letters l n => cases l <;> rfl
  | _ => rfl

end Token

lemma Section.kept_sublist {tokens : List Token} (h : .general ∉ tokens) :
    (tokens.flatMap Token.kept).Sublist (Section.ofTokens tokens).record.parts := by
  have hk : (tokens.flatMap Element.ofToken).filterMap Element.kept? =
      tokens.flatMap Token.kept := by
    rw [List.filterMap_flatMap]
    exact List.flatMap_congr fun t _ => Token.kept_ofToken t
  rw [← hk, Section.ofTokens, Body.ofTokens, if_neg h]
  exact Body.kept_sublist _ _

end SheetFormat
