import Mathlib.Data.List.Chain
import Mathlib.Data.List.TakeWhile
import SheetFormat.Section.Compile

/-! What the parts of a date section have in common, whatever elements they come from. -/

namespace SheetFormat

def Element.IsWritten (e : Element) : Prop := ∀ d, e ≠ .date (.subsecond d)

def FollowsSecond (last part : Option DatePart) : Prop :=
  ∀ d, part = some (.field (.subsecond d)) →
    (1 ≤ d ∧ d ≤ 3) ∧ ∃ f, last = some (.field f) ∧ f.isSecond = true

lemma mem_dateFields {f : DateField} {parts : List DatePart} :
    f ∈ dateFields parts ↔ Part.field f ∈ parts := by
  rw [dateFields, List.mem_filterMap]
  constructor
  · rintro ⟨p, hp, hf⟩
    cases p <;> simp at hf
    rwa [← hf]
  · intro hf
    exact ⟨_, hf, rfl⟩

lemma hasHalfDay_iff {parts : List DatePart} :
    hasHalfDay parts = true ↔ ∃ style, Part.field (.halfDay style) ∈ parts := by
  rw [hasHalfDay, List.any_eq_true]
  constructor
  · rintro ⟨f, hf, hh⟩
    cases f <;> simp [DateField.isHalfDay] at hh
    exact ⟨_, mem_dateFields.1 hf⟩
  · rintro ⟨style, hs⟩
    exact ⟨_, mem_dateFields.2 hs, rfl⟩

lemma foldl_max_subsecondDigits (fs : List DateField) (n : Nat) :
    let m := fs.foldl (fun n f => max n f.subsecondDigits) n
    n ≤ m ∧ (∀ f ∈ fs, f.subsecondDigits ≤ m) ∧ (m = n ∨ ∃ f ∈ fs, m = f.subsecondDigits) := by
  induction fs generalizing n with
  | nil => simp
  | cons f fs ih =>
    obtain ⟨hn, hf, he⟩ := ih (max n f.subsecondDigits)
    simp only [List.foldl_cons, List.mem_cons, forall_eq_or_imp, exists_eq_or_imp]
    refine ⟨by omega, ⟨by omega, hf⟩, ?_⟩
    rcases he with he | he
    · omega
    · exact .inr (.inr he)

namespace Element

lemma ofToken_isWritten (t : Token) : ∀ e ∈ ofToken t, e.IsWritten := by
  intro e he d hd
  subst hd
  cases t with
  | quoted t => simp [ofToken] at he
  | letters l n =>
    cases l <;> simp [ofToken, ofLetters] at he
    split at he <;> cases he
  | halfDay w => simp [ofToken, ofHalfDay] at he
  | bracket t =>
    simp only [ofToken] at he
    cases hb : Bracket.ofText t with
    | currency symbol =>
      rw [hb, ofBracket] at he
      split at he <;> simp at he
    | _ => simp [hb, ofBracket] at he
  | _ => simp [ofToken] at he

def zerosAhead (es : List Element) : Nat := min 3 (es.takeWhile isZero).length

def StartsFraction (last : Option Element) (e : Element) (es : List Element) : Prop :=
  e = .mark .point ∧ last.any isSecond = true ∧ 0 < zerosAhead es

lemma resolve_taken (before last : Option Element) (taken : Nat) (e : Element)
    (es : List Element) : resolve before last (taken + 1) (e :: es) =
      resolve (if e.isDate then some e else before) (some e) taken es := rfl

lemma resolve_cons (before last : Option Element) (e : Element) (es : List Element) :
    (StartsFraction last e es ∧ resolve before last 0 (e :: es) =
      .field (.subsecond (zerosAhead es)) :: resolve before (some e) (zerosAhead es) es) ∨
    (¬StartsFraction last e es ∧ resolve before last 0 (e :: es) =
      e.dateParts before (es.find? isDate) ++
        resolve (if e.isDate then some e else before) (some e) 0 es) := by
  have hi : (decide (e = .mark .point) && last.any isSecond &&
      decide (0 < min 3 (es.takeWhile isZero).length)) = true ↔ StartsFraction last e es := by
    simp only [Bool.and_eq_true, decide_eq_true_eq, and_assoc, StartsFraction, zerosAhead]
  by_cases hs : StartsFraction last e es
  · exact .inl ⟨hs, if_pos (hi.2 hs)⟩
  · exact .inr ⟨hs, if_neg (mt hi.1 hs)⟩

lemma isZero_of_mem_take {es : List Element} :
    ∀ e ∈ es.take (zerosAhead es), e.isZero = true := by
  intro e he
  have hp : es.take (zerosAhead es) <+: es.takeWhile isZero :=
    List.prefix_of_prefix_length_le (List.take_prefix _ es) (List.takeWhile_prefix _)
      (le_trans (List.length_take_le _ es) (Nat.min_le_right ..))
  exact List.mem_takeWhile_imp (hp.subset he)

lemma exists_field_resolve {es : List Element} {before last : Option Element} {taken : Nat}
    (hz : ∀ e ∈ es.take taken, e.isZero = true) (h : ∃ e ∈ es, e.isDate = true) :
    ∃ f, Part.field f ∈ resolve before last taken es := by
  induction es generalizing before last taken with
  | nil => simp at h
  | cons e es ih =>
    cases taken with
    | succ taken =>
      have he : e.isZero = true := hz e (List.mem_cons_self ..)
      obtain rfl : e = .mark (.digit .zero) := of_decide_eq_true he
      rw [resolve_taken]
      exact ih (fun x hx => hz x (List.mem_cons_of_mem _ hx)) (by simpa [isDate] using h)
    | zero =>
      rcases resolve_cons before last e es with ⟨-, hr⟩ | ⟨-, hr⟩ <;> rw [hr]
      · exact ⟨_, List.mem_cons_self ..⟩
      · cases e with
        | mark m =>
          have h0 : ∀ x ∈ es.take 0, x.isZero = true := by simp
          obtain ⟨f, hf⟩ := ih h0 (by simpa [isDate] using h)
          exact ⟨f, List.mem_append_right _ hf⟩
        | date f => exact ⟨f, List.mem_append_left _ (List.mem_singleton_self _)⟩
        | month n => exact ⟨_, List.mem_append_left _ (List.mem_singleton_self _)⟩

lemma chain_append_unfielded {ps qs : List DatePart} {last : Option DatePart}
    (hp : ∀ p ∈ ps, p.isField = false) (hq : ∀ x, (x :: qs.map some).IsChain FollowsSecond) :
    (last :: (ps ++ qs).map some).IsChain FollowsSecond := by
  induction ps generalizing last with
  | nil => exact hq last
  | cons p ps ih =>
    refine .cons_cons ?_ (ih fun x hx => hp x (List.mem_cons_of_mem _ hx))
    intro d hd
    have hf := hp p (List.mem_cons_self ..)
    rw [Option.some.inj hd] at hf
    exact Bool.noConfusion hf

lemma isField_of_mem_mark {m : Mark} {p : DatePart} (h : p ∈ m.parts.map Part.toDate) :
    p.isField = false := by
  obtain ⟨q, -, rfl⟩ := List.mem_map.1 h
  cases q <;> rfl

lemma followsSecond_of_ne {last : Option DatePart} {f : DateField}
    (h : ∀ d, f ≠ .subsecond d) : FollowsSecond last (some (.field f)) := by
  intro d hd
  exact absurd (Part.field.inj (Option.some.inj hd)) (h d)

lemma resolve_chain {es : List Element} (hw : ∀ e ∈ es, e.IsWritten)
    {before last : Option Element} {taken : Nat} {part : Option DatePart}
    (hz : ∀ e ∈ es.take taken, e.isZero = true)
    (hl : last.any isSecond = true → ∃ f, part = some (.field f) ∧ f.isSecond = true) :
    (part :: (resolve before last taken es).map some).IsChain FollowsSecond := by
  induction es generalizing before last taken part with
  | nil => exact .singleton _
  | cons e es ih =>
    have hws : ∀ x ∈ es, x.IsWritten := fun x hx => hw x (List.mem_cons_of_mem _ hx)
    cases taken with
    | succ taken =>
      have he : e.isZero = true := hz e (List.mem_cons_self ..)
      obtain rfl : e = .mark (.digit .zero) := of_decide_eq_true he
      rw [resolve_taken]
      exact ih hws (fun x hx => hz x (List.mem_cons_of_mem _ hx)) (by simp [isSecond])
    | zero =>
      rcases resolve_cons before last e es with ⟨⟨rfl, hs, hp⟩, hr⟩ | ⟨-, hr⟩ <;> rw [hr]
      · refine .cons_cons ?_ (ih hws isZero_of_mem_take (by simp [isSecond]))
        intro d hd
        obtain rfl : zerosAhead es = d :=
          DateField.subsecond.inj (Part.field.inj (Option.some.inj hd))
        exact ⟨⟨hp, Nat.min_le_left ..⟩, hl hs⟩
      · cases e with
        | mark m =>
          refine chain_append_unfielded (fun p hp => isField_of_mem_mark hp) fun x => ?_
          exact ih hws (by simp) (by simp [isSecond])
        | date f =>
          have hf : ∀ d, f ≠ .subsecond d := by
            rintro d rfl
            exact hw _ (List.mem_cons_self ..) d rfl
          refine .cons_cons (followsSecond_of_ne hf) (ih hws (by simp) fun hs => ⟨f, rfl, ?_⟩)
          simpa [isSecond] using hs
        | month n =>
          have hf : ∀ d, monthOrMinute before (es.find? isDate) n ≠ .subsecond d := by
            intro d
            rw [monthOrMinute]
            split <;> exact DateField.noConfusion
          exact .cons_cons (followsSecond_of_ne hf) (ih hws (by simp) (by simp [isSecond]))

end Element

end SheetFormat
