import Mathlib.Data.List.TakeWhile
import SheetFormat.Section.Comma

namespace SheetFormat

def Groups (whole : List Mark) (i : Nat) : Prop :=
  whole[i]? = some .comma ∧ (whole.take i).any Mark.isDigit = true ∧
    (whole.drop (i + 1)).any Mark.isDigit = true

def Closes (marks : List Mark) : Prop :=
  ∃ k, marks = List.replicate k .comma ∨
    ∃ rest, marks = List.replicate k .comma ++ .percent :: rest

/-- A comma with a digit placeholder before it and none behind it, and with nothing but commas up to
the end or a percent sign. -/
def Scales (mantissa : List Mark) (i : Nat) : Prop :=
  mantissa[i]? = some .comma ∧ (mantissa.take i).any Mark.isDigit = true ∧
    (mantissa.drop (i + 1)).any Mark.isDigit = false ∧ Closes (mantissa.drop (i + 1))

variable {whole beyond before after marks rest : List Mark} {m : Mark} {i k : Nat} {s : Settled}

lemma closes_iff : CommaRole.closes marks = true ↔ Closes marks := by
  constructor
  · intro h
    have ht : marks.takeWhile (· = .comma) =
        List.replicate (marks.takeWhile (· = .comma)).length .comma := by
      apply List.eq_replicate_of_mem
      intro m hm
      simpa using List.mem_takeWhile_imp hm
    have hc := List.takeWhile_append_dropWhile (p := (· = Mark.comma)) (l := marks)
    refine ⟨(marks.takeWhile (· = .comma)).length, ?_⟩
    rw [← ht]
    rw [CommaRole.closes] at h
    cases hd : marks.dropWhile (· = .comma) with
    | nil =>
      rw [hd, List.append_nil] at hc
      exact .inl hc.symm
    | cons m rest =>
      rw [hd] at h hc
      obtain rfl : m = .percent := of_decide_eq_true h
      exact .inr ⟨rest, hc.symm⟩
  · rintro ⟨k, rfl | ⟨rest, rfl⟩⟩
    · simp [CommaRole.closes]
    · simp [CommaRole.closes]

instance : Decidable (Groups whole i) := inferInstanceAs (Decidable (_ ∧ _ ∧ _))

instance : Decidable (Closes marks) := decidable_of_iff _ closes_iff

instance : Decidable (Scales marks i) := inferInstanceAs (Decidable (_ ∧ _ ∧ _ ∧ _))

def keptMarks (whole beyond : List Mark) (start : Nat) (marks : List Mark) : List Mark :=
  ((marks.zipIdx start).filter fun m =>
    ¬(Groups whole m.2 ∨ Scales (whole ++ beyond) m.2)).map Prod.fst

def scaleCount (mantissa : List Mark) (start count : Nat) : Nat :=
  (List.range' start count).countP fun i => Scales mantissa i

lemma Groups.lt_length (h : Groups whole i) : i < whole.length :=
  (List.getElem?_eq_some_iff.1 h.1).1

lemma Groups.not_scales (h : Groups whole i) : ¬Scales (whole ++ beyond) i := by
  rintro ⟨-, -, hn, -⟩
  rw [List.drop_append_of_le_length h.lt_length, List.any_append, h.2.2] at hn
  cases hn

lemma keptMarks_cons (h : Groups whole i ∨ Scales (whole ++ beyond) i) :
    keptMarks whole beyond i (m :: rest) = keptMarks whole beyond (i + 1) rest := by
  rw [keptMarks, List.zipIdx_cons, List.filter_cons_of_neg (by simp [h])]
  rfl

lemma keptMarks_cons_of_not (h : ¬(Groups whole i ∨ Scales (whole ++ beyond) i)) :
    keptMarks whole beyond i (m :: rest) = m :: keptMarks whole beyond (i + 1) rest := by
  rw [keptMarks, List.zipIdx_cons, List.filter_cons_of_pos (by simp [h])]
  rfl

lemma scaleCount_succ (mantissa : List Mark) (i n : Nat) : scaleCount mantissa i (n + 1) =
    scaleCount mantissa (i + 1) n + if Scales mantissa i then 1 else 0 := by
  simp [scaleCount, List.range'_succ, List.countP_cons]

structure Accounts (whole beyond : List Mark) (start : Nat) (marks : List Mark) (s : Settled) :
    Prop where
  parts : s.marks.flatMap Mark.parts = (keptMarks whole beyond start marks).flatMap Mark.parts
  grouped : s.grouped = true ↔ ∃ i ≥ start, Groups whole i ∧ i < start + marks.length
  thousands : s.thousands = scaleCount (whole ++ beyond) start marks.length

lemma accounts_nil (start : Nat) : Accounts whole beyond start [] .empty := by
  refine ⟨rfl, ?_, rfl⟩
  simp only [Settled.empty, Bool.false_eq_true, List.length_nil, false_iff]
  rintro ⟨i, hl, -, hu⟩
  omega

lemma exists_groups_cons (whole : List Mark) (m : Mark) (rest : List Mark) (i : Nat) :
    (∃ j ≥ i, Groups whole j ∧ j < i + (m :: rest).length) ↔
      Groups whole i ∨ ∃ j ≥ i + 1, Groups whole j ∧ j < i + 1 + rest.length := by
  rw [List.length_cons, Nat.add_comm rest.length, ← Nat.add_assoc]
  constructor
  · rintro ⟨j, hl, hg, hu⟩
    rcases Nat.eq_or_lt_of_le hl with rfl | hl
    · exact .inl hg
    · exact .inr ⟨j, hl, hg, hu⟩
  · rintro (hg | ⟨j, hl, hg, hu⟩)
    · exact ⟨i, le_rfl, hg, by omega⟩
    · exact ⟨j, Nat.le_of_succ_le hl, hg, hu⟩

def roleAt (whole beyond : List Mark) (i : Nat) : CommaRole :=
  if Groups whole i then .group
  else if Scales (whole ++ beyond) i then .scale
  else .literal

lemma Accounts.put_of_parts_eq {m' : Mark} (h : Accounts whole beyond (i + 1) rest s)
    (hm : m'.parts = m.parts) (hg : ¬Groups whole i) (hs : ¬Scales (whole ++ beyond) i) :
    Accounts whole beyond i (m :: rest) (s.put m') := by
  refine ⟨?_, ?_, ?_⟩
  · rw [keptMarks_cons_of_not (not_or.2 ⟨hg, hs⟩), List.flatMap_cons, ← h.parts, ← hm]
    rfl
  · rw [exists_groups_cons, or_iff_right hg, ← h.grouped]
    rfl
  · rw [List.length_cons, scaleCount_succ, if_neg hs, Nat.add_zero, ← h.thousands]
    rfl

lemma Accounts.comma (h : Accounts whole beyond (i + 1) rest s) :
    Accounts whole beyond i (.comma :: rest) (s.comma (roleAt whole beyond i)) := by
  rw [roleAt]
  split_ifs with hg hs
  · refine ⟨?_, ?_, ?_⟩
    · rw [keptMarks_cons (.inl hg), ← h.parts]
      rfl
    · rw [exists_groups_cons]
      exact iff_of_true rfl (.inl hg)
    · rw [List.length_cons, scaleCount_succ, if_neg hg.not_scales, Nat.add_zero, ← h.thousands]
      rfl
  · refine ⟨?_, ?_, ?_⟩
    · rw [keptMarks_cons (.inr hs), ← h.parts]
      rfl
    · rw [exists_groups_cons, or_iff_right hg, ← h.grouped]
      rfl
    · rw [List.length_cons, scaleCount_succ, if_pos hs, ← h.thousands]
      rfl
  · exact h.put_of_parts_eq rfl hg hs

lemma Accounts.put (h : Accounts whole beyond (i + 1) rest s) (hm : m ≠ .comma)
    (hi : (whole ++ beyond)[i]? = some m) : Accounts whole beyond i (m :: rest) (s.put m) := by
  have hs : ¬Scales (whole ++ beyond) i := by
    rintro ⟨hc, -⟩
    exact hm (Option.some.inj (hi.symm.trans hc))
  have hg : ¬Groups whole i := by
    intro hg
    rw [List.getElem?_append_left hg.lt_length, hg.1] at hi
    exact hm (Option.some.inj hi).symm
  exact h.put_of_parts_eq rfl hg hs

section Roles

variable {done : List Mark}

lemma take_drop_of_append (done : List Mark) (m : Mark) (rest : List Mark) :
    (done ++ m :: rest)[done.length]? = some m ∧ (done ++ m :: rest).take done.length = done ∧
      (done ++ m :: rest).drop (done.length + 1) = rest := by
  refine ⟨by simp, by simp, ?_⟩
  rw [List.drop_append]
  simp

lemma ofContext_eq_roleAt (hw : whole = done ++ .comma :: rest) :
    CommaRole.ofContext (done.any Mark.isDigit) rest (rest ++ beyond) =
      roleAt whole beyond done.length := by
  subst hw
  obtain ⟨hc, ht, hd⟩ := take_drop_of_append done .comma rest
  have hm : (done ++ .comma :: rest) ++ beyond = done ++ .comma :: (rest ++ beyond) := by simp
  obtain ⟨hc', ht', hd'⟩ := take_drop_of_append done .comma (rest ++ beyond)
  simp only [CommaRole.ofContext, roleAt, Groups, Scales, hm, hc, ht, hd, hc', ht', hd', true_and,
    Bool.and_eq_true, Bool.not_eq_true', closes_iff, and_assoc]

lemma ofContext_eq_roleAt_beyond (hw : whole ++ beyond = done ++ .comma :: rest)
    (hl : whole.length ≤ done.length) :
    CommaRole.ofContext (done.any Mark.isDigit) [] rest = roleAt whole beyond done.length := by
  have hg : ¬Groups whole done.length := fun h => Nat.not_lt.2 hl h.lt_length
  obtain ⟨hc, ht, hd⟩ := take_drop_of_append done .comma rest
  simp only [CommaRole.ofContext, roleAt, if_neg hg, Scales, hw, hc, ht, hd, true_and,
    Bool.and_eq_true, Bool.not_eq_true', closes_iff, and_assoc, List.any_nil, Bool.false_eq_true,
    and_false, if_false]

lemma accounts_ofWhole (hw : whole = done ++ rest) :
    Accounts whole beyond done.length rest
      (Settled.ofWhole beyond (done.any Mark.isDigit) rest) := by
  induction rest generalizing done with
  | nil => exact accounts_nil _
  | cons m rest ih =>
    have h := @ih (done ++ [m]) (by simp [hw])
    simp only [List.length_append, List.length_singleton, List.any_append, List.any_cons,
      List.any_nil, Bool.or_false] at h
    rw [Settled.ofWhole]
    by_cases hm : m = .comma
    · subst hm
      rw [if_pos rfl, ofContext_eq_roleAt hw]
      exact h.comma
    · rw [if_neg hm]
      exact h.put hm (by simp [hw])

lemma accounts_ofFractional (hw : whole ++ beyond = done ++ rest)
    (hl : whole.length ≤ done.length) :
    Accounts whole beyond done.length rest
      (Settled.ofFractional (done.any Mark.isDigit) rest) := by
  induction rest generalizing done with
  | nil => exact accounts_nil _
  | cons m rest ih =>
    have h := @ih (done ++ [m]) (by simp [hw]) (by simp; omega)
    simp only [List.length_append, List.length_singleton, List.any_append, List.any_cons,
      List.any_nil, Bool.or_false] at h
    rw [Settled.ofFractional]
    by_cases hm : m = .comma
    · subst hm
      rw [if_pos rfl, ofContext_eq_roleAt_beyond hw hl]
      exact h.comma
    · rw [if_neg hm]
      exact h.put hm (by simp [hw])

end Roles

lemma scaleCount_add (mantissa : List Mark) (i j k : Nat) :
    scaleCount mantissa i (j + k) = scaleCount mantissa i j + scaleCount mantissa (i + j) k := by
  rw [scaleCount, ← List.range'_append_1, List.countP_append]
  rfl

namespace NumberLayout

lemma exponentOf_append {mantissa : List Mark} (h : ∀ m ∈ mantissa, m.isExponent = false)
    (e : ExponentMark) (rest : List Mark) :
    exponentOf (mantissa ++ .exponent e :: rest) = some (e, rest.flatMap Mark.parts) := by
  have hd : (mantissa ++ .exponent e :: rest).dropWhile (!·.isExponent) = .exponent e :: rest := by
    rw [List.dropWhile_append_of_pos (by simpa using h), List.dropWhile_cons_of_neg]
    simp [Mark.isExponent]
  rw [exponentOf, hd]

lemma exponentOf_of_none (h : ∀ m ∈ marks, m.isExponent = false) : exponentOf marks = none := by
  have hd : marks.dropWhile (!·.isExponent) = [] := List.dropWhile_eq_nil_iff.2 (by simpa using h)
  rw [exponentOf, hd]

end NumberLayout

end SheetFormat
