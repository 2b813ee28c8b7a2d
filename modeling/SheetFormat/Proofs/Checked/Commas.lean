import SheetFormat.Checked.Section
import SheetFormat.Proofs.Checked.Basic

/-! The commas of a number by index. Up to the point the boundary counts the marks that remain and
the marks of the whole part still to come. -/

namespace SheetFormat

lemma CommaRole.ofContext_nil_ne_group (seen : Bool) (after : List Mark) :
    ofContext seen [] after ≠ group := by
  rw [ofContext, List.any_nil, Bool.and_false, if_neg Bool.false_ne_true]
  split_ifs <;> exact CommaRole.noConfusion

lemma Settled.grouped_ofFractional (seen : Bool) (marks : List Mark) :
    (ofFractional seen marks).grouped = false := by
  induction marks generalizing seen with
  | nil => rfl
  | cons m rest ih =>
    rw [ofFractional]
    by_cases hm : m = .comma
    · rw [if_pos hm]
      cases hr : CommaRole.ofContext seen [] rest with
      | group => exact absurd hr (CommaRole.ofContext_nil_ne_group seen rest)
      | scale => exact ih _
      | literal => exact ih _
    · rw [if_neg hm]
      exact ih _

namespace Checked

namespace Commas

def apply (role : CommaRole) (inWhole : Bool) (s : Commas) : Checked Commas :=
  match role with
  | .group => s.group.leave inWhole
  | .scale => s.scale.leave inWhole
  | .literal => .ok (s.put (.bare ','))

def addFractional (s : Commas) (t : Settled) : Commas :=
  ⟨s.marks ++ t.marks, s.boundary, s.grouped || t.grouped, min 255 (s.thousands + t.thousands)⟩

def addWhole (s : Commas) (t : Settled) : Commas :=
  ⟨s.marks ++ t.marks, (s.marks ++ t.marks).length, s.grouped || t.grouped,
    min 255 (s.thousands + t.thousands)⟩

end Commas

variable {done rest beyond : List Mark} {m : Mark} {s : Commas} {whole : Nat}

lemma comma_eq {inWhole : List Mark}
    (h : restOfWhole (done ++ m :: rest) whole done.length = .ok inWhole) :
    comma (done ++ m :: rest) whole done.length s =
      s.apply (.ofContext (done.any Mark.isDigit) inWhole rest) (done.length < whole) := by
  rw [comma, front_append, ok_bind, h, ok_bind, behind_append_cons, ok_bind, CommaRole.ofContext]
  split_ifs <;> rfl

lemma any_isDigit_append (done : List Mark) (m : Mark) :
    (done ++ [m]).any Mark.isDigit = (done.any Mark.isDigit || m.isDigit) := by
  simp

lemma apply_fractional (role : CommaRole) (hs : s.thousands ≤ 255) :
    ∃ t, s.apply role false = .ok t ∧ t.thousands ≤ 255 ∧
      ∀ u : Settled, t.addFractional u = s.addFractional (u.comma role) := by
  cases role with
  | group =>
    refine ⟨_, rfl, hs, fun u => ?_⟩
    simp [Commas.addFractional, Commas.group, Settled.comma]
  | scale =>
    refine ⟨_, rfl, Nat.min_le_left .., fun u => ?_⟩
    simp [Commas.addFractional, Commas.scale, Settled.comma]
    omega
  | literal =>
    refine ⟨_, rfl, hs, fun u => ?_⟩
    simp [Commas.addFractional, Commas.put, Settled.comma, Settled.put]

lemma apply_whole (role : CommaRole) {k : Nat} (hb : s.boundary = s.marks.length + (k + 1))
    (hs : s.thousands ≤ 255) :
    ∃ t, s.apply role true = .ok t ∧ t.boundary = t.marks.length + k ∧ t.thousands ≤ 255 ∧
      ∀ u : Settled, t.addWhole u = s.addWhole (u.comma role) := by
  have hl : ∀ t : Commas, t.boundary = s.boundary →
      t.leave true = .ok { t with boundary := s.marks.length + k } := by
    intro t ht
    rw [Commas.leave, if_pos rfl, ht, hb, sub_ok (by omega)]
    rfl
  cases role with
  | group =>
    refine ⟨_, hl s.group rfl, rfl, hs, fun u => ?_⟩
    simp [Commas.addWhole, Commas.group, Settled.comma]
  | scale =>
    refine ⟨_, hl s.scale rfl, rfl, Nat.min_le_left .., fun u => ?_⟩
    simp [Commas.addWhole, Commas.scale, Settled.comma]
    omega
  | literal =>
    refine ⟨_, rfl, ?_, hs, fun u => ?_⟩
    · simp only [Commas.put, List.length_append, List.length_singleton]
      omega
    · simp [Commas.addWhole, Commas.put, Settled.comma, Settled.put]

lemma settle_fractional (h : whole ≤ done.length) (hs : s.thousands ≤ 255) :
    settle (done ++ rest) whole done.length rest s =
      .ok (s.addFractional (Settled.ofFractional (done.any Mark.isDigit) rest)) := by
  -- a mark that is read goes to the front, so front and state vary
  induction rest generalizing done s with
  | nil => simp [settle, Settled.ofFractional, Commas.addFractional, Settled.empty, hs]
  | cons m rest ih =>
    have hn : whole ≤ (done ++ [m]).length := by simp; omega
    have hi := fun s hs => @ih (done ++ [m]) s hn hs
    rw [List.length_append, any_isDigit_append, List.append_assoc] at hi
    rw [settle, settleMark, Settled.ofFractional]
    by_cases hm : m = .comma
    · obtain ⟨t, ht, hts, hu⟩ := apply_fractional (.ofContext (done.any Mark.isDigit) [] rest) hs
      rw [if_pos hm, if_pos hm, comma_eq (if_neg (by omega)), decide_eq_false (by omega), ht, ← hu]
      exact hi t hts
    · rw [if_neg hm, if_neg hm]
      refine (hi (s.put m) hs).trans ?_
      simp [Commas.addFractional, Commas.put, Settled.put]

lemma restOfWhole_ok (hw : whole = (done ++ m :: rest).length) :
    restOfWhole (done ++ m :: (rest ++ beyond)) whole done.length = .ok rest := by
  have h := slice_append (done ++ [m]) rest beyond
  have hl : (done ++ [m]).length + rest.length = whole := by
    rw [hw]
    simp
    omega
  rw [hl, List.length_append, List.append_assoc] at h
  rw [restOfWhole, if_pos (by simp [hw])]
  exact h

lemma settle_whole (hw : whole = (done ++ rest).length)
    (hb : s.boundary = s.marks.length + rest.length) (hs : s.thousands ≤ 255) :
    settle (done ++ (rest ++ beyond)) whole done.length (rest ++ beyond) s =
      settle (done ++ (rest ++ beyond)) whole whole beyond
        (s.addWhole (Settled.ofWhole beyond (done.any Mark.isDigit) rest)) := by
  induction rest generalizing done s with
  | nil =>
    have ht : s.addWhole Settled.empty = s := by
      rw [List.length_nil, Nat.add_zero] at hb
      simp only [Commas.addWhole, Settled.empty, List.append_nil, Bool.or_false, Nat.add_zero,
        Nat.min_eq_right hs, ← hb]
    rw [hw, List.append_nil, Settled.ofWhole, ht]
    rfl
  | cons m rest ih =>
    have hn : whole = (done ++ [m] ++ rest).length := by rw [hw]; simp
    have hi := fun s hb hs => @ih (done ++ [m]) s hn hb hs
    rw [List.length_append, any_isDigit_append, List.append_assoc] at hi
    rw [List.cons_append, settle, settleMark, Settled.ofWhole]
    by_cases hm : m = .comma
    · obtain ⟨t, ht, htb, hts, hu⟩ :=
        apply_whole (.ofContext (done.any Mark.isDigit) rest (rest ++ beyond)) hb hs
      rw [if_pos hm, if_pos hm, comma_eq (restOfWhole_ok hw), decide_eq_true (by simp [hw]), ht,
        ← hu]
      exact hi t htb hts
    · rw [if_neg hm, if_neg hm]
      refine (hi (s.put m) ?_ hs).trans ?_
      · simp only [Commas.put, List.length_append, List.length_singleton]
        rw [List.length_cons] at hb
        omega
      · simp [Commas.addWhole, Commas.put, Settled.put]

lemma commas_ok (whole beyond : List Mark) :
    let before := Settled.ofWhole beyond false whole
    let after := Settled.ofFractional (whole.any Mark.isDigit) beyond
    commas (whole ++ beyond) whole.length =
      .ok ⟨before.marks ++ after.marks, before.marks.length, before.grouped,
        min 255 (before.thousands + after.thousands)⟩ := by
  intro before after
  have hw := @settle_whole [] whole beyond ⟨[], whole.length, false, 0⟩ whole.length rfl
    (Nat.zero_add _).symm (Nat.zero_le _)
  have hf := @settle_fractional whole beyond _ whole.length le_rfl
    (show (Commas.addWhole ⟨[], whole.length, false, 0⟩ before).thousands ≤ 255 from
      Nat.min_le_left ..)
  refine hw.trans (hf.trans ?_)
  simp only [Commas.addWhole, Commas.addFractional, List.nil_append, Bool.false_or, Nat.zero_add,
    Settled.grouped_ofFractional, Bool.or_false]
  congr 2
  change min 255 (min 255 before.thousands + after.thousands) = _
  omega

end Checked

end SheetFormat
