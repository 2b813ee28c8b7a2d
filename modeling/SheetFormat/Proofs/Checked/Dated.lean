import SheetFormat.Checked.Section
import SheetFormat.Proofs.Checked.Basic
import SheetFormat.Proofs.Section.Dated

/-! The parts of a date by index: what was read stands before the index, what is left behind it. -/

namespace SheetFormat

namespace Element

lemma resolve_zeros {zs : List Element} (hz : ∀ e ∈ zs, e.isZero = true)
    (before last : Option Element) (rest : List Element) :
    resolve before last zs.length (zs ++ rest) = resolve before (zs.getLast?.or last) 0 rest := by
  induction zs generalizing last with
  | nil => rfl
  | cons e zs ih =>
    obtain rfl : e = .mark (.digit .zero) := of_decide_eq_true (hz e (List.mem_cons_self ..))
    have hl : zs.getLast?.or (some (.mark (.digit .zero))) =
        ((Element.mark (.digit .zero) :: zs).getLast?).or last := by
      rw [List.getLast?_cons]
      cases zs.getLast? <;> rfl
    rw [List.length_cons, List.cons_append, resolve_taken, ← hl]
    exact ih (fun e he => hz e (List.mem_cons_of_mem _ he)) _

lemma zerosAhead_le (rest : List Element) : zerosAhead rest ≤ rest.length :=
  (Nat.min_le_right ..).trans (List.takeWhile_prefix _).length_le

lemma resolve_fraction {last : Option Element} {e : Element} {rest : List Element}
    (hs : StartsFraction last e rest) (before : Option Element) :
    resolve before last 0 (e :: rest) = .field (.subsecond (zerosAhead rest)) ::
      resolve before ((rest.take (zerosAhead rest)).getLast?.or (some e)) 0
        (rest.drop (zerosAhead rest)) := by
  rcases resolve_cons before last e rest with ⟨-, hr⟩ | ⟨hn, -⟩
  · have hz := resolve_zeros (@isZero_of_mem_take rest) before (some e)
      (rest.drop (zerosAhead rest))
    rw [List.take_append_drop, List.length_take, Nat.min_eq_left (zerosAhead_le rest)] at hz
    rw [hr, hz]
  · exact absurd hs hn

lemma nearest_append {zs : List Element} (hz : ∀ e ∈ zs, e.isDate = false) (done : List Element) :
    (done ++ zs).reverse.find? isDate = done.reverse.find? isDate := by
  have hn : zs.reverse.find? isDate = none := by
    rw [List.find?_eq_none]
    intro e he
    rw [hz e (List.mem_reverse.1 he)]
    exact Bool.false_ne_true
  rw [List.reverse_append, List.find?_append, hn]
  rfl

lemma nearest_concat (done : List Element) (e : Element) :
    (done ++ [e]).reverse.find? isDate =
      if e.isDate then some e else done.reverse.find? isDate := by
  rw [List.reverse_append]
  by_cases he : e.isDate = true
  · simp [he]
  · simp [he]

lemma isDate_of_isZero {e : Element} (h : e.isZero = true) : e.isDate = false := by
  obtain rfl : e = .mark (.digit .zero) := of_decide_eq_true h
  rfl

end Element

namespace Checked

open Element

variable {done rest : List Element} {e : Element} {m : Mark}

lemma zeros_ok (done rest : List Element) (room : Nat) :
    zeros (done ++ rest) done.length room = .ok (min room (rest.takeWhile isZero).length) := by
  induction room generalizing done rest with
  | zero => simp [zeros]
  | succ room ih =>
    cases rest with
    | nil => simp [zeros]
    | cons e rest =>
      have hi := ih (done ++ [e]) rest
      rw [List.length_append, List.append_assoc] at hi
      rw [zeros, if_pos (by simp), get_append, ok_bind]
      by_cases he : e.isZero = true
      · rw [if_pos he, List.takeWhile_cons_of_pos he, List.length_cons, Nat.succ_min_succ]
        exact congrArg (· >>= fun n => .ok (n + 1)) hi
      · rw [if_neg he, List.takeWhile_cons_of_neg he]
        simp

lemma monthOrMinute_ok (done rest : List Element) (e : Element) (count : Nat) :
    monthOrMinute (done ++ e :: rest) done.length count =
      .ok (Element.monthOrMinute (done.reverse.find? isDate) (rest.find? isDate) count) := by
  rw [monthOrMinute, isMinute, front_append, ok_bind, behind_append_cons, Element.monthOrMinute]
  by_cases hc : count ≤ 2
  · simp only [hc, if_true, ok_bind, pure_eq, decide_true, Bool.true_and]
    split_ifs <;> rfl
  · simp [hc]

lemma zerosAhead_pos : 0 < zerosAhead rest ↔ rest.head?.any isZero = true := by
  cases rest with
  | nil => simp [zerosAhead]
  | cons e rest =>
    by_cases he : e.isZero = true
    · rw [zerosAhead, List.takeWhile_cons_of_pos he]
      exact iff_of_true (Nat.lt_min.2 ⟨by decide, Nat.succ_pos _⟩) he
    · simp [zerosAhead, he]

lemma getElem?_behind (done : List Element) (e : Element) (rest : List Element) :
    (done ++ e :: rest)[done.length + 1]? = rest.head? := by
  have h1 : done.length + 1 - done.length = 1 := Nat.add_sub_cancel_left ..
  rw [List.getElem?_append_right (Nat.le_succ _), h1]
  cases rest <;> rfl

lemma subsecondZeros_cases (done rest : List Element) (m : Mark) :
    (StartsFraction done.getLast? (.mark m) rest ∧
      subsecondZeros (done ++ .mark m :: rest) m (done.length + 1) = .ok (zerosAhead rest)) ∨
    (¬StartsFraction done.getLast? (.mark m) rest ∧
      subsecondZeros (done ++ .mark m :: rest) m (done.length + 1) = .ok 0) := by
  by_cases hm : m = .point
  · rcases List.eq_nil_or_concat done with rfl | ⟨before, d, rfl⟩
    · refine .inr ⟨fun h => ?_, if_neg fun h => absurd h.2 (by decide)⟩
      cases h.2.1
    · rw [List.concat_eq_append, List.getLast?_concat]
      have hl : (before ++ [d]).length + 1 - 2 = before.length := by simp
      have hd : get (before ++ [d] ++ .mark m :: rest) before.length = .ok d := by
        rw [List.append_assoc]
        exact get_append ..
      have hz := zeros_ok (before ++ [d] ++ [.mark m]) rest 3
      rw [@List.length_append _ (before ++ [d]), List.append_assoc (before ++ [d])] at hz
      rw [subsecondZeros, if_pos ⟨hm, by simp⟩, sub_ok (by simp), ok_bind, hl, hd, ok_bind,
        getElem?_behind]
      by_cases hs : (d.isSecond && rest.head?.any isZero) = true
      · rw [if_pos hs]
        rw [Bool.and_eq_true] at hs
        exact .inl ⟨⟨congrArg Element.mark hm, hs.1, zerosAhead_pos.2 hs.2⟩, hz⟩
      · rw [if_neg hs]
        refine .inr ⟨fun h => hs ?_, rfl⟩
        rw [Bool.and_eq_true]
        exact ⟨h.2.1, zerosAhead_pos.1 h.2.2⟩
  · exact .inr ⟨fun h => hm (Element.mark.inj h.1), if_neg fun h => hm h.1⟩

lemma dateParts_ok (done rest : List Element) :
    dateParts (done ++ rest) done.length =
      .ok (resolve (done.reverse.find? isDate) done.getLast? 0 rest) := by
  -- a fraction of a second moves the index over its zeros, so every shorter rest is needed
  induction hn : rest.length using Nat.strong_induction_on generalizing done rest with
  | _ n ih =>
    cases rest with
    | nil =>
      rw [dateParts, dif_neg (by simp)]
      rfl
    | cons e rest =>
      have hi := ih rest.length (by simp at hn; omega) (done ++ [e]) rest rfl
      rw [List.length_append, List.append_assoc, nearest_concat, List.getLast?_concat] at hi
      rw [dateParts, dif_pos (by simp), get_append, ok_bind]
      cases e with
      | date f => exact bind_ok hi _
      | month count => exact (bind_ok (monthOrMinute_ok done rest _ count) _).trans (bind_ok hi _)
      | mark m =>
        rcases subsecondZeros_cases done rest m with ⟨hs, hz⟩ | ⟨hs, hz⟩
        · refine (bind_ok hz _).trans ?_
          rw [if_pos hs.2.2]
          have hf := ih (rest.drop (zerosAhead rest)).length (by simp at hn ⊢; omega)
            (done ++ [.mark m] ++ rest.take (zerosAhead rest)) _ rfl
          rw [List.append_assoc _ (rest.take _), List.take_append_drop, List.length_append,
            List.length_take, Nat.min_eq_left (zerosAhead_le rest), List.length_append,
            List.append_assoc, List.getLast?_append, List.getLast?_concat,
            nearest_append fun e he => isDate_of_isZero (isZero_of_mem_take e he),
            nearest_concat] at hf
          exact (bind_ok hf _).trans (congrArg Except.ok (resolve_fraction hs _).symm)
        · refine (bind_ok hz _).trans ((bind_ok hi _).trans ?_)
          rcases resolve_cons (done.reverse.find? isDate) done.getLast? (.mark m) rest with
            ⟨hn, -⟩ | ⟨-, hr⟩
          · exact absurd hn hs
          · rw [hr]
            rfl

lemma datePartsOf_ok (es : List Element) : dateParts es 0 = .ok (datePartsOf es) :=
  dateParts_ok [] es

end Checked

end SheetFormat
