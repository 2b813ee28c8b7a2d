import SheetFormat.Proofs.Checked.Section

namespace SheetFormat

def Mark.shown : Mark → List DatePart
  | part (.literal c) => [.literal c]
  | part (.currency symbol) => [.currency symbol]
  | part .text => [.text]
  | part (.field .zero) => [.literal '0']
  | part (.field .hash) => [.literal '#']
  | part (.field .question) => [.literal '?']
  | bare c => [.literal c]
  | point => [.literal '.']
  | comma => [.literal ',']
  | slash => [.literal '/']
  | percent => [.literal '%']
  | exponent ⟨upper, showPlus⟩ =>
    [.literal (if upper then 'E' else 'e'), .literal (if showPlus then '+' else '-')]

lemma Mark.shown_eq (m : Mark) : m.shown = m.parts.map Part.toDate := by
  cases m with
  | part p =>
    cases p with
    | field f => cases f <;> rfl
    | _ => rfl
  | _ => rfl

namespace Element

def zero : Element := .mark (.digit .zero)

def LastDate (kind : Element → Bool) (before : List Element) : Prop :=
  ∃ front e between, before = front ++ e :: between ∧ e.isDate = true ∧ kind e = true ∧
    ∀ x ∈ between, x.isDate = false

def FirstDate (kind : Element → Bool) (after : List Element) : Prop :=
  ∃ between e back, after = between ++ e :: back ∧ e.isDate = true ∧ kind e = true ∧
    ∀ x ∈ between, x.isDate = false

def CountsMinutes (before after : List Element) : Prop :=
  LastDate isHour before ∨ FirstDate isSecond after

def BehindSecond (before : List Element) : Prop :=
  ∃ front s, before = front ++ [s] ∧ s.isSecond = true

def TakesZeros (k : Nat) (after : List Element) : Prop :=
  ∃ back, after = List.replicate k zero ++ back ∧ 1 ≤ k ∧ k ≤ 3 ∧ (k = 3 ∨ back.head? ≠ some zero)

def BehindFraction (k : Nat) (before : List Element) : Prop :=
  ∃ front, before = front ++ .mark .point :: List.replicate k zero ∧ BehindSecond front

def IsTaken (before : List Element) : Prop := ∃ k < 3, BehindFraction k before

inductive Image (before after : List Element) : Element → List DatePart → Prop
  | date (f : DateField) : Image before after (.date f) [.field f]
  | minute {count : Nat} : count ≤ 2 → CountsMinutes before after →
      Image before after (.month count) [.field (.clock .minute (count = 2))]
  | month {count : Nat} : ¬(count ≤ 2 ∧ CountsMinutes before after) →
      Image before after (.month count) [.field (.month (monthStyle count))]
  | fraction {k : Nat} : BehindSecond before → TakesZeros k after →
      Image before after (.mark .point) [.field (.subsecond k)]
  | taken : IsTaken before → Image before after zero []
  | mark {m : Mark} : ¬(m = .point ∧ BehindSecond before ∧ after.head? = some zero) →
      ¬(m = .digit .zero ∧ IsTaken before) → Image before after (.mark m) m.shown

inductive Images : List Element → List Element → List DatePart → Prop
  | nil (before : List Element) : Images before [] []
  | cons {before after : List Element} {e : Element} {shown rest : List DatePart} :
      Image before after e shown → Images (before ++ [e]) after rest →
        Images before (e :: after) (shown ++ rest)

variable {before after done rest : List Element} {e : Element} {k : Nat} {shown : List DatePart}
  {kind : Element → Bool}

lemma firstDate_iff : FirstDate kind after ↔ (after.find? isDate).any kind = true := by
  rw [Option.any_eq_true]
  constructor
  · rintro ⟨between, e, back, rfl, hd, hk, hb⟩
    refine ⟨e, List.find?_eq_some_iff_append.2 ⟨hd, between, back, rfl, ?_⟩, hk⟩
    intro x hx
    rw [hb x hx]
    rfl
  · rintro ⟨e, he, hk⟩
    obtain ⟨hd, between, back, rfl, hb⟩ := List.find?_eq_some_iff_append.1 he
    exact ⟨between, e, back, rfl, hd, hk, fun x hx => by simpa using hb x hx⟩

lemma lastDate_iff : LastDate kind before ↔ (before.reverse.find? isDate).any kind = true := by
  rw [← firstDate_iff]
  constructor
  · rintro ⟨front, e, between, rfl, hd, hk, hb⟩
    exact ⟨between.reverse, e, front.reverse, by simp, hd, hk,
      fun x hx => hb x (List.mem_reverse.1 hx)⟩
  · rintro ⟨between, e, back, hr, hd, hk, hb⟩
    refine ⟨back.reverse, e, between.reverse, ?_, hd, hk, fun x hx => hb x (List.mem_reverse.1 hx)⟩
    rw [← before.reverse_reverse, hr]
    simp

lemma monthOrMinute_of_counts (hc : k ≤ 2) (h : CountsMinutes before after) :
    monthOrMinute (before.reverse.find? isDate) (after.find? isDate) k =
      .clock .minute (k = 2) := by
  rw [CountsMinutes, lastDate_iff, firstDate_iff, ← Bool.or_eq_true] at h
  simp only [monthOrMinute, hc, h, decide_true, Bool.and_self, if_true]

lemma monthOrMinute_of_not (h : ¬(k ≤ 2 ∧ CountsMinutes before after)) :
    monthOrMinute (before.reverse.find? isDate) (after.find? isDate) k =
      .month (monthStyle k) := by
  rw [CountsMinutes, lastDate_iff, firstDate_iff, ← Bool.or_eq_true,
    ← decide_eq_true_iff (p := k ≤ 2), ← Bool.and_eq_true] at h
  exact if_neg h

lemma isZero_iff : e.isZero = true ↔ e = zero := decide_eq_true_iff

lemma takeWhile_zeros (k : Nat) (back : List Element) :
    (List.replicate k zero ++ back).takeWhile isZero =
      List.replicate k zero ++ back.takeWhile isZero :=
  List.takeWhile_append_of_pos fun _ he => isZero_iff.2 (List.eq_of_mem_replicate he)

lemma takeWhile_of_head? {back : List Element} (h : back.head? ≠ some zero) :
    back.takeWhile isZero = [] := by
  cases back with
  | nil => rfl
  | cons e back =>
    apply List.takeWhile_cons_of_neg
    rw [isZero_iff]
    rintro rfl
    exact h rfl

lemma takesZeros_iff : TakesZeros k after ↔ k = zerosAhead after ∧ 0 < k := by
  constructor
  · rintro ⟨back, rfl, h1, h3, hb⟩
    refine ⟨?_, h1⟩
    rw [zerosAhead, takeWhile_zeros, List.length_append, List.length_replicate]
    rcases hb with rfl | hb
    · omega
    · rw [takeWhile_of_head? hb]
      exact (Nat.min_eq_right h3).symm
  · rintro ⟨hk, h1⟩
    let run := (after.takeWhile isZero).length
    have hz : after.takeWhile isZero = List.replicate run zero :=
      List.eq_replicate_of_mem fun e he => isZero_iff.1 (List.mem_takeWhile_imp he)
    have hr : k = min 3 run := hk
    have hs : after = List.replicate k zero ++
        (List.replicate (run - k) zero ++ after.dropWhile isZero) := by
      rw [← List.append_assoc, List.replicate_append_replicate, Nat.add_sub_of_le (by omega), ← hz,
        List.takeWhile_append_dropWhile]
    refine ⟨_, hs, h1, by omega, ?_⟩
    by_cases h3 : k = 3
    · exact .inl h3
    · have h0 : run - k = 0 := by omega
      rw [h0]
      refine .inr fun hh => ?_
      have hn := List.head?_dropWhile_not isZero after
      rw [List.replicate_zero, List.nil_append] at hh
      rw [hh] at hn
      exact Bool.noConfusion hn

lemma TakesZeros.head? (h : TakesZeros k after) : after.head? = some zero := by
  obtain ⟨back, rfl, h1, -⟩ := h
  obtain ⟨j, rfl⟩ := Nat.exists_eq_succ_of_ne_zero (Nat.one_le_iff_ne_zero.1 h1)
  rfl

lemma behindSecond_iff : BehindSecond before ↔ before.getLast?.any isSecond = true := by
  rw [Option.any_eq_true]
  constructor
  · rintro ⟨front, s, rfl, hs⟩
    exact ⟨s, List.getLast?_concat, hs⟩
  · rintro ⟨s, hs, hk⟩
    obtain ⟨front, rfl⟩ := List.getLast?_eq_some_iff.1 hs
    exact ⟨front, s, rfl, hk⟩

lemma startsFraction_iff : StartsFraction before.getLast? e after ↔
    e = .mark .point ∧ BehindSecond before ∧ after.head? = some zero := by
  rw [StartsFraction, ← behindSecond_iff, Checked.zerosAhead_pos, Option.any_eq_true]
  simp only [isZero_iff, exists_eq_right]

lemma behindFraction_concat : BehindFraction k (before ++ [e]) ↔
    (k = 0 ∧ e = .mark .point ∧ BehindSecond before) ∨
      ∃ j, k = j + 1 ∧ e = zero ∧ BehindFraction j before := by
  constructor
  · rintro ⟨front, h, hs⟩
    cases k with
    | zero =>
      obtain ⟨rfl, he⟩ := List.append_inj' h rfl
      exact .inl ⟨rfl, List.singleton_inj.1 he, hs⟩
    | succ j =>
      rw [List.replicate_succ', ← List.cons_append, ← List.append_assoc] at h
      obtain ⟨rfl, he⟩ := List.append_inj' h rfl
      exact .inr ⟨j, rfl, List.singleton_inj.1 he, front, rfl, hs⟩
  · rintro (⟨rfl, rfl, hs⟩ | ⟨j, rfl, rfl, front, rfl, hs⟩)
    · exact ⟨before, rfl, hs⟩
    · exact ⟨front, by rw [List.replicate_succ', List.append_assoc, List.cons_append], hs⟩

lemma behindFraction_unique {j : Nat} (hj : BehindFraction j before)
    (hk : BehindFraction k before) : j = k := by
  induction j generalizing before k with
  | zero =>
    obtain ⟨front, rfl, -⟩ := hj
    rcases behindFraction_concat.1 hk with ⟨rfl, -⟩ | ⟨i, -, he, -⟩
    · rfl
    · cases he
  | succ j ih =>
    obtain ⟨front, rfl, hs⟩ := hj
    rw [List.replicate_succ', ← List.cons_append, ← List.append_assoc] at hk
    rcases behindFraction_concat.1 hk with ⟨-, he, -⟩ | ⟨i, rfl, -, hi⟩
    · cases he
    · exact congrArg Nat.succ (ih ⟨front, rfl, hs⟩ hi)

lemma Image.unique {shown' : List DatePart} (h : Image before after e shown)
    (h' : Image before after e shown') : shown = shown' := by
  cases h with
  | date f => cases h'; rfl
  | minute hc hm =>
    cases h' with
    | minute => rfl
    | month hn => exact absurd ⟨hc, hm⟩ hn
  | month hn =>
    cases h' with
    | minute hc hm => exact absurd ⟨hc, hm⟩ hn
    | month => rfl
  | fraction hs hz =>
    cases h' with
    | fraction _ hz' => rw [(takesZeros_iff.1 hz).1, (takesZeros_iff.1 hz').1]
    | mark hn => exact absurd ⟨rfl, hs, (hz.head?)⟩ hn
  | taken ht =>
    cases h' with
    | taken => rfl
    | mark _ hn => exact absurd ⟨rfl, ht⟩ hn
  | mark hp hz =>
    cases h' with
    | fraction hs hk => exact absurd ⟨rfl, hs, hk.head?⟩ hp
    | taken ht => exact absurd ⟨rfl, ht⟩ hz
    | mark => rfl

lemma Images.unique {parts parts' : List DatePart} (h : Images before after parts)
    (h' : Images before after parts') : parts = parts' := by
  induction h generalizing parts' with
  | nil before => cases h'; rfl
  | cons he _ ih =>
    cases h' with
    | cons he' hr => rw [he.unique he', ih hr]

lemma images_taken {j : Nat} {parts : List DatePart} (hj : BehindFraction j before)
    (hk : j + k ≤ 3) (h : Images (before ++ List.replicate k zero) rest parts) :
    Images before (List.replicate k zero ++ rest) parts := by
  induction k generalizing before j with
  | zero => simpa using h
  | succ k ih =>
    have hj' : BehindFraction (j + 1) (before ++ [zero]) :=
      behindFraction_concat.2 (.inr ⟨j, rfl, rfl, hj⟩)
    rw [List.replicate_succ, List.append_cons] at h
    exact .cons (.taken ⟨j, by omega, hj⟩) (ih hj' (by omega) h)

lemma images_fraction {back : List Element} {parts : List DatePart} (hb : BehindSecond done)
    (hz : TakesZeros k (List.replicate k zero ++ back)) (hk : k ≤ 3)
    (h : Images (done ++ [.mark .point] ++ List.replicate k zero) back parts) :
    Images done (.mark .point :: (List.replicate k zero ++ back))
      (.field (.subsecond k) :: parts) := by
  have h0 : BehindFraction 0 (done ++ [.mark .point]) := ⟨done, rfl, hb⟩
  exact .cons (.fraction hb hz) (images_taken h0 (by omega) h)

lemma image_dateParts (hs : ¬StartsFraction done.getLast? e rest)
    (ht : ¬(e = zero ∧ IsTaken done)) :
    Image done rest e (e.dateParts (done.reverse.find? isDate) (rest.find? isDate)) := by
  cases e with
  | date f => exact .date f
  | month count =>
    by_cases hc : count ≤ 2 ∧ CountsMinutes done rest
    · rw [dateParts, monthOrMinute_of_counts hc.1 hc.2]
      exact .minute hc.1 hc.2
    · rw [dateParts, monthOrMinute_of_not hc]
      exact .month hc
  | mark m =>
    rw [dateParts, ← Mark.shown_eq]
    refine .mark (fun h => hs (startsFraction_iff.2 ⟨congrArg _ h.1, h.2⟩)) fun h => ht ?_
    exact ⟨congrArg Element.mark h.1, h.2⟩

lemma images_resolve (done rest : List Element)
    (hc : ∀ k < 3, BehindFraction k done → rest.head? ≠ some zero) :
    Images done rest (resolve (done.reverse.find? isDate) done.getLast? 0 rest) := by
  -- a fraction reads its zeros at once, so every shorter rest is needed
  induction hn : rest.length using Nat.strong_induction_on generalizing done rest with
  | _ n ih =>
    cases rest with
    | nil => exact .nil done
    | cons e rest =>
      by_cases hs : StartsFraction done.getLast? e rest
      · obtain ⟨rfl, hb, -⟩ := startsFraction_iff.1 hs
        have hr := resolve_fraction hs (done.reverse.find? isDate)
        have hk : TakesZeros (zerosAhead rest) rest := takesZeros_iff.2 ⟨rfl, hs.2.2⟩
        generalize zerosAhead rest = k at hr hk
        obtain ⟨back, rfl, h1, h3, hz⟩ := hk
        have hl : (List.replicate k zero).length = k := List.length_replicate
        have hf : BehindFraction k (done ++ [.mark .point] ++ List.replicate k zero) :=
          ⟨done, List.append_cons .. ▸ rfl, hb⟩
        have hd : ∀ e ∈ List.replicate k zero, e.isDate = false :=
          fun e he => isDate_of_isZero (isZero_iff.2 (List.eq_of_mem_replicate he))
        have hi := ih back.length (by simp at hn; omega)
          (done ++ [.mark .point] ++ List.replicate k zero) back ?_ rfl
        · rw [List.getLast?_append, List.getLast?_concat, nearest_append hd, nearest_concat] at hi
          rw [List.take_left' hl, List.drop_left' hl] at hr
          rw [hr]
          exact images_fraction hb ⟨back, rfl, h1, h3, hz⟩ h3 hi
        · intro j hj hjf
          obtain rfl := behindFraction_unique hjf hf
          exact hz.resolve_left (by omega)
      · rcases resolve_cons (done.reverse.find? isDate) done.getLast? e rest with
          ⟨h, -⟩ | ⟨-, hr⟩
        · exact absurd h hs
        have hi := ih rest.length (by simp at hn; omega) (done ++ [e]) rest ?_ rfl
        · rw [nearest_concat, List.getLast?_concat] at hi
          rw [hr]
          refine .cons (image_dateParts hs ?_) hi
          rintro ⟨rfl, k, hk, hf⟩
          exact hc k hk hf rfl
        · intro k hk hf hz
          rcases behindFraction_concat.1 hf with ⟨-, he, hb⟩ | ⟨j, rfl, rfl, hj⟩
          · exact hs (startsFraction_iff.2 ⟨he, hb, hz⟩)
          · exact hc j (by omega) hj rfl

lemma images_datePartsOf (es : List Element) : Images [] es (datePartsOf es) := by
  refine images_resolve [] es fun k _ hf => ?_
  obtain ⟨front, h, -⟩ := hf
  exact absurd h (by simp)

end Element

end SheetFormat
