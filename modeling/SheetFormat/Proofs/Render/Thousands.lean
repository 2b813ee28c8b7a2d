import SheetFormat.Proofs.Checked.Digits

namespace SheetFormat

section LastRun

variable {α : Type} {p : α → Bool} {l front run rest : List α}

structure IsLastRun (p : α → Bool) (l front run rest : List α) : Prop where
  cut : front ++ run ++ rest = l
  nonempty : run ≠ []
  member : ∀ a ∈ run, p a = true
  front : ∀ a ∈ front.getLast?, p a = false
  rest : ∀ a ∈ rest, p a = false

instance [DecidableEq α] : Decidable (IsLastRun p l front run rest) :=
  decidable_of_iff (front ++ run ++ rest = l ∧ run ≠ [] ∧ (∀ a ∈ run, p a = true) ∧
      (∀ a ∈ front.getLast?, p a = false) ∧ ∀ a ∈ rest, p a = false)
    ⟨fun ⟨hc, hn, hm, hf, hr⟩ => ⟨hc, hn, hm, hf, hr⟩,
      fun h => ⟨h.cut, h.nonempty, h.member, h.front, h.rest⟩⟩

lemma exists_isLastRun (h : ∃ a ∈ l, p a = true) :
    ∃ front run rest, IsLastRun p l front run rest := by
  rcases Checked.lastIndex?_cases p l with ⟨-, hn⟩ | ⟨u, a, rest, rfl, -, ha, hr⟩
  · obtain ⟨a, hm, ha⟩ := h
    rw [hn a hm] at ha
    cases ha
  · refine ⟨(u.reverse.dropWhile p).reverse, (u.reverse.takeWhile p).reverse ++ [a], rest, ?_, ?_,
      ?_, ?_, hr⟩
    · have hu : u.rdropWhile p ++ u.rtakeWhile p = u := List.rdropWhile_append_rtakeWhile
      calc
        u.rdropWhile p ++ (u.rtakeWhile p ++ [a]) ++ rest
          = u.rdropWhile p ++ u.rtakeWhile p ++ ([a] ++ rest) := by simp only [List.append_assoc]
        _ = u ++ a :: rest := by rw [hu, List.singleton_append]
    · exact List.append_ne_nil_of_right_ne_nil _ (List.cons_ne_nil a [])
    · intro b hb
      rw [List.mem_append, List.mem_reverse, List.mem_singleton] at hb
      rcases hb with hb | rfl
      · exact List.mem_takeWhile_imp hb
      · exact ha
    · intro b hb
      have hd := List.head?_dropWhile_not p u.reverse
      rw [List.getLast?_reverse] at hb
      rw [Option.mem_def.1 hb] at hd
      exact hd

lemma takeWhile_eq_nil_of_head? (h : ∀ a ∈ l.head?, p a = false) :
    l.takeWhile p = [] ∧ l.dropWhile p = l := by
  cases l with
  | nil => exact ⟨rfl, rfl⟩
  | cons a l =>
    have ha : p a = false := h a rfl
    simp [ha]

lemma IsLastRun.lastRun_eq (h : IsLastRun p l front run rest) :
    beforeLastRun p l = front ∧ lastRun p l = run ∧ behindLastRun p l = rest := by
  have hrest : ∀ a ∈ rest.reverse, (!p a) = true := by simpa using h.rest
  have hrun : ∀ a ∈ run.reverse, p a = true := fun a ha => h.member a (List.mem_reverse.1 ha)
  have hl : l.reverse = rest.reverse ++ (run.reverse ++ front.reverse) := by
    rw [← h.cut, List.reverse_append, List.reverse_append]
  obtain ⟨hb, hb'⟩ : (run.reverse ++ front.reverse).takeWhile (!p ·) = [] ∧
      (run.reverse ++ front.reverse).dropWhile (!p ·) = run.reverse ++ front.reverse := by
    obtain ⟨a, more, ha⟩ := List.exists_cons_of_ne_nil (mt List.reverse_eq_nil_iff.1 h.nonempty)
    have hp := hrun a (ha ▸ List.mem_cons_self ..)
    rw [ha]
    refine takeWhile_eq_nil_of_head? ?_
    rintro b ⟨⟩
    rw [hp, Bool.not_true]
  obtain ⟨hf, hf'⟩ : front.reverse.takeWhile p = [] ∧
      front.reverse.dropWhile p = front.reverse := by
    refine takeWhile_eq_nil_of_head? ?_
    rw [← List.getLast?_eq_head?_reverse]
    exact h.front
  rw [beforeLastRun, lastRun, behindLastRun, hl, List.takeWhile_append_of_pos hrest,
    List.dropWhile_append_of_pos hrest, hb, hb', List.takeWhile_append_of_pos hrun,
    List.dropWhile_append_of_pos hrun, hf, hf']
  simp

end LastRun

namespace Text

def groupsOfThree : Text → Text × List Text
  | [] => ([], [])
  | d :: digits =>
    let (first, groups) := groupsOfThree digits
    if digits.length % 3 = 0 ∧ digits ≠ [] then ([d], first :: groups) else (d :: first, groups)

structure InThrees (digits first : Text) (groups : List Text) : Prop where
  cut : first ++ groups.flatten = digits
  first : 0 < first.length ∧ first.length ≤ 3
  three : ∀ g ∈ groups, g.length = 3

variable {digits first : Text} {groups front back : List Text} {g : Text}

lemma length_flatten_of_three (h : ∀ g ∈ groups, g.length = 3) :
    groups.flatten.length = 3 * groups.length := by
  rw [List.length_flatten, List.map_congr_left h, List.map_const', List.sum_replicate_nat,
    Nat.mul_comm]

lemma InThrees.length_eq (h : InThrees digits first groups) :
    digits.length = first.length + 3 * groups.length := by
  rw [← h.cut, List.length_append, length_flatten_of_three h.three]

lemma InThrees.length_groups (h : InThrees digits first groups) :
    groups.length = (digits.length - 1) / 3 := by
  have hl := h.length_eq
  have hf := h.first
  omega

lemma InThrees.length_behind (h : InThrees digits first (front ++ g :: back)) :
    (g ++ back.flatten).length = 3 * (back.length + 1) := by
  have hg : ∀ k ∈ g :: back, k.length = 3 := fun k hk => h.three k (List.mem_append_right _ hk)
  exact length_flatten_of_three hg

lemma inThrees_groupsOfThree (h : digits ≠ []) :
    InThrees digits (groupsOfThree digits).1 (groupsOfThree digits).2 := by
  induction digits with
  | nil => exact absurd rfl h
  | cons d digits ih =>
    by_cases hn : digits = []
    · subst hn
      exact ⟨rfl, ⟨Nat.one_pos, Nat.le_add_left 1 2⟩, fun g hg => by cases hg⟩
    · have hi := ih hn
      have hl := hi.length_eq
      have hf := hi.first
      rw [groupsOfThree]
      split_ifs with hd
      · refine ⟨congrArg (d :: ·) hi.cut, ⟨Nat.one_pos, Nat.le_add_left 1 2⟩, fun g hg => ?_⟩
        rcases List.mem_cons.1 hg with rfl | hg
        · omega
        · exact hi.three g hg
      · have hm : digits.length % 3 ≠ 0 := fun hm => hd ⟨hm, hn⟩
        refine ⟨congrArg (d :: ·) hi.cut, ?_, hi.three⟩
        rw [List.length_cons]
        omega

end Text

lemma groupDigits_eq_groups (separator : Char) (digits : Text) :
    groupDigits separator digits = (Text.groupsOfThree digits).1 ++
      (Text.groupsOfThree digits).2.flatMap (separator :: ·) := by
  induction digits with
  | nil => rfl
  | cons d digits ih =>
    rw [groupDigits, Text.groupsOfThree]
    split_ifs with h
    · rw [ih]
      rfl
    · rw [ih]
      rfl

/-- A text without digits is as it was. In any other the last digits in a row are cut into groups,
three in each but the first, and there is a separator in front of each group but the first. -/
theorem groupThousands_separates (separator : Char) (t : Text) :
    Checked.groupThousands separator t = .ok (groupThousands separator t) ∧
    ((∀ c ∈ t, c.isDigit = false) → groupThousands separator t = t) ∧
    ((∃ c ∈ t, c.isDigit = true) → ∃ front run rest, IsLastRun Char.isDigit t front run rest) ∧
    ∀ front run rest, IsLastRun Char.isDigit t front run rest →
      ∃ first groups, Text.InThrees run first groups ∧
        t = front ++ (first ++ groups.flatten) ++ rest ∧
        groupThousands separator t =
          front ++ (first ++ groups.flatMap (separator :: ·)) ++ rest ∧
        groups.length = (run.length - 1) / 3 ∧
        ∀ before g behind, groups = before ++ g :: behind →
          groupThousands separator t = front ++ (first ++ before.flatMap (separator :: ·)) ++
            separator :: (g ++ behind.flatMap (separator :: ·) ++ rest) ∧
          (g ++ behind.flatten).length = 3 * (behind.length + 1) := by
  refine ⟨Checked.groupThousands_ok separator t, Checked.groupThousands_of_no_digit separator,
    exists_isLastRun, fun front run rest h => ?_⟩
  obtain ⟨hf, hr, hb⟩ := h.lastRun_eq
  have hg := Text.inThrees_groupsOfThree h.nonempty
  have hs : groupThousands separator t = front ++ ((Text.groupsOfThree run).1 ++
      (Text.groupsOfThree run).2.flatMap (separator :: ·)) ++ rest := by
    rw [groupThousands_eq, hf, hr, hb, groupDigits_eq_groups]
  refine ⟨_, _, hg, by rw [hg.cut, h.cut], hs, hg.length_groups, fun before g behind he => ?_⟩
  rw [he] at hs hg
  refine ⟨hs.trans ?_, hg.length_behind⟩
  simp [List.flatMap_append]

theorem groupThousands_separates_amount :
    let t := "12 (1234567)€".toList
    IsLastRun Char.isDigit t "12 (".toList "1234567".toList ")€".toList ∧
      Checked.groupThousands '0' t = .ok "12 (102340567)€".toList ∧
      ∃ first groups, Text.InThrees "1234567".toList first groups ∧ groups.length = 2 ∧
        groupThousands '0' t =
          "12 (".toList ++ (first ++ groups.flatMap ('0' :: ·)) ++ ")€".toList := by
  intro t
  have h : IsLastRun Char.isDigit t "12 (".toList "1234567".toList ")€".toList := by
    decide +kernel
  obtain ⟨hok, -, -, hs⟩ := groupThousands_separates '0' t
  obtain ⟨first, groups, hg, -, ht, hl, -⟩ := hs _ _ _ h
  refine ⟨h, hok.trans ?_, first, groups, hg, hl, ht⟩
  decide +kernel

end SheetFormat
