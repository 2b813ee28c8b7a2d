import SheetFormat.Checked.Digits
import SheetFormat.Proofs.Checked.Basic
import SheetFormat.Proofs.Render.Digits

/-! Digits against placeholders from right to left, and thousands by offsets into a run of digits.
-/

namespace SheetFormat

variable {text digits : Text} {leftmost : Option Nat} {i : Nat} {parts rest : List NumberPart}
  {part : NumberPart}

namespace Checked

lemma spreadFrom_fixed (h : part.isField = false) (text digits : Text) (leftmost : Option Nat)
    (i : Nat) (rest : List NumberPart) :
    spreadFrom text digits leftmost i (part :: rest) = do
      let (left, shown) ← spreadFrom text digits leftmost (i + 1) rest
      return (left, fixedText text part ++ shown) := by
  cases part with
  | field p => cases h
  | _ => rfl

lemma spreadFrom_behind (h : ∀ j, i ≤ j → leftmost ≠ some j) :
    spreadFrom text digits leftmost i rest =
      .ok (digits.length - placeholderCount rest,
        SheetFormat.spread text rest (digits.drop (digits.length - placeholderCount rest))) := by
  induction rest generalizing i with
  | nil => rfl
  | cons part rest ih =>
    have hi := ih fun j hj => h j (Nat.le_of_succ_le hj)
    cases hp : part.isField with
    | false =>
      rw [spreadFrom_fixed hp, hi, placeholderCount_fixed hp, spread_fixed hp]
      rfl
    | true =>
      obtain ⟨p, rfl⟩ := exists_field hp
      have hn : ¬(leftmost = some i ∧ 0 < digits.length - placeholderCount rest) :=
        fun hl => h i le_rfl hl.1
      rw [placeholderCount_field, SheetFormat.spread, spreadFrom]
      refine (bind_ok hi _).trans ?_
      simp only [if_neg hn]
      generalize placeholderCount rest = count
      by_cases hl : 0 < digits.length - count
      · have hk : digits.length - (count + 1) < digits.length := by omega
        have hs : digits.length - count - 1 = digits.length - (count + 1) := by omega
        have ht : (digits.drop (digits.length - (count + 1))).length - count = 1 := by
          rw [List.length_drop]
          omega
        have hd : digits.length - (count + 1) + 1 = digits.length - count := by omega
        rw [if_pos hl, sub_ok hl, ok_bind, hs, get_ok hk, ok_bind, ht, if_neg Nat.one_ne_zero,
          List.drop_drop, hd, List.drop_eq_getElem_cons hk]
        rfl
      · have hz : digits.length - count = 0 := by omega
        have hs : digits.length - (count + 1) = 0 := by omega
        rw [if_neg hl, hs, hz, List.drop_zero, hz]
        rfl

lemma spreadFrom_leftmost (text digits : Text) (i : Nat) (p : Placeholder)
    (rest : List NumberPart) :
    spreadFrom text digits (some i) i (.field p :: rest) =
      .ok (0, SheetFormat.spread text (.field p :: rest) digits) := by
  have hi : ∀ j, i + 1 ≤ j → some i ≠ some j := by
    rintro j hj h
    cases h
    omega
  rw [spreadFrom, SheetFormat.spread]
  refine (bind_ok (spreadFrom_behind hi) _).trans ?_
  by_cases hl : 0 < digits.length - placeholderCount rest
  · simp only [hl, true_and, if_true, front_ok (Nat.sub_le ..), ok_bind, if_neg hl.ne']
    rfl
  · have hz := Nat.eq_zero_of_not_pos hl
    simp only [hz, Nat.lt_irrefl, and_false, if_false, if_true]
    rfl

lemma spreadFrom_append {front : List NumberPart} (h : ∀ p ∈ front, p.isField = false)
    {left : Nat} (hr : spreadFrom text digits leftmost (i + front.length) rest =
      .ok (left, SheetFormat.spread text rest digits)) :
    spreadFrom text digits leftmost i (front ++ rest) =
      .ok (left, SheetFormat.spread text (front ++ rest) digits) := by
  induction front generalizing i with
  | nil => exact hr
  | cons part front ih =>
    have hp := h part (List.mem_cons_self ..)
    rw [List.length_cons, Nat.add_comm front.length, ← Nat.add_assoc] at hr
    have hi := ih (fun p hm => h p (List.mem_cons_of_mem _ hm)) hr
    rw [List.cons_append, spreadFrom_fixed hp, spread_fixed hp, hi]
    rfl

lemma spread_ok (text : Text) (parts : List NumberPart) (digits : Text) :
    spread text parts digits = .ok (SheetFormat.spread text parts digits) := by
  rcases findIdx?_cases Part.isField parts with ⟨-, hp⟩ | ⟨front, part, rest, rfl, hi, hf, hp⟩
  · have h : spreadFrom text digits (parts.findIdx? Part.isField) 0 (parts ++ []) = _ :=
      spreadFrom_append hp rfl
    rw [List.append_nil] at h
    exact bind_ok h _
  · obtain ⟨p, rfl⟩ := exists_field hf
    have h := spreadFrom_leftmost text digits (0 + front.length) p rest
    rw [spread, hi, ← Nat.zero_add front.length]
    exact bind_ok (spreadFrom_append hp h) _

lemma separated_ok (separator : Char) {length offset : Nat} {digits : Text}
    (h : offset + digits.length = length) :
    separated separator length offset digits =
      .ok ((if 0 < offset ∧ digits ≠ [] ∧ digits.length % 3 = 0 then [separator] else []) ++
        groupDigits separator digits) := by
  induction digits generalizing offset with
  | nil => simp [separated, groupDigits]
  | cons d digits ih =>
    rw [List.length_cons] at h
    have hs : length - offset = digits.length + 1 := by omega
    have hg : groupDigits separator (d :: digits) =
        d :: ((if digits ≠ [] ∧ digits.length % 3 = 0 then [separator] else []) ++
          groupDigits separator digits) := by
      rw [groupDigits]
      simp only [and_comm]
      split_ifs <;> rfl
    rw [separated, ih (by omega), ok_bind, hg, sub_ok (by omega), ok_bind, hs, List.length_cons]
    simp only [Nat.succ_pos, true_and, ne_eq, List.cons_ne_nil, not_false_eq_true]
    by_cases ho : 0 < offset
    · simp only [ho, true_and, if_true]
      split_ifs <;> rfl
    · simp only [ho, false_and, if_false]
      rfl

lemma groupThousands_eq (separator : Char) (u : Text) {d : Char} {v : Text}
    (hd : d.isDigit = true) (hv : ∀ c ∈ v, c.isDigit = false) :
    SheetFormat.groupThousands separator (u ++ d :: v) =
      (u.reverse.dropWhile Char.isDigit).reverse ++
        groupDigits separator ((u.reverse.takeWhile Char.isDigit).reverse ++ [d]) ++ v := by
  have hn : ∀ c ∈ v.reverse, (!c.isDigit) = true := by
    intro c hc
    rw [hv c (List.mem_reverse.1 hc)]
    rfl
  have hr : (u ++ d :: v).reverse = v.reverse ++ d :: u.reverse := by simp
  have ht : (u ++ d :: v).reverse.takeWhile (!·.isDigit) = v.reverse := by
    rw [hr, List.takeWhile_append_of_pos hn]
    simp [hd]
  have hf : (u ++ d :: v).reverse.dropWhile (!·.isDigit) = d :: u.reverse := by
    rw [hr, List.dropWhile_append_of_pos hn]
    simp [hd]
  rw [SheetFormat.groupThousands, ht, hf, List.takeWhile_cons_of_pos hd,
    List.dropWhile_cons_of_pos hd, List.reverse_cons, List.reverse_reverse]

lemma groupThousands_of_no_digit (separator : Char) {t : Text}
    (h : ∀ c ∈ t, c.isDigit = false) : SheetFormat.groupThousands separator t = t := by
  have hn : ∀ c ∈ t.reverse, (!c.isDigit) = true := by
    intro c hc
    rw [h c (List.mem_reverse.1 hc)]
    rfl
  rw [SheetFormat.groupThousands, List.takeWhile_eq_self_iff.2 hn, List.dropWhile_eq_nil_iff.2 hn]
  exact List.reverse_reverse t

lemma groupThousands_ok (separator : Char) (t : Text) :
    groupThousands separator t = .ok (SheetFormat.groupThousands separator t) := by
  rw [groupThousands]
  rcases lastIndex?_cases Char.isDigit t with ⟨hn, ht⟩ | ⟨u, d, v, rfl, hi, hd, hv⟩
  · rw [hn, groupThousands_of_no_digit separator ht]
    rfl
  · have hstart := skipBack_append Char.isDigit u (d :: v)
    have hu : (u.reverse.dropWhile Char.isDigit).reverse ++
        (u.reverse.takeWhile Char.isDigit).reverse = u := List.rdropWhile_append_rtakeWhile
    rw [hi, groupThousands_eq separator u hd hv]
    generalize (u.reverse.dropWhile Char.isDigit).reverse = before at *
    generalize (u.reverse.takeWhile Char.isDigit).reverse = run at *
    subst hu
    have ht : before ++ run ++ d :: v = before ++ (run ++ [d] ++ v) := by simp
    have hlast : (before ++ run).length + 1 = before.length + (run ++ [d]).length := by
      simp [Nat.add_assoc]
    have hlen : (before ++ run).length - before.length + 1 = (run ++ [d]).length := by simp
    have hslice := slice_append before (run ++ [d]) v
    have hrun := separated_ok separator (Nat.zero_add (run ++ [d]).length)
    have hfront := front_append before (run ++ [d] ++ v)
    have hbehind := behind_append_cons (before ++ run) d v
    refine (bind_ok hstart _).trans ?_
    refine (bind_ok (sub_ok (by simp)) _).trans ?_
    rw [ht, hlast] at hbehind
    simp only [ht, hlast, hlen, hslice, hrun, hfront, hbehind, ok_bind]
    rfl

end Checked

end SheetFormat
