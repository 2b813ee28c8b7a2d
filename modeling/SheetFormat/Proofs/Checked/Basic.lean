import Mathlib.Data.List.DropRight
import Mathlib.Data.List.TakeWhile
import SheetFormat.Checked.Basic

namespace SheetFormat.Checked

attribute [local instance (2000)] instPowNat

variable {α β : Type} {p : α → Bool} {l u v w : List α} {a : α} {i n : Nat}

lemma bind_ok {x : Checked α} (h : x = .ok a) (f : α → Checked β) : (x >>= f) = f a := by
  rw [h, ok_bind]

lemma get_ok (h : i < l.length) : get l i = .ok l[i] := by
  rw [get, List.getElem?_eq_getElem h]

lemma get_append (u : List α) (a : α) (v : List α) : get (u ++ a :: v) u.length = .ok a := by
  rw [get, List.getElem?_append_right le_rfl, Nat.sub_self]
  rfl

lemma front_ok (h : n ≤ l.length) : front n l = .ok (l.take n) := if_pos h

lemma behind_ok (h : n ≤ l.length) : behind n l = .ok (l.drop n) := if_pos h

lemma front_append (u v : List α) : front u.length (u ++ v) = .ok u := by
  rw [front_ok (by simp), List.take_left]

lemma behind_append (u v : List α) : behind u.length (u ++ v) = .ok v := by
  rw [behind_ok (by simp), List.drop_left]

lemma behind_append_cons (u : List α) (a : α) (v : List α) :
    behind (u.length + 1) (u ++ a :: v) = .ok v := by
  have h := behind_append (u ++ [a]) v
  rwa [List.length_append, List.append_assoc] at h

lemma splitOff_append (u v : List α) : splitOff u.length (u ++ v) = .ok (u, v) := by
  rw [splitOff, front_append, behind_append]
  rfl

lemma of_splitOff {x : List α} (h : splitOff u.length (u ++ v) = .ok (w, x)) : u = w ∧ v = x := by
  rw [splitOff_append] at h
  cases h
  exact ⟨rfl, rfl⟩

lemma splitOff_ok (h : n ≤ l.length) : splitOff n l = .ok (l.take n, l.drop n) := by
  rw [splitOff, front_ok h, behind_ok h]
  rfl

lemma slice_append (u v w : List α) :
    slice u.length (u.length + v.length) (u ++ (v ++ w)) = .ok v := by
  have h := front_append (u ++ v) w
  rw [List.length_append, List.append_assoc] at h
  rw [slice, h, ok_bind, behind_append]

lemma mapM_ok {f : α → Checked β} {g : α → β} (h : ∀ a ∈ l, f a = .ok (g a)) :
    l.mapM f = .ok (l.map g) := by
  induction l with
  | nil => rfl
  | cons a l ih =>
    rw [List.mapM_cons, h a (List.mem_cons_self ..), ok_bind,
      ih fun b hb => h b (List.mem_cons_of_mem _ hb)]
    rfl

lemma exists_byteSize_cons (c : Char) (u : Text) : ∃ k, c.utf8Size = k + 1 ∧
    Text.byteSize (c :: u) = k + Text.byteSize u + 1 := by
  obtain ⟨k, hk⟩ := Nat.exists_eq_succ_of_ne_zero c.utf8Size_pos.ne'
  refine ⟨k, hk, ?_⟩
  rw [Text.byteSize_cons, hk]
  omega

lemma bytesFrom_append (u v : Text) : bytesFrom (Text.byteSize u) (u ++ v) = .ok v := by
  induction u with
  | nil => simp [bytesFrom]
  | cons c u ih =>
    obtain ⟨k, hk, hs⟩ := exists_byteSize_cons c u
    rw [hs, List.cons_append, bytesFrom, if_pos (by omega), ← hs, Text.byteSize_cons,
      Nat.add_sub_cancel_left, ih]

lemma takeBytes?_append (u v : Text) : Text.takeBytes? (Text.byteSize u) (u ++ v) = some u := by
  induction u with
  | nil => simp [Text.takeBytes?]
  | cons c u ih =>
    obtain ⟨k, hk, hs⟩ := exists_byteSize_cons c u
    rw [hs, List.cons_append, Text.takeBytes?, if_pos (by omega), ← hs, Text.byteSize_cons,
      Nat.add_sub_cancel_left, ih]
    rfl

lemma bytesTo_append (u v : Text) : bytesTo (Text.byteSize u) (u ++ v) = .ok u := by
  rw [bytesTo, takeBytes?_append]

lemma append_of_takeBytes? {t u : Text} (h : Text.takeBytes? n t = some u) :
    ∃ v, t = u ++ v := by
  induction t generalizing n u with
  | nil =>
    cases n with
    | zero => exact ⟨[], by simpa [Text.takeBytes?] using h⟩
    | succ n => simp [Text.takeBytes?] at h
  | cons c t ih =>
    cases n with
    | zero =>
      obtain rfl : u = [] := by simpa [Text.takeBytes?, eq_comm] using h
      exact ⟨c :: t, rfl⟩
    | succ n =>
      simp only [Text.takeBytes?] at h
      split_ifs at h
      obtain ⟨s, hs, rfl⟩ := Option.map_eq_some_iff.1 h
      obtain ⟨v, rfl⟩ := ih hs
      exact ⟨v, rfl⟩

lemma findByte?_append {c : Char} {u : Text} (h : c ∉ u) (v : Text) :
    findByte? c (u ++ c :: v) = some (Text.byteSize u) := by
  have hu : ∀ x ∈ u, (x != c) = true := by
    rintro x hx
    simpa using ne_of_mem_of_not_mem hx h
  have ht : (u ++ c :: v).takeWhile (· != c) = u := by
    rw [List.takeWhile_append_of_pos hu]
    simp
  rw [findByte?, if_pos (by simp), ht]

lemma findByte?_of_notMem {c : Char} {t : Text} (h : c ∉ t) : findByte? c t = none := if_neg h

lemma lastIndex?_cases (p : α → Bool) (l : List α) :
    (lastIndex? p l = none ∧ ∀ a ∈ l, p a = false) ∨
    ∃ u a v, l = u ++ a :: v ∧ lastIndex? p l = some u.length ∧ p a = true ∧
      ∀ b ∈ v, p b = false := by
  induction l with
  | nil => exact .inl ⟨rfl, by simp⟩
  | cons a l ih =>
    rcases ih with ⟨hn, hl⟩ | ⟨u, b, v, rfl, hs, hb, hv⟩
    · by_cases ha : p a = true
      · exact .inr ⟨[], a, l, rfl, by simp [lastIndex?, hn, ha], ha, hl⟩
      · refine .inl ⟨by simp [lastIndex?, hn, ha], ?_⟩
        simpa [ha] using hl
    · exact .inr ⟨a :: u, b, v, rfl, by simp [lastIndex?, hs], hb, hv⟩

lemma findIdx?_cases (p : α → Bool) (l : List α) :
    (l.findIdx? p = none ∧ ∀ a ∈ l, p a = false) ∨
    ∃ u a v, l = u ++ a :: v ∧ l.findIdx? p = some u.length ∧ p a = true ∧
      ∀ b ∈ u, p b = false := by
  induction l with
  | nil => exact .inl ⟨rfl, by simp⟩
  | cons a l ih =>
    by_cases ha : p a = true
    · exact .inr ⟨[], a, l, rfl, by simp [List.findIdx?_cons, ha], ha, by simp⟩
    · rcases ih with ⟨hn, hl⟩ | ⟨u, b, v, rfl, hs, hb, hu⟩
      · refine .inl ⟨by simp [List.findIdx?_cons, ha, hn], ?_⟩
        simpa [ha] using hl
      · refine .inr ⟨a :: u, b, v, rfl, by simp [List.findIdx?_cons, ha, hs], hb, ?_⟩
        simpa [ha] using hu

lemma skipBack_eq (p : α → Bool) (h : n ≤ l.length) :
    skipBack p l n = .ok ((l.take n).reverse.dropWhile p).length := by
  induction n with
  | zero => simp [skipBack]
  | succ n ih =>
    have ht : (l.take (n + 1)).reverse = l[n] :: (l.take n).reverse := by
      rw [List.take_succ_eq_append_getElem h, List.reverse_append]
      rfl
    rw [skipBack, get_ok h, ok_bind, ht]
    by_cases ha : p l[n] = true
    · rw [if_pos ha, ih (Nat.le_of_succ_le h), List.dropWhile_cons_of_pos ha]
    · rw [if_neg ha, List.dropWhile_cons_of_neg ha]
      simp [Nat.min_eq_left (Nat.le_of_succ_le h)]

lemma skipBack_append (p : α → Bool) (u v : List α) :
    skipBack p (u ++ v) u.length = .ok ((u.reverse.dropWhile p).reverse).length := by
  rw [skipBack_eq p (by simp), List.take_left, List.length_reverse]

lemma skipOn_eq (p : α → Bool) (l : List α) (i : Nat) :
    skipOn p l i = .ok (i + ((l.drop i).takeWhile p).length) := by
  fun_induction skipOn p l i with
  | case1 i h ih =>
    rw [get_ok h, ok_bind, List.drop_eq_getElem_cons h]
    by_cases ha : p l[i] = true
    · rw [if_pos ha, ih, List.takeWhile_cons_of_pos ha, List.length_cons]
      congr 1
      omega
    · rw [if_neg ha, List.takeWhile_cons_of_neg ha]
      rfl
  | case2 i h =>
    rw [List.drop_eq_nil_of_le (Nat.le_of_not_lt h)]
    rfl

lemma skipOn_append (p : α → Bool) (u v : List α) :
    skipOn p (u ++ v) u.length = .ok (u ++ v.takeWhile p).length := by
  rw [skipOn_eq, List.drop_left, List.length_append]

lemma sub_ok {a b : Nat} (h : b ≤ a) : sub a b = .ok (a - b) := if_pos h

lemma div_ok (a : Nat) {b : Nat} (h : 0 < b) : div a b = .ok (a / b) := if_neg h.ne'

lemma mod_ok (a : Nat) {b : Nat} (h : 0 < b) : mod a b = .ok (a % b) := if_neg h.ne'

lemma word_ok {bits n : Nat} (h : n < 2 ^ bits) : word bits n = .ok n := if_pos h

end SheetFormat.Checked
