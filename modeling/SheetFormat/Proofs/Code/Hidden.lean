import SheetFormat.Proofs.Code.Insertion

/-! The characters of a code that stand in quotes or behind a backslash. -/

namespace SheetFormat

open Token

/-- Byte `p` of the code starts a character inside of the quotes of a lexeme, or behind its
backslash. -/
def Lexeme.hides (x : Lexeme) (p : Nat) : Bool :=
  match x.token with
  | .quoted t => x.start < p ∧ p < x.start + 1 + Text.byteSize t
  | .escaped _ => p = x.start + 1
  | _ => false

lemma Lexeme.start_lt_of_hides {x : Lexeme} {p : Nat} (h : x.hides p = true) : x.start < p := by
  unfold hides at h
  split at h
  · exact (of_decide_eq_true h).1
  · have := of_decide_eq_true h
    omega
  · cases h

def Hidden (code : Text) (i : Nat) : Prop :=
  ∃ x ∈ tokenize code, x.hides (Text.byteSize (code.take i)) = true

instance (code : Text) (i : Nat) : Decidable (Hidden code i) :=
  inferInstanceAs
    (Decidable (∃ x ∈ tokenize code, x.hides (Text.byteSize (code.take i)) = true))

/-- The pairs of characters, no spaces, that are quoted or escaped in section `k` of a code, of some
pairs that stand from index `n` on. -/
def hiddenPairs (code : Text) (k n : Nat) (xs : List (Char × Char)) : List (Char × Char) :=
  ((xs.zipIdx n).filter fun x =>
    x.1.1 ≠ ' ' ∧ Hidden code x.2 ∧ sectionAt code (Text.byteSize (code.take x.2)) = k).map Prod.fst

namespace Token

variable {t : Token} {v after : Text} {i p : Nat}

lemma Spells.quoted_eq {x : Text} (h : Spells (.quoted x) v after) :
    '"' ∉ x ∧ (v = '"' :: (x ++ ['"']) ∨ v = '"' :: (x ++ []) ∧ after = []) := by
  cases h with
  | quoted _ hx => exact ⟨hx, .inl rfl⟩
  | unclosed hx => exact ⟨hx, .inr ⟨by rw [List.append_nil], rfl⟩⟩

def hides : Token → Nat → Prop
  | .quoted x, i => 0 < i ∧ i ≤ x.length
  | .escaped _, i => i = 1
  | _, _ => False

lemma byteSize_take_lt {x : Text} (q : Text) :
    Text.byteSize ((x ++ q).take i) < Text.byteSize x ↔ i < x.length := by
  rw [List.take_append, Text.byteSize_append]
  have hx := byteSize_take_add_drop x i
  constructor
  · intro h
    by_contra hi
    rw [List.drop_of_length_le (Nat.le_of_not_lt hi)] at hx
    simp at hx
    omega
  · intro h
    have hd := byteSize_pos (List.drop_eq_nil_iff.not.2 (Nat.not_le.2 h))
    rw [Nat.sub_eq_zero_of_le h.le, List.take_zero, Text.byteSize_nil]
    omega

lemma Spells.hides_iff_byte (h : Spells t v after) :
    Lexeme.hides ⟨t, p, p + Text.byteSize v⟩ (p + Text.byteSize (v.take i)) = true ↔ t.hides i := by
  cases t with
  | quoted x =>
    obtain ⟨q, rfl⟩ : ∃ q, v = '"' :: (x ++ q) := by
      rcases h.quoted_eq.2 with hv | ⟨hv, -⟩
      · exact ⟨_, hv⟩
      · exact ⟨_, hv⟩
    simp only [Lexeme.hides, hides, decide_eq_true_eq]
    cases i with
    | zero => simp
    | succ i =>
      have hb : '"'.utf8Size = 1 := rfl
      rw [List.take_succ_cons, Text.byteSize_cons, hb, Nat.succ_le_iff, ← byteSize_take_lt q]
      omega
  | escaped c =>
    cases h
    simp only [Lexeme.hides, hides, decide_eq_true_eq, Nat.add_left_cancel_iff]
    have hb : '\\'.utf8Size = 1 := rfl
    have hc := c.utf8Size_pos
    match i with
    | 0 => simp
    | 1 => simp [hb]
    | i + 2 =>
      simp [hb]
      omega
  | _ => exact ⟨fun h => Bool.noConfusion h, False.elim⟩

lemma Spells.byte_lt_of_hides {n : Nat} (h : Spells t v after)
    (hx : Lexeme.hides ⟨t, p, p + Text.byteSize v⟩ n = true) : n < p + Text.byteSize v := by
  cases t with
  | quoted x =>
    refine (of_decide_eq_true hx).2.trans_le ?_
    have hb : '"'.utf8Size = 1 := rfl
    rcases h.quoted_eq.2 with rfl | ⟨rfl, -⟩
    · simp only [Text.byteSize_cons, Text.byteSize_append, hb]
      omega
    · simp only [Text.byteSize_cons, Text.byteSize_append, hb]
      omega
  | escaped c =>
    cases h
    have hp : n = p + 1 := of_decide_eq_true hx
    have hc := c.utf8Size_pos
    have hb : '\\'.utf8Size = 1 := rfl
    simp only [Text.byteSize_cons, Text.byteSize_nil, hb]
    omega
  | _ => cases hx

end Token

def hiddenAt : List (Token × Text) → Nat → Prop
  | [], _ => False
  | (t, w) :: ts, i => if i < w.length then t.hides i else hiddenAt ts (i - w.length)

lemma hiddenAt_append {done ts : List (Token × Text)} (i : Nat) :
    hiddenAt (done ++ ts) ((spelling done).length + i) ↔ hiddenAt ts i := by
  induction done with
  | nil => rw [List.nil_append, spelling_nil, List.length_nil, Nat.zero_add]
  | cons t done ih =>
    rw [List.cons_append, hiddenAt, spelling_cons, List.length_append, if_neg (by omega),
      Nat.add_assoc, Nat.add_sub_cancel_left, ih]

lemma exists_hides_iff {ts : List (Token × Text)} {code : Text} (h : Spelled ts code)
    {p i : Nat} :
    (∃ x ∈ placed p ts, x.hides (p + Text.byteSize (code.take i)) = true) ↔ hiddenAt ts i := by
  induction h generalizing p i with
  | nil => simp [placed, hiddenAt]
  | @cons t w after ts hs hts ih =>
    rw [hiddenAt, placed, List.exists_mem_cons_iff]
    by_cases hl : i < w.length
    · rw [if_pos hl, List.take_append_of_le_length hl.le, hs.hides_iff_byte]
      refine or_iff_left ?_
      rintro ⟨x, hx, hi⟩
      have hb := byteSize_take_add_drop w i
      have h₁ := le_start_of_placed hx
      have h₂ := Lexeme.start_lt_of_hides hi
      omega
    · have ht : (w ++ after).take i = w ++ after.take (i - w.length) := by
        rw [List.take_append, List.take_of_length_le (Nat.le_of_not_lt hl)]
      rw [if_neg hl, ht, Text.byteSize_append, ← Nat.add_assoc, ih]
      refine or_iff_right fun hi => ?_
      have := hs.byte_lt_of_hides hi
      omega

lemma hidden_iff {ts : List (Token × Text)} {code : Text} (h : Spelled ts code) (i : Nat) :
    Hidden code i ↔ hiddenAt ts i := by
  rw [← exists_hides_iff h (p := 0), Hidden, tokenize, lexemes_of_spelled h]
  simp only [List.mem_append, List.mem_singleton, or_and_right, exists_or, Nat.zero_add]
  refine or_iff_left ?_
  rintro ⟨x, rfl, hx⟩
  cases hx

lemma Spelled.exists_spells {done ts : List (Token × Text)} {t : Token} {v code : Text}
    (h : Spelled (done ++ (t, v) :: ts) code) : ∃ after, Spells t v after := by
  have hb := h.behind
  generalize spelling ((t, v) :: ts) = rest at hb
  cases hb with
  | cons hv _ => exact ⟨_, hv⟩

section Inside

variable {done ts : List (Token × Text)} {t : Token} {v code : Text}

lemma hidden_inside (h : Spelled (done ++ (t, v) :: ts) code) {i : Nat} (hi : i < v.length) :
    Hidden code ((spelling done).length + i) ↔ t.hides i := by
  rw [hidden_iff h, hiddenAt_append, hiddenAt, if_pos hi]

lemma sectionAt_inside (h : Spelled (done ++ (t, v) :: ts) code) {i : Nat}
    (hi : i < v.length) :
    sectionAt code (Text.byteSize (code.take ((spelling done).length + i))) =
      (done.map Prod.fst).count .separator := by
  have hc : code.take ((spelling done).length + i) = spelling done ++ v.take i := by
    rw [← h.spelling_eq, spelling_append, List.take_length_add_append, spelling_cons,
      List.take_append_of_le_length hi.le]
  have hv := byteSize_take_add_drop v i
  rw [hc, Text.byteSize_append]
  refine sectionAt_eq h (Nat.le_add_right ..) fun x hx hs => ?_
  rcases List.mem_cons.1 hx with rfl | hx
  · obtain rfl : t = .separator := hs
    obtain ⟨after, hv⟩ := h.exists_spells
    cases hv
    obtain rfl : i = 0 := Nat.lt_one_iff.1 hi
    exact le_rfl
  · have := le_start_of_placed hx
    omega

end Inside

section Pairs

variable {code : Text} {k n c : Nat} {xs ys : List (Char × Char)}

lemma hiddenPairs_append :
    hiddenPairs code k n (xs ++ ys) =
      hiddenPairs code k n xs ++ hiddenPairs code k (n + xs.length) ys := by
  rw [hiddenPairs, List.zipIdx_append, List.filter_append, List.map_append]
  rfl

lemma hiddenPairs_of_visible (h : ∀ i < xs.length, ¬Hidden code (n + i)) :
    hiddenPairs code k n xs = [] := by
  rw [hiddenPairs, List.map_eq_nil_iff, List.filter_eq_nil_iff]
  intro x hx hn
  have hl := List.snd_lt_of_mem_zipIdx hx
  obtain ⟨i, hi⟩ := Nat.exists_eq_add_of_le (List.le_snd_of_mem_zipIdx hx)
  simp only [decide_eq_true_eq] at hn
  exact h i (by omega) (hi ▸ hn.2.1)

lemma hiddenPairs_of_hidden (h : ∀ i < xs.length, Hidden code (n + i))
    (hs : ∀ i < xs.length, sectionAt code (Text.byteSize (code.take (n + i))) = c) :
    hiddenPairs code k n xs = if c = k then xs.filter fun x => x.1 ≠ ' ' else [] := by
  have hp : ∀ x ∈ xs.zipIdx n, Hidden code x.2 ∧
      sectionAt code (Text.byteSize (code.take x.2)) = c := by
    intro x hx
    have hl := List.snd_lt_of_mem_zipIdx hx
    obtain ⟨i, hi⟩ := Nat.exists_eq_add_of_le (List.le_snd_of_mem_zipIdx hx)
    rw [hi]
    exact ⟨h i (by omega), hs i (by omega)⟩
  split_ifs with hk
  · have hf : (xs.zipIdx n).filter (fun x => x.1.1 ≠ ' ' ∧ Hidden code x.2 ∧
        sectionAt code (Text.byteSize (code.take x.2)) = k) =
          (xs.zipIdx n).filter fun x => x.1.1 ≠ ' ' := by
      apply List.filter_congr
      intro x hx
      simp [hp x hx, hk]
    rw [hiddenPairs, hf]
    conv => rhs; rw [← List.zipIdx_map_fst n xs]
    rw [List.filter_map]
    rfl
  · rw [hiddenPairs, List.map_eq_nil_iff, List.filter_eq_nil_iff]
    intro x hx
    simp [hp x hx, hk]

end Pairs

end SheetFormat
