import SheetFormat.Proofs.Text.Decimal

/-! A text of digits is given by its length and its number, and a numeral by its number alone. -/

namespace SheetFormat.Text

attribute [local instance (2000)] instPowNat

variable {s t : Text} {c : Char} {n w : Nat}

lemma exists_digitChar (h : c.isDigit = true) : ∃ d < 10, c = Nat.digitChar d := by
  have hc : 48 ≤ c.toNat ∧ c.toNat ≤ 57 := by
    simpa [Char.isDigit, UInt32.le_iff_toNat_le] using h
  refine ⟨c.toNat - 48, by omega, Char.toNat_inj.1 ?_⟩
  rw [Nat.toNat_digitChar_of_lt_ten (by omega)]
  omega

lemma isDigit_digitChar {d : Nat} (hd : d < 10) : (Nat.digitChar d).isDigit = true := by
  rw [Nat.isDigit_digitChar]
  exact decide_eq_true hd

lemma valueOf_digitChar {d : Nat} (hd : d < 10) : valueOf [Nat.digitChar d] = d := by
  rw [valueOf, Nat.ofDigitChars_cons_digitChar_of_lt_ten hd]
  exact Nat.zero_add d

lemma valueOf_cons {d : Nat} (hd : d < 10) (t : Text) :
    valueOf (Nat.digitChar d :: t) = d * 10 ^ t.length + valueOf t := by
  rw [← List.singleton_append, valueOf_append, valueOf_digitChar hd]

lemma AllDigits.head (h : AllDigits (c :: t)) : c.isDigit = true := h c (List.mem_cons_self ..)

lemma AllDigits.tail (h : AllDigits (c :: t)) : AllDigits t :=
  fun d hd => h d (List.mem_cons_of_mem c hd)

lemma AllDigits.cons (hc : c.isDigit = true) (h : AllDigits t) : AllDigits (c :: t) := by
  intro d hd
  rcases List.mem_cons.1 hd with rfl | hd
  · exact hc
  · exact h d hd

lemma allDigits_digitChar {d : Nat} (hd : d < 10) : AllDigits [Nat.digitChar d] :=
  AllDigits.cons (isDigit_digitChar hd) (List.forall_mem_nil _)

lemma AllDigits.take (h : AllDigits t) (n : Nat) : AllDigits (t.take n) :=
  fun c hc => h c (List.mem_of_mem_take hc)

lemma AllDigits.drop (h : AllDigits t) (n : Nat) : AllDigits (t.drop n) :=
  fun c hc => h c (List.mem_of_mem_drop hc)

lemma AllDigits.notMem (h : AllDigits t) (hc : c.isDigit = false) : c ∉ t := by
  intro hm
  rw [h c hm] at hc
  cases hc

lemma valueOf_lt (h : AllDigits t) : valueOf t < 10 ^ t.length := by
  induction t with
  | nil => exact Nat.one_pos
  | cons c t ih =>
    obtain ⟨d, hd, rfl⟩ := exists_digitChar h.head
    have ht := ih h.tail
    have hm : d * 10 ^ t.length ≤ 9 * 10 ^ t.length := Nat.mul_le_mul_right _ (by omega)
    rw [valueOf_cons hd, List.length_cons, Nat.pow_succ]
    omega

lemma valueOf_nines (k : Nat) : valueOf (List.replicate k '9') + 1 = 10 ^ k := by
  induction k with
  | zero => rfl
  | succ k ih =>
    have h9 := valueOf_cons (show 9 < 10 by decide) (List.replicate k '9')
    rw [List.length_replicate] at h9
    rw [List.replicate_succ, Nat.pow_succ]
    exact (congrArg Nat.succ h9).trans (by omega)

lemma valueOf_append_div_mod (s : Text) (ht : AllDigits t) :
    valueOf (s ++ t) / 10 ^ t.length = valueOf s ∧
      valueOf (s ++ t) % 10 ^ t.length = valueOf t := by
  have hv := valueOf_lt ht
  rw [valueOf_append, Nat.mul_comm]
  constructor
  · rw [Nat.mul_add_div (Nat.zero_lt_of_lt hv), Nat.div_eq_of_lt hv, Nat.add_zero]
  · rw [Nat.mul_add_mod, Nat.mod_eq_of_lt hv]

lemma eq_of_valueOf (hs : AllDigits s) (ht : AllDigits t) (hl : s.length = t.length)
    (hv : valueOf s = valueOf t) : s = t := by
  induction s generalizing t with
  | nil => exact (List.length_eq_zero_iff.1 hl.symm).symm
  | cons c s ih =>
    obtain ⟨e, t, rfl⟩ := List.exists_cons_of_length_eq_add_one hl.symm
    have hst : s.length = t.length := Nat.succ.inj hl
    have hcs := valueOf_append_div_mod [c] hs.tail
    have het := valueOf_append_div_mod [e] ht.tail
    rw [List.singleton_append, hv, hst] at hcs
    rw [List.singleton_append] at het
    obtain ⟨d, hd, rfl⟩ := exists_digitChar hs.head
    obtain ⟨f, hf, rfl⟩ := exists_digitChar ht.head
    rw [valueOf_digitChar hd] at hcs
    rw [valueOf_digitChar hf] at het
    rw [ih hs.tail ht.tail hst (hcs.2.symm.trans het.2), hcs.1.symm.trans het.1]

lemma valueOf_add_one_eq_iff (h : AllDigits t) :
    valueOf t + 1 = 10 ^ t.length ↔ ∀ c ∈ t, c = '9' := by
  constructor
  · intro hv
    have hn := valueOf_nines t.length
    have ht : t = List.replicate t.length '9' := by
      apply eq_of_valueOf h _ List.length_replicate.symm (by omega)
      intro c hc
      rw [List.eq_of_mem_replicate hc]
      rfl
    rw [ht]
    exact fun c hc => List.eq_of_mem_replicate hc
  · intro hc
    rw [List.eq_replicate_of_mem hc, valueOf_nines, List.length_replicate]

lemma length_numeral_le_iff (hw : 0 < w) : (numeral n).length ≤ w ↔ n < 10 ^ w :=
  Nat.length_toDigits_le_iff (by decide) hw

lemma length_numeral_pos (n : Nat) : 0 < (numeral n).length :=
  List.length_pos_of_ne_nil (numeral_ne_nil n)

lemma lt_pow_length_numeral (n : Nat) : n < 10 ^ (numeral n).length :=
  (length_numeral_le_iff (length_numeral_pos n)).1 le_rfl

lemma pow_length_numeral_le (hn : 0 < n) : 10 ^ ((numeral n).length - 1) ≤ n := by
  have hl := length_numeral_pos n
  rcases Nat.eq_zero_or_pos ((numeral n).length - 1) with h | h
  · rw [h]
    exact hn
  · apply Nat.le_of_not_lt
    rw [← length_numeral_le_iff h]
    omega

lemma length_numeral_mono {m : Nat} (h : m ≤ n) : (numeral m).length ≤ (numeral n).length :=
  (length_numeral_le_iff (length_numeral_pos n)).2 (h.trans_lt (lt_pow_length_numeral n))

lemma length_numeral_pow (w : Nat) : (numeral (10 ^ w)).length = w + 1 := by
  apply le_antisymm
  · exact (length_numeral_le_iff w.succ_pos).2 (Nat.pow_lt_pow_right (by decide) w.lt_succ_self)
  · exact (Nat.pow_lt_pow_iff_right (by decide)).1 (lt_pow_length_numeral _)

lemma length_numeral_div {a : Nat} (hl : a ≤ n / 10 ^ w)
    (hu : n < 10 ^ ((numeral a).length + w)) :
    (numeral (n / 10 ^ w)).length = (numeral a).length := by
  rw [Nat.pow_add, Nat.mul_comm] at hu
  apply le_antisymm
  · exact (length_numeral_le_iff (length_numeral_pos a)).2 (Nat.div_lt_of_lt_mul hu)
  · exact length_numeral_mono hl

lemma eq_numeral (h : AllDigits t) (hv : valueOf t = n) (hl : (numeral n).length = t.length) :
    t = numeral n :=
  eq_of_valueOf h (allDigits_numeral n) hl.symm (hv.trans (valueOf_numeral n).symm)

lemma eq_places (h : AllDigits t) : t = places t.length (valueOf t) := by
  apply eq_of_valueOf h (allDigits_places _ _) (length_places _ _).symm
  rw [valueOf_places, Nat.mod_eq_of_lt (valueOf_lt h)]

lemma places_zero (width : Nat) : places width 0 = List.replicate width '0' := by
  have h := eq_places (allDigits_zeros width)
  rw [valueOf_zeros, List.length_replicate] at h
  exact h.symm

lemma numeral_places_append (n : Nat) (h : AllDigits t) :
    numeral (valueOf (numeral n ++ t) / 10 ^ t.length) = numeral n ∧
      places t.length (valueOf (numeral n ++ t) % 10 ^ t.length) = t := by
  obtain ⟨hq, hm⟩ := valueOf_append_div_mod (numeral n) h
  rw [hq, hm, valueOf_numeral]
  exact ⟨rfl, (eq_places h).symm⟩

lemma le_valueOf_append_div (a k : Nat) (h : AllDigits t) :
    a ≤ (valueOf (numeral a ++ t) + k) / 10 ^ t.length :=
  calc a = valueOf (numeral a ++ t) / 10 ^ t.length := by
        rw [(valueOf_append_div_mod (numeral a) h).1, valueOf_numeral]
    _ ≤ _ := Nat.div_le_div_right (Nat.le_add_right _ _)

lemma numeral_append_digit (h : 10 ≤ n) :
    numeral (n / 10) ++ [Nat.digitChar (n % 10)] = numeral n := by
  conv => rhs; rw [numeral, Nat.toDigits_eq_if (by decide), if_neg (Nat.not_lt.2 h)]
  rfl

lemma numeral_append_places (h : 10 ^ w ≤ n) :
    numeral (n / 10 ^ w) ++ places w (n % 10 ^ w) = numeral n := by
  induction w generalizing n with
  | zero =>
    rw [Nat.pow_zero, Nat.div_one]
    exact List.append_nil _
  | succ w ih =>
    have hp : 10 ^ (w + 1) = 10 * 10 ^ w := Nat.pow_succ'
    have h10 : 10 ≤ n := by
      have := Nat.pow_pos (n := w) (show 0 < 10 by decide)
      omega
    have hq : 10 ^ w ≤ n / 10 := by omega
    rw [places, hp, Nat.mod_mul_right_div_self, Nat.mod_mul_right_mod, ← Nat.div_div_eq_div_mul,
      ← List.append_assoc, ih hq, numeral_append_digit h10]

lemma byteSize_of_allDigits (h : AllDigits t) : byteSize t = t.length := by
  induction t with
  | nil => rfl
  | cons c t ih =>
    obtain ⟨d, hd, rfl⟩ := exists_digitChar h.head
    have hc : (Nat.digitChar d).utf8Size = 1 := by
      rw [Char.utf8Size_eq_one_iff, UInt32.le_iff_toNat_le]
      change (Nat.digitChar d).toNat ≤ 127
      rw [Nat.toNat_digitChar_of_lt_ten hd]
      omega
    rw [byteSize_cons, hc, ih h.tail, List.length_cons, Nat.add_comm]

end SheetFormat.Text
