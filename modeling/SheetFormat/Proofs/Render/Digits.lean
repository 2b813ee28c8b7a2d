import SheetFormat.Proofs.Text.Decimal
import SheetFormat.Render.Number

/-! Digits against the placeholders and fixed parts of a number, and which of them remain once
blanks and separators are deleted. -/

namespace SheetFormat

lemma exists_field {α : Type} {part : Part α} (h : part.isField = true) :
    ∃ f, part = .field f := by
  cases part with
  | field f => exact ⟨f, rfl⟩
  | _ => cases h

def FieldsOnly (parts : List NumberPart) : Prop := ∀ p ∈ parts, p.isField = true

instance (parts : List NumberPart) : Decidable (FieldsOnly parts) :=
  inferInstanceAs (Decidable (∀ p ∈ parts, p.isField = true))

lemma FieldsOnly.count {parts : List NumberPart} (h : FieldsOnly parts) :
    placeholderCount parts = parts.length := List.countP_eq_length.2 h

lemma FieldsOnly.tail {part : NumberPart} {parts : List NumberPart}
    (h : FieldsOnly (part :: parts)) : FieldsOnly parts :=
  fun p hp => h p (List.mem_cons_of_mem _ hp)

lemma FieldsOnly.exists_head {part : NumberPart} {parts : List NumberPart}
    (h : FieldsOnly (part :: parts)) : ∃ p, part = .field p :=
  exists_field (h part (List.mem_cons_self ..))

section Fixed

variable {part : NumberPart} {parts : List NumberPart}

lemma placeholderCount_field (p : Placeholder) (rest : List NumberPart) :
    placeholderCount (.field p :: rest) = placeholderCount rest + 1 :=
  List.countP_cons_of_pos rfl

lemma placeholderCount_fixed (h : part.isField = false) (rest : List NumberPart) :
    placeholderCount (part :: rest) = placeholderCount rest :=
  List.countP_cons_of_neg (by rw [h]; exact Bool.false_ne_true)

lemma spread_fixed (h : part.isField = false) (text digits : Text) (rest : List NumberPart) :
    spread text (part :: rest) digits = fixedText text part ++ spread text rest digits := by
  cases part with
  | field p => cases h
  | _ => rfl

lemma spread_of_no_field (text digits : Text) (h : ∀ p ∈ parts, p.isField = false) :
    spread text parts digits = parts.flatMap (fixedText text) := by
  induction parts with
  | nil => rfl
  | cons part parts ih =>
    rw [spread_fixed (h part (List.mem_cons_self ..)),
      ih fun p hp => h p (List.mem_cons_of_mem _ hp)]
    rfl

lemma spread_of_count (h : placeholderCount parts = 0) (text digits : Text) :
    spread text parts digits = spread text parts [] := by
  have hf : ∀ p ∈ parts, p.isField = false := by
    simpa [placeholderCount, List.countP_eq_zero] using h
  rw [spread_of_no_field text digits hf, spread_of_no_field text [] hf]

end Fixed

section LastRun

variable {α : Type} {p : α → Bool} {l : List α}

def lastRun (p : α → Bool) (l : List α) : List α :=
  ((l.reverse.dropWhile (!p ·)).takeWhile p).reverse

def beforeLastRun (p : α → Bool) (l : List α) : List α :=
  ((l.reverse.dropWhile (!p ·)).dropWhile p).reverse

def behindLastRun (p : α → Bool) (l : List α) : List α := (l.reverse.takeWhile (!p ·)).reverse

lemma lastRun_cut (p : α → Bool) (l : List α) :
    beforeLastRun p l ++ lastRun p l ++ behindLastRun p l = l := by
  rw [beforeLastRun, lastRun, behindLastRun, ← List.reverse_append, ← List.reverse_append,
    List.takeWhile_append_dropWhile, List.takeWhile_append_dropWhile, List.reverse_reverse]

lemma of_mem_lastRun {a : α} (h : a ∈ lastRun p l) : p a = true :=
  List.mem_takeWhile_imp (List.mem_reverse.1 h)

section Stricter

variable {q : α → Bool} (hq : ∀ a, q a = true → p a = true)

include hq

lemma takeWhile_stricter {l : List α} (h : ∀ a ∈ l.takeWhile p, q a = true) :
    l.takeWhile q = l.takeWhile p ∧ l.dropWhile q = l.dropWhile p := by
  induction l with
  | nil => exact ⟨rfl, rfl⟩
  | cons a l ih =>
    by_cases hp : p a = true
    · rw [List.takeWhile_cons_of_pos hp] at h
      obtain ⟨ht, hd⟩ := ih fun b hb => h b (List.mem_cons_of_mem a hb)
      have ha : q a = true := h a (List.mem_cons_self ..)
      simp [ha, hp, ht, hd]
    · have ha : ¬q a = true := fun ha => hp (hq a ha)
      simp [ha, hp]

lemma dropWhile_stricter {l : List α} (h : ∀ a ∈ (l.dropWhile (!p ·)).takeWhile p, q a = true) :
    l.takeWhile (!q ·) = l.takeWhile (!p ·) ∧ l.dropWhile (!q ·) = l.dropWhile (!p ·) := by
  induction l with
  | nil => exact ⟨rfl, rfl⟩
  | cons a l ih =>
    by_cases hp : p a = true
    · rw [List.dropWhile_cons_of_neg (by simp [hp]), List.takeWhile_cons_of_pos hp] at h
      have ha : q a = true := h a (List.mem_cons_self ..)
      simp [ha, hp]
    · have ha : ¬q a = true := fun ha => hp (hq a ha)
      rw [List.dropWhile_cons_of_pos (by simp [hp])] at h
      obtain ⟨ht, hd⟩ := ih h
      simp [ha, hp, ht, hd]

lemma lastRun_stricter (h : ∀ a ∈ lastRun p l, q a = true) :
    beforeLastRun q l = beforeLastRun p l ∧ lastRun q l = lastRun p l ∧
      behindLastRun q l = behindLastRun p l := by
  have hr : ∀ a ∈ (l.reverse.dropWhile (!p ·)).takeWhile p, q a = true :=
    fun a ha => h a (List.mem_reverse.2 ha)
  obtain ⟨hb, hf⟩ := dropWhile_stricter hq hr
  obtain ⟨ht, hd⟩ := takeWhile_stricter hq hr
  simp only [beforeLastRun, lastRun, behindLastRun, hb, hf, ht, hd, and_self]

end Stricter

lemma groupThousands_eq (separator : Char) (t : Text) :
    groupThousands separator t = beforeLastRun Char.isDigit t ++
      groupDigits separator (lastRun Char.isDigit t) ++ behindLastRun Char.isDigit t := rfl

end LastRun

structure KeepsDigits (keep : Char → Bool) : Prop where
  digit : ∀ c, c.isDigit = true → keep c = true
  space : keep ' ' = false

section Kept

variable {keep : Char → Bool}

lemma filter_digits (hk : KeepsDigits keep) {t : Text} (ht : t.AllDigits) : t.filter keep = t :=
  List.filter_eq_self.2 fun c hc => hk.digit c (ht c hc)

lemma filter_cons_dropped {c : Char} (hc : keep c = false) (t : Text) :
    (c :: t).filter keep = t.filter keep :=
  List.filter_cons_of_neg (by rw [hc]; exact Bool.false_ne_true)

lemma filter_blank (hk : KeepsDigits keep) (p : Placeholder) :
    ∃ k ≤ 1, p.blank.filter keep = List.replicate k '0' := by
  cases p with
  | zero => exact ⟨1, le_rfl, filter_digits hk (Text.allDigits_zeros 1)⟩
  | hash => exact ⟨0, Nat.zero_le 1, rfl⟩
  | question => exact ⟨0, Nat.zero_le 1, filter_cons_dropped hk.space []⟩

lemma filter_spread (hk : KeepsDigits keep) (text : Text) {parts : List NumberPart}
    (hp : FieldsOnly parts) {digits : Text} (ht : digits.AllDigits)
    (hn : parts = [] → digits = []) :
    ∃ k ≤ parts.length - digits.length,
      (spread text parts digits).filter keep = List.replicate k '0' ++ digits := by
  induction parts generalizing digits with
  | nil =>
    rw [hn rfl]
    exact ⟨0, Nat.zero_le _, rfl⟩
  | cons part parts ih =>
    obtain ⟨p, rfl⟩ := hp.exists_head
    rw [spread, hp.tail.count]
    by_cases hl : digits.length ≤ parts.length
    · have hz : digits.length - parts.length = 0 := Nat.sub_eq_zero_of_le hl
      have hm : parts = [] → digits = [] := by
        rintro rfl
        exact List.length_eq_zero_iff.1 (Nat.le_zero.1 hl)
      obtain ⟨j, hj, hb⟩ := filter_blank hk p
      obtain ⟨k, hc, hr⟩ := ih hp.tail ht hm
      refine ⟨j + k, by rw [List.length_cons]; omega, ?_⟩
      simp only [hz, if_true, List.drop_zero, List.filter_append, hb, hr]
      rw [← List.append_assoc, List.replicate_append_replicate]
    · have hz : digits.length - parts.length ≠ 0 := by omega
      have hm : parts = [] → digits.drop (digits.length - parts.length) = [] := by
        rintro rfl
        exact List.drop_length
      have ht' : Text.AllDigits (digits.drop (digits.length - parts.length)) :=
        fun c hc => ht c (List.mem_of_mem_drop hc)
      obtain ⟨k, hc, hr⟩ := ih hp.tail ht' hm
      have hf : (digits.take (digits.length - parts.length)).filter keep =
          digits.take (digits.length - parts.length) :=
        filter_digits hk fun c hc => ht c (List.mem_of_mem_take hc)
      rw [List.length_drop] at hc
      obtain rfl : k = 0 := by omega
      refine ⟨0, Nat.zero_le _, ?_⟩
      simp only [hz, if_false, List.filter_append, hf, hr, List.replicate_zero, List.nil_append,
        List.take_append_drop]

lemma filter_fill (hk : KeepsDigits keep) {parts : List NumberPart} (hp : FieldsOnly parts)
    {digits : Text} (ht : digits.AllDigits) (hl : digits.length ≤ parts.length) :
    ∃ k, (fill parts digits).filter keep = digits ++ List.replicate k '0' := by
  induction parts generalizing digits with
  | nil =>
    obtain rfl := List.length_eq_zero_iff.1 (Nat.le_zero.1 hl)
    exact ⟨0, rfl⟩
  | cons part parts ih =>
    obtain ⟨p, rfl⟩ := hp.exists_head
    cases digits with
    | nil =>
      obtain ⟨j, -, hb⟩ := filter_blank hk p
      obtain ⟨k, hr⟩ := ih hp.tail ht (Nat.zero_le _)
      refine ⟨j + k, ?_⟩
      rw [fill, List.filter_append, hb, hr, List.nil_append, List.nil_append,
        List.replicate_append_replicate]
    | cons d digits =>
      have ht' : Text.AllDigits digits := fun c hc => ht c (List.mem_cons_of_mem _ hc)
      obtain ⟨k, hr⟩ := ih hp.tail ht' (Nat.le_of_succ_le_succ hl)
      refine ⟨k, ?_⟩
      have hd : keep d = true := hk.digit d (ht d (List.mem_cons_self ..))
      rw [fill, List.filter_cons_of_pos hd, hr, List.cons_append]

lemma filter_groupDigits {separator : Char} (hs : keep separator = false) (digits : Text) :
    (groupDigits separator digits).filter keep = digits.filter keep := by
  induction digits with
  | nil => rfl
  | cons d digits ih =>
    rw [groupDigits]
    split
    · rw [List.filter_cons, filter_cons_dropped hs, ih, ← List.filter_cons]
    · rw [List.filter_cons, ih, ← List.filter_cons]

lemma filter_groupThousands {separator : Char} (hs : keep separator = false) (t : Text) :
    (groupThousands separator t).filter keep = t.filter keep := by
  conv => rhs; rw [← lastRun_cut Char.isDigit t]
  rw [groupThousands_eq]
  simp only [List.filter_append, filter_groupDigits hs]

end Kept

lemma sublist_groupDigits (separator : Char) (t : Text) :
    t.Sublist (groupDigits separator t) := by
  induction t with
  | nil => exact .slnil
  | cons d t ih =>
    rw [groupDigits]
    split
    · exact (ih.cons separator).cons_cons d
    · exact ih.cons_cons d

lemma sublist_groupThousands (separator : Char) (t : Text) :
    t.Sublist (groupThousands separator t) := by
  conv => lhs; rw [← lastRun_cut Char.isDigit t]
  rw [groupThousands_eq]
  exact ((List.Sublist.refl _).append (sublist_groupDigits separator _)).append (.refl _)

lemma mem_of_mem_groupThousands {separator c : Char} {t : Text}
    (h : c ∈ groupThousands separator t) : c ∈ t ∨ c = separator := by
  have hf := @filter_groupThousands (· != separator) _ (bne_self_eq_false separator) t
  by_cases hc : c = separator
  · exact .inr hc
  · have hm : c ∈ (groupThousands separator t).filter (· != separator) :=
      List.mem_filter.2 ⟨h, by simpa using hc⟩
    rw [hf] at hm
    exact .inl (List.mem_filter.1 hm).1

namespace NumberLayout

lemma front_append_behind (l : NumberLayout) : l.front ++ l.behind = l.wholeParts := by
  rw [front, behind]
  split_ifs
  · rw [← List.reverse_append, List.takeWhile_append_dropWhile, List.reverse_reverse]
  · exact List.append_nil _

lemma placeholderCount_behind (l : NumberLayout) : placeholderCount l.behind = 0 := by
  rw [behind]
  split_ifs
  · rw [placeholderCount, List.countP_eq_zero]
    intro p hp
    simpa using List.mem_takeWhile_imp (List.mem_reverse.1 hp)
  · rfl

lemma filter_pointed {keep : Char → Bool} {l : NumberLayout} {locale : Locale}
    {parts : List NumberPart} {digits : Text} (hk : KeepsDigits keep)
    (hd : keep locale.decimal = true) (hf : l.fractional = some parts) (hp : FieldsOnly parts)
    (ht : digits.AllDigits) (hl : digits.length ≤ parts.length) :
    ∃ k, (l.pointed locale digits).filter keep =
      locale.decimal :: (Text.dropTrailingZeros digits ++ List.replicate k '0') := by
  have hz := (Text.length_dropTrailingZeros_le digits).trans hl
  obtain ⟨k, hk⟩ := filter_fill hk hp ht.dropTrailingZeros hz
  refine ⟨k, ?_⟩
  rw [pointed, hf, List.filter_cons_of_pos hd, ← hk]

end NumberLayout

end SheetFormat
