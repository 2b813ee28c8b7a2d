import SheetFormat.Proofs.Checked.Rounding
import SheetFormat.Proofs.Number.Shortest

/-! The General format by characters: a carry through those that are kept meets digits and one
point. -/

namespace SheetFormat

open Text

attribute [local instance (2000)] instPowNat
attribute [local irreducible] perUnit limit

namespace Checked

variable {whole fraction : Text}

lemma incrementPointed_cons {c : Char} (hc : c.isDigit = true) {s t u v : Text} {carry : Bool}
    (hs : increment s = .ok (u, carry)) (ht : incrementPointed t = .ok (v, carry)) :
    ∃ e carry', increment (c :: s) = .ok (e :: u, carry') ∧
      incrementPointed (c :: t) = .ok (e :: v, carry') := by
  obtain ⟨d, hd, rfl⟩ := exists_digitChar hc
  have hp : ¬Nat.digitChar d = '.' := by
    intro hp
    rw [hp] at hc
    cases hc
  rw [increment, incrementPointed, hs, ht, ok_bind, ok_bind]
  cases carry with
  | false => exact ⟨_, _, rfl, rfl⟩
  | true =>
    simp only [Bool.not_true, Bool.false_eq_true, if_false, if_neg hp]
    by_cases hn : d = 9
    · subst hn
      exact ⟨_, _, rfl, rfl⟩
    · have h9 : ¬Nat.digitChar d = '9' := fun h9 => hn (Nat.digitChar_eq_nine.1 h9)
      have h := nextDigit_ok (show d < 9 by omega)
      simp only [increment, if_neg h9, h, ok_bind, pure_eq, Bool.not_true, Bool.false_eq_true,
        if_false]
      exact ⟨_, _, rfl, rfl⟩

lemma incrementPointed_digits (h : fraction.AllDigits) :
    incrementPointed fraction = increment fraction := by
  induction fraction with
  | nil => rfl
  | cons c t ih =>
    obtain ⟨u, carry, hu, -⟩ := increment_ok h.tail
    obtain ⟨e, carry', hs, ht⟩ := incrementPointed_cons h.head hu ((ih h.tail).trans hu)
    rw [hs, ht]

lemma incrementPointed_ok (hw : whole.AllDigits) (hf : fraction.AllDigits) :
    ∃ w f carry, w.length = whole.length ∧ increment (whole ++ fraction) = .ok (w ++ f, carry) ∧
      incrementPointed (whole ++ '.' :: fraction) = .ok (w ++ '.' :: f, carry) := by
  induction whole with
  | nil =>
    obtain ⟨u, carry, hu, -⟩ := increment_ok hf
    refine ⟨[], u, carry, rfl, hu, ?_⟩
    refine (bind_ok ((incrementPointed_digits hf).trans hu) _).trans ?_
    cases carry <;> rfl
  | cons c whole ih =>
    obtain ⟨w, f, carry, hl, hi, hp⟩ := ih hw.tail
    obtain ⟨e, carry', hs, ht⟩ := incrementPointed_cons hw.head hi hp
    exact ⟨e :: w, f, carry', congrArg Nat.succ hl, hs, ht⟩

lemma roundedPointed_whole (a : Nat) (dropped : Text) :
    roundedPointed (numeral a) dropped =
      .ok (numeral (a + (roundsUp (dropped.find? Char.isDigit)).toNat)) := by
  rw [roundedPointed]
  cases roundsUp (dropped.find? Char.isDigit) with
  | false => rfl
  | true =>
    have ha := allDigits_numeral a
    obtain ⟨u, carry, hu, hl, hs⟩ := increment_split a (List.forall_mem_nil _)
    rw [List.append_nil, valueOf_numeral, List.length_nil, Nat.pow_zero, Nat.div_one] at hs
    rw [List.append_nil] at hu hl
    refine (bind_ok ((incrementPointed_digits ha).trans hu) _).trans ?_
    rw [← hl] at hs
    cases carry with
    | false =>
      obtain ⟨hw, -⟩ := of_splitOff (u := u) (v := []) (by rw [List.append_nil]; exact hs)
      rw [Bool.toNat_true, ← hw]
      rfl
    | true =>
      obtain ⟨hw, -⟩ := of_splitOff (u := '1' :: u) (v := []) (by rw [List.append_nil]; exact hs)
      rw [Bool.toNat_true, ← hw]
      rfl

lemma roundedPointed_ok (a : Nat) (hf : fraction.AllDigits) (dropped : Text) :
    let r := valueOf (numeral a ++ fraction) + (roundsUp (dropped.find? Char.isDigit)).toNat
    roundedPointed (numeral a ++ '.' :: fraction) dropped =
      .ok (numeral (r / 10 ^ fraction.length) ++
        '.' :: Text.places fraction.length (r % 10 ^ fraction.length)) := by
  intro r
  have hr : r = valueOf (numeral a ++ fraction) + _ := rfl
  rw [roundedPointed, hr]
  cases roundsUp (dropped.find? Char.isDigit) with
  | false =>
    obtain ⟨hq, hm⟩ := numeral_places_append a hf
    rw [Bool.toNat_false, Nat.add_zero, hq, hm]
    rfl
  | true =>
    obtain ⟨u, carry, hu, -, hs⟩ := increment_split a hf
    obtain ⟨w, f, carry', hl, hi, hp⟩ := incrementPointed_ok (allDigits_numeral a) hf
    obtain ⟨rfl, rfl⟩ := Prod.mk.inj (Except.ok.inj (hu.symm.trans hi))
    refine (bind_ok hp _).trans ?_
    rw [← hl] at hs
    cases carry with
    | false =>
      obtain ⟨hw, hf⟩ := of_splitOff hs
      rw [Bool.toNat_true, ← hw, ← hf]
      rfl
    | true =>
      obtain ⟨hw, hf⟩ := of_splitOff (u := '1' :: w) hs
      rw [Bool.toNat_true, ← hw, ← hf]
      rfl

lemma dropTrailingZeros_pointed (s t : Text) :
    dropTrailingZeros (s ++ '.' :: t) = s ++ '.' :: dropTrailingZeros t := by
  rw [dropTrailingZeros, dropTrailingZeros, List.reverse_append, List.reverse_cons,
    List.append_assoc, List.dropWhile_append]
  cases h : (t.reverse.dropWhile (· == '0')) with
  | nil => simp
  | cons c rest => simp

lemma dropWhile_point {t : Text} (h : t.AllDigits) : t.dropWhile (· == '.') = t := by
  cases t with
  | nil => rfl
  | cons c t =>
    apply List.dropWhile_cons_of_neg
    intro hc
    exact h.notMem (c := '.') rfl (by rw [← eq_of_beq hc]; exact List.mem_cons_self ..)

lemma trimmedPoint_eq (hw : whole.AllDigits) (hf : fraction.AllDigits) :
    trimmedPoint (whole ++ '.' :: fraction) =
      Decimal.pointed whole (dropTrailingZeros fraction) := by
  have hr : ∀ {t : Text}, t.AllDigits → Text.AllDigits t.reverse := by
    intro t ht c hc
    exact ht c (List.mem_reverse.1 hc)
  have ht := hf.dropTrailingZeros
  rw [trimmedPoint, dropTrailingZeros_pointed, List.reverse_append, List.reverse_cons,
    List.append_assoc, List.dropWhile_append, dropWhile_point (hr ht)]
  by_cases hn : dropTrailingZeros fraction = []
  · simp [hn, Decimal.pointed, dropWhile_point (hr hw)]
  · simp [hn, Decimal.pointed]

lemma append_trimmedPoint (t : Text) : ∃ v, trimmedPoint t ++ v = t := by
  have hz : dropTrailingZeros t ++ t.rtakeWhile (· == '0') = t := List.rdropWhile_append_rtakeWhile
  have hp : trimmedPoint t ++ (dropTrailingZeros t).rtakeWhile (· == '.') = dropTrailingZeros t :=
    List.rdropWhile_append_rtakeWhile
  rw [← hp, List.append_assoc] at hz
  exact ⟨_, hz⟩

lemma find?_digit {t : Text} (h : t.AllDigits) : t.find? Char.isDigit = t.head? := by
  cases t with
  | nil => rfl
  | cons c t => exact List.find?_cons_of_pos h.head

lemma byteSize_text (d : Decimal) : byteSize d.text = d.text.length := by
  have hw := allDigits_numeral (d.numerator / d.denominator)
  rw [Decimal.text_eq, Decimal.pointed]
  split_ifs
  · exact byteSize_of_allDigits hw
  · rw [byteSize_append, byteSize_cons, byteSize_of_allDigits hw,
      byteSize_of_allDigits d.allDigits_fraction, List.length_append, List.length_cons,
      Nat.add_comm _ 1]
    rfl

lemma trimmed_ok (hw : whole.AllDigits) (hf : fraction.AllDigits) :
    bytesTo (byteSize (trimmedPoint (whole ++ '.' :: fraction))) (whole ++ '.' :: fraction) =
      .ok (Decimal.pointed whole (dropTrailingZeros fraction)) := by
  obtain ⟨v, hv⟩ := append_trimmedPoint (whole ++ '.' :: fraction)
  have h := bytesTo_append (trimmedPoint (whole ++ '.' :: fraction)) v
  rw [hv] at h
  rw [h, trimmedPoint_eq hw hf]

lemma cut_whole {a : Nat} {f : Text} (hf : f.AllDigits) (ha : (numeral a).length = 11) :
    cut (numeral a ++ '.' :: f) =
      .ok (Decimal.pointedAt 0 (valueOf (numeral a) + (roundsUp f[0]?).toNat)) := by
  have hk := front_append (numeral a) ('.' :: f)
  have hd := behind_append (numeral a) ('.' :: f)
  rw [ha] at hk hd
  refine (bind_ok hk _).trans ?_
  refine (bind_ok hd _).trans ?_
  refine (bind_ok (roundedPointed_whole a _) _).trans ?_
  rw [if_neg ((allDigits_numeral _).notMem rfl), List.find?_cons_of_neg (by decide), find?_digit hf,
    valueOf_numeral, List.head?_eq_getElem?, Decimal.pointedAt, Nat.pow_zero, Nat.div_one]
  rfl

lemma cut_pointed {a places : Nat} {f : Text} (hf : f.AllDigits)
    (ha : (numeral a).length + (places + 1) = General.fixedWidth) (hl : places ≤ f.length) :
    cut (numeral a ++ '.' :: f) =
      .ok (Decimal.pointedAt places
        (valueOf (numeral a ++ f.take places) + (roundsUp f[places]?).toNat)) := by
  have ht : (f.take places).length = places := List.length_take_of_le hl
  have hk := front_append (numeral a ++ '.' :: f.take places) (f.drop places)
  have hd := behind_append (numeral a ++ '.' :: f.take places) (f.drop places)
  rw [List.length_append, List.length_cons, ht, ha, List.append_assoc, List.cons_append,
    List.take_append_drop] at hk hd
  have hr := roundedPointed_ok a (hf.take places) (f.drop places)
  rw [ht, find?_digit (hf.drop places), List.head?_drop] at hr
  refine (bind_ok hk _).trans ?_
  refine (bind_ok hd _).trans ?_
  refine (bind_ok hr _).trans ?_
  rw [if_pos (by simp), trimmed_ok (allDigits_numeral _) (allDigits_places _ _)]
  rfl

lemma cut_ok {a : Nat} {f : Text} (hf : f.AllDigits)
    (hw : (numeral a).length ≤ General.fixedWidth)
    (hl : General.fixedWidth < (numeral a).length + (f.length + 1)) :
    let places := General.fixedWidth - 1 - (numeral a).length
    cut (numeral a ++ '.' :: f) =
      .ok (Decimal.pointedAt places
        (valueOf (numeral a ++ (f ++ List.replicate places '0').take places) +
          (roundsUp f[places]?).toNat)) := by
  intro places
  have hw11 : General.fixedWidth = 11 := rfl
  rcases hw.eq_or_lt with hw | hw
  · have hz : places = 0 := by omega
    rw [cut_whole hf hw, hz, List.take_zero, List.append_nil]
  · have hs : (numeral a).length + (places + 1) = General.fixedWidth := by omega
    rw [cut_pointed hf hs (by omega), List.take_append_of_le_length (by omega)]

lemma fixed_ok {m : Magnitude} (h : m.shortest.numerator / m.shortest.denominator < 10 ^ 11) :
    fixed m = .ok (General.fixed m) := by
  have hw : (numeral (m.shortest.numerator / m.shortest.denominator)).length ≤ General.fixedWidth :=
    (length_numeral_le_iff (by decide)).2 h
  rw [fixed, General.fixed, byteSize_text]
  by_cases hl : m.shortest.text.length ≤ General.fixedWidth
  · rw [if_pos hl, if_pos hl]
    rfl
  rw [if_neg hl, if_neg hl]
  have hn : ¬m.shortest.fraction.isEmpty = true := by
    intro hn
    rw [Decimal.text_eq, Decimal.pointed, if_pos hn] at hl
    exact hl hw
  have ht := m.shortest.text_eq
  rw [Decimal.pointed, if_neg hn] at ht
  rw [ht, List.length_append, List.length_cons] at hl
  dsimp only
  rw [ht, Decimal.roundAt_eq_valueOf]
  exact cut_ok m.shortest.allDigits_fraction hw (Nat.lt_of_not_le hl)

lemma carried_ok {s : Scientific} (h : signedWord 32 (s.exponent + 1) = .ok (s.exponent + 1)) :
    carried s = .ok s.carried := by
  rw [carried, Scientific.carried]
  by_cases hw : s.whole = ['1', '0']
  · rw [if_pos hw, if_pos hw]
    exact bind_ok h _
  · rw [if_neg hw, if_neg hw]
    rfl

lemma signedWord_mantissa (m : Magnitude) :
    signedWord 32 ((Scientific.mantissa m).2 + 1) = .ok ((Scientific.mantissa m).2 + 1) := by
  obtain ⟨hl, hu, hc⟩ := m.shortest_bounds
  have he : (Scientific.mantissa m).2 =
      m.shortest.exponent + ((numeral m.shortest.coefficient).length - 1 : Nat) := rfl
  have h31 : ((2 ^ (32 - 1) : Nat) : Int) = 2147483648 := rfl
  exact if_pos ⟨by omega, by omega⟩

lemma scientific_ok {x : Binary64} (hx : x.Unsigned) (places : Nat) :
    scientific places x = .ok (Scientific.ofBinary64 places x) := by
  cases hx with
  | finite m =>
    have hs := splitRounded_ok (Binary64.unsigned_ofQuotient
      (Scientific.mantissa m).1.numerator (Scientific.mantissa m).1.denominator) places
    refine (bind_ok hs _).trans ?_
    exact carried_ok (signedWord_mantissa m)
  | infinite => exact bind_ok (splitRounded_ok .infinite places) _
  | nan => exact bind_ok (splitRounded_ok .nan places) _

lemma scientificText_ok (m : Magnitude) : scientificText m = .ok (General.scientific m) :=
  bind_ok (scientific_ok (.finite m) _) _

lemma lt_huge {s : Bool} {m : Magnitude} (h : ¬General.isScientific (.finite s m) = true) :
    m.quanta < 10 ^ 11 * perUnit := by
  have hh : General.huge = .ofNat (10 ^ 11) := rfl
  rw [General.isScientific, Bool.or_eq_true, not_or, hh, Binary64.abs,
    Binary64.le_ofNat_iff (by decide)] at h
  exact Int.ofNat_lt.1 (Int.not_le.1 h.2)

lemma generalText_ok (x : Binary64) : generalText x = .ok (SheetFormat.generalText x) := by
  cases x with
  | finite s m =>
    rw [generalText, SheetFormat.generalText]
    by_cases hz : m.quanta = 0
    · rw [if_pos hz, if_pos hz]
      rfl
    rw [if_neg hz, if_neg hz]
    by_cases hs : General.isScientific (.finite s m) = true
    · rw [if_pos hs, if_pos hs]
      exact bind_ok (scientificText_ok m) _
    · rw [if_neg hs, if_neg hs]
      exact bind_ok (fixed_ok (Magnitude.shortest_lt (by decide) (lt_huge hs))) _
  | infinite s => rfl
  | nan => rfl

end Checked

end SheetFormat
