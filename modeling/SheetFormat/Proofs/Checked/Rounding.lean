import SheetFormat.Checked.Digits
import SheetFormat.Proofs.Checked.Basic
import SheetFormat.Proofs.Number.Decimal
import SheetFormat.Proofs.Number.Unsigned
import SheetFormat.Proofs.Text.Digits

/-! Rounding a written number by a carry through its digits. The cut at the point, moved by a carry
that is left over, stays inside the digits. -/

namespace SheetFormat

open Text

attribute [local instance (2000)] instPowNat

def keptDigits (whole fraction : Text) (places : Nat) : Text :=
  whole ++ (fraction ++ List.replicate places '0').take places

lemma length_keptDigits (whole fraction : Text) (places : Nat) :
    (keptDigits whole fraction places).length = whole.length + places := by
  rw [keptDigits, List.length_append, List.length_take_of_le (by simp)]

lemma allDigits_keptDigits {whole fraction : Text} (hw : whole.AllDigits)
    (hf : fraction.AllDigits) (places : Nat) : (keptDigits whole fraction places).AllDigits :=
  hw.append ((hf.append (allDigits_zeros places)).take places)

lemma Rounding.halfUp_one (n : Nat) : halfUp n 1 = n := by
  rw [halfUp]
  omega

lemma Checked.roundsUp_digitChar {d : Nat} (hd : d < 10) :
    roundsUp (some (Nat.digitChar d)) = decide (5 ≤ d) := by
  have h : ∀ d < 10, roundsUp (some (Nat.digitChar d)) = decide (5 ≤ d) := by decide
  exact h d hd

lemma Checked.halfUp_append (kept : Text) {dropped : Text} (h : dropped.AllDigits) :
    Rounding.halfUp (valueOf (kept ++ dropped)) (10 ^ dropped.length) =
      valueOf kept + (roundsUp dropped.head?).toNat := by
  cases dropped with
  | nil => exact (Rounding.halfUp_one _).trans (by rw [List.append_nil]; rfl)
  | cons c rest =>
    obtain ⟨d, hd, rfl⟩ := exists_digitChar h.head
    have hr := valueOf_lt h.tail
    rw [List.head?_cons, roundsUp_digitChar hd, valueOf_append, valueOf_cons hd,
      List.length_cons, Nat.pow_succ, Rounding.halfUp]
    generalize 10 ^ rest.length = unit at hr
    have h9 : d * unit ≤ 9 * unit := Nat.mul_le_mul_right unit (by omega)
    by_cases h5 : 5 ≤ d
    · have hd5 : 5 * unit ≤ d * unit := Nat.mul_le_mul_right unit h5
      rw [decide_eq_true h5, Bool.toNat_true]
      exact Nat.div_eq_of_lt_le (by linarith) (by linarith)
    · have hd4 : d * unit ≤ 4 * unit := Nat.mul_le_mul_right unit (by omega)
      rw [decide_eq_false h5, Bool.toNat_false, Nat.add_zero]
      exact Nat.div_eq_of_lt_le (by linarith [Nat.zero_le (d * unit)]) (by linarith)

namespace Checked

lemma nextDigit_ok {d : Nat} (hd : d < 9) :
    nextDigit (Nat.digitChar d) = .ok (Nat.digitChar (d + 1)) := by
  have h : ∀ d < 9, nextDigit (Nat.digitChar d) = .ok (Nat.digitChar (d + 1)) := by decide
  exact h d hd

lemma increment_ok {t : Text} (h : t.AllDigits) :
    ∃ u carry, increment t = .ok (u, carry) ∧ u.AllDigits ∧ u.length = t.length ∧
      valueOf u + carry.toNat * 10 ^ t.length = valueOf t + 1 := by
  induction t with
  | nil => exact ⟨[], true, rfl, h, rfl, rfl⟩
  | cons c t ih =>
    obtain ⟨u, carry, hu, ha, hl, hv⟩ := ih h.tail
    obtain ⟨d, hd, rfl⟩ := exists_digitChar h.head
    rw [increment, hu, ok_bind]
    cases carry with
    | false =>
      refine ⟨_, _, rfl, ha.cons h.head, congrArg Nat.succ hl, ?_⟩
      rw [Bool.toNat_false, Nat.zero_mul, Nat.add_zero] at hv ⊢
      rw [valueOf_cons hd, valueOf_cons hd, hl, hv, Nat.add_assoc]
    | true =>
      rw [Bool.toNat_true, Nat.one_mul] at hv
      by_cases hn : d = 9
      · subst hn
        refine ⟨'0' :: u, true, rfl, ha.cons rfl, congrArg Nat.succ hl, ?_⟩
        have h0 := valueOf_cons (show 0 < 10 by decide) u
        rw [Nat.zero_mul, Nat.zero_add] at h0
        rw [valueOf_cons hd, List.length_cons, Nat.pow_succ, Bool.toNat_true, Nat.one_mul]
        exact (congrArg (· + _) h0).trans (by omega)
      · have hs := isDigit_digitChar (show d + 1 < 10 by omega)
        refine ⟨Nat.digitChar (d + 1) :: u, false, ?_, ha.cons hs, congrArg Nat.succ hl, ?_⟩
        · have h9 : ¬Nat.digitChar d = '9' := fun h9 => hn (Nat.digitChar_eq_nine.1 h9)
          simp only [Bool.not_true, Bool.false_eq_true, if_false, if_neg h9, ok_bind,
            nextDigit_ok (show d < 9 by omega), pure_eq]
        · rw [valueOf_cons hd, valueOf_cons (by omega), hl, Nat.succ_mul, Bool.toNat_false,
            Nat.zero_mul]
          omega

lemma splitOff_digits {u : Text} {width places r : Nat} (hu : u.AllDigits)
    (hl : u.length = width + places) (hr : valueOf u = r)
    (hn : (numeral (r / 10 ^ places)).length = width) :
    splitOff width u = .ok (numeral (r / 10 ^ places), Text.places places (r % 10 ^ places)) := by
  have hd : (u.drop width).length = places := by
    rw [List.length_drop, hl, Nat.add_sub_cancel_left]
  have ht : (u.take width).length = width := List.length_take_of_le (by omega)
  obtain ⟨hw, hf⟩ := valueOf_append_div_mod (u.take width) (hu.drop width)
  rw [List.take_append_drop, hr, hd] at hw hf
  rw [splitOff_ok (by omega), eq_numeral (hu.take width) hw.symm (hn.trans ht.symm), hf, ← hd,
    ← eq_places (hu.drop width)]

lemma increment_split (a : Nat) {fraction : Text} (hf : fraction.AllDigits) :
    let places := fraction.length
    let r := valueOf (numeral a ++ fraction) + 1
    ∃ u carry, increment (numeral a ++ fraction) = .ok (u, carry) ∧
      u.length = (numeral a ++ fraction).length ∧
      splitOff ((numeral a).length + carry.toNat) (if carry then '1' :: u else u) =
        .ok (numeral (r / 10 ^ places), Text.places places (r % 10 ^ places)) := by
  intro places r
  have ha := (allDigits_numeral a).append hf
  obtain ⟨u, carry, hu, hd, hl, hv⟩ := increment_ok ha
  have hr : r ≤ 10 ^ (numeral a ++ fraction).length := valueOf_lt ha
  have hle : a ≤ r / 10 ^ places := le_valueOf_append_div a 1 hf
  refine ⟨u, carry, hu, hl, ?_⟩
  rw [List.length_append, Nat.pow_add] at hr hv
  -- without a carry the point stays in its place; with one the digits are all zeros behind a one
  cases carry with
  | false =>
    rw [Bool.toNat_false, Nat.zero_mul, Nat.add_zero] at hv
    have hlt := valueOf_lt hd
    rw [hv, hl, List.length_append] at hlt
    exact splitOff_digits hd (hl.trans List.length_append) hv (length_numeral_div hle hlt)
  | true =>
    rw [Bool.toNat_true, Nat.one_mul] at hv
    have hz : r = 10 ^ (numeral a).length * 10 ^ places :=
      le_antisymm hr ((Nat.le_add_left _ _).trans_eq hv)
    have h1 : valueOf ('1' :: u) = r := by
      refine (valueOf_cons (show 1 < 10 by decide) u).trans ?_
      rw [hl, List.length_append, Nat.pow_add]
      omega
    have hq : r / 10 ^ places = 10 ^ (numeral a).length := by
      rw [hz, Nat.mul_div_cancel _ (Nat.pow_pos (by decide))]
    apply splitOff_digits (hd.cons rfl) _ h1
    · rw [hq]
      exact length_numeral_pow _
    · rw [List.length_cons, hl, List.length_append]
      exact Nat.add_right_comm ..

lemma roundedParts_numeral (a : Nat) {fraction : Text} (hf : fraction.AllDigits)
    (places : Nat) :
    let r := valueOf (keptDigits (numeral a) fraction places) +
      (roundsUp fraction[places]?).toNat
    roundedParts (numeral a) fraction places =
      .ok (numeral (r / 10 ^ places), Text.places places (r % 10 ^ places)) := by
  intro r
  let shown : Text := (fraction ++ List.replicate places '0').take places
  have hs : shown.AllDigits := (hf.append (allDigits_zeros places)).take places
  have hl : shown.length = places := List.length_take_of_le (by simp)
  have hr : r = valueOf (numeral a ++ shown) + (roundsUp fraction[places]?).toNat := rfl
  rw [roundedParts, byteSize_of_allDigits (allDigits_numeral a), hr]
  cases roundsUp fraction[places]? with
  | false =>
    obtain ⟨hq, hm⟩ := numeral_places_append a hs
    change splitOff (numeral a).length (numeral a ++ shown) = _
    rw [splitOff_append, Bool.toNat_false, Nat.add_zero, ← hl, hq, hm]
  | true =>
    obtain ⟨u, carry, hu, -, hc⟩ := increment_split a hs
    rw [hl] at hc
    refine (bind_ok hu _).trans ?_
    cases carry with
    | false => exact hc
    | true => exact hc

lemma roundedParts_name (name : Text) (h : byteSize name = name.length) (places : Nat) :
    roundedParts name [] places = .ok (name, List.replicate places '0') := by
  rw [roundedParts, List.nil_append, List.take_of_length_le (by simp), h]
  exact splitOff_append name _

lemma roundsUp_append_zeros (t : Text) (k i : Nat) :
    roundsUp (t ++ List.replicate k '0')[i]? = roundsUp t[i]? := by
  by_cases h : i < t.length
  · rw [List.getElem?_append_left h]
  · rw [List.getElem?_append_right (Nat.le_of_not_lt h), List.getElem?_replicate,
      List.getElem?_eq_none (Nat.le_of_not_lt h)]
    split
    · rfl
    · rfl

end Checked

namespace Decimal

def fraction (d : Decimal) : Text :=
  dropTrailingZeros (Text.places (-d.exponent).toNat (d.numerator % d.denominator))

lemma allDigits_fraction (d : Decimal) : d.fraction.AllDigits :=
  (allDigits_places _ _).dropTrailingZeros

lemma text_eq (d : Decimal) :
    d.text = pointed (numeral (d.numerator / d.denominator)) d.fraction := rfl

lemma pointed_cut {whole : Text} (hw : whole.AllDigits) (fraction : Text) :
    (pointed whole fraction).takeWhile (· != '.') = whole ∧
      ((pointed whole fraction).dropWhile (· != '.')).drop 1 = fraction := by
  have hp : ∀ c ∈ whole, (c != '.') = true := by
    intro c hc
    exact bne_iff_ne.2 (ne_of_mem_of_not_mem hc (hw.notMem rfl))
  cases fraction with
  | nil =>
    change whole.takeWhile _ = whole ∧ (whole.dropWhile _).drop 1 = []
    rw [List.takeWhile_eq_self_iff.2 hp, List.dropWhile_eq_nil_iff.2 hp]
    exact ⟨rfl, rfl⟩
  | cons c fraction =>
    rw [pointed, if_neg (by simp), List.takeWhile_append_of_pos hp,
      List.dropWhile_append_of_pos hp]
    simp

lemma roundAt_eq_valueOf (places : Nat) (d : Decimal) :
    d.roundAt places =
      valueOf (keptDigits (numeral (d.numerator / d.denominator)) d.fraction places) +
        (Checked.roundsUp d.fraction[places]?).toNat := by
  obtain ⟨k, hk⟩ :=
    exists_dropTrailingZeros (Text.places (-d.exponent).toNat (d.numerator % d.denominator))
  change _ = d.fraction ++ _ at hk
  have hlk := congrArg List.length hk
  simp only [length_places, List.length_append, List.length_replicate] at hlk
  let whole := numeral (d.numerator / d.denominator)
  let digits := d.fraction ++ List.replicate places '0' ++ List.replicate k '0'
  have hd : digits.AllDigits :=
    (d.allDigits_fraction.append (allDigits_zeros places)).append (allDigits_zeros k)
  have hv : valueOf (whole ++ digits) = d.numerator * 10 ^ places := by
    have he : digits = Text.places (-d.exponent).toNat (d.numerator % d.denominator) ++
        List.replicate places '0' := by
      rw [hk]
      simp only [digits, List.append_assoc, List.replicate_append_replicate, Nat.add_comm]
    rw [he, ← List.append_assoc, valueOf_append, valueOf_append, valueOf_numeral, valueOf_places,
      valueOf_zeros, length_places, List.length_replicate, ← denominator, Nat.mod_mod,
      Nat.add_zero, Nat.mul_comm _ d.denominator, Nat.div_add_mod]
  have hdrop : (digits.drop places).length = (-d.exponent).toNat := by
    simp only [digits, List.length_drop, List.length_append, List.length_replicate]
    omega
  have ht : digits.take places = (d.fraction ++ List.replicate places '0').take places :=
    List.take_append_of_le_length (by simp)
  have hh := Checked.halfUp_append (whole ++ digits.take places) (hd.drop places)
  rw [List.append_assoc, List.take_append_drop, hv, hdrop, List.head?_drop] at hh
  rw [roundAt, denominator, hh, ht, Checked.roundsUp_append_zeros, Checked.roundsUp_append_zeros]
  rfl

end Decimal

lemma Checked.splitRounded_ok {x : Binary64} (hx : x.Unsigned) (places : Nat) :
    splitRounded x places = .ok (x.splitRounded places) := by
  have hr := hx.reduced
  rw [splitRounded, Binary64.splitRounded]
  generalize x.reduced = y at hr ⊢
  cases hr with
  | finite m =>
    obtain ⟨htake, hdrop⟩ := Decimal.pointed_cut
      (allDigits_numeral (m.shortest.numerator / m.shortest.denominator)) m.shortest.fraction
    have h := roundedParts_numeral (m.shortest.numerator / m.shortest.denominator)
      m.shortest.allDigits_fraction places
    rw [← Decimal.roundAt_eq_valueOf] at h
    change roundedParts (m.shortest.text.takeWhile _) ((m.shortest.text.dropWhile _).drop 1) _ = _
    rw [Decimal.text_eq, htake, hdrop, h]
    rfl
  | infinite => exact roundedParts_name "inf".toList rfl places
  | nan => exact roundedParts_name "NaN".toList rfl places

end SheetFormat
