import Mathlib.Data.List.Forall2
import SheetFormat.Proofs.Checked.Basic
import SheetFormat.Proofs.Render.Systems

namespace SheetFormat

open Binary64

namespace Text

variable {n : Nat} {s t u : Text}

lemma takeBytes?_eq_some_iff : takeBytes? n t = some s ↔ s <+: t ∧ byteSize s = n := by
  constructor
  · intro h
    obtain ⟨rest, rfl⟩ := Checked.append_of_takeBytes? h
    exact ⟨List.prefix_append s rest, byteSize_of_takeBytes? h⟩
  · rintro ⟨⟨rest, rfl⟩, rfl⟩
    exact Checked.takeBytes?_append s rest

lemma eq_of_isPrefix (hs : s <+: t) (hu : u <+: t) (h : byteSize s = byteSize u) : s = u :=
  Option.some.inj
    ((takeBytes?_eq_some_iff.2 ⟨hs, h⟩).symm.trans (takeBytes?_eq_some_iff.2 ⟨hu, rfl⟩))

lemma length_le_byteSize (t : Text) : t.length ≤ byteSize t := by
  induction t with
  | nil => exact le_rfl
  | cons c t ih =>
    have hc := c.utf8Size_pos
    rw [List.length_cons, byteSize_cons]
    omega

def IsSingle (t : Text) : Prop := ∀ c ∈ t, c.utf8Size = 1

instance (t : Text) : Decidable t.IsSingle := List.decidableBAll _ t

lemma byteSize_eq_length_iff : byteSize t = t.length ↔ t.IsSingle := by
  induction t with
  | nil => exact iff_of_true rfl fun c hc => absurd hc List.not_mem_nil
  | cons c t ih =>
    have hc := c.utf8Size_pos
    have hl := length_le_byteSize t
    rw [IsSingle, List.forall_mem_cons, byteSize_cons, List.length_cons, ← IsSingle, ← ih]
    omega

/-- The first `n` bytes of a text, or all of it where no letter ends behind them. -/
structure IsCut (n : Nat) (t shown : Text) : Prop where
  isPrefix : shown <+: t
  bytes : byteSize shown = n ∨ shown = t ∧ ∀ s, s <+: t → byteSize s ≠ n

def KeepsLetters (n : Nat) (t : Text) : Prop :=
  IsSingle (t.take n) ∨ t.length ≤ n ∧ ∀ s, s <+: t → byteSize s = n → s = t

lemma isCut_abbreviated (n : Nat) (t : Text) : t.IsCut n (t.abbreviated n) := by
  rw [abbreviated]
  cases h : takeBytes? n t with
  | none =>
    refine ⟨List.prefix_rfl, .inr ⟨rfl, fun s hs hn => ?_⟩⟩
    rw [takeBytes?_eq_some_iff.2 ⟨hs, hn⟩] at h
    cases h
  | some s =>
    obtain ⟨hs, hn⟩ := takeBytes?_eq_some_iff.1 h
    exact ⟨hs, .inl hn⟩

lemma IsSingle.byteSize_take (h : IsSingle (t.take n)) (hn : n ≤ t.length) :
    byteSize (t.take n) = n := by
  rw [byteSize_eq_length_iff.2 h, List.length_take_of_le hn]

lemma IsCut.eq_take_iff (h : t.IsCut n s) : s = t.take n ↔ t.KeepsLetters n := by
  constructor
  · intro he
    rcases Nat.lt_or_ge n t.length with hl | hl
    · have hn : (t.take n).length = n := List.length_take_of_le hl.le
      rcases h.bytes with hb | ⟨ht, -⟩
      · exact .inl (byteSize_eq_length_iff.1 (by rw [hn, ← he, hb]))
      · rw [← he, ht] at hn
        omega
    · have ht : s = t := he.trans (List.take_of_length_le hl)
      refine .inr ⟨hl, fun u hu hn => ?_⟩
      rcases h.bytes with hb | ⟨-, hno⟩
      · exact eq_of_isPrefix hu List.prefix_rfl (by rw [hn, ← hb, ht])
      · exact absurd hn (hno u hu)
  · rintro (hs | ⟨hl, hw⟩)
    · rcases Nat.lt_or_ge t.length n with hl | hl
      · rw [List.take_of_length_le hl.le] at hs ⊢
        rcases h.bytes with hb | ⟨ht, -⟩
        · obtain ⟨rest, rfl⟩ := h.isPrefix
          rw [← byteSize_eq_length_iff.2 hs, byteSize_append] at hl
          omega
        · exact ht
      · have hn := hs.byteSize_take hl
        rcases h.bytes with hb | ⟨-, hno⟩
        · exact eq_of_isPrefix h.isPrefix (List.take_prefix n t) (hb.trans hn.symm)
        · exact absurd hn (hno _ (List.take_prefix n t))
    · rw [List.take_of_length_le hl]
      rcases h.bytes with hb | ⟨ht, -⟩
      · exact hw s h.isPrefix hb
      · exact ht

lemma keepsLetters_one_iff :
    t.KeepsLetters 1 ↔ t.length ≤ 1 ∨ ∀ c ∈ t.head?, c.utf8Size = 1 := by
  rcases t with _ | ⟨c, _ | ⟨d, t⟩⟩
  · exact iff_of_true (.inl fun c hc => absurd hc List.not_mem_nil) (.inl (Nat.zero_le 1))
  · refine iff_of_true (.inr ⟨le_rfl, fun s hs hn => ?_⟩) (.inl le_rfl)
    rcases List.prefix_cons_iff.1 hs with rfl | ⟨u, rfl, hu⟩
    · cases hn
    · rw [List.prefix_nil.1 hu]
  · simp [KeepsLetters, IsSingle]

end Text

def Timestamp.ShowsName (t : Timestamp) (l : Locale) (part : DatePart) (shown : Text) : Prop :=
  (part = .field (.month .abbreviated) → shown = l.monthAbbreviation t.date.month) ∧
    (part = .field (.day .abbreviated) → shown = l.dayAbbreviation t.weekday) ∧
    (part = .field (.month .letter) → shown = l.monthLetter t.date.month)

lemma Timestamp.showsName_partText (t : Timestamp) (l : Locale) (twelve : Bool)
    (part : DatePart) : t.ShowsName l part (t.partText l twelve part) := by
  refine ⟨?_, ?_, ?_⟩ <;> rintro rfl <;> rfl

lemma Timestamp.exists_ofSerial (s : DateSystem) (digits : Nat) {x : Binary64}
    (hx : isDateSerial x = true) : ∃ t, ofSerial s digits x = some t := by
  rw [← Option.isSome_iff_exists, isSome_ofSerial, hx]

lemma renderDate_of_ofSerial {o : Options} {parts : List DatePart} {x : Binary64} {t : Timestamp}
    (ht : Timestamp.ofSerial o.system (subsecondDigits parts) x = some t) :
    renderDate o parts x = some (parts.flatMap (t.partText o.locale (hasHalfDay parts))) := by
  rw [renderDate, ht, Option.map_some]

lemma render?_dateField {f : NumberFormat} {field : DateField} {c : Option Color}
    (hf : f.sections = [⟨.date [.field field], c⟩]) (hd : subsecondDigits [.field field] = 0)
    {o : Options} {x : Binary64} {t : Timestamp} (hx : isDateSerial x = true)
    (ht : Timestamp.ofSerial o.system 0 x = some t) :
    f.render? o x = .ok (t.fieldText o.locale (hasHalfDay [.field field]) field) := by
  have hr : renderDate o [.field field] x =
      some (t.fieldText o.locale (hasHalfDay [.field field]) field) := by
    rw [renderDate_of_ofSerial (hd.symm ▸ ht), List.flatMap_singleton]
    rfl
  rw [f.render?_finite o ((isDateSerial_iff x).1 hx).1, NumberFormat.select_one hf,
    Section.renderNumber_date rfl hr]

lemma render?_nameCodes {o : Options} {x : Binary64} {t : Timestamp}
    (hx : isDateSerial x = true) (ht : Timestamp.ofSerial o.system 0 x = some t) :
    (NumberFormat.parse "mmm".toList).render? o x =
        .ok (o.locale.monthAbbreviation t.date.month) ∧
      (NumberFormat.parse "ddd".toList).render? o x = .ok (o.locale.dayAbbreviation t.weekday) ∧
      (NumberFormat.parse "mmmmm".toList).render? o x =
        .ok (o.locale.monthLetter t.date.month) := by
  have hm : (NumberFormat.parse "mmm".toList).sections =
      [⟨.date [.field (.month .abbreviated)], none⟩] := by decide +kernel
  have hd : (NumberFormat.parse "ddd".toList).sections =
      [⟨.date [.field (.day .abbreviated)], none⟩] := by decide +kernel
  have hl : (NumberFormat.parse "mmmmm".toList).sections =
      [⟨.date [.field (.month .letter)], none⟩] := by decide +kernel
  exact ⟨render?_dateField hm rfl hx ht, render?_dateField hd rfl hx ht,
    render?_dateField hl rfl hx ht⟩

/-- The abbreviation of a name is its first three bytes and the letter of a month its first one, or
the whole name where no letter ends there. These are its first letters exactly if those are of one
byte each, or if the name has no more letters and is not cut. Fields for them show just these. -/
theorem names_abbreviated (o : Options) :
    let l := o.locale
    (∀ month,
      (l.monthName month).IsCut 3 (l.monthAbbreviation month) ∧
      (l.monthAbbreviation month = (l.monthName month).take 3 ↔
        (l.monthName month).KeepsLetters 3) ∧
      (l.monthName month).IsCut 1 (l.monthLetter month) ∧
      (l.monthLetter month = (l.monthName month).take 1 ↔
        (l.monthName month).length ≤ 1 ∨ ∀ c ∈ (l.monthName month).head?, c.utf8Size = 1)) ∧
    (∀ weekday,
      (l.dayName weekday).IsCut 3 (l.dayAbbreviation weekday) ∧
      (l.dayAbbreviation weekday = (l.dayName weekday).take 3 ↔
        (l.dayName weekday).KeepsLetters 3)) ∧
    (∀ (s : Section) parts unsigned x, s.body = .date parts → isDateSerial x = true →
      ∃ t pieces, Timestamp.ofSerial o.system (subsecondDigits parts) x = some t ∧
        s.renderNumber unsigned o x = .ok pieces.flatten ∧
        List.Forall₂ (t.ShowsName l) parts pieces) ∧
    ∀ x, isDateSerial x = true → ∃ t, Timestamp.ofSerial o.system 0 x = some t ∧
      (NumberFormat.parse "mmm".toList).render? o x = .ok (l.monthAbbreviation t.date.month) ∧
      (NumberFormat.parse "ddd".toList).render? o x = .ok (l.dayAbbreviation t.weekday) ∧
      (NumberFormat.parse "mmmmm".toList).render? o x = .ok (l.monthLetter t.date.month) := by
  intro l
  refine ⟨fun month => ?_, fun weekday => ?_, fun s parts unsigned x hs hx => ?_, fun x hx => ?_⟩
  · have ha := Text.isCut_abbreviated 3 (l.monthName month)
    have hl := Text.isCut_abbreviated 1 (l.monthName month)
    exact ⟨ha, ha.eq_take_iff, hl, hl.eq_take_iff.trans Text.keepsLetters_one_iff⟩
  · have ha := Text.isCut_abbreviated 3 (l.dayName weekday)
    exact ⟨ha, ha.eq_take_iff⟩
  · obtain ⟨t, ht⟩ := Timestamp.exists_ofSerial o.system (subsecondDigits parts) hx
    have hr := Section.renderNumber_date hs (renderDate_of_ofSerial ht) unsigned
    refine ⟨t, parts.map (t.partText l (hasHalfDay parts)), ht, hr, ?_⟩
    rw [List.forall₂_map_right_iff, List.forall₂_same]
    exact fun part _ => t.showsName_partText l _ part
  · obtain ⟨t, ht⟩ := Timestamp.exists_ofSerial o.system 0 hx
    exact ⟨t, ht, render?_nameCodes hx ht⟩

def Locale.turkish : Locale where
  decimal := ','
  thousands := '.'
  am := "ÖÖ".toList
  pm := "ÖS".toList
  months := #v["Ocak".toList, "Şubat".toList, "Mart".toList, "Nisan".toList, "Mayıs".toList,
    "Haziran".toList, "Temmuz".toList, "Ağustos".toList, "Eylül".toList, "Ekim".toList,
    "Kasım".toList, "Aralık".toList]
  days := #v["Pazar".toList, "Pazartesi".toList, "Salı".toList, "Çarşamba".toList,
    "Perşembe".toList, "Cuma".toList, "Cumartesi".toList]

theorem names_abbreviated_march :
    let l := Locale.turkish
    let o : Options := ⟨.since1900, l⟩
    let x := Binary64.ofNat 45356
    isDateSerial x = true ∧ (l.monthName 3).KeepsLetters 3 ∧ (l.dayName 2).KeepsLetters 3 ∧
      ∃ t, Timestamp.ofSerial o.system 0 x = some t ∧ t.date.month = 3 ∧ t.weekday = 2 ∧
        (NumberFormat.parse "mmm".toList).render? o x = .ok "Mar".toList ∧
        (NumberFormat.parse "ddd".toList).render? o x = .ok "Sal".toList ∧
        (NumberFormat.parse "mmmmm".toList).render? o x = .ok ['M'] := by
  intro l o x
  have hx : isDateSerial x = true := by decide +kernel
  have hm : (l.monthName 3).KeepsLetters 3 := .inl (by decide +kernel)
  have hd : (l.dayName 2).KeepsLetters 3 := .inl (by decide +kernel)
  have hf : ∀ c ∈ (l.monthName 3).head?, c.utf8Size = 1 := by
    have hn : (l.monthName 3).head? = some 'M' := by decide +kernel
    rw [hn]
    rintro c ⟨⟩
    rfl
  obtain ⟨hmonth, hday, -, hshown⟩ := names_abbreviated o
  obtain ⟨t, ht, hmmm, hddd, hmmmmm⟩ := hshown x hx
  have hu : Timestamp.ofSerial o.system 0 x =
      some ⟨⟨2024, 3, 5⟩, 2, 0, 0, 0, 0, 0, 3918758400⟩ := by decide +kernel
  obtain rfl := Option.some.inj (ht.symm.trans hu)
  obtain ⟨-, hma, -, hml⟩ := hmonth 3
  refine ⟨hx, hm, hd, _, ht, rfl, rfl, hmmm.trans ?_, hddd.trans ?_, hmmmmm.trans ?_⟩
  · exact congrArg _ ((hma.2 hm).trans (by decide +kernel))
  · exact congrArg _ (((hday 2).2.2 hd).trans (by decide +kernel))
  · exact congrArg _ ((hml.2 (.inr hf)).trans (by decide +kernel))

theorem exists_cut_name :
    let l := Locale.turkish
    let o : Options := ⟨.since1900, l⟩
    (l.monthName 2 = "Şubat".toList ∧ l.dayName 3 = "Çarşamba".toList) ∧
      (NumberFormat.parse "mmm".toList).render? o (ofNat 45323) = .ok "Şu".toList ∧
      (NumberFormat.parse "ddd".toList).render? o (ofNat 45294) = .ok "Ça".toList ∧
      (NumberFormat.parse "mmmmm".toList).render? o (ofNat 45323) = .ok "Şubat".toList ∧
      (¬∀ (l : Locale) month, l.monthAbbreviation month = (l.monthName month).take 3) ∧
      (¬∀ (l : Locale) weekday, l.dayAbbreviation weekday = (l.dayName weekday).take 3) ∧
      ¬∀ (l : Locale) month, l.monthLetter month = (l.monthName month).take 1 := by
  intro l o
  refine ⟨⟨rfl, rfl⟩, by decide +kernel, by decide +kernel, by decide +kernel, fun h => ?_,
    fun h => ?_, fun h => ?_⟩
  · exact absurd (h l 2) (by decide +kernel)
  · exact absurd (h l 3) (by decide +kernel)
  · exact absurd (h l 2) (by decide +kernel)

end SheetFormat
