import SheetFormat.Proofs.Calendar.Systems
import SheetFormat.Proofs.Render.Failure

namespace SheetFormat

open Binary64

attribute [local irreducible] perUnit limit

namespace Timestamp

lemma partText_totalSeconds {p : DatePart} (hp : ∀ unit padded, p ≠ .field (.elapsed unit padded))
    (t : Timestamp) (total : Nat) (l : Locale) (twelve : Bool) :
    { t with totalSeconds := total }.partText l twelve p = t.partText l twelve p := by
  cases p with
  | field f =>
    cases f with
    | elapsed unit padded => exact absurd rfl (hp unit padded)
    | month style => cases style <;> rfl
    | day style => cases style <;> rfl
    | clock unit padded => cases unit <;> rfl
    | halfDay style => cases style <;> rfl
    | _ => rfl
  | _ => rfl

lemma midnight_lead (digits n : Nat) (d : Date) :
    midnight .since1900 digits (n + DateSystem.lead) d =
      { midnight .since1904 digits n d with
        totalSeconds := (n + DateSystem.lead) * secondsPerDay } := by
  rw [midnight, midnight, DateSystem.weekdayOfDay_lead]

lemma flatMap_partText_lead {parts : List DatePart}
    (hp : ∀ unit padded, .field (.elapsed unit padded) ∉ parts) (digits n : Nat) (d : Date)
    (l : Locale) (twelve : Bool) :
    parts.flatMap ((midnight .since1900 digits (n + DateSystem.lead) d).partText l twelve) =
      parts.flatMap ((midnight .since1904 digits n d).partText l twelve) := by
  rw [List.flatMap_def, List.flatMap_def, midnight_lead]
  apply congrArg List.flatten
  apply List.map_congr_left
  intro p hm
  apply partText_totalSeconds
  rintro unit padded rfl
  exact hp unit padded hm

end Timestamp

variable {parts : List DatePart} {n : Nat}

lemma renderDate_ofNat (o : Options) (parts : List DatePart) (h : n < serialLimit) :
    renderDate o parts (ofNat n) = (o.system.dateOfDay? n).map fun d =>
      parts.flatMap ((Timestamp.midnight o.system (min (subsecondDigits parts) 3) n d).partText
        o.locale (hasHalfDay parts)) := by
  rw [renderDate, Timestamp.ofSerial_ofNat _ _ h]
  cases o.system.dateOfDay? n with
  | none => simp only [Option.map_none]
  | some d => simp only [Option.map_some]

lemma renderDate_lead (hp : ∀ unit padded, .field (.elapsed unit padded) ∉ parts) (l : Locale)
    (h : n + DateSystem.lead < serialLimit) :
    renderDate ⟨.since1900, l⟩ parts (ofNat (n + DateSystem.lead)) =
      renderDate ⟨.since1904, l⟩ parts (ofNat n) := by
  rw [renderDate_ofNat _ _ h, renderDate_ofNat _ _ (Nat.lt_of_add_right_lt h),
    DateSystem.dateOfDay?_lead]
  cases DateSystem.since1904.dateOfDay? n with
  | none => rw [Option.map_none, Option.map_none]
  | some d => rw [Option.map_some, Option.map_some, Timestamp.flatMap_partText_lead hp]

lemma Section.renderNumber_date {s : Section} {o : Options} {x : Binary64} {w : Text}
    (hs : s.body = .date parts) (hw : renderDate o parts x = some w) (unsigned : Bool) :
    s.renderNumber unsigned o x = .ok w := by
  simp only [renderNumber, hs, hw]

lemma NumberFormat.render?_ofNat_date {f : NumberFormat} {c : Option Color} {o : Options}
    {w : Text} (hf : f.sections = [⟨.date parts, c⟩]) (h : n < serialLimit)
    (hw : renderDate o parts (ofNat n) = some w) : f.render? o (ofNat n) = .ok w := by
  have hx : (ofNat n).isFinite = true := by
    rw [ofNat_eq_finite (h.trans serialLimit_lt).le]
    rfl
  rw [f.render?_finite o hx, select_one hf, Section.renderNumber_date rfl hw]

/-- Dates, weekdays and serials of both systems agree up to the serial of the first of January 1904,
and so do the texts of a date section without elapsed times. -/
theorem systems_agree :
    (∀ n, n + 1462 < serialLimit →
      (∃ d, serialToDate .since1904 (ofNat n) = some d ∧
        serialToDate .since1900 (ofNat (n + 1462)) = some d) ∧
      serialToWeekday .since1904 (ofNat n) = serialToWeekday .since1900 (ofNat (n + 1462))) ∧
    (∀ d : Date, d.IsReal → ¬d.Before ⟨1904, 1, 1⟩ →
      (dateToSerial .since1904 d).isSome = d.isValid ∧
      dateToSerial .since1900 d = (dateToSerial .since1904 d).map (· + ofNat 1462)) ∧
    ∀ (f : NumberFormat) parts c, f.sections = [⟨.date parts, c⟩] →
      (∀ unit padded, Part.field (.elapsed unit padded) ∉ parts) →
      ∀ l n, n + 1462 < serialLimit →
        ∃ w, f.render? ⟨.since1904, l⟩ (ofNat n) = .ok w ∧
          f.render? ⟨.since1900, l⟩ (ofNat (n + 1462)) = .ok w := by
  refine ⟨?_, ?_, ?_⟩
  · intro n h
    have hn : n < serialLimit := Nat.lt_of_add_right_lt h
    have hd := DateSystem.dateOfDay?_lead n
    obtain ⟨d, he⟩ := DateSystem.since1904.exists_dateOfDay? hn.le
    refine ⟨⟨d, ?_, ?_⟩, ?_⟩
    · rw [serialToDate_ofNat hn, he]
    · rw [serialToDate_ofNat h, ← he]
      exact hd
    · rw [serialToWeekday_ofNat _ (hn.trans serialLimit_lt),
        serialToWeekday_ofNat _ (h.trans serialLimit_lt), ← DateSystem.weekdayOfDay_lead]
      rfl
  · exact fun d hr h => ⟨isSome_dateToSerial hr h, dateToSerial_lead hr h⟩
  · intro f parts c hf hp l n h
    have hn : n < serialLimit := Nat.lt_of_add_right_lt h
    obtain ⟨d, hd⟩ := DateSystem.since1904.exists_dateOfDay? hn.le
    have hw := renderDate_ofNat ⟨.since1904, l⟩ parts hn
    rw [hd, Option.map_some] at hw
    refine ⟨_, f.render?_ofNat_date hf hn hw, f.render?_ofNat_date hf h ?_⟩
    rw [← hw]
    exact renderDate_lead hp l h

theorem systems_agree_leap_day :
    let d : Date := ⟨1904, 2, 29⟩
    let f := NumberFormat.parse "ddd d/m/yyyy".toList
    let parts : List DatePart := [.field (.day .abbreviated), .literal ' ', .field (.day .plain),
      .literal '/', .field (.month .plain), .literal '/', .field .longYear]
    (59 + 1462 < serialLimit ∧
      (∃ e, serialToDate .since1904 (ofNat 59) = some e ∧
        serialToDate .since1900 (ofNat (59 + 1462)) = some e) ∧
      serialToWeekday .since1904 (ofNat 59) = serialToWeekday .since1900 (ofNat (59 + 1462))) ∧
    (d.IsReal ∧ ¬d.Before ⟨1904, 1, 1⟩ ∧ (dateToSerial .since1904 d).isSome = d.isValid ∧
      dateToSerial .since1900 d = (dateToSerial .since1904 d).map (· + ofNat 1462)) ∧
    f.sections = [⟨.date parts, none⟩] ∧
    (∀ unit padded, Part.field (.elapsed unit padded) ∉ parts) ∧
    ∃ w, f.render? ⟨.since1904, .english⟩ (ofNat 59) = .ok w ∧
      f.render? ⟨.since1900, .english⟩ (ofNat (59 + 1462)) = .ok w := by
  intro d f parts
  have hn : 59 + 1462 < serialLimit := by decide
  have hr : d.IsReal := ⟨by decide, by decide, by decide, by decide⟩
  have hb : ¬d.Before ⟨1904, 1, 1⟩ := by simp [Date.Before, d]
  have hf : f.sections = [⟨.date parts, none⟩] := by decide +kernel
  have hp : ∀ unit padded, Part.field (.elapsed unit padded) ∉ parts := by simp [parts]
  obtain ⟨hs, hd, ht⟩ := systems_agree
  exact ⟨⟨hn, hs 59 hn⟩, ⟨hr, hb, hd d hr hb⟩, hf, hp, ht f parts none hf hp .english 59 hn⟩

end SheetFormat
