import SheetFormat.Proofs.Render.Failure

namespace SheetFormat

open Binary64

attribute [local instance (2000)] instPowNat

namespace Timestamp

variable {s : DateSystem} {k n : Nat} {t : Timestamp}

lemma Splits.elapsed (h : t.Splits s k n) :
    (t.elapsedValue .hour * 60 + t.minute) * 60 + t.second = t.totalSeconds ∧
      t.elapsedValue .minute * 60 + t.second = t.totalSeconds := by
  have hc := h.of_total.1
  have hm := h.minute
  have hs := h.second
  rw [secondsPerDay] at hc
  simp only [elapsedValue]
  omega

end Timestamp

lemma render?_dateParts {f : NumberFormat} {parts : List DatePart} {c : Option Color}
    (hf : f.sections = [⟨.date parts, c⟩]) (o : Options) {x : Binary64}
    (hx : isDateSerial x = true) :
    ∃ t : Timestamp,
      t.Splits o.system (min (subsecondDigits parts) 3)
        (Timestamp.ticks (min (subsecondDigits parts) 3) x) ∧
      f.render? o x = .ok (parts.flatMap (t.partText o.locale (hasHalfDay parts))) := by
  have hs := Timestamp.isSome_ofSerial o.system (subsecondDigits parts) x
  rw [hx] at hs
  obtain ⟨t, ht⟩ := Option.isSome_iff_exists.1 hs
  refine ⟨t, (Timestamp.splits_of_ofSerial ht).2, ?_⟩
  rw [NumberFormat.render?_finite f o ((isDateSerial_iff x).1 hx).1, NumberFormat.select_one hf]
  simp only [Section.renderNumber, renderDate, ht, Option.map_some]

def elapsedCode : ClockUnit → Text
  | .hour => "[h]:mm:ss.000".toList
  | .minute => "[m]:ss.000".toList
  | .second => "[s].000".toList

/-- A text of the fields of `n` thousandths of a second, from a unit down. -/
def IsElapsed (l : Locale) (n : Nat) : ClockUnit → Text → Prop
  | .hour, w => ∃ h m s f, (m < 60 ∧ s < 60 ∧ f < 1000) ∧
      ((h * 60 + m) * 60 + s) * 1000 + f = n ∧
      w = Text.numeral h ++ ':' :: Text.padded 2 m ++ ':' :: Text.padded 2 s ++
        l.decimal :: Text.places 3 f
  | .minute, w => ∃ m s f, (s < 60 ∧ f < 1000) ∧ (m * 60 + s) * 1000 + f = n ∧
      w = Text.numeral m ++ ':' :: Text.padded 2 s ++ l.decimal :: Text.places 3 f
  | .second, w => ∃ s f, f < 1000 ∧ s * 1000 + f = n ∧
      w = Text.numeral s ++ l.decimal :: Text.places 3 f

lemma paddedText_false (n : Nat) : paddedText false n = Text.numeral n := by
  simp [paddedText, Text.padded]

def elapsedParts : ClockUnit → List DatePart
  | .hour => [.field (.elapsed .hour false), .literal ':', .field (.clock .minute true),
      .literal ':', .field (.clock .second true), .field (.subsecond 3)]
  | .minute => [.field (.elapsed .minute false), .literal ':', .field (.clock .second true),
      .field (.subsecond 3)]
  | .second => [.field (.elapsed .second false), .field (.subsecond 3)]

lemma sections_elapsedCode (unit : ClockUnit) :
    (NumberFormat.parse (elapsedCode unit)).sections = [⟨.date (elapsedParts unit), none⟩] := by
  cases unit <;> decide +kernel

lemma isElapsed_elapsedParts {s : DateSystem} {n : Nat} {t : Timestamp} (h : t.Splits s 3 n)
    (l : Locale) (unit : ClockUnit) :
    IsElapsed l n unit ((elapsedParts unit).flatMap (t.partText l false)) := by
  obtain ⟨hh, hm⟩ := h.elapsed
  have hn : t.totalSeconds * 1000 + t.subsecond = n := h.of_total.2
  have hd : t.subsecondDigits = 3 := h.digits
  have hp : ∀ k, paddedText true k = Text.padded 2 k := fun _ => rfl
  have hf : (Text.places 3 t.subsecond).take 3 = Text.places 3 t.subsecond :=
    List.take_of_length_le (Text.length_places ..).le
  cases unit with
  | hour =>
    refine ⟨t.elapsedValue .hour, t.minute, t.second, t.subsecond,
      ⟨h.minute, h.second, h.subsecond⟩, by rw [hh, hn], ?_⟩
    simp [elapsedParts, Timestamp.partText, Timestamp.fieldText, Timestamp.clockValue, fixedText,
      paddedText_false, hp, hd, hf]
  | minute =>
    refine ⟨t.elapsedValue .minute, t.second, t.subsecond, ⟨h.second, h.subsecond⟩,
      by rw [hm, hn], ?_⟩
    simp [elapsedParts, Timestamp.partText, Timestamp.fieldText, Timestamp.clockValue, fixedText,
      paddedText_false, hp, hd, hf]
  | second =>
    refine ⟨t.totalSeconds, t.subsecond, h.subsecond, hn, ?_⟩
    simp [elapsedParts, Timestamp.partText, Timestamp.fieldText, Timestamp.elapsedValue,
      paddedText_false, hd, hf]

lemma render?_elapsedCode (unit : ClockUnit) (o : Options) {x : Binary64}
    (hx : isDateSerial x = true) :
    ∃ w, (NumberFormat.parse (elapsedCode unit)).render? o x = .ok w ∧
      IsElapsed o.locale (Timestamp.ticks 3 x) unit w := by
  obtain ⟨t, ht, hr⟩ := render?_dateParts (sections_elapsedCode unit) o hx
  have hd : min (subsecondDigits (elapsedParts unit)) 3 = 3 := by cases unit <;> rfl
  have hb : hasHalfDay (elapsedParts unit) = false := by cases unit <;> rfl
  rw [hd] at ht
  rw [hb] at hr
  exact ⟨_, hr, isElapsed_elapsedParts ht o.locale unit⟩

namespace Timestamp

/-- The timestamp of a serial splits its count of ticks; elapsed times add up to the same count, and
a greater count has a later timestamp. -/
theorem ofSerial_splits_ticks (s : DateSystem) (digits : Nat) :
    (∀ x, (∃ t, ofSerial s digits x = some t) ↔ isDateSerial x = true) ∧
    (∀ x t, ofSerial s digits x = some t →
      t.Splits s (min digits 3) (ticks (min digits 3) x)) ∧
    (∀ unit o x, isDateSerial x = true →
      ∃ w, (NumberFormat.parse (elapsedCode unit)).render? o x = .ok w ∧
        IsElapsed o.locale (ticks 3 x) unit w) ∧
    ∀ x y t u, ofSerial s digits x = some t → ofSerial s digits y = some u →
      ticks (min digits 3) x < ticks (min digits 3) y → t.Before u := by
  refine ⟨?_, ?_, ?_, ?_⟩
  · intro x
    rw [← Option.isSome_iff_exists, isSome_ofSerial]
  · exact fun x t h => (splits_of_ofSerial h).2
  · exact fun unit o x hx => render?_elapsedCode unit o hx
  · intro x y t u ht hu h
    obtain ⟨-, ht⟩ := splits_of_ofSerial ht
    obtain ⟨hy, hu⟩ := splits_of_ofSerial hu
    exact ht.before hu (day_le hy (Nat.min_le_right digits 3)) h

theorem ofSerial_splits_ticks_rollover :
    let s := DateSystem.since1900
    let x := Binary64.ofQuotient false 86399999 86400000
    let y := Binary64.ofQuotient false 121 2
    let t : Timestamp := ⟨⟨1900, 1, 1⟩, 0, 0, 0, 0, 0, 2, 86400⟩
    let u : Timestamp := ⟨⟨1900, 2, 29⟩, 3, 12, 0, 0, 0, 2, 5227200⟩
    (ofSerial s 2 x = some t ∧ ofSerial s 2 y = some u ∧
      ticks (min 2 3) x < ticks (min 2 3) y ∧ isDateSerial x = true) ∧
    t.Splits s (min 2 3) (ticks (min 2 3) x) ∧
    (∃ w, (NumberFormat.parse (elapsedCode .hour)).render? .standard x = .ok w ∧
      IsElapsed Locale.english (ticks 3 x) .hour w) ∧
    t.Before u := by
  intro s x y t u
  have ht : ofSerial s 2 x = some t := by decide +kernel
  have hu : ofSerial s 2 y = some u := by decide +kernel
  have hn : ticks (min 2 3) x < ticks (min 2 3) y := by decide +kernel
  obtain ⟨hdate, hsplit, helapsed, hbefore⟩ := ofSerial_splits_ticks s 2
  have hx := (hdate x).1 ⟨t, ht⟩
  exact ⟨⟨ht, hu, hn, hx⟩, hsplit x t ht, helapsed .hour .standard x hx, hbefore x y t u ht hu hn⟩

end Timestamp

end SheetFormat
