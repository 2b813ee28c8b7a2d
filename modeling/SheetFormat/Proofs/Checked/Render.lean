import SheetFormat.Proofs.Calendar.Timestamp
import SheetFormat.Proofs.Checked.Fraction
import SheetFormat.Proofs.Checked.Number
import SheetFormat.Proofs.Checked.Section
import SheetFormat.Proofs.Section.Kinds

namespace SheetFormat

attribute [local instance (2000)] instPowNat

namespace Checked

variable {x : Binary64} {digits : Nat}

lemma weekday_ok (s : DateSystem) {day : Nat} (h : day ≤ serialLimit) :
    weekday s day = .ok (s.weekdayOfDay day) := by
  cases s with
  | since1900 =>
    rw [weekday, word_ok ((Nat.add_le_add_right h 6).trans_lt (by decide))]
    exact mod_ok (day + 6) (show 0 < 7 by decide)
  | since1904 =>
    rw [weekday, word_ok ((Nat.add_le_add_right h 5).trans_lt (by decide))]
    exact mod_ok (day + 5) (show 0 < 7 by decide)

lemma timestamp?_ok (s : DateSystem) (hx : isDateSerial x = true) (hd : digits ≤ 3) :
    timestamp? s digits x = .ok (Timestamp.ofTicks? s digits (Timestamp.ticks digits x)) := by
  have hscale : 10 ^ digits ≤ 1000 := Nat.pow_le_pow_right (by decide) hd
  have hpos : 0 < 10 ^ digits := Nat.pow_pos (by decide)
  have hday := Timestamp.ticksPerDay_le hd
  have hticks := (Timestamp.ticks_le hx hd).trans (Nat.mul_le_mul_left _ hday)
  have hperDay : 0 < secondsPerDay * 10 ^ digits := Nat.mul_pos (by decide) hpos
  have hseconds : Timestamp.ticks digits x % (secondsPerDay * 10 ^ digits) / 10 ^ digits <
      secondsPerDay := by
    rw [Nat.div_lt_iff_lt_mul hpos]
    exact Nat.mod_lt _ hperDay
  rw [timestamp?]
  refine (bind_ok (word_ok (hscale.trans_lt (by decide))) _).trans ?_
  refine (bind_ok (word_ok (hday.trans_lt (by decide))) _).trans ?_
  refine (bind_ok (word_ok (hticks.trans_lt (by decide))) _).trans ?_
  refine (bind_ok (div_ok _ hperDay) _).trans ?_
  refine (bind_ok (mod_ok _ hperDay) _).trans ?_
  refine (bind_ok (div_ok _ hpos) _).trans ?_
  refine (bind_ok (word_ok (hseconds.trans (by decide))) _).trans ?_
  refine (bind_ok (mod_ok _ hpos) _).trans ?_
  refine (bind_ok (weekday_ok s (Timestamp.day_le hx hd)) _).trans ?_
  exact bind_ok (div_ok _ hpos) _

lemma timestamp_ok (s : DateSystem) (digits : Nat) (x : Binary64) :
    timestamp s digits x = .ok (Timestamp.ofSerial s digits x) := by
  rw [timestamp, Timestamp.ofSerial]
  by_cases hx : isDateSerial x = true
  · rw [if_pos hx, if_pos hx]
    exact timestamp?_ok s hx (Nat.min_le_right ..)
  · rw [if_neg hx, if_neg hx]
    rfl

lemma monthName_ok (l : Locale) (month : Nat) : monthName l month = .ok (l.monthName month) := by
  rw [monthName, sub_ok (by omega), ok_bind, get_ok (by simp; omega)]
  rfl

lemma dayName_ok (l : Locale) (weekday : Nat) : dayName l weekday = .ok (l.dayName weekday) := by
  rw [dayName, mod_ok _ (by decide), ok_bind, get_ok (by simp; omega)]
  rfl

lemma monthText_ok (t : Timestamp) (l : Locale) (style : MonthStyle) :
    monthText t l style = .ok (t.monthText l style) := by
  cases style <;> simp only [monthText, monthName_ok, ok_bind] <;> rfl

lemma dayText_ok (t : Timestamp) (l : Locale) (style : DayStyle) :
    dayText t l style = .ok (t.dayText l style) := by
  cases style <;> simp only [dayText, dayName_ok, ok_bind] <;> rfl

lemma fieldText_ok (t : Timestamp) (l : Locale) (twelve : Bool) (f : DateField) :
    fieldText t l twelve f = .ok (t.fieldText l twelve f) := by
  cases f with
  | month style => exact monthText_ok t l style
  | day style => exact dayText_ok t l style
  | _ => rfl

lemma partText_ok (t : Timestamp) (l : Locale) (twelve : Bool) (part : DatePart) :
    partText t l twelve part = .ok (t.partText l twelve part) := by
  cases part with
  | field f => exact fieldText_ok t l twelve f
  | _ => rfl

lemma renderDate_ok (o : Options) (parts : List DatePart) (x : Binary64) :
    renderDate o parts x = .ok (SheetFormat.renderDate o parts x) := by
  rw [renderDate, SheetFormat.renderDate]
  refine (bind_ok (timestamp_ok ..) _).trans ?_
  cases Timestamp.ofSerial o.system (subsecondDigits parts) x with
  | none => rfl
  | some t =>
    have hp : parts.mapM (partText t o.locale (hasHalfDay parts)) = .ok _ :=
      mapM_ok fun p _ => partText_ok t o.locale _ p
    exact bind_ok hp _

lemma renderSection_ok {s : Section} (hp : s.body.IsProper)
    (unsigned : Bool) (o : Options) (x : Binary64) :
    renderSection s unsigned o x = .ok (s.renderNumber unsigned o x) := by
  rw [renderSection, Section.renderNumber]
  generalize s.body = body at hp ⊢
  cases body with
  | general => exact bind_ok (generalText_ok _) _
  | date parts =>
    refine (bind_ok (renderDate_ok o parts x) _).trans ?_
    dsimp only
    cases SheetFormat.renderDate o parts x with
    | none => rfl
    | some t => rfl
  | fraction l => exact bind_ok (renderFraction_ok hp.denominator x.abs) _
  | number l => exact bind_ok (renderNumber_ok l o.locale x.unsigned_abs) _

lemma select_ok (f : NumberFormat) (x : Binary64) :
    select f x = .ok (f.select x) ∧ (f.select x).1 ∈ f.sections := by
  obtain ⟨source, sections, hn, h4⟩ := f
  rw [select, NumberFormat.select]
  rcases sections with _ | ⟨s, _ | ⟨t, _ | ⟨u, rest⟩⟩⟩
  · exact absurd rfl hn
  · exact ⟨rfl, List.mem_cons_self ..⟩
  · by_cases hx : x.lt 0 = true
    · simp [hx, get]
    · simp [hx, get]
  · by_cases hp : Binary64.lt 0 x = true
    · simp [hp, get]
    · by_cases hx : x.lt 0 = true
      · simp [hp, hx, get]
      · simp [hp, hx, get]

lemma textSection?_ok (f : NumberFormat) : textSection? f = .ok f.textSection? := by
  obtain ⟨source, sections, hn, h4⟩ := f
  rw [textSection?, NumberFormat.textSection?]
  rcases sections with _ | ⟨s, _ | ⟨t, _ | ⟨u, _ | ⟨v, _ | ⟨w, rest⟩⟩⟩⟩⟩
  · exact absurd rfl hn
  · change (if s.hasTextPlaceholder then Except.ok (some s) else Except.ok none) = _
    by_cases ht : s.hasTextPlaceholder = true
    · simp [ht]
    · simp [ht]
  · rfl
  · rfl
  · rfl
  · simp only [List.length_cons] at h4
    omega

lemma render?_ok (code : Text) (o : Options) (x : Binary64) :
    render? (.parse code) o x = .ok ((NumberFormat.parse code).render? o x) := by
  rw [render?, NumberFormat.render?]
  by_cases hx : x.isFinite = true
  · obtain ⟨hs, hm⟩ := select_ok (.parse code) x
    rw [if_pos hx, if_pos hx]
    refine (bind_ok hs _).trans ?_
    exact renderSection_ok (NumberFormat.body_isProper hm) _ o x
  · rw [if_neg hx, if_neg hx]
    rfl

lemma render_ok (code : Text) (o : Options) (x : Binary64) :
    render (.parse code) o x = .ok ((NumberFormat.parse code).render o x) := by
  rw [render, NumberFormat.render]
  refine (bind_ok (render?_ok code o x) _).trans ?_
  cases (NumberFormat.parse code).render? o x with
  | ok t => rfl
  | error e => exact generalText_ok x

lemma renderText_ok (f : NumberFormat) (o : Options) (text : Text) :
    renderText f o text = .ok (f.renderText o text) := by
  rw [renderText, NumberFormat.renderText]
  refine (bind_ok (textSection?_ok f) _).trans ?_
  cases f.textSection? with
  | none => rfl
  | some s => rfl

/-- Whatever the code, the value, the text and the options, compiling and rendering reach no fault,
and what they give is the compiled format and its rendering. -/
theorem never_faults (code text : Text) (o : Options) (x : Binary64) :
    parse code = .ok (.parse code) ∧
      (do render? (← parse code) o x) = .ok ((NumberFormat.parse code).render? o x) ∧
        (do render (← parse code) o x) = .ok ((NumberFormat.parse code).render o x) ∧
          (do renderText (← parse code) o text) =
            .ok ((NumberFormat.parse code).renderText o text) := by
  have hp := parse_ok code
  refine ⟨hp, ?_, ?_, ?_⟩
  · exact (bind_ok hp _).trans (render?_ok code o x)
  · exact (bind_ok hp _).trans (render_ok code o x)
  · exact (bind_ok hp _).trans (renderText_ok (.parse code) o text)

end Checked

end SheetFormat
