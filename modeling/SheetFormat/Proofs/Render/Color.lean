import SheetFormat.Proofs.Calendar.Start
import SheetFormat.Proofs.Render.Failure
import SheetFormat.Value

namespace SheetFormat

open Binary64

attribute [local irreducible] perUnit limit

namespace Value

def date? : Value → Option Date
  | date d => some d
  | dateTime d _ => some d
  | _ => none

def IsStart (s : DateSystem) (v : Value) : Prop :=
  v = .date s.epoch ∨ v = .dateTime s.epoch .midnight

instance (s : DateSystem) (v : Value) : Decidable (v.IsStart s) :=
  inferInstanceAs (Decidable (_ ∨ _))

variable {s : DateSystem} {v : Value} {d : Date} {x : Binary64}

lemma serial?_of_isStart (h : v.IsStart s) : v.serial? s = some 0 := by
  rcases h with rfl | rfl
  · exact dateToSerial_epoch s
  · exact dateTimeToSerial_epoch s

lemma date?_of_isStart (h : v.IsStart s) : v.date? = some s.epoch := by
  rcases h with rfl | rfl <;> rfl

lemma zero_lt_serial (hd : v.date? = some d) (hx : v.serial? s = some x) (h : ¬v.IsStart s) :
    lt 0 x = true := by
  cases v with
  | date e =>
    apply zero_lt_dateToSerial hx
    rintro rfl
    exact h (.inl rfl)
  | dateTime e t =>
    apply zero_lt_dateTimeToSerial hx
    rw [← not_and_or]
    rintro ⟨rfl, rfl⟩
    exact h (.inr rfl)
  | _ => cases hd

lemma serial?_congr (h : v.date? = none) (s t : DateSystem) : v.serial? s = v.serial? t := by
  cases v with
  | date e => cases h
  | dateTime e u => cases h
  | _ => rfl

lemma serial?_of_before (hd : v.date? = some d) (h : d.Before ⟨1904, 1, 1⟩) :
    v.serial? .since1904 = none := by
  cases v with
  | date e =>
    obtain rfl := Option.some.inj hd
    exact dateToSerial_of_before h
  | dateTime e t =>
    obtain rfl := Option.some.inj hd
    rw [serial?, dateTimeToSerial, dateToSerial_of_before h, Option.map_none]
  | _ => cases hd

lemma isSome_serial? (hd : v.date? = some d) (h : ¬d.Before ⟨1904, 1, 1⟩) :
    (v.serial? .since1900).isSome = (v.serial? .since1904).isSome := by
  cases v with
  | date e =>
    obtain rfl := Option.some.inj hd
    exact isSome_dateToSerial_lead h
  | dateTime e t =>
    obtain rfl := Option.some.inj hd
    rw [serial?, serial?, dateTimeToSerial, dateTimeToSerial, Option.isSome_map, Option.isSome_map,
      isSome_dateToSerial_lead h]
  | _ => cases hd

lemma not_isStart_since1900 (hd : v.date? = some d) (h : ¬d.Before ⟨1904, 1, 1⟩) :
    ¬v.IsStart .since1900 := by
  intro hs
  rw [date?_of_isStart hs] at hd
  obtain rfl := Option.some.inj hd
  exact h (.inl (by decide))

end Value

namespace NumberFormat

variable {f : NumberFormat} {o : Options} {v : Value} {d : Date} {x y : Binary64}

lemma select_of_signs (h0 : lt 0 x = lt 0 y) (h : x.lt 0 = y.lt 0) : f.select x = f.select y := by
  rw [select, select, h0, h]

lemma select_of_zero_lt (h : lt 0 x = true) : f.select x = f.select 1 := by
  have h1 : lt 0 1 = true := by decide +kernel
  exact select_of_signs (h.trans h1.symm)
    ((lt_zero_of_zero_lt h).trans (lt_zero_of_zero_lt h1).symm)

lemma select_serial {s : DateSystem} (hd : v.date? = some d) (hx : v.serial? s = some x) :
    f.select x = f.select (if v.IsStart s then 0 else 1) := by
  split_ifs with h
  · rw [Value.serial?_of_isStart h] at hx
    rw [Option.some.inj hx]
  · exact select_of_zero_lt (Value.zero_lt_serial hd hx h)

/-- The section that a value is shown with: the one for its serial, unless that has no text there
and is shown as General. -/
def shownSection? (f : NumberFormat) (o : Options) (v : Value) : Option Section :=
  (v.serial? o.system).bind fun x =>
    match f.render? o x with
    | .ok _ => some (f.select x).1
    | .error _ => none

def ColorsShown (f : NumberFormat) (o : Options) (v : Value) : Prop :=
  (∀ s, f.shownSection? o v = some s → f.color? v = s.color) ∧
    (v.serial? o.system = none → f.color? v = none)

lemma renderValue_of_serial (hx : v.serial? o.system = some x) :
    f.renderValue o v = f.render o x := by
  cases v with
  | text t => cases hx
  | bool b => cases hx
  | _ => simp only [renderValue, hx]

lemma shownSection?_eq_some_iff {s : Section} :
    f.shownSection? o v = some s ↔ ∃ x, v.serial? o.system = some x ∧ x.isFinite = true ∧
      s = (f.select x).1 ∧ s.renderNumber (f.select x).2 o x = .ok (f.renderValue o v) := by
  constructor
  · intro h
    obtain ⟨x, hx, hs⟩ := Option.bind_eq_some_iff.1 h
    cases hr : f.render? o x with
    | error e =>
      rw [hr] at hs
      cases hs
    | ok t =>
      rw [hr] at hs
      obtain rfl := Option.some.inj hs
      by_cases hf : x.isFinite = true
      · refine ⟨x, hx, hf, rfl, ?_⟩
        rw [← render?_finite f o hf, renderValue_of_serial hx, render, hr]
      · rw [render?, if_neg hf] at hr
        cases hr
  · rintro ⟨x, hx, hf, rfl, hr⟩
    rw [shownSection?, hx, Option.bind_some, render?_finite f o hf, hr]

lemma shownSection?_eq_some {s : Section} (h : f.shownSection? o v = some s) :
    ∃ x, v.serial? o.system = some x ∧ s = (f.select x).1 := by
  obtain ⟨x, hx, -, hs, -⟩ := shownSection?_eq_some_iff.1 h
  exact ⟨x, hx, hs⟩

lemma color?_of_serial (hx : v.serial? .since1900 = some x) :
    f.color? v = (f.select x).1.color := by
  cases v with
  | text t => cases hx
  | _ => simp only [color?, hx, Option.bind_some]

lemma color?_of_no_serial (hv : v.text? = none) (hx : v.serial? .since1900 = none) :
    f.color? v = none := by
  cases v with
  | text t => cases hv
  | _ => simp only [color?, hx, Option.bind_none]

lemma colorsShown_of_serial? (hv : v.text? = none)
    (h : v.serial? o.system = v.serial? .since1900) : f.ColorsShown o v := by
  refine ⟨fun s hs => ?_, fun hn => ?_⟩
  · obtain ⟨x, hx, rfl⟩ := shownSection?_eq_some hs
    exact color?_of_serial (h.symm.trans hx)
  · exact color?_of_no_serial hv (h.symm.trans hn)

lemma shownSection?_zero (hx : v.serial? o.system = some 0) :
    f.shownSection? o v = some (f.select 0).1 := by
  have h0 : (0 : Binary64).isFinite = true := by decide +kernel
  have hd : isDateSerial 0 = true := by decide +kernel
  rw [shownSection?, hx, Option.bind_some]
  rcases f.render?_cases o 0 with ⟨hf, -⟩ | ⟨⟨hf, -, hn⟩, -⟩ | ⟨-, t, ht⟩
  · rw [h0] at hf
    cases hf
  · rw [← not_isDateSerial_iff hf, hd] at hn
    cases hn
  · rw [ht]

lemma colorsShown_iff_of_shown {s : Section} (h : f.shownSection? o v = some s) :
    f.ColorsShown o v ↔ f.color? v = s.color := by
  refine ⟨fun hc => hc.1 s h, fun hc => ⟨fun t ht => ?_, fun hn => ?_⟩⟩
  · rw [h] at ht
    rwa [← Option.some.inj ht]
  · obtain ⟨x, hx, -⟩ := shownSection?_eq_some h
    rw [hn] at hx
    cases hx

lemma colorsShown_iff_of_no_serial (h : v.serial? o.system = none) :
    f.ColorsShown o v ↔ f.color? v = none := by
  refine ⟨fun hc => hc.2 h, fun hc => ⟨fun t ht => ?_, fun _ => hc⟩⟩
  obtain ⟨x, hx, -⟩ := shownSection?_eq_some ht
  rw [h] at hx
  cases hx

lemma renderValue_of_no_serial (hd : v.date? = some d) (h : v.serial? o.system = none) :
    f.renderValue o v = [] := by
  cases v with
  | date e => simp only [renderValue, h]
  | dateTime e t => simp only [renderValue, h]
  | _ => cases hd

lemma colorsShown_iff_of_before (hd : v.date? = some d) (ho : o.system = .since1904)
    (hv : v.text? = none) (h : d.Before ⟨1904, 1, 1⟩) :
    f.ColorsShown o v ↔ ((v.serial? .since1900).isSome = true →
      (f.select (if v.IsStart .since1900 then 0 else 1)).1.color = none) := by
  rw [colorsShown_iff_of_no_serial (ho ▸ Value.serial?_of_before hd h)]
  cases hx : v.serial? .since1900 with
  | none => exact iff_of_true (color?_of_no_serial hv hx) fun hs => by cases hs
  | some x =>
    rw [color?_of_serial hx, select_serial hd hx]
    exact ⟨fun hc _ => hc, fun hc => hc rfl⟩

lemma colorsShown_iff_of_not_before (hd : v.date? = some d) (ho : o.system = .since1904)
    (hv : v.text? = none) (h : ¬d.Before ⟨1904, 1, 1⟩) :
    f.ColorsShown o v ↔
      (v.IsStart .since1904 → (f.select 0).1.color = (f.select 1).1.color) := by
  have hi := Value.isSome_serial? hd h
  cases hx : v.serial? .since1900 with
  | none =>
    have hy : v.serial? .since1904 = none := by
      rwa [hx, Option.isSome_none, eq_comm, Option.isSome_eq_false_iff, Option.isNone_iff_eq_none]
        at hi
    refine iff_of_true (colorsShown_of_serial? hv ?_) fun hs => ?_
    · rw [ho, hx, hy]
    · rw [Value.serial?_of_isStart hs] at hy
      cases hy
  | some x =>
    have hc : f.color? v = (f.select 1).1.color := by
      rw [color?_of_serial hx, select_serial hd hx, if_neg (Value.not_isStart_since1900 hd h)]
    by_cases hs : v.IsStart .since1904
    · rw [colorsShown_iff_of_shown (shownSection?_zero (ho ▸ Value.serial?_of_isStart hs)), hc,
        forall_prop_of_true hs, eq_comm]
    · refine iff_of_true ⟨fun s ht => ?_, fun hn => ?_⟩ fun h1 => absurd h1 hs
      · obtain ⟨y, hy, rfl⟩ := shownSection?_eq_some ht
        rw [ho] at hy
        rw [hc, select_serial hd hy, if_neg hs]
      · rw [ho] at hn
        rw [hx, hn] at hi
        cases hi

/-- A value is shown with the section for its serial where that gives its text, and it has the
color of that section, but for dates of the system of 1904, whose serial there is not the one that
the color is looked up with. The first instant of the system has the color of positive numbers, and
a date before it that of its serial of 1900. -/
theorem colorsShown_iff (hv : v.text? = none) :
    (∀ s, f.shownSection? o v = some s ↔ ∃ x, v.serial? o.system = some x ∧ x.isFinite = true ∧
      s = (f.select x).1 ∧ s.renderNumber (f.select x).2 o x = .ok (f.renderValue o v)) ∧
    (o.system = .since1900 ∨ v.date? = none → f.ColorsShown o v) ∧
    ∀ d, v.date? = some d → o.system = .since1904 →
      (¬d.Before ⟨1904, 1, 1⟩ → (f.ColorsShown o v ↔
        (v.IsStart .since1904 → (f.select 0).1.color = (f.select 1).1.color))) ∧
      (d.Before ⟨1904, 1, 1⟩ → f.renderValue o v = [] ∧
        (f.ColorsShown o v ↔ ((v.serial? .since1900).isSome = true →
          (f.select (if v.IsStart .since1900 then 0 else 1)).1.color = none))) := by
  refine ⟨fun s => shownSection?_eq_some_iff, ?_, fun d hd ho =>
    ⟨fun h => ?_, fun h => ⟨?_, ?_⟩⟩⟩
  · rintro (ho | hd)
    · exact colorsShown_of_serial? hv (by rw [ho])
    · exact colorsShown_of_serial? hv (Value.serial?_congr hd _ _)
  · exact colorsShown_iff_of_not_before hd ho hv h
  · exact renderValue_of_no_serial hd (ho ▸ Value.serial?_of_before hd h)
  · exact colorsShown_iff_of_before hd ho hv h

theorem colorsShown_iff_signs :
    let f := parse "[Green]0;[Red]0;[Blue]0".toList
    let late : Value := .dateTime ⟨1904, 1, 1⟩ ⟨0, 0, 0, 1⟩
    let first : Value := .date ⟨1904, 1, 1⟩
    let early : Value := .date ⟨1902, 1, 1⟩
    let o : Options := ⟨.since1904, .english⟩
    (late.text? = none ∧ first.text? = none ∧ early.text? = none) ∧
      (∃ x, first.serial? o.system = some x ∧ x.isFinite = true ∧
        (f.select 0).1 = (f.select x).1 ∧
        (f.select 0).1.renderNumber (f.select x).2 o x = .ok (f.renderValue o first)) ∧
      f.ColorsShown ⟨.since1900, .english⟩ early ∧
      f.ColorsShown o late ∧ ¬f.ColorsShown o first ∧ ¬f.ColorsShown o early := by
  intro f late first early o
  have hd : ¬(⟨1904, 1, 1⟩ : Date).Before ⟨1904, 1, 1⟩ := by simp [Date.Before]
  have hb : (⟨1902, 1, 1⟩ : Date).Before ⟨1904, 1, 1⟩ := .inl (by decide)
  refine ⟨⟨rfl, rfl, rfl⟩, ((colorsShown_iff rfl).1 _).1 (by decide +kernel),
    (colorsShown_iff rfl).2.1 (.inl rfl), ?_, ?_, ?_⟩
  · rw [((colorsShown_iff rfl).2.2 _ rfl rfl).1 hd]
    exact fun hs => absurd hs (by decide)
  · rw [((colorsShown_iff rfl).2.2 _ rfl rfl).1 hd]
    exact fun hc => absurd (hc (.inl rfl)) (by decide +kernel)
  · rw [(((colorsShown_iff rfl).2.2 _ rfl rfl).2 hb).2]
    exact fun hc => absurd (hc (by decide +kernel)) (by decide +kernel)

theorem exists_other_color :
    let f := parse "[Green]0;[Red]0;[Blue]0".toList
    let o : Options := ⟨.since1904, .english⟩
    (∃ s, f.shownSection? o (.date ⟨1904, 1, 1⟩) = some s ∧ s.color = some (.named .blue) ∧
      f.color? (.date ⟨1904, 1, 1⟩) = some (.named .green)) ∧
    Value.serial? o.system (.date ⟨1902, 1, 1⟩) = none ∧
    f.color? (.date ⟨1902, 1, 1⟩) = some (.named .green) := by
  intro f o
  refine ⟨⟨(f.select 0).1, ?_, ?_, ?_⟩, ?_, ?_⟩ <;> decide +kernel

end NumberFormat

end SheetFormat
