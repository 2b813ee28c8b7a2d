import SheetFormat.Proofs.Calendar.Timestamp
import SheetFormat.Proofs.Render.Dispatch
import SheetFormat.Proofs.Session

namespace SheetFormat

open Binary64

variable {x : Binary64}

lemma isSome_renderDate (o : Options) (parts : List DatePart) (x : Binary64) :
    (renderDate o parts x).isSome = isDateSerial x := by
  rw [renderDate, Option.isSome_map, Timestamp.isSome_ofSerial]

lemma not_isDateSerial_iff (hx : x.isFinite = true) :
    isDateSerial x = false ↔ x.lt 0 = true ∨ (ofNat serialLimit).le x = true := by
  obtain ⟨s, m, rfl⟩ := exists_finite hx
  have hl : lt (.finite s m) (ofNat serialLimit) = false ↔
      (ofNat serialLimit).le (.finite s m) = true := by
    rw [← Bool.not_eq_true, lt_ofNat_iff serialLimit_lt.le, le_ofNat_iff serialLimit_lt.le, not_lt]
  rw [← hl, ← Bool.not_eq_true, isDateSerial_iff]
  cases lt (.finite s m) 0 <;> simp [isFinite]

namespace Section

lemma renderNumber_cases (s : Section) (b : Bool) (o : Options) (x : Binary64) :
    (s.isDate = true ∧ isDateSerial x = false ∧
      s.renderNumber b o x = .error (.dateOutOfRange x)) ∨
    ((s.isDate = false ∨ isDateSerial x = true) ∧ ∃ t, s.renderNumber b o x = .ok t) := by
  rcases s with ⟨body, color⟩
  cases body with
  | general => exact .inr ⟨.inl rfl, _, rfl⟩
  | date parts =>
    have hs := isSome_renderDate o parts x
    cases hd : renderDate o parts x with
    | none =>
      rw [hd] at hs
      exact .inl ⟨rfl, hs.symm, by simp [renderNumber, hd]⟩
    | some t =>
      rw [hd] at hs
      exact .inr ⟨.inr hs.symm, t, by simp [renderNumber, hd]⟩
  | fraction l => exact .inr ⟨.inl rfl, _, rfl⟩
  | number l => exact .inr ⟨.inl rfl, _, rfl⟩

end Section

namespace NumberFormat

lemma render?_of_not_finite (f : NumberFormat) (o : Options) (hx : x.isFinite = false) :
    f.render? o x = .error (.notFinite x) := by
  rw [render?, hx]
  rfl

def OutOfRange (f : NumberFormat) (x : Binary64) : Prop :=
  x.isFinite = true ∧ (f.select x).1.isDate = true ∧
    (x.lt 0 = true ∨ (ofNat serialLimit).le x = true)

lemma render?_cases (f : NumberFormat) (o : Options) (x : Binary64) :
    (x.isFinite = false ∧ f.render? o x = .error (.notFinite x)) ∨
    (f.OutOfRange x ∧ f.render? o x = .error (.dateOutOfRange x)) ∨
    ((x.isFinite = true ∧ ¬f.OutOfRange x) ∧ ∃ t, f.render? o x = .ok t) := by
  by_cases hx : x.isFinite = true
  · rw [render?_finite f o hx]
    rcases (f.select x).1.renderNumber_cases (f.select x).2 o x with ⟨hd, hs, he⟩ | ⟨hd, ht⟩
    · exact .inr (.inl ⟨⟨hx, hd, (not_isDateSerial_iff hx).1 hs⟩, he⟩)
    · refine .inr (.inr ⟨⟨hx, ?_⟩, ht⟩)
      rintro ⟨-, hn, hr⟩
      rw [← not_isDateSerial_iff hx] at hr
      rcases hd with hd | hd
      · rw [hd] at hn
        cases hn
      · rw [hd] at hr
        cases hr
  · rw [Bool.not_eq_true] at hx
    exact .inl ⟨hx, render?_of_not_finite f o hx⟩

end NumberFormat

/-- A number that is not finite and a date out of range are all that has no text of its own and
is shown as General; in any session a code, or the code of a number, renders as what it compiles
to. -/
theorem rendering_agrees (o : Options) (x : Binary64) :
    (∀ f : NumberFormat,
      (f.render? o x = .error (.notFinite x) ↔ x.isFinite = false) ∧
      (f.render? o x = .error (.dateOutOfRange x) ↔ x.isFinite = true ∧
        (f.select x).1.isDate = true ∧ (x.lt 0 = true ∨ (ofNat serialLimit).le x = true)) ∧
      (f.render? o x = .error (.notFinite x) ∨ f.render? o x = .error (.dateOutOfRange x) ∨
        ∃ t, f.render? o x = .ok t) ∧
      (∀ t, f.render? o x = .ok t → f.render o x = t) ∧
      ∀ e, f.render? o x = .error e → f.render o x = generalText x) ∧
    ∀ s : Session, s.Reachable → ∀ code id,
      let format := NumberFormat.parse code
      let builtin := NumberFormat.parse ((Builtin.code? id).getD "General".toList)
      ((s.renderCode? o code x).1 = some (format.render? o x) ∧
        (s.renderCode? o code x).2.Reachable) ∧
      ((s.renderCode code x).1 = some (format.render .standard x) ∧
        (s.renderCode code x).2.Reachable) ∧
      ((s.renderBuiltin? o id x).1 = some (builtin.render? o x) ∧
        (s.renderBuiltin? o id x).2.Reachable) ∧
      ((s.renderBuiltin id x).1 = some (builtin.render .standard x) ∧
        (s.renderBuiltin id x).2.Reachable) := by
  refine ⟨fun f => ⟨?_, ?_, ?_, ?_, ?_⟩, fun s hs code id => ⟨?_, ?_, ?_, ?_⟩⟩
  · rcases f.render?_cases o x with ⟨hx, he⟩ | ⟨hx, he⟩ | ⟨⟨hx, -⟩, t, he⟩
    · simp [he, hx]
    · simp [he, hx.1]
    · simp [he, hx]
  · rw [← NumberFormat.OutOfRange]
    rcases f.render?_cases o x with ⟨hx, he⟩ | ⟨hx, he⟩ | ⟨⟨-, hx⟩, t, he⟩
    · simp [he, NumberFormat.OutOfRange, hx]
    · simp [he, hx]
    · simp [he, hx]
  · rcases f.render?_cases o x with ⟨-, he⟩ | ⟨-, he⟩ | ⟨-, he⟩
    · exact .inl he
    · exact .inr (.inl he)
    · exact .inr (.inr he)
  · intro t ht
    rw [NumberFormat.render, ht]
  · intro e he
    rw [NumberFormat.render, he]
  · exact hs.renderCode? o x code
  · exact hs.renderCode x code
  · exact hs.renderCode? o x (Builtin.code id)
  · exact hs.renderCode x (Builtin.code id)

theorem rendering_agrees_before_epoch :
    let o := Options.standard
    let x := Binary64.neg 1
    let f := NumberFormat.ofSections [] [⟨.date [.field .longYear], none⟩]
    let s := (Session.empty.step o (.get .shared "yyyy".toList)).2
    (f.render? o x = .error (.dateOutOfRange x) ∧ f.render o x = generalText x) ∧
      s.Reachable ∧ (s.renderBuiltin? o 14 (Binary64.infinite true)).1 =
        some (.error (.notFinite (Binary64.infinite true))) ∧
      (s.renderCode? o "yyyy".toList x).1 =
        some ((NumberFormat.parse "yyyy".toList).render? o x) := by
  intro o x f s
  have hs : s.Reachable := .step o _ .empty
  obtain ⟨-, hd, -, -, hg⟩ := (rendering_agrees o x).1 f
  have he := hd.2 ⟨by decide +kernel, rfl, .inl (by decide +kernel)⟩
  have hn := (rendering_agrees o (.infinite true)).2 s hs [] 14
  refine ⟨⟨he, hg _ he⟩, hs, ?_, ?_⟩
  · rw [hn.2.2.1.1, ((rendering_agrees o (.infinite true)).1 _).1.2 rfl]
  · exact ((rendering_agrees o x).2 s hs "yyyy".toList 0).1.1

end SheetFormat
