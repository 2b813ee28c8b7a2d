import SheetFormat.Proofs.Number.Order
import SheetFormat.Render.Basic

namespace SheetFormat

lemma generalText_neg {m : Magnitude} (hm : m.quanta ≠ 0) :
    generalText (.finite true m) = '-' :: generalText (.finite false m) := by
  rw [generalText, generalText, if_neg hm, if_neg hm]
  rfl

namespace Section

variable {s : Section} {x : Binary64}

lemma renderNumber_unsigned (hs : s.isDate = false) (o : Options) (x : Binary64) :
    s.renderNumber true o x = s.renderNumber false o x.abs := by
  rcases s with ⟨body, color⟩
  cases body with
  | general => rfl
  | date parts => simp [isDate] at hs
  | fraction l => simp [renderNumber, Binary64.abs_lt_zero, Binary64.abs_abs]
  | number l => simp [renderNumber, Binary64.abs_lt_zero, Binary64.abs_abs]

lemma renderNumber_neg (hs : s.isDate = false) (hx : x.isFinite = true)
    (hp : Binary64.lt 0 x = true) (o : Options) :
    ∃ t, s.renderNumber false o x = .ok t ∧ s.renderNumber false o x.neg = .ok ('-' :: t) := by
  obtain ⟨hx', hn⟩ := Binary64.lt_zero_of_pos hx hp
  rcases s with ⟨body, color⟩
  cases body with
  | general =>
    obtain ⟨m, hm, rfl⟩ := Binary64.eq_of_pos hx hp
    exact ⟨_, rfl, congrArg Except.ok (generalText_neg hm)⟩
  | date parts => simp [isDate] at hs
  | fraction l =>
    refine ⟨l.render x.abs, ?_, ?_⟩
    · simp [renderNumber, hx', signText]
    · simp [renderNumber, hn, signText, Binary64.abs_neg]
  | number l =>
    refine ⟨l.render o.locale x.abs, ?_, ?_⟩
    · simp [renderNumber, hx', signText]
    · simp [renderNumber, hn, signText, Binary64.abs_neg]

def alone (s : Section) : NumberFormat := .ofSections [] [s]

lemma render?_alone (s : Section) (o : Options) (hx : x.isFinite = true) :
    s.alone.render? o x = s.renderNumber false o x := by
  rw [NumberFormat.render?, if_pos hx]
  rfl

end Section

namespace NumberFormat

variable {f : NumberFormat} {s t u : Section} {rest : List Section} {x : Binary64}

lemma render?_finite (f : NumberFormat) (o : Options) (hx : x.isFinite = true) :
    f.render? o x = (f.select x).1.renderNumber (f.select x).2 o x := by
  rw [render?, if_pos hx]

lemma select_one (hf : f.sections = [s]) (x : Binary64) : f.select x = (s, false) := by
  rw [select, hf]

lemma select_negative (hf : f.sections = s :: t :: rest) (hx : x.isFinite = true)
    (hn : x.lt 0 = true) : f.select x = (t, true) := by
  have hp := Binary64.zero_lt_of_neg hx hn
  cases rest <;> simp [select, hf, hn, hp]

lemma select_of_two (hf : f.sections = [s, t]) (hn : x.lt 0 = false) :
    f.select x = (s, false) := by
  simp [select, hf, hn]

lemma select_positive (hf : f.sections = s :: t :: u :: rest) (hp : Binary64.lt 0 x = true) :
    f.select x = (s, false) := by
  simp [select, hf, hp]

lemma select_zero (hf : f.sections = s :: t :: u :: rest) (hz : x.isZero = true) :
    f.select x = (u, false) := by
  obtain ⟨hp, hn⟩ := Binary64.lt_of_isZero hz
  simp [select, hf, hp, hn]

lemma select_congr {g : NumberFormat} (hf : f.sections = s :: t :: u :: rest)
    (hg : g.sections.take 3 = f.sections.take 3) (x : Binary64) : g.select x = f.select x := by
  rw [hf] at hg
  obtain ⟨more, hm⟩ : ∃ more, g.sections = s :: t :: u :: more := by
    refine ⟨g.sections.drop 3, ?_⟩
    conv => lhs; rw [← List.take_append_drop 3 g.sections, hg]
    rfl
  simp [select, hf, hm]

/-- What a number shows is what its magnitude or itself shows in one section alone: a minus sign
comes from a single section only, and the fourth section never matters. -/
theorem render?_dispatch (f : NumberFormat) (o : Options) (x : Binary64)
    (hx : x.isFinite = true) :
    (∀ s, f.sections = [s] → s.isDate = false → Binary64.lt 0 x = true →
      ∃ w, f.render? o x = .ok w ∧ f.render? o x.neg = .ok ('-' :: w)) ∧
    (∀ s t rest, f.sections = s :: t :: rest → t.isDate = false → x.lt 0 = true →
      f.render? o x = t.alone.render? o x.abs) ∧
    (∀ s t, f.sections = [s, t] → Binary64.le 0 x = true →
      f.render? o x = s.alone.render? o x) ∧
    ∀ s t u rest, f.sections = s :: t :: u :: rest →
      (Binary64.lt 0 x = true → f.render? o x = s.alone.render? o x) ∧
      (x.isZero = true → f.render? o x = u.alone.render? o x) ∧
      ∀ g : NumberFormat, g.sections.take 3 = f.sections.take 3 →
        g.render? o x = f.render? o x := by
  refine ⟨?_, ?_, ?_, ?_⟩
  · intro s hf hs hp
    obtain ⟨w, hw, hn⟩ := Section.renderNumber_neg hs hx hp o
    refine ⟨w, ?_, ?_⟩
    · rw [render?_finite f o hx, select_one hf, hw]
    · rw [render?_finite f o (x.isFinite_neg.trans hx), select_one hf, hn]
  · intro s t rest hf ht hn
    rw [render?_finite f o hx, select_negative hf hx hn,
      Section.render?_alone t o (x.isFinite_abs.trans hx), Section.renderNumber_unsigned ht]
  · intro s t hf hp
    rw [render?_finite f o hx, select_of_two hf (Binary64.lt_zero_of_nonneg hx hp),
      Section.render?_alone s o hx]
  · intro s t u rest hf
    refine ⟨?_, ?_, ?_⟩
    · intro hp
      rw [render?_finite f o hx, select_positive hf hp, Section.render?_alone s o hx]
    · intro hz
      rw [render?_finite f o hx, select_zero hf hz, Section.render?_alone u o hx]
    · intro g hg
      rw [render?_finite f o hx, render?_finite g o hx, select_congr hf hg]

theorem render?_dispatch_accounting :
    let s : Section :=
      ⟨.number ⟨[.field .zero], some [.field .zero], none, ⟨false, 0, false⟩⟩, none⟩
    let t : Section := ⟨.number ⟨[.literal '(', .field .zero], some [.field .zero, .literal ')'],
      none, ⟨false, 0, false⟩⟩, none⟩
    let u : Section := ⟨.number ⟨[.literal '-'], none, none, ⟨false, 0, false⟩⟩, none⟩
    let two := NumberFormat.ofSections [] [s, t]
    let three := NumberFormat.ofSections [] [s, t, u]
    let four := NumberFormat.ofSections [] [s, t, u, .general]
    let x := Binary64.ofQuotient false 3 2
    let z := Binary64.neg 0
    ((x.isFinite = true ∧ x.neg.isFinite = true ∧ z.isFinite = true) ∧
      (s.isDate = false ∧ t.isDate = false) ∧ Binary64.lt 0 x = true ∧ x.neg.lt 0 = true ∧
      Binary64.le 0 z = true ∧ z.isZero = true) ∧
    (∃ w, s.alone.render? .standard x = .ok w ∧ s.alone.render? .standard x.neg = .ok ('-' :: w)) ∧
    four.render? .standard x.neg = t.alone.render? .standard x.neg.abs ∧
    two.render? .standard z = s.alone.render? .standard z ∧
    four.render? .standard x = s.alone.render? .standard x ∧
    four.render? .standard z = u.alone.render? .standard z ∧
    three.render? .standard x = four.render? .standard x := by
  intro s t u two three four x z
  have hx : x.isFinite = true := by decide +kernel
  have hy : x.neg.isFinite = true := by decide +kernel
  have hz : z.isFinite = true := by decide +kernel
  have hp : Binary64.lt 0 x = true := by decide +kernel
  have hn : x.neg.lt 0 = true := by decide +kernel
  have hle : Binary64.le 0 z = true := by decide +kernel
  have h0 : z.isZero = true := by decide +kernel
  obtain ⟨hpos, -, hthree⟩ := (render?_dispatch four .standard x hx).2.2.2 s t u _ rfl
  refine ⟨⟨⟨hx, hy, hz⟩, ⟨rfl, rfl⟩, hp, hn, hle, h0⟩, ?_, ?_, ?_, hpos hp, ?_, hthree three rfl⟩
  · exact (render?_dispatch s.alone .standard x hx).1 s rfl rfl hp
  · exact (render?_dispatch four .standard x.neg hy).2.1 s t _ rfl rfl hn
  · exact (render?_dispatch two .standard z hz).2.2.1 s t rfl hle
  · exact ((render?_dispatch four .standard z hz).2.2.2 s t u _ rfl).2.1 h0

end NumberFormat

end SheetFormat
