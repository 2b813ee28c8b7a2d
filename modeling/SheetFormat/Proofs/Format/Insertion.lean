import SheetFormat.Proofs.Section.Inert
import SheetFormat.Value

namespace SheetFormat

section Groups

variable {α : Type}

lemma modify_at_length (f : α → α) (before : List α) (a : α) (after : List α) :
    (before ++ a :: after).modify before.length f = before ++ f a :: after := by
  simp [List.modify_eq_take_drop]

variable [DecidableEq α]

lemma splitOn_cons_self (sep : α) (xs : List α) :
    (sep :: xs).splitOn sep = [] :: xs.splitOn sep := by
  simp [List.splitOn_eq_splitOnP, List.splitOnP_cons_eq_if_modifyHead]

lemma splitOn_cons_of_ne {sep x : α} (h : x ≠ sep) (xs : List α) :
    (x :: xs).splitOn sep = (xs.splitOn sep).modifyHead (x :: ·) := by
  simp [List.splitOn_eq_splitOnP, List.splitOnP_cons_eq_if_modifyHead, h]

lemma splitOn_insert {sep t : α} (ht : t ≠ sep) (xs ys : List α) :
    ∃ before left right after, (xs ++ ys).splitOn sep = before ++ (left ++ right) :: after ∧
      (xs ++ t :: ys).splitOn sep = before ++ (left ++ t :: right) :: after ∧
      before.length = xs.count sep := by
  induction xs with
  | nil =>
    obtain ⟨g, gs, hg⟩ := List.exists_cons_of_ne_nil (List.splitOn_ne_nil sep ys)
    refine ⟨[], [], g, gs, hg, ?_, rfl⟩
    rw [List.nil_append, splitOn_cons_of_ne ht, hg]
    rfl
  | cons x xs ih =>
    obtain ⟨before, left, right, after, h, h', hl⟩ := ih
    by_cases hx : x = sep
    · subst hx
      refine ⟨[] :: before, left, right, after, ?_, ?_, ?_⟩
      · rw [List.cons_append, splitOn_cons_self, h]
        rfl
      · rw [List.cons_append, splitOn_cons_self, h']
        rfl
      · rw [List.length_cons, List.count_cons_self, hl]
    · rw [List.cons_append, splitOn_cons_of_ne hx, List.cons_append, splitOn_cons_of_ne hx, h, h',
        List.count_cons_of_ne hx]
      cases before with
      | nil => exact ⟨[], x :: left, right, after, rfl, rfl, hl⟩
      | cons g gs => exact ⟨(x :: g) :: gs, left, right, after, rfl, rfl, hl⟩

end Groups

def SameBodies (ss ts : List Section) : Prop := List.Forall₂ (fun s t => s.body = t.body) ss ts

namespace Section

variable {s t : Section}

lemma renderNumber_of_body (h : s.body = t.body) (unsigned : Bool) (o : Options) (x : Binary64) :
    s.renderNumber unsigned o x = t.renderNumber unsigned o x := by
  simp only [renderNumber, h]

lemma hasTextPlaceholder_of_body (h : s.body = t.body) :
    s.hasTextPlaceholder = t.hasTextPlaceholder := by
  simp only [hasTextPlaceholder, h]

lemma renderText_of_body (h : s.body = t.body) (l : Locale) (text : Text) :
    s.renderText l text = t.renderText l text := by
  simp only [renderText, textAround, hasTextPlaceholder_of_body h, h]

lemma sameBodies_modify (color : Option Color) (k : Nat) (ss : List Section) :
    SameBodies (ss.modify k fun s => { s with color }) ss := by
  induction ss generalizing k with
  | nil =>
    rw [List.modify_nil]
    exact .nil
  | cons s ss ih =>
    cases k with
    | zero => exact .cons rfl (List.forall₂_same.2 fun _ _ => rfl)
    | succ k => exact .cons rfl (ih k)

end Section

namespace NumberFormat

variable {f g : NumberFormat}

lemma select_of_bodies (h : SameBodies f.sections g.sections) (x : Binary64) :
    (f.select x).1.body = (g.select x).1.body ∧ (f.select x).2 = (g.select x).2 := by
  unfold select
  generalize f.sections = ss at h ⊢
  generalize g.sections = ts at h ⊢
  rcases h with _ | ⟨h₁, _ | ⟨h₂, _ | ⟨h₃, _⟩⟩⟩
  · exact ⟨rfl, rfl⟩
  · exact ⟨h₁, rfl⟩
  · dsimp only
    split
    · exact ⟨h₂, rfl⟩
    · exact ⟨h₁, rfl⟩
  · dsimp only
    split_ifs
    · exact ⟨h₁, rfl⟩
    · exact ⟨h₂, rfl⟩
    · exact ⟨h₃, rfl⟩

lemma render?_of_bodies (h : SameBodies f.sections g.sections) (o : Options) (x : Binary64) :
    f.render? o x = g.render? o x := by
  obtain ⟨hs, hu⟩ := select_of_bodies h x
  simp only [render?, hu, Section.renderNumber_of_body hs]

lemma textSection?_of_bodies (h : SameBodies f.sections g.sections) :
    Option.Rel (fun s t => s.body = t.body) f.textSection? g.textSection? := by
  unfold textSection?
  generalize f.sections = ss at h ⊢
  generalize g.sections = ts at h ⊢
  rcases h with _ | ⟨h₁, _ | ⟨-, _ | ⟨-, _ | ⟨h₄, _ | _⟩⟩⟩⟩
  · exact .none
  · dsimp only
    rw [Section.hasTextPlaceholder_of_body h₁]
    split
    · exact .some h₁
    · exact .none
  · exact .none
  · exact .none
  · exact .some h₄
  · exact .none

lemma renderText_of_bodies (h : SameBodies f.sections g.sections) (o : Options) (t : Text) :
    f.renderText o t = g.renderText o t := by
  have hs := textSection?_of_bodies h
  unfold renderText
  generalize f.textSection? = s at hs ⊢
  generalize g.textSection? = u at hs ⊢
  cases hs with
  | none => rfl
  | some hb => exact Section.renderText_of_body hb o.locale t

lemma renderValue_of_bodies (h : SameBodies f.sections g.sections) (o : Options) (v : Value) :
    f.renderValue o v = g.renderValue o v := by
  have hr : ∀ x, f.render o x = g.render o x := by
    intro x
    simp only [render, render?_of_bodies h]
  cases v with
  | text t => exact renderText_of_bodies h o t
  | bool b => rfl
  | number | empty | date | time | dateTime => simp only [renderValue, hr]

lemma sections_insert {a b w : Text} {t : Token} (hw : Breaks t w) (ht : t.IsInert)
    (hn : a ++ b ≠ []) (hc : IsComplete (a ++ b))
    (hb : IsBoundary (a ++ b) (Text.byteSize a)) :
    (∃ color, (parse (a ++ (w ++ b))).sections =
      (parse (a ++ b)).sections.modify (sectionAt (a ++ b) (Text.byteSize a))
        fun s => { s with color }) ∧
    (t.color? = none → (parse (a ++ (w ++ b))).sections = (parse (a ++ b)).sections) := by
  have hne : a ++ (w ++ b) ≠ [] := by
    obtain ⟨y, -, rest, rfl⟩ := hw.opens
    simp
  obtain ⟨ts, us, ho, hi, hk⟩ := tokens_insert hw hc hb
  obtain ⟨before, left, right, after, h, h', hl⟩ := splitOn_insert ht.ne_separator ts us
  rw [sections_of_ne_nil hn, sections_of_ne_nil hne, tokenGroups, tokenGroups, ← tokens, ← tokens,
    ho, hi, h, h', ← hk, ← hl, List.map_append, List.map_append, List.map_cons, List.map_cons]
  constructor
  · refine ⟨(Section.ofTokens (left ++ t :: right)).color, ?_⟩
    rw [← List.take_modify, ← List.length_map Section.ofTokens, modify_at_length,
      ← Section.body_insert ht]
  · intro hcolor
    rw [Section.ofTokens_insert ht hcolor]

/-- A color bracket between two tokens of a complete code can only change the color of the section
it falls in; a condition, a locale, a gap and a fill change nothing. All values and texts are shown
as before. -/
theorem parse_insert {a b w : Text} (hn : a ++ b ≠ []) (hc : IsComplete (a ++ b))
    (hb : IsBoundary (a ++ b) (Text.byteSize a)) (hw : Colors w ∨ LaysOut w) :
    let f := parse (a ++ b)
    let g := parse (a ++ (w ++ b))
    (Colors w → ∃ color, g.sections =
      f.sections.modify (sectionAt (a ++ b) (Text.byteSize a)) fun s => { s with color }) ∧
    (LaysOut w → g.sections = f.sections) ∧
    ∀ o, (∀ x, g.render? o x = f.render? o x) ∧ (∀ t, g.renderText o t = f.renderText o t) ∧
      ∀ v, g.renderValue o v = f.renderValue o v := by
  intro f g
  have hcolor : Colors w → ∃ color, g.sections =
      f.sections.modify (sectionAt (a ++ b) (Text.byteSize a)) fun s => { s with color } := by
    intro h
    obtain ⟨t, ht, hi⟩ := h.exists_token
    exact (sections_insert ht hi hn hc hb).1
  have hsame : LaysOut w → g.sections = f.sections := by
    intro h
    obtain ⟨t, ht, hi, hcolor⟩ := h.exists_token
    exact (sections_insert ht hi hn hc hb).2 hcolor
  have hbodies : SameBodies g.sections f.sections := by
    rcases hw with h | h
    · obtain ⟨color, hs⟩ := hcolor h
      rw [hs]
      exact Section.sameBodies_modify color _ _
    · rw [hsame h]
      exact List.forall₂_same.2 fun _ _ => rfl
  refine ⟨hcolor, hsame, fun o => ⟨?_, ?_, ?_⟩⟩
  · exact render?_of_bodies hbodies o
  · exact renderText_of_bodies hbodies o
  · exact renderValue_of_bodies hbodies o

theorem parse_insert_minutes :
    let a := "0;h:m".toList
    let b := ":ss".toList
    let w := "[cOLOR7]".toList
    (a ++ b ≠ [] ∧ IsComplete (a ++ b) ∧ IsBoundary (a ++ b) (Text.byteSize a) ∧
      (Colors w ∨ LaysOut w)) ∧
    let f := parse (a ++ b)
    let g := parse (a ++ (w ++ b))
    (Colors w → ∃ color, g.sections =
      f.sections.modify (sectionAt (a ++ b) (Text.byteSize a)) fun s => { s with color }) ∧
    (LaysOut w → g.sections = f.sections) ∧
    ∀ o, (∀ x, g.render? o x = f.render? o x) ∧ (∀ t, g.renderText o t = f.renderText o t) ∧
      ∀ v, g.renderValue o v = f.renderValue o v := by
  intro a b w
  have hn : a ++ b ≠ [] := by decide
  have hc : IsComplete (a ++ b) := by decide +kernel
  have hb : IsBoundary (a ++ b) (Text.byteSize a) := by decide +kernel
  have ht : Text.trimmed "cOLOR7".toList = "cOLOR".toList ++ Text.numeral 7 := by decide
  have hcolor : Bracket.NamesColor (Text.trimmed "cOLOR7".toList) := by
    rw [ht]
    exact .indexed (by decide) (by decide) (by decide)
  have he : w = '[' :: ("cOLOR7".toList ++ [']']) := by decide
  have hw : Colors w ∨ LaysOut w := by
    rw [he]
    exact .inl (.bracket (by decide) hcolor)
  exact ⟨⟨hn, hc, hb, hw⟩, parse_insert hn hc hb hw⟩

end NumberFormat

end SheetFormat
