import SheetFormat.Proofs.Checked.Basic
import SheetFormat.Proofs.Format.Independence

/-! A token between two tokens of a complete code disturbs neither. -/

namespace SheetFormat

open Token

/-- A code whose quotes, brackets, escapes and gaps are all complete, of any number of sections. -/
def IsComplete (code : Text) : Prop :=
  ∀ x ∈ tokenize code, x.token = .separator ∨ x.isClosed = true

instance (code : Text) : Decidable (IsComplete code) :=
  inferInstanceAs
    (Decidable (∀ x ∈ tokenize code, x.token = .separator ∨ x.isClosed = true))

def IsBoundary (code : Text) (p : Nat) : Prop := ∃ x ∈ tokenize code, x.start = p

instance (code : Text) (p : Nat) : Decidable (IsBoundary code p) :=
  inferInstanceAs (Decidable (∃ x ∈ tokenize code, x.start = p))

def sectionAt (code : Text) (p : Nat) : Nat :=
  (tokenize code).countP fun x => x.token = .separator ∧ x.start < p

lemma byteSize_take_add_drop (t : Text) (i : Nat) :
    Text.byteSize (t.take i) + Text.byteSize (t.drop i) = Text.byteSize t := by
  rw [← Text.byteSize_append, List.take_append_drop]

def spelling (ts : List (Token × Text)) : Text := ts.flatMap Prod.snd

@[simp] lemma spelling_nil : spelling [] = [] := rfl

@[simp] lemma spelling_cons (t : Token × Text) (ts : List (Token × Text)) :
    spelling (t :: ts) = t.2 ++ spelling ts := rfl

lemma Spelled.spelling_eq {ts : List (Token × Text)} {code : Text} (h : Spelled ts code) :
    spelling ts = code := by
  induction h with
  | nil => rfl
  | cons _ _ ih => rw [spelling_cons, ih]

lemma Spelled.behind {ts us : List (Token × Text)} {code : Text} (h : Spelled (ts ++ us) code) :
    Spelled us (spelling us) := by
  induction ts generalizing code with
  | nil =>
    have hs : Spelled us code := h
    rwa [hs.spelling_eq]
  | cons t ts ih =>
    cases h with
    | cons _ hts => exact ih hts

lemma spelling_append (ts us : List (Token × Text)) :
    spelling (ts ++ us) = spelling ts ++ spelling us := List.flatMap_append

lemma placed_append (p : Nat) (ts us : List (Token × Text)) :
    placed p (ts ++ us) = placed p ts ++ placed (p + Text.byteSize (spelling ts)) us := by
  induction ts generalizing p with
  | nil => rfl
  | cons t ts ih =>
    simp only [List.cons_append, placed, ih, spelling_cons, Text.byteSize_append, Nat.add_assoc]

lemma le_start_of_placed {p : Nat} {ts : List (Token × Text)} {x : Lexeme}
    (hx : x ∈ placed p ts) : p ≤ x.start := by
  induction ts generalizing p with
  | nil => simp [placed] at hx
  | cons t ts ih =>
    rcases List.mem_cons.1 hx with rfl | hx
    · exact Nat.le_refl p
    · exact (Nat.le_add_right ..).trans (ih hx)

lemma Spelled.start_lt {ts us : List (Token × Text)} {code : Text} (h : Spelled (ts ++ us) code)
    {p : Nat} {x : Lexeme} (hx : x ∈ placed p ts) : x.start < p + Text.byteSize (spelling ts) := by
  induction ts generalizing code p with
  | nil => simp [placed] at hx
  | cons t ts ih =>
    cases h with
    | cons hs hts =>
      have hw := byteSize_pos hs.ne_nil
      rw [spelling_cons, Text.byteSize_append]
      rcases List.mem_cons.1 hx with rfl | hx
      · exact Nat.lt_add_of_pos_right (Nat.add_pos_left hw _)
      · rw [← Nat.add_assoc]
        exact ih hts hx

lemma exists_split_of_mem {p : Nat} {ts : List (Token × Text)} {x : Lexeme}
    (hx : x ∈ placed p ts) :
    ∃ ts₁ ts₂, ts = ts₁ ++ ts₂ ∧ x.start = p + Text.byteSize (spelling ts₁) := by
  induction ts generalizing p with
  | nil => simp [placed] at hx
  | cons t ts ih =>
    rcases List.mem_cons.1 hx with rfl | hx
    · exact ⟨[], t :: ts, rfl, rfl⟩
    · obtain ⟨ts₁, ts₂, rfl, hp⟩ := ih hx
      refine ⟨t :: ts₁, ts₂, rfl, ?_⟩
      rw [hp, spelling_cons, Text.byteSize_append, Nat.add_assoc]

lemma countP_placed (p : Nat) (ts : List (Token × Text)) :
    (placed p ts).countP (·.token = .separator) = (ts.map Prod.fst).count .separator := by
  induction ts generalizing p with
  | nil => rfl
  | cons t ts ih => simp [placed, List.countP_cons, List.count_cons, ih]

structure Breaks (t : Token) (w : Text) : Prop where
  spells : ∀ after, Spells t w after
  opens : ∃ y ∈ breaks, ∃ rest, w = y :: rest

lemma Breaks.spells_before {t u : Token} {w v a b : Text} (hw : Breaks u w)
    (h : Spells t v (a ++ b)) {p : Nat}
    (hc : t = .separator ∨ Lexeme.isClosed ⟨t, p, p + Text.byteSize v⟩ = true) :
    Spells t v (a ++ (w ++ b)) := by
  obtain ⟨y, hy, rest, rfl⟩ := hw.opens
  rcases hc with rfl | hc
  · cases h
    exact .separator _
  · exact (h.of_prefix (List.prefix_append a b)).before_break hc hy (rest ++ b)

lemma Spelled.insert {t : Token} {w : Text} (hw : Breaks t w) {ts us : List (Token × Text)}
    {code : Text} (h : Spelled (ts ++ us) code) {p : Nat}
    (hc : ∀ x ∈ placed p ts, x.token = .separator ∨ x.isClosed = true) :
    Spelled (ts ++ (t, w) :: us) (spelling ts ++ (w ++ spelling us)) := by
  induction ts generalizing code p with
  | nil => exact .cons (hw.spells _) h.behind
  | cons v ts ih =>
    obtain ⟨u, v⟩ := v
    cases h with
    | @cons _ _ after _ hs hts =>
      have hr := ih hts fun x hx => hc x (List.mem_cons_of_mem _ hx)
      have ha : after = spelling ts ++ spelling us := by
        rw [← spelling_append]
        exact hts.spelling_eq.symm
      rw [ha] at hs
      have hv := hw.spells_before hs (hc _ (List.mem_cons_self ..))
      rw [spelling_cons, List.append_assoc]
      exact .cons hv hr

lemma exists_split_at {a b : Text} (hb : IsBoundary (a ++ b) (Text.byteSize a)) :
    ∃ ts us, Spelled (ts ++ us) (a ++ b) ∧ spelling ts = a ∧ spelling us = b := by
  obtain ⟨x, hx, hp⟩ := hb
  obtain ⟨ts, hts⟩ := exists_spelled (a ++ b)
  have hz : ∃ ts₁ ts₂, ts = ts₁ ++ ts₂ ∧
      Text.byteSize (spelling ts₁) = Text.byteSize a := by
    rw [tokenize, lexemes_of_spelled hts, Nat.zero_add] at hx
    rcases List.mem_append.1 hx with hx | hx
    · obtain ⟨ts₁, ts₂, ht, hx⟩ := exists_split_of_mem hx
      exact ⟨ts₁, ts₂, ht, by omega⟩
    · obtain rfl := List.mem_singleton.1 hx
      refine ⟨ts, [], (List.append_nil ts).symm, ?_⟩
      rw [hts.spelling_eq]
      exact hp
  obtain ⟨ts₁, ts₂, rfl, hz⟩ := hz
  have he : spelling ts₁ ++ spelling ts₂ = a ++ b := by
    rw [← spelling_append, hts.spelling_eq]
  have ha : spelling ts₁ = a := by
    have h₁ := Checked.takeBytes?_append (spelling ts₁) (spelling ts₂)
    rw [he, hz, Checked.takeBytes?_append] at h₁
    exact (Option.some.inj h₁).symm
  refine ⟨ts₁, ts₂, hts, ha, ?_⟩
  rw [ha] at he
  exact List.append_cancel_left he

lemma sectionAt_eq {ts us : List (Token × Text)} {code : Text} (h : Spelled (ts ++ us) code)
    {p : Nat} (hp : Text.byteSize (spelling ts) ≤ p)
    (hn : ∀ x ∈ placed (Text.byteSize (spelling ts)) us, x.token = .separator → p ≤ x.start) :
    sectionAt code p = (ts.map Prod.fst).count .separator := by
  have hb : ∀ x ∈ placed 0 ts,
      (x.token = .separator ∧ x.start < p ↔ x.token = .separator) := by
    intro x hx
    have := h.start_lt hx
    exact and_iff_left (by omega)
  have ha : ∀ x ∈ placed (Text.byteSize (spelling ts)) us,
      ¬(x.token = .separator ∧ x.start < p) := by
    intro x hx hs
    exact Nat.not_lt.2 (hn x hx hs.1) hs.2
  have ht : (placed 0 ts).countP (fun x => x.token = .separator ∧ x.start < p) =
      (placed 0 ts).countP (·.token = .separator) := by
    apply List.countP_congr
    simpa using hb
  have hu : (placed (Text.byteSize (spelling ts)) us).countP
      (fun x => x.token = .separator ∧ x.start < p) = 0 := by
    rw [List.countP_eq_zero]
    simpa using ha
  rw [sectionAt, tokenize, lexemes_of_spelled h, placed_append, List.countP_append,
    List.countP_append, ← countP_placed 0, Nat.zero_add, hu, ht]
  rfl

namespace NumberFormat

lemma tokens_insert {a b w : Text} {t : Token} (hw : Breaks t w) (hc : IsComplete (a ++ b))
    (hb : IsBoundary (a ++ b) (Text.byteSize a)) :
    ∃ ts us, tokens (a ++ b) = ts ++ us ∧ tokens (a ++ (w ++ b)) = ts ++ t :: us ∧
      ts.count .separator = sectionAt (a ++ b) (Text.byteSize a) := by
  obtain ⟨ts, us, h, rfl, rfl⟩ := exists_split_at hb
  have hp : ∀ x ∈ placed 0 ts, x.token = .separator ∨ x.isClosed = true := by
    intro x hx
    apply hc x
    rw [tokenize, lexemes_of_spelled h, placed_append]
    exact List.mem_append_left _ (List.mem_append_left _ hx)
  have hi := h.insert hw hp
  refine ⟨ts.map Prod.fst, us.map Prod.fst, ?_, ?_, ?_⟩
  · rw [tokens_of_spelled h, List.map_append]
  · rw [tokens_of_spelled hi, List.map_append, List.map_cons]
  · exact (sectionAt_eq h le_rfl fun x hx _ => le_start_of_placed hx).symm

end NumberFormat

end SheetFormat
