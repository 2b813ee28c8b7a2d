import Mathlib.Data.List.Forall2
import SheetFormat.Proofs.Render.Pieces

namespace SheetFormat

section Related

variable {α β : Type} {R : α → β → Prop} {p : α → Bool} {q : β → Bool} {l : List α} {m : List β}

lemma forall₂_takeWhile (hp : ∀ a b, R a b → p a = q b) (h : List.Forall₂ R l m) :
    List.Forall₂ R (l.takeWhile p) (m.takeWhile q) := by
  induction h with
  | nil => exact .nil
  | @cons a b l m hab _ ih =>
    rw [List.takeWhile_cons, List.takeWhile_cons, hp a b hab]
    split
    · exact .cons hab ih
    · exact .nil

lemma forall₂_countP (hp : ∀ a b, R a b → p a = q b) (h : List.Forall₂ R l m) :
    l.countP p = m.countP q := by
  induction h with
  | nil => rfl
  | @cons a b l m hab _ ih => rw [List.countP_cons, List.countP_cons, ih, hp a b hab]

lemma forall₂_any (hp : ∀ a b, R a b → p a = q b) (h : List.Forall₂ R l m) :
    l.any p = m.any q := by
  induction h with
  | nil => rfl
  | @cons a b l m hab _ ih => rw [List.any_cons, List.any_cons, ih, hp a b hab]

lemma forall₂_dropWhile (hp : ∀ a b, R a b → p a = q b) (h : List.Forall₂ R l m) :
    List.Forall₂ R (l.dropWhile p) (m.dropWhile q) := by
  induction h with
  | nil => exact .nil
  | @cons a b l m hab h ih =>
    rw [List.dropWhile_cons, List.dropWhile_cons, hp a b hab]
    split
    · exact ih
    · exact .cons hab h

end Related

inductive Origin where
  | part (p : NumberPart)
  | point
  | separator
  deriving DecidableEq

structure Glyph where
  char : Char
  origin : Origin
  deriving DecidableEq

namespace Glyph

def isDigit (g : Glyph) : Bool := g.char.isDigit

def isPlaced (g : Glyph) : Bool :=
  g.isDigit &&
    match g.origin with
    | .part p => p.isField
    | _ => false

def ofText (origin : Origin) (t : Text) : List Glyph := t.map (⟨·, origin⟩)

def ofPieces (pieces : List Piece) : List Glyph :=
  pieces.flatMap fun p => ofText (.part p.part) p.text

def separated (separator : Char) : List Glyph → List Glyph
  | [] => []
  | g :: gs =>
    if gs.length % 3 = 0 ∧ gs ≠ [] then g :: ⟨separator, .separator⟩ :: separated separator gs
    else g :: separated separator gs

def grouped (p : Glyph → Bool) (separator : Char) (gs : List Glyph) : List Glyph :=
  beforeLastRun p gs ++ separated separator (lastRun p gs) ++ behindLastRun p gs

lemma ofPieces_append (pieces more : List Piece) :
    ofPieces (pieces ++ more) = ofPieces pieces ++ ofPieces more :=
  List.flatMap_append

lemma map_char_ofText (origin : Origin) (t : Text) : (ofText origin t).map char = t :=
  List.map_map.trans (List.map_id t)

lemma map_char_ofPieces (pieces : List Piece) : (ofPieces pieces).map char = shown pieces := by
  simp [ofPieces, shown, List.map_flatMap, map_char_ofText]

lemma map_char_separated (separator : Char) (gs : List Glyph) :
    (separated separator gs).map char = groupDigits separator (gs.map char) := by
  induction gs with
  | nil => rfl
  | cons g gs ih =>
    rw [separated, List.map_cons, groupDigits]
    simp only [List.length_map, ne_eq, List.map_eq_nil_iff]
    split
    · simp [ih]
    · simp [ih]

lemma map_char_grouped (separator : Char) (gs : List Glyph) :
    (grouped isDigit separator gs).map char = groupThousands separator (gs.map char) := by
  simp only [groupThousands_eq, grouped, List.map_append, map_char_separated, beforeLastRun,
    lastRun, behindLastRun, ← List.map_reverse, List.takeWhile_map, List.dropWhile_map]
  rfl

end Glyph

inductive Separated (p : Glyph → Bool) : List Glyph → List Glyph → Prop
  | nil : Separated p [] []
  | keep (g : Glyph) {gs hs : List Glyph} (h : Separated p gs hs) : Separated p (g :: gs) (g :: hs)
  | insert {g k : Glyph} (c : Char) {gs hs : List Glyph} (hg : p g = true) (hk : p k = true)
      (h : Separated p (k :: gs) (k :: hs)) :
      Separated p (g :: k :: gs) (g :: ⟨c, .separator⟩ :: k :: hs)

namespace Separated

variable {p : Glyph → Bool} {gs hs us vs : List Glyph}

lemma refl (gs : List Glyph) : Separated p gs gs := by
  induction gs with
  | nil => exact .nil
  | cons g gs ih => exact .keep g ih

lemma append (h : Separated p gs hs) (hu : Separated p us vs) :
    Separated p (gs ++ us) (hs ++ vs) := by
  induction h with
  | nil => exact hu
  | keep g _ ih => exact .keep g ih
  | insert c hg hk _ ih => exact .insert c hg hk ih

lemma of_separated (separator : Char) (h : ∀ g ∈ gs, p g = true) :
    Separated p gs (Glyph.separated separator gs) := by
  induction gs with
  | nil => exact .nil
  | cons g gs ih =>
    have hs := ih fun k hk => h k (List.mem_cons_of_mem g hk)
    cases gs with
    | nil => exact .keep g hs
    | cons k gs =>
      obtain ⟨rest, hr⟩ : ∃ rest, Glyph.separated separator (k :: gs) = k :: rest := by
        rw [Glyph.separated]
        split
        · exact ⟨_, rfl⟩
        · exact ⟨_, rfl⟩
      rw [Glyph.separated, hr]
      rw [hr] at hs
      split
      · exact .insert separator (h g (by simp)) (h k (by simp)) hs
      · exact .keep g hs

lemma of_grouped {q : Glyph → Bool} (separator : Char) (h : ∀ g ∈ lastRun q gs, p g = true) :
    Separated p gs (Glyph.grouped q separator gs) := by
  conv => lhs; rw [← lastRun_cut q gs]
  exact ((refl _).append (of_separated separator h)).append (refl _)

lemma head_eq {g k : Glyph} (h : Separated p (g :: gs) (k :: hs)) : k = g := by
  cases h <;> rfl

lemma exists_rest (h : Separated p (us ++ vs) hs) :
    ∃ ks ws, hs = ks ++ ws ∧ Separated p vs ws := by
  induction us generalizing hs with
  | nil => exact ⟨[], hs, rfl, h⟩
  | cons g us ih =>
    generalize hr : g :: us ++ vs = gs at h
    cases h with
    | nil => cases hr
    | keep k h =>
      obtain ⟨rfl, rfl⟩ := List.cons.inj hr
      obtain ⟨ks, ws, rfl, hw⟩ := ih h
      exact ⟨g :: ks, ws, rfl, hw⟩
    | @insert _ k c _ rest _ _ h =>
      obtain ⟨rfl, hv⟩ := List.cons.inj hr
      obtain ⟨ks, ws, hk, hw⟩ := ih (hv ▸ h)
      exact ⟨g :: ⟨c, .separator⟩ :: ks, ws, congrArg (g :: ⟨c, .separator⟩ :: ·) hk, hw⟩

lemma exists_rest_kept (h : Separated p (us ++ vs) hs) (hu : ∀ g ∈ us, p g = false) :
    ∃ ws, hs = us ++ ws ∧ Separated p vs ws := by
  induction us generalizing hs with
  | nil => exact ⟨hs, rfl, h⟩
  | cons g us ih =>
    generalize hr : g :: us ++ vs = gs at h
    cases h with
    | nil => cases hr
    | keep k h =>
      obtain ⟨rfl, rfl⟩ := List.cons.inj hr
      obtain ⟨ws, rfl, hw⟩ := ih h fun k hk => hu k (List.mem_cons_of_mem g hk)
      exact ⟨ws, rfl, hw⟩
    | insert c hg =>
      obtain ⟨rfl, -⟩ := List.cons.inj hr
      rw [hu g (List.mem_cons_self ..)] at hg
      cases hg

end Separated

inductive Part.Alike (R : Char → Char → Prop) : NumberPart → NumberPart → Prop
  | same (p : NumberPart) : Alike R p p
  | literal {c d : Char} (h : R c d) : Alike R (.literal c) (.literal d)

inductive Glyph.Alike (R : Char → Char → Prop) : Glyph → Glyph → Prop
  | same (g : Glyph) : Alike R g g
  | literal {c d : Char} (h : R c d) :
      Alike R ⟨c, .part (.literal c)⟩ ⟨d, .part (.literal d)⟩

section Alike

variable {R : Char → Char → Prop} {parts others : List NumberPart} {gs hs : List Glyph}

lemma Part.Alike.isField_eq {p q : NumberPart} (h : Part.Alike R p q) :
    p.isField = q.isField := by
  cases h <;> rfl

lemma Glyph.Alike.mono {S : Char → Char → Prop} (hr : ∀ c d, R c d → S c d) {g h : Glyph}
    (ha : Glyph.Alike R g h) : Glyph.Alike S g h := by
  cases ha with
  | same => exact .same g
  | literal hc => exact .literal (hr _ _ hc)

lemma alike_refl (gs : List Glyph) : List.Forall₂ (Glyph.Alike R) gs gs :=
  List.forall₂_same.2 fun g _ => .same g

lemma placeholderCount_alike (h : List.Forall₂ (Part.Alike R) parts others) :
    placeholderCount parts = placeholderCount others :=
  forall₂_countP (fun _ _ => Part.Alike.isField_eq) h

lemma alike_spreadPieces (text : Text) (h : List.Forall₂ (Part.Alike R) parts others)
    (digits : Text) :
    List.Forall₂ (Glyph.Alike R) (Glyph.ofPieces (spreadPieces text parts digits))
      (Glyph.ofPieces (spreadPieces text others digits)) := by
  induction h generalizing digits with
  | nil => exact .nil
  | @cons p q parts others hp h ih =>
    cases hp with
    | same =>
      cases p with
      | field p =>
        rw [spreadPieces, spreadPieces, placeholderCount_alike h]
        exact List.rel_append (alike_refl _) (ih _)
      | _ => exact List.rel_append (alike_refl _) (ih _)
    | literal hc => exact .cons (.literal hc) (ih _)

lemma alike_fillPieces (h : List.Forall₂ (Part.Alike R) parts others) (digits : Text) :
    List.Forall₂ (Glyph.Alike R) (Glyph.ofPieces (fillPieces parts digits))
      (Glyph.ofPieces (fillPieces others digits)) := by
  induction h generalizing digits with
  | nil => exact .nil
  | @cons p q parts others hp h ih =>
    cases hp with
    | same =>
      cases p with
      | field p => cases digits <;> exact List.rel_append (alike_refl _) (ih _)
      | _ => exact List.rel_append (alike_refl _) (ih _)
    | literal hc => exact .cons (.literal hc) (ih _)

lemma alike_separated (separator : Char) (h : List.Forall₂ (Glyph.Alike R) gs hs) :
    List.Forall₂ (Glyph.Alike R) (Glyph.separated separator gs)
      (Glyph.separated separator hs) := by
  induction h with
  | nil => exact .nil
  | @cons g k gs hs hg h ih =>
    have hn : gs = [] ↔ hs = [] := by
      rw [← List.length_eq_zero_iff, h.length_eq, List.length_eq_zero_iff]
    rw [Glyph.separated, Glyph.separated, h.length_eq]
    simp only [ne_eq, hn]
    split
    · exact .cons hg (.cons (.same _) ih)
    · exact .cons hg ih

lemma alike_grouped {p : Glyph → Bool} (hp : ∀ g k, Glyph.Alike R g k → p g = p k)
    (separator : Char) (h : List.Forall₂ (Glyph.Alike R) gs hs) :
    List.Forall₂ (Glyph.Alike R) (Glyph.grouped p separator gs)
      (Glyph.grouped p separator hs) := by
  have hn : ∀ g k, Glyph.Alike R g k → (!p g) = !p k := fun g k hg => congrArg Bool.not (hp g k hg)
  have hr := List.rel_reverse h
  have hf := forall₂_dropWhile hn hr
  apply List.rel_append
  · apply List.rel_append
    · exact List.rel_reverse (forall₂_dropWhile hp hf)
    · exact alike_separated separator (List.rel_reverse (forall₂_takeWhile hp hf))
  · exact List.rel_reverse (forall₂_takeWhile hn hr)

lemma isDigit_alike (g k : Glyph) (h : Glyph.Alike (fun c d => c.isDigit = d.isDigit) g k) :
    g.isDigit = k.isDigit := by
  cases h with
  | same => rfl
  | literal hc => exact hc

lemma isPlaced_alike (g k : Glyph) (h : Glyph.Alike R g k) : g.isPlaced = k.isPlaced := by
  cases h with
  | same => rfl
  | literal => simp [Glyph.isPlaced, Part.isField]

end Alike

namespace NumberLayout

variable (l : NumberLayout)

def frontGlyphs (x : Binary64) : List Glyph := Glyph.ofPieces (l.frontPieces x)

def glyphs (locale : Locale) (x : Binary64) : List Glyph :=
  (if l.scaling.grouped then Glyph.grouped Glyph.isDigit locale.thousands (l.frontGlyphs x)
  else l.frontGlyphs x) ++ Glyph.ofPieces (l.behindPieces x) ++
    (Glyph.ofText .point (l.pointText locale) ++ Glyph.ofPieces (l.fractionalPieces (l.digits x).2))

def ungrouped : NumberLayout := { l with scaling := { l.scaling with grouped := false } }

def GroupsPlaceholders (x : Binary64) : Prop :=
  ∀ g ∈ lastRun Glyph.isDigit (l.frontGlyphs x), g.isPlaced = true

structure Alike (l m : NumberLayout) : Prop where
  whole : List.Forall₂ (Part.Alike fun _ _ => True) l.whole m.whole
  fractional : Option.Rel (List.Forall₂ (Part.Alike fun _ _ => True)) l.fractional m.fractional
  exponent : l.exponent = m.exponent
  scaling : l.scaling = m.scaling

/-- Up to the last placeholder, literals that are digits stand for one another only, or both
layouts group digits of placeholders. -/
def GroupsAlike (m : NumberLayout) (x : Binary64) : Prop :=
  List.Forall₂ (Part.Alike fun c d => c.isDigit = d.isDigit) l.front m.front ∨
    l.GroupsPlaceholders x ∧ m.GroupsPlaceholders x

variable {l} {m : NumberLayout}

lemma map_char_glyphs (h : l.exponent = none) (locale : Locale) (x : Binary64) :
    (l.glyphs locale x).map Glyph.char = l.render locale x := by
  rw [glyphs, render_eq h, separate]
  split <;>
    simp only [List.map_append, Glyph.map_char_grouped, Glyph.map_char_ofPieces,
      Glyph.map_char_ofText, frontGlyphs]

lemma GroupsPlaceholders.grouped_eq {x : Binary64} (h : l.GroupsPlaceholders x)
    (separator : Char) : Glyph.grouped Glyph.isDigit separator (l.frontGlyphs x) =
      Glyph.grouped Glyph.isPlaced separator (l.frontGlyphs x) := by
  have hd : ∀ g : Glyph, g.isPlaced = true → g.isDigit = true :=
    fun g hg => (Bool.and_eq_true_iff.1 hg).1
  obtain ⟨hb, hr, hf⟩ := lastRun_stricter hd h
  rw [Glyph.grouped, Glyph.grouped, hb, hr, hf]

lemma separated_glyphs {p : Glyph → Bool} {x : Binary64}
    (h : ∀ g ∈ lastRun Glyph.isDigit (l.frontGlyphs x), p g = true) (locale : Locale) :
    Separated p (l.ungrouped.glyphs locale x) (l.glyphs locale x) := by
  rw [glyphs, glyphs]
  refine (Separated.append ?_ (.refl _)).append (.refl _)
  split
  next => contradiction
  next =>
    split
    · exact .of_grouped _ h
    · exact .refl _

lemma exists_covers (l : NumberLayout) (locale : Locale) (x : Binary64) :
    ∃ whole fractional, Covers (generalText x) l.wholeParts whole ∧
      Covers [] (l.fractional.getD []) fractional ∧ l.ungrouped.glyphs locale x =
        Glyph.ofPieces whole ++ (Glyph.ofText .point (l.pointText locale) ++
          Glyph.ofPieces fractional) := by
  have hw : Covers (generalText x) (l.front ++ l.behind) (l.frontPieces x ++ l.behindPieces x) :=
    Covers.append (covers_spreadPieces ..) (covers_spreadPieces ..)
  rw [l.front_append_behind] at hw
  refine ⟨_, _, hw, covers_fillPieces _ (l.digits x).2, ?_⟩
  rw [Glyph.ofPieces_append]
  rfl

namespace Alike

lemma getD_fractional (h : l.Alike m) :
    List.Forall₂ (Part.Alike fun _ _ => True) (l.fractional.getD []) (m.fractional.getD []) := by
  have hf := h.fractional
  revert hf
  cases l.fractional <;> cases m.fractional <;> intro hf <;> cases hf
  · exact .nil
  · assumption

lemma isSome_fractional (h : l.Alike m) : l.fractional.isSome = m.fractional.isSome := by
  have hf := h.fractional
  revert hf
  cases l.fractional <;> cases m.fractional <;> intro hf <;> cases hf <;> rfl

lemma wholeParts (h : l.Alike m) :
    List.Forall₂ (Part.Alike fun _ _ => True) l.wholeParts m.wholeParts := by
  rw [NumberLayout.wholeParts, NumberLayout.wholeParts, h.isSome_fractional,
    placeholderCount_alike h.whole]
  split_ifs
  · exact List.rel_append h.whole (.cons (.same _) .nil)
  · exact h.whole

lemma front_and_behind (h : l.Alike m) :
    List.Forall₂ (Part.Alike fun _ _ => True) l.front m.front ∧
      List.Forall₂ (Part.Alike fun _ _ => True) l.behind m.behind := by
  have hf : ∀ p q : NumberPart, Part.Alike (fun _ _ => True) p q → (!p.isField) = !q.isField :=
    fun p q hp => congrArg Bool.not hp.isField_eq
  have ha : l.wholeParts.any Part.isField = m.wholeParts.any Part.isField :=
    forall₂_any (fun _ _ hp => hp.isField_eq) h.wholeParts
  have hr := List.rel_reverse h.wholeParts
  rw [front, front, behind, behind, ha]
  split_ifs
  · exact ⟨List.rel_reverse (forall₂_dropWhile hf hr), List.rel_reverse (forall₂_takeWhile hf hr)⟩
  · exact ⟨h.wholeParts, .nil⟩

lemma digits_eq (h : l.Alike m) (x : Binary64) : l.digits x = m.digits x := by
  have hp : l.places = m.places := placeholderCount_alike h.getD_fractional
  rw [digits, digits, hp, h.scaling]

lemma frontGlyphs (h : l.Alike m) {R : Char → Char → Prop}
    (hf : List.Forall₂ (Part.Alike R) l.front m.front) (x : Binary64) :
    List.Forall₂ (Glyph.Alike R) (l.frontGlyphs x) (m.frontGlyphs x) := by
  rw [NumberLayout.frontGlyphs, NumberLayout.frontGlyphs, frontPieces, frontPieces, h.digits_eq]
  exact alike_spreadPieces _ hf _

lemma grouped (h : l.Alike m) {x : Binary64} (hg : l.GroupsAlike m x) (separator : Char) :
    List.Forall₂ (Glyph.Alike fun _ _ => True)
      (Glyph.grouped Glyph.isDigit separator (l.frontGlyphs x))
      (Glyph.grouped Glyph.isDigit separator (m.frontGlyphs x)) := by
  rcases hg with hf | ⟨hl, hm⟩
  · refine (alike_grouped isDigit_alike separator (h.frontGlyphs hf x)).imp fun _ _ hk => ?_
    exact hk.mono fun _ _ _ => trivial
  · rw [hl.grouped_eq, hm.grouped_eq]
    exact alike_grouped isPlaced_alike separator (h.frontGlyphs h.front_and_behind.1 x)

lemma glyphs (h : l.Alike m) {x : Binary64} (hg : l.GroupsAlike m x) (locale : Locale) :
    List.Forall₂ (Glyph.Alike fun _ _ => True) (l.glyphs locale x) (m.glyphs locale x) := by
  have hb := alike_spreadPieces (generalText x) h.front_and_behind.2 []
  have hp := alike_fillPieces h.getD_fractional (m.digits x).2
  have ht : l.pointText locale = m.pointText locale := by
    rw [pointText, pointText, h.isSome_fractional]
  rw [NumberLayout.glyphs, NumberLayout.glyphs, h.scaling, ht, fractionalPieces, h.digits_eq]
  refine List.rel_append (List.rel_append ?_ hb) (List.rel_append (alike_refl _) hp)
  split
  · exact h.grouped hg _
  · exact h.frontGlyphs h.front_and_behind.1 x

end Alike

/-- Separators stand between two digits in what the layout shows without them. If nothing but
placeholders shows the digits that are grouped, they stand between digits of placeholders, and all
other text is shown as it is. Layouts that differ in literals then differ in the characters of
these literals only, and so do layouts whose literals are digits in the same places. -/
theorem render_separates (h : l.exponent = none) (locale : Locale) (x : Binary64) :
    (l.glyphs locale x).map Glyph.char = l.render locale x ∧
      (∃ whole fractional, Covers (generalText x) l.wholeParts whole ∧
        Covers [] (l.fractional.getD []) fractional ∧ l.ungrouped.glyphs locale x =
          Glyph.ofPieces whole ++ (Glyph.ofText .point (l.pointText locale) ++
            Glyph.ofPieces fractional)) ∧
      Separated Glyph.isDigit (l.ungrouped.glyphs locale x) (l.glyphs locale x) ∧
      (l.GroupsPlaceholders x →
        Separated Glyph.isPlaced (l.ungrouped.glyphs locale x) (l.glyphs locale x) ∧
          ∀ t, (∀ g ∈ t, g.isPlaced = false) → t <:+: l.ungrouped.glyphs locale x →
            t <:+: l.glyphs locale x) ∧
      ∀ m, l.Alike m → l.GroupsAlike m x → (l.render locale x).length = (m.render locale x).length ∧
        List.Forall₂ (Glyph.Alike fun _ _ => True) (l.glyphs locale x) (m.glyphs locale x) := by
  refine ⟨map_char_glyphs h locale x, exists_covers l locale x,
    separated_glyphs (fun g hg => of_mem_lastRun hg) locale, fun hg => ?_, fun m hm ha => ?_⟩
  · have hs := separated_glyphs hg locale
    refine ⟨hs, fun t ht hi => ?_⟩
    obtain ⟨u, w, hu⟩ := hi
    rw [← hu, List.append_assoc] at hs
    obtain ⟨k, r, hk, hr⟩ := hs.exists_rest
    obtain ⟨v, rfl, -⟩ := hr.exists_rest_kept ht
    exact ⟨k, v, by rw [hk, List.append_assoc]⟩
  · have hg := hm.glyphs ha locale
    refine ⟨?_, hg⟩
    rw [← map_char_glyphs h, ← map_char_glyphs (hm.exponent ▸ h), List.length_map, List.length_map]
    exact hg.length_eq

theorem render_separates_area :
    let l : NumberLayout := ⟨[.literal '1', .literal ' ', .field .hash, .field .hash, .field .hash,
      .field .zero, .literal 'm', .literal '2'], none, none, ⟨false, 0, true⟩⟩
    let m : NumberLayout := ⟨[.literal 'a', .literal ':', .field .hash, .field .hash, .field .hash,
      .field .zero, .literal 'f', .literal 't'], none, none, ⟨false, 0, true⟩⟩
    let locale := Options.standard.locale
    let x := Binary64.ofNat 1234
    (NumberFormat.parse "\"1 \"#,##0\"m2\"".toList).sections = [⟨.number l, none⟩] ∧
      l.exponent = none ∧ l.GroupsPlaceholders x ∧ l.Alike m ∧ l.GroupsAlike m x ∧
      l.render locale x = "1 1,234m2".toList ∧ m.render locale x = "a:1,234ft".toList ∧
      Separated Glyph.isPlaced (l.ungrouped.glyphs locale x) (l.glyphs locale x) ∧
      List.Forall₂ (Glyph.Alike fun _ _ => True) (l.glyphs locale x) (m.glyphs locale x) := by
  intro l m locale x
  have hl : l.GroupsPlaceholders x := by
    rw [GroupsPlaceholders]
    decide +kernel
  have hm : m.GroupsPlaceholders x := by
    rw [GroupsPlaceholders]
    decide +kernel
  have ha : l.Alike m := by
    refine ⟨?_, .none, rfl, rfl⟩
    exact .cons (.literal trivial) (.cons (.literal trivial) (.cons (.same _) (.cons (.same _)
      (.cons (.same _) (.cons (.same _) (.cons (.literal trivial)
        (.cons (.literal trivial) .nil)))))))
  obtain ⟨-, -, -, hs, hg⟩ := render_separates (l := l) rfl locale x
  exact ⟨by decide +kernel, rfl, hl, ha, .inr ⟨hl, hm⟩, by decide +kernel, by decide +kernel,
    (hs hl).1, (hg m ha (.inr ⟨hl, hm⟩)).2⟩

theorem exists_grouped_literal :
    let l : NumberLayout := ⟨[.literal '1', .field .hash, .field .hash, .field .hash,
      .field .zero], none, none, ⟨false, 0, true⟩⟩
    let m : NumberLayout := ⟨[.literal 'a', .field .hash, .field .hash, .field .hash,
      .field .zero], none, none, ⟨false, 0, true⟩⟩
    let locale := Options.standard.locale
    let x := Binary64.ofNat 234
    (NumberFormat.parse "\"1\"#,##0".toList).sections = [⟨.number l, none⟩] ∧
      (NumberFormat.parse "\"a\"#,##0".toList).sections = [⟨.number m, none⟩] ∧
      l.Alike m ∧ l.render locale x = "1,234".toList ∧ m.render locale x = "a234".toList ∧
      (NumberFormat.parse "\"12345 \"#,###".toList).render? .standard (.ofNat 0) =
        .ok "12,345 ".toList ∧
      ¬Separated Glyph.isPlaced (l.ungrouped.glyphs locale x) (l.glyphs locale x) := by
  intro l m locale x
  have ha : l.Alike m := by
    refine ⟨?_, .none, rfl, rfl⟩
    exact .cons (.literal trivial) (.cons (.same _) (.cons (.same _) (.cons (.same _)
      (.cons (.same _) .nil))))
  refine ⟨by decide +kernel, by decide +kernel, ha, by decide +kernel, by decide +kernel,
    by decide +kernel, fun hs => ?_⟩
  let one : Glyph := ⟨'1', .part (.literal '1')⟩
  have hu : l.ungrouped.glyphs locale x = [one] ++ [⟨'2', .part (.field .hash)⟩,
      ⟨'3', .part (.field .hash)⟩, ⟨'4', .part (.field .zero)⟩] := by decide +kernel
  have hg : l.glyphs locale x = one :: ⟨',', .separator⟩ :: [⟨'2', .part (.field .hash)⟩,
      ⟨'3', .part (.field .hash)⟩, ⟨'4', .part (.field .zero)⟩] := by decide +kernel
  rw [hu, hg] at hs
  obtain ⟨ws, hw, hs⟩ := hs.exists_rest_kept (by decide)
  obtain rfl := (List.cons.inj hw).2
  exact absurd hs.head_eq (by decide)

end NumberLayout

end SheetFormat
