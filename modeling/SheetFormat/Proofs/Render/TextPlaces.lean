import SheetFormat.Proofs.Render.Dispatch
import SheetFormat.Proofs.Render.Grouping

namespace SheetFormat

/-- What a number or a fraction shows, as the pieces of its parts: the General form stands in the
whole part of a number without an exponent, every other place of a text shows nothing. -/
inductive Body.Shows (locale : Locale) (general : Text) : Body → Text → Prop
  | number {l : NumberLayout} {front behind fractional : List Piece} (hl : l.exponent = none)
      (hf : Covers general l.front front) (hb : Covers general l.behind behind)
      (hp : Covers [] (l.fractional.getD []) fractional) :
      Shows locale general (.number l) (l.separate locale (shown front) ++ shown behind ++
        (l.pointText locale ++ shown fractional))
  | scientific {l : NumberLayout} {mark : ExponentMark} {parts : List NumberPart}
      {whole fractional exponent : List Piece} (sign : Text) (hl : l.exponent = some (mark, parts))
      (hw : Covers [] l.whole whole) (hp : Covers [] (l.fractional.getD []) fractional)
      (he : Covers [] parts exponent) :
      Shows locale general (.number l) (shown whole ++ (l.pointText locale ++ shown fractional) ++
        mark.letter :: sign ++ shown exponent)
  | fraction {l : FractionLayout} {whole suffix : List Piece} (x : MixedNumber)
      (hw : Covers [] l.whole whole) (hs : Covers [] l.suffix suffix) :
      Shows locale general (.fraction l) (shown whole ++ l.fractionText x ++ shown suffix)
  | bare {l : FractionLayout} {suffix : List Piece} (x : MixedNumber)
      (hw : l.whole.all FractionLayout.isOptional = true) (hs : Covers [] l.suffix suffix) :
      Shows locale general (.fraction l) (l.fractionText x ++ shown suffix)

structure NumberLayout.KeepsGeneral (l : NumberLayout) (x : Binary64) : Prop where
  exponent : l.exponent = none
  fractional : (l.fractional.getD []).countP Part.isText = 0
  grouped : l.scaling.grouped = true → l.front.countP Part.isText = 0 ∨ l.GroupsPlaceholders x

lemma exists_covers_spread (text : Text) (parts : List NumberPart) (digits : Text) :
    ∃ pieces, Covers text parts pieces ∧ spread text parts digits = shown pieces :=
  ⟨_, covers_spreadPieces text parts digits, (shown_spreadPieces text parts digits).symm⟩

lemma Covers.occursApart_separated {text : Text} {parts : List NumberPart} {pieces : List Piece}
    {gs : List Glyph} (h : Covers text parts pieces)
    (hs : Separated Glyph.isPlaced (Glyph.ofPieces pieces) gs) :
    text.OccursApart (parts.countP Part.isText) (gs.map Glyph.char) := by
  induction h generalizing gs with
  | nil => exact .zero _
  | @cons part p parts pieces hp _ ih =>
    rw [Glyph.ofPieces, List.flatMap_cons, ← Glyph.ofPieces] at hs
    cases part with
    | text =>
      rw [hp.part_eq, hp.fixed rfl] at hs
      have hn : ∀ g ∈ Glyph.ofText (.part .text) text, g.isPlaced = false := by
        intro g hg
        obtain ⟨c, -, rfl⟩ := List.mem_map.1 hg
        exact Bool.and_false _
      obtain ⟨ws, rfl, hw⟩ := hs.exists_rest_kept hn
      rw [List.map_append, Glyph.map_char_ofText, List.countP_cons_of_pos rfl, Nat.add_comm]
      exact text.occursApart_self.append (ih hw)
    | _ =>
      obtain ⟨ks, ws, rfl, hw⟩ := hs.exists_rest
      rw [List.map_append, List.countP_cons_of_neg (by simp [Part.isText])]
      exact (ih hw).prepend _

namespace NumberLayout

variable {l : NumberLayout} {locale : Locale}

lemma shows_render (l : NumberLayout) (locale : Locale) (x : Binary64) :
    Body.Shows locale (generalText x) (.number l) (l.render locale x) := by
  cases hl : l.exponent with
  | none =>
    rw [render_eq hl]
    exact .number hl (covers_spreadPieces ..) (covers_spreadPieces ..) (covers_fillPieces ..)
  | some e =>
    rw [render, hl]
    obtain ⟨whole, hw, hs⟩ := exists_covers_spread [] l.whole
      (significantDigits (Scientific.ofBinary64 l.places (l.scaling.apply x).reduced).whole)
    obtain ⟨exponent, he, hx⟩ := exists_covers_spread [] e.2 (significantDigits
      (Text.numeral (Scientific.ofBinary64 l.places (l.scaling.apply x).reduced).exponent.natAbs))
    dsimp only
    rw [scientific, hs, hx, pointed_eq]
    exact .scientific _ hl hw (covers_fillPieces ..) he

lemma countP_wholeParts (l : NumberLayout) :
    l.wholeParts.countP Part.isText = l.whole.countP Part.isText := by
  rw [wholeParts]
  split_ifs
  · rw [List.countP_append]
    rfl
  · rfl

lemma KeepsGeneral.occursApart_separate {x : Binary64} (h : l.KeepsGeneral x) :
    (generalText x).OccursApart (l.front.countP Part.isText)
      (l.separate locale (shown (l.frontPieces x))) := by
  have hc : Covers (generalText x) l.front (l.frontPieces x) := covers_spreadPieces ..
  rw [separate]
  split
  next hg =>
    rcases h.grouped hg with hn | hp
    · rw [hn]
      exact .zero _
    · rw [← Glyph.map_char_ofPieces, ← Glyph.map_char_grouped]
      exact hc.occursApart_separated (.of_grouped _ hp)
  next => exact hc.occursApart

lemma KeepsGeneral.occursApart {x : Binary64} (h : l.KeepsGeneral x) :
    (generalText x).OccursApart (l.whole.countP Part.isText) (l.render locale x) := by
  have hb : Covers (generalText x) l.behind (l.behindPieces x) := covers_spreadPieces ..
  rw [render_eq h.exponent, ← l.countP_wholeParts, ← l.front_append_behind, List.countP_append,
    ← Nat.add_zero (_ + _)]
  exact (h.occursApart_separate.append hb.occursApart).append (.zero _)

end NumberLayout

lemma FractionLayout.shows_render (l : FractionLayout) (locale : Locale) (general : Text)
    (x : Binary64) : Body.Shows locale general (.fraction l) (l.render x) := by
  obtain ⟨suffix, hs, he⟩ := exists_flatMap [] l.suffix
  have hw : ∀ digits mixed, Body.Shows locale general (.fraction l)
      (spread [] l.whole digits ++ l.fractionText mixed ++ shown suffix) := by
    intro digits mixed
    rw [← shown_spreadPieces]
    exact .fraction _ (covers_spreadPieces ..) hs
  rw [render, he, wholeText]
  split_ifs with hz hn ho
  · exact hw _ _
  · exact .bare _ ho hs
  · exact hw _ _
  · exact hw _ _

lemma generalText_abs {x : Binary64} (hx : x.isFinite = true) (hp : Binary64.le 0 x = true) :
    generalText x.abs = generalText x := by
  obtain ⟨s, m, rfl⟩ := Binary64.exists_finite hx
  cases s with
  | false => rfl
  | true =>
    have hm : m.quanta = 0 := by
      rw [Binary64.zero_le_iff] at hp
      simpa [Binary64.signed] using hp
    rw [Binary64.abs, generalText, generalText, if_pos hm, if_pos hm]

lemma Text.OccursApart.isInfix {t w : Text} {n : Nat} (h : t.OccursApart (n + 1) w) :
    t <:+: w := by
  cases h with
  | succ u h => exact ⟨u, _, rfl⟩

namespace Section

variable {s : Section} {x : Binary64}

lemma countP_digitParts (parts : List NumberPart) :
    (digitParts parts).countP Part.isText = parts.countP Part.isText := by
  rw [digitParts, List.countP_map]
  exact List.countP_congr fun p _ => by rw [Function.comp, isText_map]

lemma countP_parts {l : NumberLayout} (hb : s.body = .number l)
    (h : l.KeepsGeneral x) :
    s.record.parts.countP Part.isText = l.whole.countP Part.isText := by
  simp only [SectionRecord.parts, record, hb, h.exponent, List.countP_append, countP_digitParts,
    h.fractional]
  rfl

/-- A number that is not negative, through a section of digits: its General form stands at the
places of a text in the whole part, between the pieces of the other parts, and nothing stands at
other places. It stands at every place of the section if all are in the whole part and separators
of thousands keep out of it. -/
theorem renderNumber_places (hs : (∃ l, s.body = .number l) ∨ ∃ l, s.body = .fraction l)
    (hx : x.isFinite = true) (hp : Binary64.le 0 x = true) (unsigned : Bool) (o : Options) :
    ∃ t, s.renderNumber unsigned o x = .ok t ∧ s.body.Shows o.locale (generalText x) t ∧
      ∀ l, s.body = .number l → l.KeepsGeneral x.abs →
        (generalText x).OccursApart (s.record.parts.countP Part.isText) t := by
  have hn : signText (x.lt 0 && !unsigned) = [] := by
    rw [Binary64.lt_zero_of_nonneg hx hp]
    rfl
  rw [renderNumber, hn, ← generalText_abs hx hp]
  rcases hs with ⟨l, hb⟩ | ⟨l, hb⟩
  · rw [hb]
    refine ⟨_, rfl, l.shows_render o.locale x.abs, fun k hk h => ?_⟩
    obtain rfl : l = k := Body.number.inj hk
    rw [countP_parts hb h]
    exact h.occursApart
  · rw [hb]
    refine ⟨_, rfl, l.shows_render o.locale _ x.abs, fun k hk => ?_⟩
    cases hk

theorem renderNumber_places_twice :
    let l : NumberLayout := ⟨[.text, .literal ' ', .field .hash, .field .hash, .field .hash,
      .field .zero, .text], none, none, ⟨false, 0, true⟩⟩
    let s : Section := ⟨.number l, none⟩
    let x := Binary64.ofNat 2469 / .ofNat 2
    (NumberFormat.parse "@ #,##0@".toList).sections = [s] ∧ x.isFinite = true ∧
      Binary64.le 0 x = true ∧ l.KeepsGeneral x.abs ∧
      s.renderNumber false .standard x = .ok "1234.5 1,2351234.5".toList ∧
      (generalText x).OccursApart 2 "1234.5 1,2351234.5".toList := by
  intro l s x
  have hx : x.isFinite = true := by decide +kernel
  have hp : Binary64.le 0 x = true := by decide +kernel
  have hb : (∃ l, s.body = .number l) ∨ ∃ l, s.body = .fraction l := .inl ⟨l, rfl⟩
  have hg : l.GroupsPlaceholders x.abs := by
    rw [NumberLayout.GroupsPlaceholders]
    decide +kernel
  have hk : l.KeepsGeneral x.abs := ⟨rfl, rfl, fun _ => .inr hg⟩
  have hr : s.renderNumber false .standard x = .ok "1234.5 1,2351234.5".toList := by
    decide +kernel
  obtain ⟨t, ht, -, ho⟩ := renderNumber_places hb hx hp false .standard
  obtain rfl := Except.ok.inj (ht.symm.trans hr)
  exact ⟨by decide +kernel, hx, hp, hk, hr, ho l rfl hk⟩

theorem exists_lost_general :
    let x := Binary64.ofNat 1 / .ofNat 2
    (NumberFormat.parse "?/?@".toList).render? .standard x = .ok "1/2".toList ∧
      (NumberFormat.parse "@0E+0@".toList).render? .standard x = .ok "5E-1".toList ∧
      (NumberFormat.parse "0.0@".toList).render? .standard x = .ok "0.5".toList ∧
      (NumberFormat.parse "@#,##0".toList).render? .standard (.ofNat 1234) =
        .ok "12,341,234".toList ∧
      ¬∀ code o (y : Binary64) s, s ∈ (NumberFormat.parse code).sections →
        ((∃ l, s.body = .number l) ∨ ∃ l, s.body = .fraction l) →
          y.isFinite = true → Binary64.le 0 y = true →
            ∃ t, s.renderNumber false o y = .ok t ∧
              (generalText y).OccursApart (s.record.parts.countP Part.isText) t := by
  intro x
  refine ⟨by decide +kernel, by decide +kernel, by decide +kernel, by decide +kernel, fun h => ?_⟩
  let l : FractionLayout := ⟨[], [.question], .bestFit [.question], [.text], ⟨false, 0, false⟩⟩
  let s : Section := ⟨.fraction l, none⟩
  have hs : (NumberFormat.parse "?/?@".toList).sections = [s] := by decide +kernel
  have hr : s.renderNumber false .standard x = .ok "1/2".toList := by decide +kernel
  have hg : generalText x = "0.5".toList := by decide +kernel
  obtain ⟨t, ht, ho⟩ := h _ .standard x s (by rw [hs]; exact List.mem_singleton_self s)
    (.inr ⟨l, rfl⟩) (by decide +kernel) (by decide +kernel)
  obtain rfl := Except.ok.inj (ht.symm.trans hr)
  have hi := Text.OccursApart.isInfix (n := 0) ho
  rw [hg] at hi
  revert hi
  decide

end Section

end SheetFormat
