import SheetFormat.Proofs.Checked.Render
import SheetFormat.Proofs.Number.Scientific
import SheetFormat.Proofs.Render.Grouping
import SheetFormat.Proofs.Render.Placeholders

namespace SheetFormat

open Text

attribute [local instance (2000)] instPowNat

/-- A text for parts whose placeholders show digits, behind the blanks of those that are left; there
may be separators between two digits. -/
def ShowsDigits (parts : List NumberPart) (digits t : Text) : Prop :=
  ∃ text pieces glyphs, Covers text parts pieces ∧
    Separated Glyph.isDigit (Glyph.ofPieces pieces) glyphs ∧ t = glyphs.map Glyph.char ∧
    placeholderText pieces =
      ((placeholders parts).take (placeholderCount parts - digits.length)).flatMap
        Placeholder.blank ++ digits

section Shown

variable {parts : List NumberPart} {part : NumberPart} {pieces : List Piece} {digits t : Text}
  {gs hs : List Glyph} {p : Glyph → Bool}

lemma Separated.sublist (h : Separated p gs hs) : gs.Sublist hs := by
  induction h with
  | nil => exact .slnil
  | keep g _ ih => exact ih.cons_cons g
  | @insert g k c gs hs _ _ _ ih => exact (ih.cons ⟨c, .separator⟩).cons_cons g

lemma ShowsDigits.sublist (h : ShowsDigits parts digits t) : digits.Sublist t := by
  obtain ⟨text, pieces, glyphs, -, hs, rfl, hp⟩ := h
  have hg := hs.sublist.map Glyph.char
  rw [Glyph.map_char_ofPieces] at hg
  have hd : digits.Sublist (placeholderText pieces) := by
    rw [hp]
    exact List.sublist_append_right _ _
  exact hd.trans ((placeholderText_sublist pieces).trans hg)

lemma showsDigits_spread (hc : placeholderCount parts ≠ 0) (text digits : Text) :
    ShowsDigits parts digits (spread text parts digits) := by
  refine ⟨text, spreadPieces text parts digits, _, covers_spreadPieces text parts digits, .refl _,
    ?_, ?_⟩
  · rw [Glyph.map_char_ofPieces, shown_spreadPieces]
  · rw [placeholderText_spreadPieces, if_neg hc]

end Shown

namespace NumberLayout

variable {l : NumberLayout}

def wholeDigits (l : NumberLayout) (x : Binary64) : Text :=
  match l.exponent with
  | none => ((l.scaling.apply x).splitRounded l.places).1
  | some _ => (Scientific.ofBinary64 l.places (l.scaling.apply x).reduced).whole

lemma placeholderCount_wholeParts (h : l.fractional.isSome = true) :
    placeholderCount l.wholeParts ≠ 0 := by
  rw [wholeParts]
  split_ifs with hc
  · rw [placeholderCount, List.countP_append]
    exact Nat.succ_ne_zero _
  · exact fun h0 => hc ⟨h, h0⟩

lemma wholeParts_of_count (h : placeholderCount l.whole ≠ 0) : l.wholeParts = l.whole :=
  if_neg fun hc => h hc.2

lemma showsDigits_grouped (hc : placeholderCount l.wholeParts ≠ 0) (locale : Locale)
    (text digits : Text) :
    ShowsDigits l.wholeParts digits (l.grouped locale text digits) := by
  have hb := l.placeholderCount_behind
  have hcount : placeholderCount l.front = placeholderCount l.wholeParts := by
    rw [← l.front_append_behind, placeholderCount, placeholderCount, List.countP_append]
    exact (congrArg (List.countP Part.isField l.front + ·) hb).symm
  have hp : placeholders l.front = placeholders l.wholeParts := by
    rw [← l.front_append_behind, placeholders, placeholders, List.filterMap_append]
    exact ((congrArg (placeholders l.front ++ ·) (placeholders_of_count hb)).trans
      (List.append_nil _)).symm
  have hw : Covers text (l.front ++ l.behind)
      (spreadPieces text l.front digits ++ spreadPieces text l.behind []) :=
    Covers.append (covers_spreadPieces ..) (covers_spreadPieces ..)
  rw [l.front_append_behind] at hw
  let gs := Glyph.ofPieces (spreadPieces text l.front digits)
  refine ⟨text, _, (if l.scaling.grouped then Glyph.grouped Glyph.isDigit locale.thousands gs
    else gs) ++ Glyph.ofPieces (spreadPieces text l.behind []), hw, ?_, ?_, ?_⟩
  · rw [Glyph.ofPieces_append]
    refine Separated.append ?_ (.refl _)
    split_ifs
    · exact .of_grouped _ fun g hg => of_mem_lastRun hg
    · exact .refl _
  · rw [grouped, separate, List.map_append, Glyph.map_char_ofPieces, shown_spreadPieces]
    congr 1
    split_ifs
    · rw [Glyph.map_char_grouped, Glyph.map_char_ofPieces, shown_spreadPieces]
    · rw [Glyph.map_char_ofPieces, shown_spreadPieces]
  · rw [placeholderText_append, placeholderText_spreadPieces, placeholderText_spreadPieces,
      if_pos hb, hcount, if_neg hc, hp, List.append_nil]

lemma pointed_of_isSome (h : l.fractional.isSome = true) (locale : Locale) (digits : Text) :
    ∃ rest, l.pointed locale digits = locale.decimal :: rest := by
  obtain ⟨parts, hp⟩ := Option.isSome_iff_exists.1 h
  exact ⟨_, by rw [pointed, hp]⟩

lemma scientific_front (h : l.fractional.isSome = true) (locale : Locale) (mark : ExponentMark)
    (parts : List NumberPart) (x : Binary64) :
    ∃ rest, l.scientific locale mark parts x =
      spread [] l.whole (significantDigits (Scientific.ofBinary64 l.places x.reduced).whole) ++
        locale.decimal :: rest := by
  obtain ⟨rest, hr⟩ := l.pointed_of_isSome h locale
    (Scientific.ofBinary64 l.places x.reduced).fraction
  rw [scientific, hr, List.append_assoc, List.append_assoc]
  exact ⟨_, rfl⟩

lemma render_front (h : l.fractional.isSome = true) (locale : Locale) (x : Binary64) :
    ∃ front rest, l.render locale x = front ++ locale.decimal :: rest ∧
      (l.exponent = none ∨ placeholderCount l.whole ≠ 0 →
        ShowsDigits l.wholeParts (significantDigits (l.wholeDigits x)) front) ∧
      (l.exponent ≠ none → placeholderCount l.whole = 0 →
        front = l.whole.flatMap (fixedText [])) := by
  cases he : l.exponent with
  | none =>
    let whole := ((l.scaling.apply x).splitRounded l.places).1
    obtain ⟨rest, hr⟩ := l.pointed_of_isSome h locale ((l.scaling.apply x).splitRounded l.places).2
    refine ⟨l.grouped locale (generalText x) (significantDigits whole), rest, ?_, fun _ => ?_,
      fun hn => absurd rfl hn⟩
    · rw [render, he]
      exact congrArg (_ ++ ·) hr
    · rw [wholeDigits, he]
      exact l.showsDigits_grouped (placeholderCount_wholeParts h) locale _ _
  | some e =>
    obtain ⟨mark, parts⟩ := e
    obtain ⟨rest, hr⟩ := l.scientific_front h locale mark parts (l.scaling.apply x)
    refine ⟨_, rest, by rw [render, he]; exact hr, fun hc => ?_, fun _ hc => ?_⟩
    · have hc := hc.resolve_left (Option.some_ne_none _)
      rw [wholeDigits, he, wholeParts_of_count hc]
      exact showsDigits_spread hc _ _
    · exact spread_of_no_field [] _ (by simpa [placeholderCount, List.countP_eq_zero] using hc)

lemma wholeDigits_eq {x : Binary64} {m : Magnitude}
    (hm : (l.scaling.apply x).reduced = .finite false m) :
    (l.exponent = none →
        l.wholeDigits x = numeral (m.shortest.roundAt l.places / 10 ^ l.places)) ∧
      (l.exponent ≠ none → m.quanta ≠ 0 → ∃ d, 0 < d ∧ d < 10 ∧ l.wholeDigits x = numeral d) := by
  cases he : l.exponent with
  | none =>
    refine ⟨fun _ => ?_, fun hn => absurd rfl hn⟩
    rw [wholeDigits, he]
    dsimp only
    rw [Binary64.splitRounded, hm]
    rfl
  | some e =>
    refine ⟨fun hn => absurd hn (Option.some_ne_none _), fun _ hq => ?_⟩
    obtain ⟨⟨⟨d, h0, h9, hd⟩, -, -⟩, -⟩ := Scientific.ofBinary64_normal hq false l.places
    refine ⟨d, h0, h9, ?_⟩
    rw [wholeDigits, he]
    dsimp only
    rw [hm, hd]
    exact (Nat.toDigits_of_lt_base h9).symm

end NumberLayout

namespace Section

/-- In front of a decimal point all digits of the whole part are shown, if it is not zero: the
placeholders show them, in order. A number in scientific notation without a placeholder in front of
the point shows the fixed parts there, and no digit of its mantissa. -/
theorem renderNumber_point {code : Text} {s : Section} {l : NumberLayout} {x : Binary64}
    (hs : s ∈ (NumberFormat.parse code).sections) (hl : s.body = .number l)
    (hp : l.fractional.isSome = true) (hx : x.isFinite = true) (h0 : Binary64.lt 0 x = true)
    (unsigned : Bool) (o : Options) :
    ∃ front rest,
      Checked.renderSection s unsigned o x = .ok (.ok (front ++ o.locale.decimal :: rest)) ∧
      s.renderNumber unsigned o x = .ok (front ++ o.locale.decimal :: rest) ∧
      (l.exponent = none ∨ placeholderCount l.whole ≠ 0 → l.wholeDigits x ≠ ['0'] →
        (l.wholeDigits x).Sublist front ∧ ShowsDigits l.wholeParts (l.wholeDigits x) front) ∧
      (l.exponent ≠ none → placeholderCount l.whole = 0 →
        front = l.whole.flatMap (fixedText [])) ∧
      ∀ m, (l.scaling.apply x).reduced = .finite false m →
        (l.exponent = none →
          l.wholeDigits x = numeral (m.shortest.roundAt l.places / 10 ^ l.places)) ∧
        (l.exponent ≠ none → m.quanta ≠ 0 →
          ∃ d, 0 < d ∧ d < 10 ∧ l.wholeDigits x = numeral d) := by
  have hn := (Binary64.lt_zero_of_pos hx h0).1
  obtain ⟨m, -, rfl⟩ := Binary64.eq_of_pos hx h0
  obtain ⟨front, rest, hr, hd, hf⟩ := l.render_front hp o.locale (.finite false m)
  have hrender : s.renderNumber unsigned o (.finite false m) =
      .ok (front ++ o.locale.decimal :: rest) := by
    rw [renderNumber, hl, hn, ← hr]
    rfl
  have hok := Checked.renderSection_ok (NumberFormat.body_isProper hs) unsigned o (.finite false m)
  refine ⟨front, rest, hok.trans (congrArg _ hrender), hrender, fun hc hz => ?_, hf,
    fun k hk => l.wholeDigits_eq hk⟩
  have hshows := hd hc
  rw [significantDigits, if_neg hz] at hshows
  exact ⟨hshows.sublist, hshows⟩

theorem renderNumber_point_currency :
    let l : NumberLayout :=
      ⟨[.literal '$'], some [.field .zero, .field .zero], none, ⟨false, 0, false⟩⟩
    let s : Section := ⟨.number l, none⟩
    let x := Binary64.ofNat 2469 / .ofNat 2
    s ∈ (NumberFormat.parse "$.00".toList).sections ∧ l.fractional.isSome = true ∧
      x.isFinite = true ∧ Binary64.lt 0 x = true ∧ l.exponent = none ∧
      l.wholeDigits x = "1234".toList ∧
      ∃ front rest,
        Checked.renderSection s false .standard x = .ok (.ok (front ++ '.' :: rest)) ∧
        s.renderNumber false .standard x = .ok (front ++ '.' :: rest) ∧
        "1234".toList.Sublist front ∧ ShowsDigits l.wholeParts "1234".toList front := by
  intro l s x
  have hs : s ∈ (NumberFormat.parse "$.00".toList).sections := by decide +kernel
  have hx : x.isFinite = true := by decide +kernel
  have h0 : Binary64.lt 0 x = true := by decide +kernel
  have hw : l.wholeDigits x = "1234".toList := by decide +kernel
  obtain ⟨front, rest, hok, hr, hd, -⟩ := renderNumber_point hs rfl rfl hx h0 false .standard
  have hd := hd (.inl rfl) (by rw [hw]; decide)
  rw [hw] at hd
  exact ⟨hs, rfl, hx, h0, rfl, hw, front, rest, hok, hr, hd⟩

theorem exists_lost_whole_digit :
    let x := Binary64.ofNat 12345
    (NumberFormat.parse ".00E+00".toList).render? .standard x = .ok ".23E+04".toList ∧
      (NumberFormat.parse "$.00E+00".toList).render? .standard x = .ok "$.23E+04".toList ∧
      (NumberFormat.parse "$.00".toList).render? .standard x = .ok "$12345.00".toList ∧
      ¬∀ code o (y : Binary64) (s : Section) (l : NumberLayout),
        s ∈ (NumberFormat.parse code).sections → s.body = .number l →
          l.fractional.isSome = true → y.isFinite = true → Binary64.lt 0 y = true →
            l.wholeDigits y ≠ ['0'] → ∃ front rest,
              s.renderNumber false o y = .ok (front ++ o.locale.decimal :: rest) ∧
                (l.wholeDigits y).Sublist front := by
  intro x
  refine ⟨by decide +kernel, by decide +kernel, by decide +kernel, fun h => ?_⟩
  let l : NumberLayout := ⟨[], some [.field .zero, .field .zero],
    some (⟨true, true⟩, [.field .zero, .field .zero]), ⟨false, 0, false⟩⟩
  let s : Section := ⟨.number l, none⟩
  have hs : s ∈ (NumberFormat.parse ".00E+00".toList).sections := by decide +kernel
  have hw : l.wholeDigits x = ['1'] := by decide +kernel
  have hr : s.renderNumber false .standard x = .ok ".23E+04".toList := by decide +kernel
  obtain ⟨front, rest, hf, hd⟩ := h _ .standard x s l hs rfl rfl (by decide +kernel)
    (by decide +kernel) (by rw [hw]; decide)
  rw [hw] at hd
  have ht : front ++ '.' :: rest = ".23E+04".toList := Except.ok.inj (hf.symm.trans hr)
  have h1 : '1' ∈ ".23E+04".toList :=
    ht ▸ List.mem_append_left _ (List.singleton_sublist.1 hd)
  exact absurd h1 (by decide)

end Section

end SheetFormat
