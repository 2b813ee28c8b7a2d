import SheetFormat.Proofs.Checked.Commas
import SheetFormat.Proofs.Checked.Dated
import SheetFormat.Proofs.Checked.Scan

/-! Compiling by index: no index or slice misses, and every code compiles to its format. -/

namespace SheetFormat.Checked

open Token

lemma color?_ok (t : Text) : color? t = .ok (Bracket.color? t) := by
  rw [color?, Bracket.color?]
  cases NamedColor.ofText? t with
  | some c => rfl
  | none =>
    by_cases hc : startsWith "color".toList t = true
    · obtain ⟨w, after, rfl, hw⟩ := startsWith_iff.1 hc
      have hs : Text.byteSize w = 5 := by rw [← Text.byteSize_folded, hw]; rfl
      have hl : w.length = 5 := by simpa [Text.folded] using congrArg List.length hw
      have ht := takeBytes?_append w after
      have hb := bytesFrom_append w after
      rw [hs] at ht hb
      simp only [ht, hb, hw, if_true, ok_bind, pure_eq]
      rw [List.take_left' hl, List.drop_left' hl, if_pos hw]
    · have hn : ¬Text.folded (t.take 5) = "color".toList := by
        intro hn
        exact hc (decide_eq_true hn)
      rw [if_neg hn]
      cases ht : Text.takeBytes? 5 t with
      | none => rfl
      | some name =>
        obtain ⟨after, rfl⟩ := append_of_takeBytes? ht
        exact if_neg fun hf => hc (startsWith_append hf after)

lemma currency?_cons (rest : Text) :
    currency? ('$' :: rest) = .ok (some (rest.takeWhile (· != '-'))) := by
  rw [currency?]
  by_cases hd : '-' ∈ rest
  · obtain ⟨hn, hr⟩ := upTo_of_mem hd
    have hf := findByte?_append hn (upTo '-' rest).2
    have hb := bytesTo_append (upTo '-' rest).1 ('-' :: (upTo '-' rest).2)
    rw [← hr] at hf hb
    simp only [hf, hb, ok_bind]
    rfl
  · have hu : rest.takeWhile (· != '-') = rest := congrArg Prod.fst (upTo_of_notMem hd)
    simp only [findByte?_of_notMem hd, hu, pure_eq]

lemma currency?_ok (t : Text) : currency? t = .ok (Bracket.currency? t) := by
  unfold Bracket.currency?
  split
  next rest => exact currency?_cons rest
  next h =>
    unfold currency?
    split
    next rest => exact absurd rfl (h rest)
    next => rfl

lemma bracket_ok (written : Text) : bracket written = .ok (Bracket.ofText written) := by
  simp only [bracket, color?_ok, currency?_ok, ok_bind, Bracket.ofText]
  cases Bracket.color? (Text.trimmed written) with
  | some c => rfl
  | none =>
    cases Bracket.operand? (Text.trimmed written) with
    | some x => rfl
    | none =>
      cases Bracket.elapsed? (Text.trimmed written) with
      | some e => rfl
      | none =>
        cases Bracket.currency? (Text.trimmed written) with
        | some symbol => rfl
        | none => rfl

lemma elements_ok (t : Token) : elements t = .ok (Element.ofToken t, Token.color? t) := by
  cases t with
  | bracket t =>
    simp only [elements, bracket_ok, ok_bind, Element.ofToken, Token.color?]
    cases Bracket.ofText t <;> rfl
  | _ => rfl

variable {before after : List Mark}

lemma numeral_ok (before after : List Mark) :
    numeral (before ++ after) before.length =
      .ok ((after.takeWhile (·.numeralDigit?.isSome)).filterMap Mark.numeralDigit?,
        (before ++ after.takeWhile (·.numeralDigit?.isSome)).length) := by
  induction after generalizing before with
  | nil =>
    rw [numeral, dif_neg (by simp)]
    simp
  | cons m after ih =>
    have hi := ih (before ++ [m])
    rw [List.append_assoc, List.length_append] at hi
    rw [numeral, dif_pos (by simp), get_append, ok_bind]
    cases hm : m.numeralDigit? with
    | none => simp [hm]
    | some c =>
      refine (bind_ok hi _).trans ?_
      simp [hm]

lemma read_of_digit {m : Mark} (hm : m.isDigit = true) (rest : List Mark) :
    Denominator.read (m :: rest) =
      (.bestFit (((m :: rest).takeWhile Mark.isDigit).filterMap Mark.placeholder?),
        (m :: rest).dropWhile Mark.isDigit) := if_pos hm

lemma read_of_not_digit {m : Mark} (hm : ¬m.isDigit = true) (rest : List Mark) :
    Denominator.read (m :: rest) =
      (.ofNumeral (((m :: rest).takeWhile (·.numeralDigit?.isSome)).filterMap Mark.numeralDigit?),
        (m :: rest).dropWhile (·.numeralDigit?.isSome)) := if_neg hm

lemma denominator_ok (before : List Mark) (h : after ≠ []) :
    ∃ taken, after = taken ++ (Denominator.read after).2 ∧
      denominator (before ++ after) before.length =
        .ok ((Denominator.read after).1, (before ++ taken).length) := by
  obtain ⟨m, rest, rfl⟩ := List.exists_cons_of_ne_nil h
  rw [denominator, get_append, ok_bind]
  by_cases hm : m.isDigit = true
  · have hs := slice_append before ((m :: rest).takeWhile Mark.isDigit)
      ((m :: rest).dropWhile Mark.isDigit)
    rw [List.takeWhile_append_dropWhile, ← List.length_append] at hs
    rw [if_pos hm, read_of_digit hm]
    refine ⟨_, List.takeWhile_append_dropWhile.symm, ?_⟩
    rw [skipOn_append, ok_bind, hs]
    rfl
  · rw [if_neg hm, read_of_not_digit hm]
    refine ⟨(m :: rest).takeWhile (·.numeralDigit?.isSome),
      List.takeWhile_append_dropWhile.symm, ?_⟩
    rw [numeral_ok]
    rfl

lemma slash?_cases (marks : List Mark) :
    (slash? marks = .ok none ∧ FractionLayout.bar? marks = none) ∨
    ∃ before after, marks = before ++ .slash :: after ∧
      slash? marks = .ok (some before.length) ∧ after.dropWhile Mark.isSpace ≠ [] ∧
      FractionLayout.bar? marks =
        some ((before.reverse.dropWhile Mark.isSpace).reverse, after.dropWhile Mark.isSpace) := by
  rcases findIdx?_cases (· = .slash) marks with ⟨hn, hs⟩ | ⟨before, m, after, rfl, hi, hm, hb⟩
  · left
    have hd : marks.dropWhile (· != .slash) = [] := by
      rw [List.dropWhile_eq_nil_iff]
      intro m hm
      simpa using hs m hm
    rw [slash?, hn, FractionLayout.bar?, hd]
    exact ⟨rfl, rfl⟩
  · obtain rfl : m = .slash := of_decide_eq_true hm
    have hp : ∀ b ∈ before, (b != Mark.slash) = true := by
      intro b hm
      simpa using hb b hm
    have ht : (before ++ .slash :: after).takeWhile (· != .slash) = before := by
      rw [List.takeWhile_append_of_pos hp]
      simp
    have hd : (before ++ .slash :: after).dropWhile (· != .slash) = .slash :: after := by
      rw [List.dropWhile_append_of_pos hp]
      simp
    rw [slash?, hi]
    simp only [front_append, behind_append_cons, ok_bind, List.find?_not_eq_head?_dropWhile]
    rw [FractionLayout.bar?, hd, ht]
    simp only [List.getLast?_reverse]
    by_cases hc : ((before.reverse.dropWhile Mark.isSpace).head?.any Mark.isDigit &&
        (after.dropWhile Mark.isSpace).head?.any Mark.startsDenominator) = true
    · refine .inr ⟨before, after, rfl, if_pos hc, fun he => ?_, if_pos hc⟩
      rw [he, Bool.and_eq_true] at hc
      cases hc.2
    · exact .inl ⟨if_neg hc, if_neg hc⟩

lemma commas_whole (whole : List Mark) :
    commas whole whole.length = .ok ⟨(Settled.ofWhole [] false whole).marks,
      (Settled.ofWhole [] false whole).marks.length, (Settled.ofWhole [] false whole).grouped,
      min 255 (Settled.ofWhole [] false whole).thousands⟩ := by
  have h := commas_ok whole []
  rw [List.append_nil] at h
  refine h.trans ?_
  simp [Settled.ofFractional, Settled.empty]

lemma fraction_ok (before : List Mark) (h : after.dropWhile Mark.isSpace ≠ []) :
    fraction (before ++ .slash :: after) before.length =
      .ok (.ofBar (before.reverse.dropWhile Mark.isSpace).reverse
        (after.dropWhile Mark.isSpace)) := by
  have hstop := skipBack_append Mark.isSpace before (.slash :: after)
  have hb : (before.reverse.dropWhile Mark.isSpace).reverse ++
      (before.reverse.takeWhile Mark.isSpace).reverse = before := List.rdropWhile_append_rtakeWhile
  generalize (before.reverse.dropWhile Mark.isSpace).reverse = b at *
  generalize (before.reverse.takeWhile Mark.isSpace).reverse = spaces at hb
  subst hb
  rw [List.append_assoc] at hstop ⊢
  have hstart := skipBack_append Mark.isDigit b (spaces ++ .slash :: after)
  have hw : (b.reverse.dropWhile Mark.isDigit).reverse ++
      (b.reverse.takeWhile Mark.isDigit).reverse = b := List.rdropWhile_append_rtakeWhile
  have hslice := slice_append (b.reverse.dropWhile Mark.isDigit).reverse
    (b.reverse.takeWhile Mark.isDigit).reverse (spaces ++ .slash :: after)
  rw [← List.append_assoc, ← List.length_append, hw] at hslice
  have hon := skipOn_append Mark.isSpace (b ++ spaces ++ [.slash]) after
  rw [List.length_append, List.append_assoc, List.append_assoc] at hon
  obtain ⟨taken, ht, hd⟩ := denominator_ok
    (b ++ spaces ++ [.slash] ++ after.takeWhile Mark.isSpace) h
  rw [List.append_assoc, List.takeWhile_append_dropWhile, List.append_assoc, List.append_assoc]
    at hd
  have hsplit := splitOff_append
    (b ++ spaces ++ [.slash] ++ after.takeWhile Mark.isSpace ++ taken)
    (Denominator.read (after.dropWhile Mark.isSpace)).2
  have hmarks : b ++ spaces ++ [.slash] ++ after.takeWhile Mark.isSpace ++ taken ++
      (Denominator.read (after.dropWhile Mark.isSpace)).2 = b ++ (spaces ++ .slash :: after) := by
    rw [List.append_assoc _ taken, ← ht]
    simp [List.takeWhile_append_dropWhile]
  rw [hmarks] at hsplit
  rw [fraction]
  refine (bind_ok hstop _).trans ?_
  refine (bind_ok hstart _).trans ?_
  refine (bind_ok hslice _).trans ?_
  refine (bind_ok hon _).trans ?_
  refine (bind_ok hd _).trans ?_
  refine (bind_ok hsplit _).trans ?_
  have hwhole : (b ++ spaces ++ [Mark.slash] ++ after.takeWhile Mark.isSpace ++ taken).take
      (b.reverse.dropWhile Mark.isDigit).reverse.length =
      (b.reverse.dropWhile Mark.isDigit).reverse := by
    generalize (b.reverse.dropWhile Mark.isDigit).reverse = whole at hw ⊢
    generalize (b.reverse.takeWhile Mark.isDigit).reverse = digits at hw
    subst hw
    simp only [List.append_assoc, List.take_left]
  simp only [hwhole]
  exact bind_ok (commas_whole _) _

lemma cutAt_ok (p : Mark → Bool) (marks : List Mark) :
    cutAt p marks = .ok (marks.takeWhile (!p ·),
      (marks.dropWhile (!p ·)).head?.map (·, (marks.dropWhile (!p ·)).drop 1)) := by
  rw [cutAt]
  rcases findIdx?_cases p marks with ⟨hn, hs⟩ | ⟨before, m, after, rfl, hi, hm, hb⟩
  · have hp : ∀ m ∈ marks, (!p m) = true := by simpa using hs
    rw [hn, List.takeWhile_eq_self_iff.2 hp, List.dropWhile_eq_nil_iff.2 hp]
    rfl
  · have hp : ∀ m ∈ before, (!p m) = true := by simpa using hb
    have hl := splitOff_append (before ++ [m]) after
    rw [List.length_append, List.append_assoc] at hl
    rw [hi, List.takeWhile_append_of_pos hp, List.dropWhile_append_of_pos hp]
    refine (bind_ok hl _).trans ?_
    simp [hm]

lemma exponentOf_eq (marks : List Mark) :
    NumberLayout.exponentOf marks =
      match (marks.dropWhile (!·.isExponent)).head?.map
        (·, (marks.dropWhile (!·.isExponent)).drop 1) with
      | some (.exponent e, rest) => some (e, rest.flatMap Mark.parts)
      | _ => none := by
  rw [NumberLayout.exponentOf]
  cases marks.dropWhile (!·.isExponent) with
  | nil => rfl
  | cons m rest => cases m <;> rfl

lemma number_ok (marks : List Mark) : number marks = .ok (.ofMarks marks) := by
  rw [number]
  refine (bind_ok (cutAt_ok _ marks) _).trans ?_
  refine (bind_ok (cutAt_ok _ _) _).trans ?_
  have hne : (fun m : Mark => !decide (m = .point)) = (· != .point) := by
    funext m
    by_cases hm : m = .point <;> simp [hm]
  simp only [hne]
  generalize hp : (marks.takeWhile (!·.isExponent)).dropWhile (· != .point) = point
  have hbeyond : ((point.head?.map (·, point.drop 1)).map Prod.snd).getD [] = point.drop 1 := by
    cases point <;> rfl
  rw [hbeyond]
  refine (bind_ok (commas_ok _ _) _).trans ?_
  refine (bind_ok (splitOff_append _ _) _).trans ?_
  simp only [pure_eq, NumberLayout.ofMarks, hp, exponentOf_eq]
  cases point with
  | nil => rfl
  | cons m rest => rfl

lemma body_ok (tokens : List Token) :
    body tokens (tokens.flatMap Element.ofToken) = .ok (.ofTokens tokens) := by
  rw [body, Body.ofTokens, Body.ofElements, Body.ofMarks, FractionLayout.ofMarks?]
  by_cases hg : .general ∈ tokens
  · rw [if_pos hg, if_pos hg]
    rfl
  by_cases hd : (tokens.flatMap Element.ofToken).any Element.isDate = true
  · rw [if_neg hg, if_neg hg, if_pos hd, if_pos hd, datePartsOf_ok]
    rfl
  rw [if_neg hg, if_neg hg, if_neg hd, if_neg hd]
  rcases slash?_cases ((tokens.flatMap Element.ofToken).filterMap Element.mark?) with
    ⟨hs, hb⟩ | ⟨before, after, hm, hs, ha, hb⟩
  · simp only [hs, hb, number_ok, ok_bind]
    rfl
  · rw [hb]
    refine (bind_ok hs _).trans ?_
    rw [hm]
    exact bind_ok (fraction_ok before ha) _

lemma ofTokens_ok (tokens : List Token) : ofTokens tokens = .ok (Section.ofTokens tokens) := by
  have hm : tokens.mapM elements = .ok (tokens.map fun t => (Element.ofToken t, t.color?)) :=
    mapM_ok fun t _ => elements_ok t
  have he : (tokens.map fun t => (Element.ofToken t, t.color?)).flatMap Prod.fst =
      tokens.flatMap Element.ofToken := by
    rw [List.flatMap_map]
  have hc : (tokens.map fun t => (Element.ofToken t, t.color?)).filterMap Prod.snd =
      tokens.filterMap Token.color? := by
    rw [List.filterMap_map]
    rfl
  rw [ofTokens]
  refine (bind_ok hm _).trans ?_
  rw [he, hc]
  exact bind_ok (body_ok tokens) _

lemma sections_ok (code : Text) :
    sections code =
      .ok (if code.isEmpty then [] else (NumberFormat.tokenGroups code).map .ofTokens) := by
  rw [sections]
  by_cases he : code.isEmpty = true
  · rw [if_pos he, if_pos he]
    rfl
  · rw [if_neg he, if_neg he, tokenize_ok, ok_bind]
    exact mapM_ok fun g _ => ofTokens_ok g

lemma parse_ok (code : Text) : parse code = .ok (NumberFormat.parse code) :=
  bind_ok (sections_ok code) _

end SheetFormat.Checked
