import Mathlib.Data.List.TakeWhile
import SheetFormat.Code.Scan

/-! The spelling of every token, by which a code has exactly one reading from left to right. -/

namespace SheetFormat

namespace Token

def keywords : List Text := ["general".toList, "am/pm".toList, "a/p".toList]

structure Plain (c : Char) (after : Text) : Prop where
  unquoted : c ≠ '"'
  visible : c ≠ '_' ∧ c ≠ '*'
  unopened : c = '[' → ']' ∉ after
  dangling : c = '\\' → after = []
  unsigned : c = 'E' ∨ c = 'e' → after.head? ≠ some '+' ∧ after.head? ≠ some '-'
  single : ofChar? c = none
  letter : DateLetter.ofChar? c = none
  word : ∀ w ∈ keywords, startsWith w (c :: after) = false

/-- A token, its spelling, and what follows it. -/
inductive Spells : Token → Text → Text → Prop
  | literal {c : Char} {after : Text} : Plain c after → Spells (.literal c) [c] after
  | escaped (c : Char) (after : Text) : Spells (.escaped c) ['\\', c] after
  | quoted {t : Text} (after : Text) : '"' ∉ t → Spells (.quoted t) ('"' :: (t ++ ['"'])) after
  | unclosed {t : Text} : '"' ∉ t → Spells (.quoted t) ('"' :: t) []
  | bracket {t : Text} (after : Text) : ']' ∉ t → Spells (.bracket t) ('[' :: (t ++ [']'])) after
  | skip (c : Char) (after : Text) : Spells (.skip c) ['_', c] after
  | fill (c : Char) (after : Text) : Spells (.fill c) ['*', c] after
  | dangling {c : Char} : c = '_' ∨ c = '*' → Spells (.skip ' ') [c] []
  | exponent (e : ExponentMark) (after : Text) : Spells (.exponent e) [e.letter, e.sign] after
  | placeholder (p : Placeholder) (after : Text) : Spells (.placeholder p) [p.symbol] after
  | point (after : Text) : Spells .point ['.'] after
  | comma (after : Text) : Spells .comma [','] after
  | separator (after : Text) : Spells .separator [';'] after
  | slash (after : Text) : Spells .slash ['/'] after
  | percent (after : Text) : Spells .percent ['%'] after
  | textMark (after : Text) : Spells .textMark ['@'] after
  | letters {l : DateLetter} {w after : Text} : w ≠ [] → (∀ c ∈ w, c.toLower = l.char) →
      (∀ c ∈ after.head?, c.toLower ≠ l.char) → Spells (.letters l w.length) w after
  | general {w : Text} (after : Text) : Text.folded w = "general".toList → Spells .general w after
  | halfDay {w : Text} (after : Text) : Text.folded w ∈ ["am/pm".toList, "a/p".toList] →
      Spells (.halfDay w) w after

lemma startsWith_iff {word code : Text} :
    startsWith word code = true ↔ ∃ w after, code = w ++ after ∧ Text.folded w = word := by
  simp only [startsWith, decide_eq_true_eq]
  constructor
  · intro h
    exact ⟨code.take word.length, code.drop word.length, (List.take_append_drop _ _).symm, h⟩
  · rintro ⟨w, after, rfl, rfl⟩
    simp [Text.folded]

end Token

lemma DateLetter.ofChar?_eq_some {c : Char} {l : DateLetter} :
    DateLetter.ofChar? c = some l ↔ c.toLower = l.char := by
  constructor
  · intro h
    have hl := List.find?_some h
    exact (of_decide_eq_true hl).symm
  · intro h
    rw [DateLetter.ofChar?, h]
    cases l <;> rfl

namespace Token

lemma upTo_of_mem {close : Char} {t : Text} (h : close ∈ t) :
    close ∉ (upTo close t).1 ∧ t = (upTo close t).1 ++ close :: (upTo close t).2 := by
  induction t with
  | nil => simp at h
  | cons c t ih =>
    by_cases hc : c = close
    · simp [upTo, hc]
    · obtain ⟨hn, ht⟩ := ih ((List.mem_cons.1 h).resolve_left (Ne.symm hc))
      have hu : upTo close (c :: t) = (c :: (upTo close t).1, (upTo close t).2) := by
        simp [upTo, hc]
      rw [hu]
      exact ⟨by simp [hn, Ne.symm hc], by simpa using ht⟩

lemma upTo_of_notMem {close : Char} {t : Text} (h : close ∉ t) : upTo close t = (t, []) := by
  have hp : ∀ c ∈ t, (c != close) = true := by
    intro c hc
    simpa using ne_of_mem_of_not_mem hc h
  simp [upTo, List.takeWhile_eq_self_iff.2 hp, List.dropWhile_eq_nil_iff.2 hp]

lemma upTo_append {close : Char} {t : Text} (h : close ∉ t) (after : Text) :
    upTo close (t ++ close :: after) = (t, after) := by
  induction t with
  | nil => simp [upTo]
  | cons c t ih =>
    have hc : c ≠ close := by
      rintro rfl
      simp at h
    have ht := ih (fun hm => h (List.mem_cons_of_mem _ hm))
    simp only [upTo, Prod.mk.injEq] at ht
    simp [upTo, hc, ht]

lemma ofChar?_spells {c : Char} {t : Token} (h : ofChar? c = some t) (after : Text) :
    Spells t [c] after := by
  unfold ofChar? at h
  split at h <;> cases h
  · exact .placeholder .zero after
  · exact .placeholder .hash after
  · exact .placeholder .question after
  · exact .point after
  · exact .comma after
  · exact .separator after
  · exact .slash after
  · exact .percent after
  · exact .textMark after

lemma drop_length_takeWhile (p : Char → Bool) (t : Text) :
    t.drop (t.takeWhile p).length = t.dropWhile p := by
  calc t.drop (t.takeWhile p).length
      = (t.takeWhile p ++ t.dropWhile p).drop (t.takeWhile p).length := by
        rw [List.takeWhile_append_dropWhile]
    _ = t.dropWhile p := List.drop_left

lemma run_spells {c : Char} {l : DateLetter} (h : c.toLower = l.char) (rest : Text) :
    Spells (.letters l ((rest.takeWhile (·.toLower == l.char)).length + 1))
      (c :: rest.takeWhile (·.toLower == l.char)) (rest.dropWhile (·.toLower == l.char)) := by
  refine .letters (List.cons_ne_nil _ _) ?_ ?_
  · intro x hx
    rcases List.mem_cons.1 hx with rfl | hx
    · exact h
    · simpa using List.mem_takeWhile_imp hx
  · intro x hx
    have hn := List.head?_dropWhile_not (·.toLower == l.char) rest
    rw [Option.mem_def.1 hx] at hn
    simpa using hn

structure Wordlike (c : Char) (rest : Text) : Prop where
  unquoted : c ≠ '"'
  visible : c ≠ '_' ∧ c ≠ '*'
  unopened : c = '[' → ']' ∉ rest
  unescaped : c ≠ '\\'
  unsigned : c ≠ 'E' ∧ c ≠ 'e'
  single : ofChar? c = none

lemma scanWord_spells {c : Char} {rest : Text} (h : Wordlike c rest) :
    ∃ w, c :: rest = w ++ (scanWord c rest).2 ∧
      Spells (scanWord c rest).1 w (scanWord c rest).2 := by
  rw [scanWord]
  dsimp only
  split_ifs with hg ha hp
  · exact ⟨_, (List.take_append_drop 7 _).symm, .general _ (of_decide_eq_true hg)⟩
  · refine ⟨_, (List.take_append_drop 5 _).symm, .halfDay _ ?_⟩
    exact List.mem_cons.2 (.inl (of_decide_eq_true ha))
  · refine ⟨_, (List.take_append_drop 3 _).symm, .halfDay _ ?_⟩
    exact List.mem_cons_of_mem _ (List.mem_singleton.2 (of_decide_eq_true hp))
  · cases hl : DateLetter.ofChar? c with
    | some l =>
      refine ⟨c :: rest.takeWhile (·.toLower == l.char), ?_, ?_⟩
      · simp [drop_length_takeWhile]
      · simpa only [drop_length_takeWhile] using run_spells (DateLetter.ofChar?_eq_some.1 hl) rest
    | none =>
      refine ⟨[c], rfl, .literal ⟨h.unquoted, h.visible, h.unopened,
        fun hc => absurd hc h.unescaped, fun hc => ?_, h.single, hl, ?_⟩⟩
      · exact absurd hc (not_or.2 h.unsigned)
      · intro w hw
        simp only [keywords, List.mem_cons, List.not_mem_nil, or_false] at hw
        rcases hw with rfl | rfl | rfl
        · exact eq_false_of_ne_true hg
        · exact eq_false_of_ne_true ha
        · exact eq_false_of_ne_true hp

lemma scanExponent_spells {c : Char} (hc : c = 'E' ∨ c = 'e') (rest : Text) :
    ∃ w, c :: rest = w ++ (scanExponent c rest).2 ∧
      Spells (scanExponent c rest).1 w (scanExponent c rest).2 := by
  have hl : (ExponentMark.mk (decide (c = 'E')) true).letter = c := by
    rcases hc with rfl | rfl <;> rfl
  unfold scanExponent
  split
  next after =>
    refine ⟨[c, '+'], rfl, ?_⟩
    have hs := Spells.exponent ⟨c = 'E', true⟩ after
    rw [hl] at hs
    exact hs
  next after =>
    refine ⟨[c, '-'], rfl, ?_⟩
    have hs := Spells.exponent ⟨c = 'E', false⟩ after
    rw [show (ExponentMark.mk (decide (c = 'E')) false).letter = c from hl] at hs
    exact hs
  next rest hplus hminus =>
    refine ⟨[c], rfl, .literal ⟨?_, ?_, ?_, ?_, ?_, ?_, ?_, ?_⟩⟩
    · rintro rfl; simp at hc
    · constructor <;> rintro rfl <;> simp at hc
    · rintro rfl; simp at hc
    · rintro rfl; simp at hc
    · refine fun _ => ⟨fun hs => ?_, fun hs => ?_⟩
      · obtain ⟨after, ha⟩ := List.head?_eq_some_iff.1 hs
        exact hplus after ha
      · obtain ⟨after, ha⟩ := List.head?_eq_some_iff.1 hs
        exact hminus after ha
    · rcases hc with rfl | rfl <;> rfl
    · rcases hc with rfl | rfl <;> rfl
    · rcases hc with rfl | rfl <;> simp [keywords, startsWith, Text.folded]

lemma scan_quote_spells (rest : Text) :
    ∃ w, '"' :: rest = w ++ (upTo '"' rest).2 ∧
      Spells (.quoted (upTo '"' rest).1) w (upTo '"' rest).2 := by
  by_cases h : '"' ∈ rest
  · obtain ⟨hn, ht⟩ := upTo_of_mem h
    refine ⟨'"' :: ((upTo '"' rest).1 ++ ['"']), ?_, .quoted _ hn⟩
    simpa using ht
  · rw [upTo_of_notMem h]
    exact ⟨'"' :: rest, (List.append_nil _).symm, .unclosed h⟩

lemma scan_spells (c : Char) (rest : Text) :
    ∃ w, c :: rest = w ++ (scan c rest).2 ∧ Spells (scan c rest).1 w (scan c rest).2 := by
  rw [scan]
  dsimp only
  split_ifs with hq hb he hs hf hx
  · subst hq
    exact scan_quote_spells rest
  · obtain ⟨rfl, hm⟩ := hb
    obtain ⟨hn, ht⟩ := upTo_of_mem hm
    refine ⟨'[' :: ((upTo ']' rest).1 ++ [']']), ?_, .bracket _ hn⟩
    simpa using ht
  · subst he
    cases rest with
    | nil =>
      refine ⟨['\\'], rfl, .literal ⟨by decide, by decide, by decide, fun _ => rfl, by decide, rfl,
        by decide, by decide⟩⟩
    | cons x rest => exact ⟨['\\', x], rfl, .escaped x rest⟩
  · subst hs
    cases rest with
    | nil => exact ⟨['_'], rfl, .dangling (.inl rfl)⟩
    | cons x rest => exact ⟨['_', x], rfl, .skip x rest⟩
  · subst hf
    cases rest with
    | nil => exact ⟨['*'], rfl, .dangling (.inr rfl)⟩
    | cons x rest => exact ⟨['*', x], rfl, .fill x rest⟩
  · exact scanExponent_spells hx rest
  · cases ho : ofChar? c with
    | some t => exact ⟨[c], rfl, ofChar?_spells ho rest⟩
    | none =>
      refine scanWord_spells ⟨hq, ⟨hs, hf⟩, fun hc hm => hb ⟨hc, hm⟩, he, not_or.1 hx, ho⟩

lemma scan_of_plain {c : Char} {after : Text} (h : Plain c after) :
    scan c after = (.literal c, after) := by
  have hb : ¬(c = '[' ∧ ']' ∈ after) := fun hc => h.unopened hc.1 hc.2
  rw [scan, if_neg h.unquoted, if_neg hb]
  by_cases he : c = '\\'
  · rw [if_pos he, h.dangling he, withNext, he]
  rw [if_neg he, if_neg h.visible.1, if_neg h.visible.2]
  by_cases hx : c = 'E' ∨ c = 'e'
  · rw [if_pos hx]
    have hs := h.unsigned hx
    unfold scanExponent
    split
    · simp at hs
    · simp at hs
    · rfl
  rw [if_neg hx, h.single]
  have hw := h.word
  simp only [keywords, List.mem_cons, List.not_mem_nil, or_false, forall_eq_or_imp,
    forall_eq] at hw
  simp only [scanWord, hw, h.letter, Bool.false_eq_true, ↓reduceIte]

def wordStarts : List Char := ['g', 'a', 'y', 'm', 'd', 'h', 's']

lemma ne_of_wordStart {c x : Char} (h : c.toLower ∈ wordStarts) (hx : x.toLower ∉ wordStarts) :
    c ≠ x := by
  rintro rfl
  exact hx h

lemma ofChar?_of_wordStart {c : Char} (h : c.toLower ∈ wordStarts) : ofChar? c = none := by
  unfold ofChar?
  split
  all_goals first | rfl | exact absurd rfl (ne_of_wordStart h (by decide))

lemma scan_of_wordStart {c : Char} (h : c.toLower ∈ wordStarts) (rest : Text) :
    scan c rest = scanWord c rest := by
  have hn : ∀ x : Char, x.toLower ∉ wordStarts → c ≠ x := fun x => ne_of_wordStart h
  have hb : ¬(c = '[' ∧ ']' ∈ rest) := fun hc => hn '[' (by decide) hc.1
  have hx : ¬(c = 'E' ∨ c = 'e') := not_or.2 ⟨hn 'E' (by decide), hn 'e' (by decide)⟩
  rw [scan, if_neg (hn '"' (by decide)), if_neg hb, if_neg (hn '\\' (by decide)),
    if_neg (hn '_' (by decide)), if_neg (hn '*' (by decide)), if_neg hx, ofChar?_of_wordStart h]

lemma startsWith_append {w word : Text} (h : Text.folded w = word) (after : Text) :
    startsWith word (w ++ after) = true :=
  startsWith_iff.2 ⟨w, after, rfl, h⟩

lemma startsWith_cons_of_ne {x c : Char} (h : c.toLower ≠ x) (word rest : Text) :
    startsWith (x :: word) (c :: rest) = false := by
  simp [startsWith, Text.folded, h]

lemma takeWhile_append_of_head? {p : Char → Bool} {u after : Text} (hu : ∀ c ∈ u, p c = true)
    (ha : ∀ c ∈ after.head?, p c = false) : (u ++ after).takeWhile p = u := by
  rw [List.takeWhile_append_of_pos hu]
  cases after with
  | nil => simp
  | cons c after =>
    have hc : p c = false := ha c rfl
    simp [hc]

lemma scanWord_run {c : Char} {l : DateLetter} {u after : Text} (hc : c.toLower = l.char)
    (hu : ∀ x ∈ u, x.toLower = l.char) (ha : ∀ x ∈ after.head?, x.toLower ≠ l.char) :
    scanWord c (u ++ after) = (.letters l (u.length + 1), after) := by
  have hn : ∀ x word, x ≠ l.char → startsWith (x :: word) (c :: (u ++ after)) = false :=
    fun x word hx => startsWith_cons_of_ne (by rw [hc]; exact hx.symm) word _
  have hg := hn 'g' "eneral".toList (by cases l <;> decide)
  have hm := hn 'a' "m/pm".toList (by cases l <;> decide)
  have hp := hn 'a' "/p".toList (by cases l <;> decide)
  have ht : (u ++ after).takeWhile (·.toLower == l.char) = u :=
    takeWhile_append_of_head? (fun x hx => by simpa using hu x hx)
      (fun x hx => by simpa using ha x hx)
  simp only [scanWord]
  rw [if_neg (by simpa using hg), if_neg (by simpa using hm), if_neg (by simpa using hp),
    DateLetter.ofChar?_eq_some.2 hc]
  simp only [ht, List.drop_left]

lemma scanWord_general {c : Char} {u : Text} (h : Text.folded (c :: u) = "general".toList)
    (after : Text) : scanWord c (u ++ after) = (.general, after) := by
  have hl : (c :: u).length = 7 := by simpa [Text.folded] using congrArg List.length h
  simp only [scanWord, ← List.cons_append, startsWith_append h, ↓reduceIte]
  rw [List.drop_left' hl]

lemma scanWord_halfDay {c : Char} {u : Text}
    (h : Text.folded (c :: u) ∈ ["am/pm".toList, "a/p".toList]) (after : Text) :
    scanWord c (u ++ after) = (.halfDay (c :: u), after) := by
  have hc : c.toLower = 'a' := by
    rcases List.mem_cons.1 h with h | h
    · exact (List.cons.inj h).1
    · exact (List.cons.inj (List.mem_singleton.1 h)).1
  have hg : startsWith "general".toList (c :: (u ++ after)) = false :=
    startsWith_cons_of_ne (by rw [hc]; decide) _ _
  simp only [scanWord, hg, Bool.false_eq_true, ↓reduceIte]
  rcases List.mem_cons.1 h with h | h
  · have hl : (c :: u).length = 5 := by simpa [Text.folded] using congrArg List.length h
    simp only [← List.cons_append, startsWith_append h, ↓reduceIte]
    rw [List.take_left' hl, List.drop_left' hl]
  · rw [List.mem_singleton] at h
    have hl : (c :: u).length = 3 := by simpa [Text.folded] using congrArg List.length h
    have hm : startsWith "am/pm".toList (c :: u ++ after) = false := by
      obtain ⟨d, v, rfl, hd, -⟩ := List.map_eq_cons_iff.1 (List.cons.inj h).2
      have hd : d.toLower = '/' := hd
      simp [startsWith, Text.folded, hd]
    simp only [← List.cons_append, hm, startsWith_append h, Bool.false_eq_true, ↓reduceIte]
    rw [List.take_left' hl, List.drop_left' hl]

lemma Spells.scan {t : Token} {w after : Text} (h : Spells t w after) :
    ∃ c u, w = c :: u ∧ Token.scan c (u ++ after) = (t, after) := by
  cases h with
  | @literal c _ hp => exact ⟨c, [], rfl, scan_of_plain hp⟩
  | escaped c => exact ⟨'\\', [c], rfl, rfl⟩
  | @quoted t _ ht =>
    refine ⟨'"', t ++ ['"'], rfl, ?_⟩
    simp [Token.scan, upTo_append ht]
  | @unclosed t ht =>
    refine ⟨'"', t, rfl, ?_⟩
    simp [Token.scan, upTo_of_notMem ht]
  | @bracket t _ ht =>
    refine ⟨'[', t ++ [']'], rfl, ?_⟩
    simp [Token.scan, upTo_append ht]
  | skip c => exact ⟨'_', [c], rfl, rfl⟩
  | fill c => exact ⟨'*', [c], rfl, rfl⟩
  | @dangling c hc =>
    refine ⟨c, [], rfl, ?_⟩
    rcases hc with rfl | rfl <;> rfl
  | exponent e =>
    refine ⟨e.letter, [e.sign], rfl, ?_⟩
    rcases e with ⟨_ | _, _ | _⟩ <;> rfl
  | placeholder p =>
    refine ⟨p.symbol, [], rfl, ?_⟩
    cases p <;> rfl
  | point => exact ⟨'.', [], rfl, rfl⟩
  | comma => exact ⟨',', [], rfl, rfl⟩
  | separator => exact ⟨';', [], rfl, rfl⟩
  | slash => exact ⟨'/', [], rfl, rfl⟩
  | percent => exact ⟨'%', [], rfl, rfl⟩
  | textMark => exact ⟨'@', [], rfl, rfl⟩
  | @letters l w _ hne hw ha =>
    obtain ⟨c, u, rfl⟩ := List.exists_cons_of_ne_nil hne
    have hc := hw c (List.mem_cons_self ..)
    refine ⟨c, u, rfl, ?_⟩
    rw [scan_of_wordStart (by rw [hc]; cases l <;> decide)]
    exact scanWord_run hc (fun x hx => hw x (List.mem_cons_of_mem _ hx)) ha
  | @general w _ hw =>
    obtain ⟨c, u, rfl, hc, -⟩ := List.map_eq_cons_iff.1 hw
    refine ⟨c, u, rfl, ?_⟩
    rw [scan_of_wordStart (by rw [hc]; decide)]
    exact scanWord_general hw after
  | @halfDay w _ hw =>
    have hne : w ≠ [] := by
      rintro rfl
      simp [Text.folded] at hw
    obtain ⟨c, u, rfl⟩ := List.exists_cons_of_ne_nil hne
    have hc : c.toLower ∈ wordStarts := by
      rcases List.mem_cons.1 hw with hw | hw
      · rw [(List.cons.inj hw).1]; decide
      · rw [(List.cons.inj (List.mem_singleton.1 hw)).1]; decide
    exact ⟨c, u, rfl, (scan_of_wordStart hc _).trans (scanWord_halfDay hw after)⟩

lemma Spells.ne_nil {t : Token} {w after : Text} (h : Spells t w after) : w ≠ [] := by
  obtain ⟨c, u, rfl, -⟩ := h.scan
  exact List.cons_ne_nil c u

lemma Spells.ne_eof {t : Token} {w after : Text} (h : Spells t w after) : t ≠ .eof := by
  rintro rfl
  cases h

lemma Plain.of_prefix {c : Char} {after shorter : Text} (h : Plain c after)
    (hp : shorter <+: after) : Plain c shorter := by
  refine ⟨h.unquoted, h.visible, fun hc hm => h.unopened hc (hp.subset hm), fun hc => ?_,
    fun hc => ?_, h.single, h.letter, fun w hw => ?_⟩
  · rw [h.dangling hc] at hp
    exact List.prefix_nil.1 hp
  · have hs := h.unsigned hc
    cases shorter with
    | nil => simp
    | cons x shorter =>
      obtain ⟨rest, rfl⟩ := hp
      exact hs
  · obtain ⟨rest, rfl⟩ := hp
    rw [← Bool.not_eq_true, startsWith_iff]
    rintro ⟨u, v, huv, hu⟩
    have hl : startsWith w (c :: (shorter ++ rest)) = true :=
      startsWith_iff.2 ⟨u, v ++ rest, by rw [← List.cons_append, huv, List.append_assoc], hu⟩
    rw [h.word w hw] at hl
    exact Bool.false_ne_true hl

lemma Spells.change_after {t : Token} {w after other : Text} (h : Spells t w after)
    (hc : ∀ c, t = .literal c → Plain c after → Plain c other)
    (hq : ∀ u, t = .quoted u → w = '"' :: u → after = [] → other = [])
    (hs : t = .skip ' ' → w.length = 1 → after = [] → other = [])
    (hl : ∀ x ∈ other.head?, x ∈ after.head? ∨ ∀ l : DateLetter, x.toLower ≠ l.char) :
    Spells t w other := by
  cases h with
  | literal hp => exact .literal (hc _ rfl hp)
  | escaped c => exact .escaped c other
  | quoted _ ht => exact .quoted other ht
  | unclosed ht =>
    rw [hq _ rfl rfl rfl]
    exact .unclosed ht
  | bracket _ ht => exact .bracket other ht
  | skip c => exact .skip c other
  | fill c => exact .fill c other
  | dangling hd =>
    rw [hs rfl rfl rfl]
    exact .dangling hd
  | exponent e => exact .exponent e other
  | placeholder p => exact .placeholder p other
  | point => exact .point other
  | comma => exact .comma other
  | separator => exact .separator other
  | slash => exact .slash other
  | percent => exact .percent other
  | textMark => exact .textMark other
  | letters hne hw ha =>
    refine .letters hne hw fun x hx => ?_
    rcases hl x hx with hx | hx
    · exact ha x hx
    · exact hx _
  | general _ hw => exact .general other hw
  | halfDay _ hw => exact .halfDay other hw

lemma Spells.of_prefix {t : Token} {w after shorter : Text} (h : Spells t w after)
    (hp : shorter <+: after) : Spells t w shorter := by
  have hn : after = [] → shorter = [] := by
    rintro rfl
    exact List.prefix_nil.1 hp
  refine h.change_after (fun c _ hc => hc.of_prefix hp) (fun _ _ _ => hn) (fun _ _ => hn) ?_
  intro x hx
  obtain ⟨rest, rfl⟩ := hp
  left
  rw [List.head?_append, Option.mem_def.1 hx]
  rfl

end Token

end SheetFormat
