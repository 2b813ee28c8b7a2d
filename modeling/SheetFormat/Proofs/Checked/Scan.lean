import SheetFormat.Checked.Scan
import SheetFormat.Proofs.Checked.Basic
import SheetFormat.Proofs.Code.Tiling

/-! Every slice of the lexer starts and ends between characters, and its loops come to an end. -/

namespace SheetFormat

namespace Text

lemma utf8Size_toLower (c : Char) : c.toLower.utf8Size = c.utf8Size := by
  delta Char.toLower
  split
  next h =>
    have hc : c.utf8Size = 1 := Char.utf8Size_eq_one_iff.2 (UInt32.le_trans h.2 (by decide))
    have hz : c.val.toNat + 32 ≤ 122 := Nat.add_le_add_right (UInt32.le_iff_toNat_le.1 h.2) 32
    have hl : (c.val + 32).toNat = c.val.toNat + 32 := by
      rw [UInt32.toNat_add, Nat.mod_eq_of_lt]
      · rfl
      · exact Nat.lt_of_le_of_lt hz (by decide)
    rw [hc]
    refine Char.utf8Size_eq_one_iff.2 (UInt32.le_iff_toNat_le.2 ?_)
    exact Nat.le_trans (Nat.le_of_eq hl) (Nat.le_trans hz (by decide))
  next => rfl

lemma byteSize_folded (t : Text) : byteSize (folded t) = byteSize t := by
  induction t with
  | nil => rfl
  | cons c t ih =>
    rw [byteSize_cons, ← ih, ← utf8Size_toLower]
    rfl

end Text

open Token Checked

namespace Lexer

variable {l : Lexer} {c : Char} {u w rest after : Text}

def At (l : Lexer) (rest : Text) : Prop :=
  ∃ before, l.input = before ++ rest ∧ l.position = Text.byteSize before

lemma At.moved (h : l.At (u ++ rest)) : (l.moved (Text.byteSize u)).At rest := by
  obtain ⟨before, hi, hp⟩ := h
  refine ⟨before ++ u, ?_, ?_⟩
  · rw [List.append_assoc]
    exact hi
  · rw [Text.byteSize_append, ← hp]
    rfl

lemma At.byteSize_input (h : l.At rest) :
    Text.byteSize l.input = l.position + Text.byteSize rest := by
  obtain ⟨before, hi, hp⟩ := h
  rw [hi, hp, Text.byteSize_append]

lemma moved_moved (l : Lexer) (m n : Nat) : (l.moved m).moved n = l.moved (m + n) := by
  rw [moved, moved, moved, Nat.add_assoc]

lemma At.remaining (h : l.At rest) : l.remaining = .ok rest := by
  obtain ⟨before, hi, hp⟩ := h
  rw [Lexer.remaining, hi, hp, bytesFrom_append]

lemma At.current (h : l.At rest) : l.current = .ok rest.head? := by
  rw [Lexer.current, h.remaining]
  rfl

lemma At.advance (h : l.At (c :: rest)) : l.advance = .ok (l.moved c.utf8Size) := by
  rw [Lexer.advance, h.current]
  rfl

lemma At.next_char (h : l.At (c :: rest)) : (l.moved c.utf8Size).At rest := by
  have h' := At.moved (u := [c]) h
  rwa [Text.byteSize_cons] at h'

lemma At.single (h : l.At (c :: rest)) (t : Token) :
    l.single t = .ok (t, l.moved c.utf8Size) := by
  rw [Lexer.single, h.advance]
  rfl

lemma At.peek (h : l.At (c :: rest)) : l.peek 1 = .ok rest.head? := by
  rw [Lexer.peek, h.remaining]
  cases rest <;> rfl

lemma At.countRun (hu : ∀ x ∈ u, x.toLower = c.toLower)
    (ha : ∀ x ∈ after.head?, x.toLower ≠ c.toLower) {fuel : Nat} (hf : u.length < fuel)
    (h : l.At (u ++ after)) :
    Lexer.countRun c fuel l = .ok (u.length, l.moved (Text.byteSize u)) := by
  induction u generalizing l fuel with
  | nil =>
    obtain ⟨fuel, rfl⟩ := Nat.exists_eq_succ_of_ne_zero (Nat.ne_of_gt hf)
    rw [Lexer.countRun, h.current, ok_bind]
    cases after with
    | nil => rfl
    | cons x after => exact if_neg (ha x rfl)
  | cons x u ih =>
    obtain ⟨fuel, rfl⟩ := Nat.exists_eq_succ_of_ne_zero (Nat.ne_of_gt (Nat.zero_lt_of_lt hf))
    have hn := ih (fun y hy => hu y (List.mem_cons_of_mem _ hy)) (Nat.lt_of_succ_lt_succ hf)
      (At.next_char h)
    rw [Lexer.countRun, h.current, ok_bind]
    simp only [List.cons_append, List.head?_cons]
    rw [if_pos (hu x (List.mem_cons_self ..)), At.advance h, ok_bind, hn, ok_bind, moved_moved]
    rfl

lemma At.quoted (hu : '"' ∉ u) (h : l.At ('"' :: (u ++ '"' :: after))) :
    l.quoted = .ok (.quoted u, l.moved (Text.byteSize ('"' :: (u ++ ['"'])))) := by
  rw [Lexer.quoted, h.advance, ok_bind, h.next_char.remaining, ok_bind, findByte?_append hu]
  simp only [bytesTo_append, ok_bind, pure_eq, moved_moved]
  rw [Text.byteSize_cons, Text.byteSize_append]
  rfl

lemma At.quoted_unclosed (hu : '"' ∉ u) (h : l.At ('"' :: u)) :
    l.quoted = .ok (.quoted u, l.moved (Text.byteSize ('"' :: u))) := by
  rw [Lexer.quoted, h.advance, ok_bind, h.next_char.remaining, ok_bind, findByte?_of_notMem hu]
  simp only [pure_eq]
  rw [Lexer.moved, Lexer.moved, h.byteSize_input]

lemma At.bracket (hu : ']' ∉ u) (h : l.At ('[' :: (u ++ ']' :: after))) :
    l.bracket = .ok (.bracket u, l.moved (Text.byteSize ('[' :: (u ++ [']'])))) := by
  rw [Lexer.bracket, h.advance, ok_bind, h.next_char.remaining, ok_bind, findByte?_append hu]
  simp only [bytesTo_append, ok_bind, pure_eq, moved_moved]
  rw [Text.byteSize_cons, Text.byteSize_append]
  rfl

lemma At.bracket_unclosed (hu : ']' ∉ rest) (h : l.At ('[' :: rest)) :
    l.bracket = .ok (.literal '[', l.moved (Char.utf8Size '[')) := by
  rw [Lexer.bracket, h.advance, ok_bind, h.next_char.remaining, ok_bind, findByte?_of_notMem hu]
  rfl

variable {dangling : Token} {make : Char → Token}

lemma At.withNext {x : Char} (h : l.At (c :: x :: rest)) :
    l.withNext dangling make = .ok (make x, l.moved (Text.byteSize [c, x])) := by
  rw [Lexer.withNext, h.advance, ok_bind, h.next_char.current, ok_bind]
  simp only [List.head?_cons, h.next_char.advance, ok_bind, moved_moved]
  rfl

lemma At.withNext_dangling (h : l.At [c]) :
    l.withNext dangling make = .ok (dangling, l.moved c.utf8Size) := by
  rw [Lexer.withNext, h.advance, ok_bind, h.next_char.current]
  rfl

lemma At.word?_of_startsWith {word : Text} (hw : Text.folded w = word) (h : l.At (w ++ after)) :
    l.word? word = .ok (some (w, l.moved (Text.byteSize w))) := by
  rw [Lexer.word?, h.remaining, ok_bind, ← hw, Text.byteSize_folded, takeBytes?_append]
  exact if_pos rfl

lemma At.word?_of_not_startsWith {word : Text} (hw : startsWith word rest = false)
    (h : l.At rest) : l.word? word = .ok none := by
  rw [Lexer.word?, h.remaining, ok_bind]
  cases ht : Text.takeBytes? (Text.byteSize word) rest with
  | none => rfl
  | some u =>
    obtain ⟨v, rfl⟩ := append_of_takeBytes? ht
    refine if_neg fun hu => ?_
    rw [startsWith_append hu] at hw
    cases hw

lemma At.exponent (e : ExponentMark) (h : l.At (e.letter :: e.sign :: after)) :
    l.exponent e.letter = .ok (.exponent e, l.moved (Text.byteSize [e.letter, e.sign])) := by
  rw [Lexer.exponent, h.peek, ok_bind, h.advance]
  simp only [ok_bind, h.next_char.advance, pure_eq, moved_moved]
  rcases e with ⟨_ | _, _ | _⟩ <;> rfl

lemma At.word_of_plain (hp : Plain c after) (h : l.At (c :: after)) :
    l.word c = .ok (.literal c, l.moved c.utf8Size) := by
  have hw := fun w hw => h.word?_of_not_startsWith (hp.word w hw)
  have hs := h.single (.literal c)
  rw [Lexer.word]
  by_cases hg : c.toLower = 'g'
  · rw [if_pos hg, Lexer.general, hw _ (by simp [keywords])]
    exact hs
  rw [if_neg hg]
  by_cases ha : c.toLower = 'a'
  · rw [if_pos ha, Lexer.halfDay, hw _ (by simp [keywords]), ok_bind]
    simp only [hw "a/p".toList (by simp [keywords]), ok_bind]
    exact hs
  rw [if_neg ha, hp.letter]
  exact hs

lemma At.token_of_plain (hp : Plain c after) (h : l.At (c :: after)) :
    l.token c = .ok (.literal c, l.moved c.utf8Size) := by
  rw [Lexer.token, if_neg hp.unquoted]
  by_cases he : c = '\\'
  · subst he
    rw [hp.dangling rfl] at h
    exact h.withNext_dangling
  rw [if_neg he]
  by_cases hb : c = '['
  · subst hb
    exact h.bracket_unclosed (hp.unopened rfl)
  rw [if_neg hb, hp.single]
  simp only [if_neg hp.visible.1, if_neg hp.visible.2]
  by_cases hx : c = 'E' ∨ c = 'e'
  · rw [if_pos hx, Lexer.exponent, h.peek, ok_bind]
    have hs := hp.unsigned hx
    split
    next ho => exact absurd ho hs.1
    next ho => exact absurd ho hs.2
    next => exact h.single _
  rw [if_neg hx]
  exact h.word_of_plain hp

lemma token_of_wordStart (hc : c.toLower ∈ wordStarts) (l : Lexer) : l.token c = l.word c := by
  have hn : ∀ x : Char, x.toLower ∉ wordStarts → c ≠ x := fun x => ne_of_wordStart hc
  have hx : ¬(c = 'E' ∨ c = 'e') := not_or.2 ⟨hn 'E' (by decide), hn 'e' (by decide)⟩
  rw [token, if_neg (hn '"' (by decide)), if_neg (hn '\\' (by decide)),
    if_neg (hn '[' (by decide)), ofChar?_of_wordStart hc]
  simp only [if_neg (hn '_' (by decide)), if_neg (hn '*' (by decide)), if_neg hx]

lemma At.letters {letter : DateLetter} (hw : ∀ x ∈ c :: w, x.toLower = letter.char)
    (ha : ∀ x ∈ after.head?, x.toLower ≠ letter.char) (h : l.At (c :: (w ++ after))) :
    l.token c = .ok (.letters letter (c :: w).length, l.moved (Text.byteSize (c :: w))) := by
  have hc := hw c (List.mem_cons_self ..)
  have hf : (c :: w).length < l.input.length + 1 := by
    obtain ⟨before, hi, -⟩ := h
    rw [hi]
    simp
    omega
  have hn : ∀ x, x ≠ letter.char → ¬c.toLower = x := by
    rintro x hx rfl
    exact hx hc
  rw [token_of_wordStart (by rw [hc]; cases letter <;> decide), Lexer.word,
    if_neg (hn 'g' (by cases letter <;> decide)), if_neg (hn 'a' (by cases letter <;> decide)),
    DateLetter.ofChar?_eq_some.2 hc]
  simp only [Lexer.letters]
  rw [At.countRun (u := c :: w) (by rwa [hc]) (by rwa [hc]) hf h]
  rfl

lemma At.general (hw : Text.folded (c :: w) = "general".toList) (h : l.At (c :: (w ++ after))) :
    l.token c = .ok (.general, l.moved (Text.byteSize (c :: w))) := by
  have hc : c.toLower = 'g' := (List.cons.inj hw).1
  rw [token_of_wordStart (by rw [hc]; decide), Lexer.word, if_pos hc, Lexer.general,
    At.word?_of_startsWith (w := c :: w) hw h]
  rfl

lemma At.halfDay (hw : Text.folded (c :: w) ∈ ["am/pm".toList, "a/p".toList])
    (h : l.At (c :: (w ++ after))) :
    l.token c = .ok (.halfDay (c :: w), l.moved (Text.byteSize (c :: w))) := by
  have hc : c.toLower = 'a' := by
    rcases List.mem_cons.1 hw with hw | hw
    · exact (List.cons.inj hw).1
    · exact (List.cons.inj (List.mem_singleton.1 hw)).1
  rw [token_of_wordStart (by rw [hc]; decide), Lexer.word, if_neg (by rw [hc]; decide), if_pos hc,
    Lexer.halfDay]
  rcases List.mem_cons.1 hw with hw | hw
  · rw [At.word?_of_startsWith (w := c :: w) hw h]
    rfl
  · rw [List.mem_singleton] at hw
    obtain ⟨d, v, rfl, hd, -⟩ := List.map_eq_cons_iff.1 (List.cons.inj hw).2
    have hd : d.toLower = '/' := hd
    have hm : startsWith "am/pm".toList (c :: (d :: v ++ after)) = false := by
      simp [startsWith, Text.folded, hd]
    rw [h.word?_of_not_startsWith hm, ok_bind]
    simp only [At.word?_of_startsWith (w := c :: d :: v) hw h, ok_bind]
    rfl

lemma At.token_of_spells {t : Token} (hs : Spells t (c :: w) after)
    (h : l.At (c :: (w ++ after))) :
    l.token c = .ok (t, l.moved (Text.byteSize (c :: w))) := by
  cases hs with
  | literal hp => exact h.token_of_plain hp
  | escaped x => exact h.withNext
  | @quoted t _ ht => exact At.quoted ht (by simpa using h)
  | unclosed ht => exact At.quoted_unclosed ht (by simpa using h)
  | @bracket t _ ht => exact At.bracket ht (by simpa using h)
  | skip x => exact h.withNext
  | fill x => exact h.withNext
  | dangling hc =>
    rcases hc with rfl | rfl
    · exact h.withNext_dangling
    · exact h.withNext_dangling
  | exponent e =>
    have ht : l.token e.letter = l.exponent e.letter := by
      rcases e with ⟨_ | _, _⟩ <;> rfl
    rw [ht]
    exact h.exponent e
  | placeholder p => cases p <;> exact h.single _
  | point => exact h.single _
  | comma => exact h.single _
  | separator => exact h.single _
  | slash => exact h.single _
  | percent => exact h.single _
  | textMark => exact h.single _
  | letters _ hw ha => exact h.letters hw ha
  | general _ hw => exact h.general hw
  | halfDay _ hw => exact h.halfDay hw

lemma At.next_of_spells {t : Token} (hs : Spells t w after) (h : l.At (w ++ after)) :
    l.next = .ok (⟨t, l.position, l.position + Text.byteSize w⟩, l.moved (Text.byteSize w)) := by
  obtain ⟨c, u, rfl⟩ := List.exists_cons_of_ne_nil hs.ne_nil
  rw [Lexer.next, h.current, ok_bind]
  simp only [List.cons_append, List.head?_cons]
  rw [h.token_of_spells hs]
  rfl

lemma At.lexemes {ts : List (Token × Text)} (hs : Spelled ts rest) {fuel : Nat}
    (hf : rest.length < fuel) (h : l.At rest) :
    Lexer.lexemes fuel l =
      .ok (placed l.position ts ++ [endMark (l.position + Text.byteSize rest)]) := by
  induction hs generalizing l fuel with
  | nil =>
    obtain ⟨fuel, rfl⟩ := Nat.exists_eq_succ_of_ne_zero (Nat.ne_of_gt hf)
    rw [Lexer.lexemes, Lexer.next, h.current]
    rfl
  | @cons t w after ts hs _ ih =>
    obtain ⟨fuel, rfl⟩ := Nat.exists_eq_succ_of_ne_zero (Nat.ne_of_gt (Nat.zero_lt_of_lt hf))
    have hl : after.length < fuel := by
      have := List.length_pos_of_ne_nil hs.ne_nil
      rw [List.length_append] at hf
      omega
    rw [Lexer.lexemes, h.next_of_spells hs, ok_bind]
    simp only [if_neg hs.ne_eof]
    rw [ih hl h.moved, ok_bind, Text.byteSize_append, ← Nat.add_assoc]
    rfl

end Lexer

namespace Checked

lemma tokenize_ok (code : Text) : tokenize code = .ok (SheetFormat.tokenize code) := by
  obtain ⟨ts, hts⟩ := exists_spelled code
  rw [tokenize, Lexer.At.lexemes hts (Nat.lt_succ_self _) ⟨[], rfl, rfl⟩, SheetFormat.tokenize,
    lexemes_of_spelled hts]

end Checked

end SheetFormat
