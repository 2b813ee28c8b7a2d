import SheetFormat.Format
import SheetFormat.Proofs.Code.Tiling

namespace SheetFormat

open Token

/-- A lexeme that ends by itself, wherever the code goes on, and separates no sections. -/
def Lexeme.isClosed (x : Lexeme) : Bool :=
  match x.token with
  | .separator => false
  | .quoted t => x.stop = x.start + Text.byteSize t + 2
  | .literal c => c ≠ '[' ∧ c ≠ '\\'
  | .skip c => x.stop = x.start + c.utf8Size + 1
  | _ => true

def IsClosed (code : Text) : Prop := ∀ x ∈ tokenize code, x.isClosed = true

instance (code : Text) : Decidable (IsClosed code) :=
  inferInstanceAs (Decidable (∀ x ∈ tokenize code, x.isClosed = true))

namespace Token

def breaks : List Char := [';', '[', '_', '*']

lemma toLower_of_break {y : Char} (hy : y ∈ breaks) : y.toLower = y := by
  simp only [breaks, List.mem_cons, List.not_mem_nil, or_false] at hy
  rcases hy with rfl | rfl | rfl | rfl <;> rfl

lemma break_notMem_keyword {y : Char} (hy : y ∈ breaks) {word : Text} (hw : word ∈ keywords) :
    y ∉ word := by
  simp only [breaks, keywords, List.mem_cons, List.not_mem_nil, or_false] at hy hw
  rcases hy with rfl | rfl | rfl | rfl <;> rcases hw with rfl | rfl | rfl <;> decide

lemma startsWith_before_break {word code : Text} {y : Char} (hy : y ∈ breaks)
    (hw : word ∈ keywords) (h : startsWith word code = false) (more : Text) :
    startsWith word (code ++ y :: more) = false := by
  rw [← Bool.not_eq_true, startsWith_iff] at h ⊢
  rintro ⟨w, after, hc, hf⟩
  have hn : y ∉ w := by
    intro hm
    have hl : y.toLower ∈ Text.folded w := List.mem_map_of_mem hm
    rw [toLower_of_break hy, hf] at hl
    exact break_notMem_keyword hy hw hl
  rcases List.append_eq_append_iff.1 hc with ⟨u, hu, hm⟩ | ⟨u, hu, -⟩
  · cases u with
    | nil => exact h ⟨w, [], by simpa using hu.symm, hf⟩
    | cons x u =>
      obtain rfl : y = x := (List.cons.inj hm).1
      exact hn (hu ▸ List.mem_append_right _ (List.mem_cons_self ..))
  · exact h ⟨w, u, hu, hf⟩

lemma Plain.before_break {c y : Char} {after : Text} (h : Plain c after) (hb : c ≠ '[')
    (he : c ≠ '\\') (hy : y ∈ breaks) (more : Text) : Plain c (after ++ y :: more) := by
  refine ⟨h.unquoted, h.visible, fun hc => absurd hc hb, fun hc => absurd hc he, fun hc => ?_,
    h.single, h.letter, fun w hw => startsWith_before_break hy hw (h.word w hw) more⟩
  have hs := h.unsigned hc
  cases after with
  | nil =>
    have hp : y ≠ '+' := ne_of_mem_of_not_mem hy (by decide)
    have hm : y ≠ '-' := ne_of_mem_of_not_mem hy (by decide)
    exact ⟨fun h => hp (Option.some.inj h), fun h => hm (Option.some.inj h)⟩
  | cons x after => exact hs

lemma Spells.before_break {t : Token} {w after : Text} (h : Spells t w after) {p : Nat}
    (hc : Lexeme.isClosed ⟨t, p, p + Text.byteSize w⟩ = true) {y : Char} (hy : y ∈ breaks)
    (more : Text) : Spells t w (after ++ y :: more) := by
  refine h.change_after ?_ ?_ ?_ ?_
  · rintro c rfl hp
    obtain ⟨hb, he⟩ := of_decide_eq_true hc
    exact hp.before_break hb he hy more
  · rintro u rfl rfl -
    have hz : p + Text.byteSize ('"' :: u) = p + Text.byteSize u + 2 := of_decide_eq_true hc
    rw [Text.byteSize_cons, show '"'.utf8Size = 1 from rfl] at hz
    omega
  · rintro rfl hw rfl
    cases h with
    | @dangling c hd =>
      have hz : p + Text.byteSize [c] = p + ' '.utf8Size + 1 := of_decide_eq_true hc
      have hs : c.utf8Size = 1 := by rcases hd with rfl | rfl <;> rfl
      rw [Text.byteSize_cons, hs, Text.byteSize_nil, show ' '.utf8Size = 1 from rfl] at hz
      omega
    | skip => simp at hw
  · intro x hx
    cases after with
    | nil =>
      obtain rfl : y = x := by simpa using hx
      have hn : ∀ x ∈ breaks, ∀ l : DateLetter, x.toLower ≠ l.char := by
        intro x hx l
        rw [toLower_of_break hx]
        cases l <;> exact ne_of_mem_of_not_mem hx (by decide)
      exact .inr (hn y hy)
    | cons z after => exact .inl hx

end Token

lemma Spelled.append_separator {ts us : List (Token × Text)} {code more : Text}
    (h : Spelled ts code) {p : Nat} (hc : ∀ x ∈ placed p ts, x.isClosed = true)
    (hm : Spelled us more) :
    Spelled (ts ++ (.separator, [';']) :: us) (code ++ ';' :: more) := by
  induction h generalizing p with
  | nil => exact .cons (.separator more) hm
  | @cons t w after ts hs _ ih =>
    have hx := hc _ (List.mem_cons_self ..)
    have hr := ih fun x hx => hc x (List.mem_cons_of_mem _ hx)
    rw [List.append_assoc]
    exact .cons (hs.before_break hx (by decide) more) hr

namespace NumberFormat

def tokens (code : Text) : List Token := ((tokenize code).map Lexeme.token).filter (· ≠ .eof)

lemma tokens_of_spelled {ts : List (Token × Text)} {code : Text} (h : Spelled ts code) :
    tokens code = ts.map Prod.fst := by
  have hp : ∀ p, ((placed p ts).map Lexeme.token).filter (· ≠ .eof) = ts.map Prod.fst := by
    induction h with
    | nil => intro p; rfl
    | @cons t w after ts hs _ ih =>
      intro p
      rw [placed, List.map_cons, List.filter_cons_of_pos (by simpa using hs.ne_eof), ih]
      rfl
  rw [tokens, tokenize, lexemes_of_spelled h, List.map_append, List.filter_append, hp]
  simp [endMark]

lemma separator_notMem_tokens {code : Text} (h : IsClosed code) : .separator ∉ tokens code := by
  intro hm
  obtain ⟨x, hx, ht⟩ := List.mem_map.1 (List.mem_of_mem_filter hm)
  have hc := h x hx
  simp [Lexeme.isClosed, ht] at hc

lemma tokens_append_separator {code : Text} (h : IsClosed code) (more : Text) :
    tokens (code ++ ';' :: more) = tokens code ++ .separator :: tokens more := by
  obtain ⟨ts, hts⟩ := exists_spelled code
  obtain ⟨us, hus⟩ := exists_spelled more
  have hc : ∀ x ∈ placed 0 ts, x.isClosed = true := by
    intro x hx
    apply h x
    rw [tokenize, lexemes_of_spelled hts]
    exact List.mem_append_left _ hx
  rw [tokens_of_spelled (hts.append_separator hc hus), tokens_of_spelled hts,
    tokens_of_spelled hus, List.map_append, List.map_cons]

lemma tokens_intercalate (codes : List Text) (h : ∀ c ∈ codes, IsClosed c) :
    tokens ([';'].intercalate codes) = [.separator].intercalate (codes.map tokens) := by
  induction codes with
  | nil => exact tokens_of_spelled .nil
  | cons c codes ih =>
    have hr := ih fun d hd => h d (List.mem_cons_of_mem _ hd)
    cases codes with
    | nil => simp
    | cons d codes =>
      have hc := h c (List.mem_cons_self ..)
      rw [List.intercalate_cons_cons, List.append_assoc, List.singleton_append,
        tokens_append_separator hc, hr, List.map_cons, List.map_cons, List.map_cons,
        List.intercalate_cons_cons, List.append_assoc, List.singleton_append]

lemma tokenGroups_intercalate {codes : List Text} (hn : codes ≠ [])
    (h : ∀ c ∈ codes, IsClosed c) : tokenGroups ([';'].intercalate codes) = codes.map tokens := by
  rw [tokenGroups, ← tokens, tokens_intercalate codes h]
  apply List.splitOn_intercalate
  · intro ts hts
    obtain ⟨c, hc, rfl⟩ := List.mem_map.1 hts
    exact separator_notMem_tokens (h c hc)
  · simpa using hn

end NumberFormat

def Section.blank : Section := ⟨.number ⟨[], none, none, ⟨false, 0, false⟩⟩, none⟩

namespace NumberFormat

/-- The section of a code among others: blank for the empty code, else the one it has alone. -/
def sectionAmong (code : Text) : Section :=
  if code = [] then .blank else (parse code).sections.head (parse code).nonempty

lemma sections_of_tokens {code : Text} (hn : code ≠ []) (h : .separator ∉ tokens code) :
    (parse code).sections = [.ofTokens (tokens code)] := by
  have hg : tokenGroups code = [tokens code] := by
    rw [tokenGroups, ← tokens, List.splitOn_eq_splitOnP, List.splitOnP_eq_singleton]
    exact fun t ht => beq_false_of_ne (ne_of_mem_of_not_mem ht h)
  rw [sections_of_ne_nil hn, hg]
  rfl

lemma ofTokens_tokens {code : Text} (h : IsClosed code) :
    Section.ofTokens (tokens code) = sectionAmong code ∧
      (code ≠ [] → (parse code).sections = [sectionAmong code]) := by
  by_cases hn : code = []
  · subst hn
    refine ⟨?_, fun hc => absurd rfl hc⟩
    rw [tokens_of_spelled .nil, sectionAmong, if_pos rfl]
    rfl
  · have hs := sections_of_tokens hn (separator_notMem_tokens h)
    have ha : sectionAmong code = Section.ofTokens (tokens code) := by
      simp only [sectionAmong, if_neg hn, hs, List.head_cons]
    exact ⟨ha.symm, fun _ => by rw [hs, ha]⟩

/-- Closed codes between separators compile to the first four of the sections that they compile to
alone. -/
theorem parse_intercalate (codes : List Text) (hn : 2 ≤ codes.length)
    (hc : ∀ c ∈ codes, IsClosed c) :
    (parse ([';'].intercalate codes)).sections = (codes.map sectionAmong).take 4 ∧
      ∀ c ∈ codes, c ≠ [] → (parse c).sections = [sectionAmong c] := by
  refine ⟨?_, fun c hm => (ofTokens_tokens (hc c hm)).2⟩
  have hne : [';'].intercalate codes ≠ [] := by
    match codes, hn with
    | c :: d :: codes, _ => simp
  have hnil : codes ≠ [] := by
    rintro rfl
    simp at hn
  have hm : (codes.map tokens).map Section.ofTokens = codes.map sectionAmong := by
    rw [List.map_map]
    exact List.map_congr_left fun c hm => (ofTokens_tokens (hc c hm)).1
  rw [sections_of_ne_nil hne, tokenGroups_intercalate hnil hc, hm]

theorem parse_intercalate_hidden_separators :
    let codes := ["\";\"0".toList, [], "\\;[;]0".toList, "_;*;0E".toList, "0".toList]
    (2 ≤ codes.length ∧ ∀ c ∈ codes, IsClosed c) ∧
      (parse ([';'].intercalate codes)).sections = (codes.map sectionAmong).take 4 ∧
        ∀ c ∈ codes, c ≠ [] → (parse c).sections = [sectionAmong c] := by
  intro codes
  have hc : ∀ c ∈ codes, IsClosed c := by decide +kernel
  exact ⟨⟨by decide, hc⟩, parse_intercalate codes (by decide) hc⟩

end NumberFormat

end SheetFormat
