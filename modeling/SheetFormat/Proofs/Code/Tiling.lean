import Mathlib.Data.List.Chain
import SheetFormat.Proofs.Code.Spelling

namespace SheetFormat

open Token

inductive Spelled : List (Token × Text) → Text → Prop
  | nil : Spelled [] []
  | cons {t : Token} {w after : Text} {ts : List (Token × Text)} :
      Spells t w after → Spelled ts after → Spelled ((t, w) :: ts) (w ++ after)

def placed : Nat → List (Token × Text) → List Lexeme
  | _, [] => []
  | p, (t, w) :: ts => ⟨t, p, p + Text.byteSize w⟩ :: placed (p + Text.byteSize w) ts

def endMark (p : Nat) : Lexeme := ⟨.eof, p, p⟩

structure Lexeme.Cuts (x : Lexeme) (code before slice after : Text) : Prop where
  whole : code = before ++ slice ++ after
  start : x.start = Text.byteSize before
  stop : x.stop = Text.byteSize (before ++ slice)

lemma exists_spelled (code : Text) : ∃ ts, Spelled ts code := by
  induction hn : code.length using Nat.strong_induction_on generalizing code with
  | _ n ih =>
    cases code with
    | nil => exact ⟨[], .nil⟩
    | cons c rest =>
      obtain ⟨w, hw, hs⟩ := scan_spells c rest
      have hl : (scan c rest).2.length < n := by
        have := length_scan_le c rest
        simp only [List.length_cons] at hn
        omega
      obtain ⟨ts, hts⟩ := ih _ hl _ rfl
      refine ⟨((scan c rest).1, w) :: ts, ?_⟩
      rw [hw]
      exact .cons hs hts

lemma next_of_spells {t : Token} {w after : Text} (h : Spells t w after) (p : Nat) :
    Cursor.next ⟨w ++ after, p⟩ =
      (⟨t, p, p + Text.byteSize w⟩, ⟨after, p + Text.byteSize w⟩) := by
  obtain ⟨c, u, rfl, hs⟩ := h.scan
  simp only [List.cons_append, Cursor.next, hs, Text.byteSize_cons, Text.byteSize_append]
  rw [← Nat.add_assoc, Nat.add_sub_cancel]

lemma lexemes_of_spelled {ts : List (Token × Text)} {code : Text} (h : Spelled ts code)
    (p : Nat) : Cursor.lexemes ⟨code, p⟩ = placed p ts ++ [endMark (p + Text.byteSize code)] := by
  induction h generalizing p with
  | nil =>
    rw [Cursor.lexemes, dif_pos rfl]
    rfl
  | @cons t w after ts hs _ ih =>
    have hne : w ++ after ≠ [] := List.append_ne_nil_of_left_ne_nil hs.ne_nil after
    rw [Cursor.lexemes, dif_neg hne, next_of_spells hs, ih, Text.byteSize_append, ← Nat.add_assoc]
    rfl

lemma reads_end (p n : Nat) : Cursor.reads n ⟨[], p⟩ = List.replicate n (endMark p) := by
  induction n with
  | zero => rfl
  | succ n ih =>
    rw [Cursor.reads, List.replicate_succ]
    exact congrArg _ ih

lemma reads_of_spelled {ts : List (Token × Text)} {code : Text} (h : Spelled ts code)
    (p n : Nat) :
    Cursor.reads ((placed p ts).length + n) ⟨code, p⟩ =
      placed p ts ++ List.replicate n (endMark (p + Text.byteSize code)) := by
  induction h generalizing p with
  | nil => simpa [placed] using reads_end p n
  | @cons t w after ts hs _ ih =>
    rw [placed, List.length_cons, Nat.succ_add, Cursor.reads, next_of_spells hs, ih,
      Text.byteSize_append, ← Nat.add_assoc]
    rfl

lemma byteSize_pos {t : Text} (h : t ≠ []) : 0 < Text.byteSize t := by
  obtain ⟨c, u, rfl⟩ := List.exists_cons_of_ne_nil h
  have := c.utf8Size_pos
  rw [Text.byteSize_cons]
  omega

lemma placed_head {ts : List (Token × Text)} {code : Text} (h : Spelled ts code) (p : Nat) :
    (placed p ts ++ [endMark (p + Text.byteSize code)]).head?.map Lexeme.start = some p := by
  cases h <;> rfl

lemma placed_chain {ts : List (Token × Text)} {code : Text} (h : Spelled ts code) (p : Nat) :
    (placed p ts ++ [endMark (p + Text.byteSize code)]).IsChain fun x y => y.start = x.stop := by
  induction h generalizing p with
  | nil => exact .singleton _
  | @cons t w after ts _ hts ih =>
    have hh := placed_head hts (p + Text.byteSize w)
    rw [placed, List.cons_append, List.isChain_cons, Text.byteSize_append, ← Nat.add_assoc]
    refine ⟨fun y hy => ?_, ih _⟩
    rw [Option.mem_def.1 hy] at hh
    exact Option.some.inj hh

lemma placed_cuts {ts : List (Token × Text)} {code : Text} (h : Spelled ts code) (before : Text) :
    ∀ x ∈ placed (Text.byteSize before) ts, x.start < x.stop ∧
      ∃ b slice after, x.Cuts (before ++ code) b slice after ∧ Spells x.token slice after := by
  induction h generalizing before with
  | nil => simp [placed]
  | @cons t w after ts hs hts ih =>
    intro x hx
    rcases List.mem_cons.1 hx with rfl | hx
    · refine ⟨Nat.lt_add_of_pos_right (byteSize_pos hs.ne_nil), before, w, after, ?_, hs⟩
      exact ⟨(List.append_assoc ..).symm, rfl, (Text.byteSize_append ..).symm⟩
    · rw [← Text.byteSize_append] at hx
      rw [← List.append_assoc]
      exact ih _ x hx

lemma tokenize_of_spells {t : Token} {w : Text} (h : Spells t w []) :
    tokenize w = [⟨t, 0, Text.byteSize w⟩, endMark (Text.byteSize w)] := by
  have hs : Spelled [(t, w)] w := by simpa using Spelled.cons h .nil
  rw [tokenize, lexemes_of_spelled hs]
  simp [placed]

/-- The lexemes cover a code without gap or overlap, each one a spelling of its token from which
alone the token is read back; the end mark comes last and is read there any number of times. -/
theorem tokenize_tiles (code : Text) :
    (tokenize code).head?.map Lexeme.start = some 0 ∧
    (tokenize code).IsChain (fun x y => y.start = x.stop) ∧
    (∃ inner, tokenize code = inner ++ [endMark (Text.byteSize code)] ∧
      ∀ x ∈ inner, x.token ≠ .eof ∧ x.start < x.stop ∧
        ∃ before slice after, x.Cuts code before slice after ∧ Spells x.token slice after ∧
          tokenize slice =
            [⟨x.token, 0, Text.byteSize slice⟩, endMark (Text.byteSize slice)]) ∧
    ∀ more, Cursor.reads ((tokenize code).length + more) ⟨code, 0⟩ =
      tokenize code ++ List.replicate more (endMark (Text.byteSize code)) := by
  obtain ⟨ts, hts⟩ := exists_spelled code
  have hl : tokenize code = placed 0 ts ++ [endMark (Text.byteSize code)] := by
    rw [tokenize, lexemes_of_spelled hts, Nat.zero_add]
  refine ⟨?_, ?_, ⟨placed 0 ts, hl, ?_⟩, ?_⟩
  · simpa [hl] using placed_head hts 0
  · simpa [hl] using placed_chain hts 0
  · intro x hx
    obtain ⟨hlt, before, slice, after, hc, hs⟩ := placed_cuts hts [] x hx
    refine ⟨hs.ne_eof, hlt, before, slice, after, hc, hs, ?_⟩
    exact tokenize_of_spells (hs.of_prefix List.nil_prefix)
  · intro more
    have hr := reads_of_spelled hts 0 (more + 1)
    rw [Nat.zero_add, List.replicate_succ] at hr
    rw [hl, List.length_append, List.length_singleton, Nat.add_assoc, Nat.add_comm 1, hr,
      List.append_assoc]
    rfl

end SheetFormat
