import Mathlib
import SheetFormat.Proofs.Number.Whole
import SheetFormat.Proofs.Render.Dispatch
import SheetFormat.Proofs.Render.Value

namespace SheetFormat

open Binary64

attribute [local instance (2000)] instPowNat
attribute [local irreducible] perUnit limit

def Text.thousands (separator : Char) (n : Nat) : Text :=
  if n < 1000 then numeral n
  else thousands separator (n / 1000) ++ separator :: places 3 (n % 1000)

section Grouping

variable {α : Type} {p : α → Bool} {l : List α}

lemma lastRun_of_forall (h : ∀ a ∈ l, p a = true) :
    beforeLastRun p l = [] ∧ lastRun p l = l ∧ behindLastRun p l = [] := by
  have hr : ∀ a ∈ l.reverse, p a = true := fun a ha => h a (List.mem_reverse.1 ha)
  have ht : l.reverse.takeWhile (!p ·) = [] := by
    cases hl : l.reverse with
    | nil => rfl
    | cons a as => exact List.takeWhile_cons_of_neg (by simp [hr a (hl ▸ List.mem_cons_self ..)])
  have hd : l.reverse.dropWhile (!p ·) = l.reverse := by
    conv => rhs; rw [← List.takeWhile_append_dropWhile (p := (!p ·)) (l := l.reverse), ht]
    rfl
  rw [beforeLastRun, lastRun, behindLastRun, ht, hd, List.dropWhile_eq_nil_iff.2 hr,
    List.takeWhile_eq_self_iff.2 hr, List.reverse_reverse]
  exact ⟨rfl, rfl, rfl⟩

variable {separator : Char} {s t : Text}

lemma groupThousands_of_allDigits (h : t.AllDigits) :
    groupThousands separator t = groupDigits separator t := by
  obtain ⟨hb, hr, hf⟩ := lastRun_of_forall h
  rw [groupThousands_eq, hb, hr, hf, List.nil_append, List.append_nil]

lemma groupDigits_of_length_le (h : t.length ≤ 3) : groupDigits separator t = t := by
  induction t with
  | nil => rfl
  | cons d t ih =>
    rw [List.length_cons] at h
    have hn : ¬(t.length % 3 = 0 ∧ t ≠ []) := by
      rintro ⟨hm, hn⟩
      exact hn (List.length_eq_zero_iff.1 (by omega))
    rw [groupDigits, if_neg hn, ih (by omega)]

lemma groupDigits_append (hs : s ≠ []) (ht : t.length = 3) :
    groupDigits separator (s ++ t) = groupDigits separator s ++ separator :: t := by
  induction s with
  | nil => exact absurd rfl hs
  | cons d s ih =>
    have hl : (s ++ t).length % 3 = s.length % 3 := by
      rw [List.length_append, ht, Nat.add_mod_right]
    -- a separator behind a digit depends on how many digits follow, and only up to threes
    rw [List.cons_append, groupDigits, groupDigits, hl]
    cases s with
    | nil =>
      have hn : t ≠ [] := List.ne_nil_of_length_eq_add_one ht
      rw [List.nil_append, if_pos ⟨rfl, hn⟩, groupDigits_of_length_le ht.le, if_neg (by simp)]
      rfl
    | cons e s =>
      rw [ih (List.cons_ne_nil e s)]
      simp only [ne_eq, List.cons_append, reduceCtorEq, not_false_eq_true, and_true]
      split <;> rfl

lemma groupDigits_numeral (separator : Char) (n : Nat) :
    groupDigits separator (Text.numeral n) = Text.thousands separator n := by
  induction n using Text.thousands.induct with
  | case1 n h =>
    rw [Text.thousands, if_pos h]
    exact groupDigits_of_length_le ((Text.length_numeral_le_iff (by decide)).2 h)
  | case2 n h ih =>
    have hn := Text.numeral_append_places (w := 3) (Nat.not_lt.1 h)
    rw [Text.thousands, if_neg h, ← ih, ← hn]
    exact groupDigits_append (Text.numeral_ne_nil _) (Text.length_places 3 _)

lemma filter_thousands (hs : separator.isDigit = false) (n : Nat) :
    (Text.thousands separator n).filter (· ≠ separator) = Text.numeral n := by
  have hd : ∀ c ∈ Text.numeral n, decide (c ≠ separator) = true := by
    intro c hc
    rw [decide_eq_true_iff]
    rintro rfl
    rw [Text.isDigit_of_mem_numeral hc] at hs
    cases hs
  rw [← groupDigits_numeral, filter_groupDigits (by simp), List.filter_eq_self.2 hd]

end Grouping

def integerParts (more : Nat) : List NumberPart :=
  List.replicate more (.field .hash) ++ [.field .zero]

lemma fieldsOnly_integerParts (more : Nat) : FieldsOnly (integerParts more) := by
  intro p hp
  rw [integerParts, List.mem_append, List.mem_replicate, List.mem_singleton] at hp
  rcases hp with ⟨-, rfl⟩ | rfl <;> rfl

lemma placeholderCount_integerParts (more : Nat) :
    placeholderCount (integerParts more) = more + 1 := by
  rw [(fieldsOnly_integerParts more).count, integerParts, List.length_append,
    List.length_replicate, List.length_singleton]

lemma spread_integerParts (text digits : Text) (more : Nat) :
    spread text (integerParts more) digits = if digits = [] then ['0'] else digits := by
  induction more generalizing digits with
  | zero =>
    cases digits with
    | nil => rfl
    | cons d digits => simp [integerParts, spread, placeholderCount]
  | succ more ih =>
    have hp : integerParts (more + 1) = .field .hash :: integerParts more := rfl
    rw [hp, spread, placeholderCount_integerParts]
    by_cases hl : digits.length ≤ more + 1
    · simp only [Nat.sub_eq_zero_of_le hl, if_true, List.drop_zero, ih]
      rfl
    · have h0 : digits.length - (more + 1) ≠ 0 := by omega
      have hn : digits.drop (digits.length - (more + 1)) ≠ [] := by
        rw [ne_eq, List.drop_eq_nil_iff]
        omega
      have hd : digits ≠ [] := by
        rintro rfl
        exact hl (Nat.zero_le _)
      simp only [h0, if_false, ih, hn, hd, List.take_append_drop]

lemma spread_numeral (text : Text) (more n : Nat) :
    spread text (integerParts more) (significantDigits (Text.numeral n)) = Text.numeral n := by
  rw [spread_integerParts, significantDigits]
  split_ifs with h0 h1
  · exact h0.symm
  · exact absurd rfl h1
  · exact absurd ‹_› (Text.numeral_ne_nil n)
  · rfl

lemma splitRounded_whole {n : Nat} (he : n ≤ exactLimit) (h : n < 10 ^ 15) :
    (finite false (whole n he)).splitRounded 0 = (Text.numeral n, []) := by
  have hl : n < exactLimit := h.trans (by decide)
  obtain ⟨hn, hd⟩ := shortest_whole hl
  have hr : (whole n he).shortest.roundAt 0 = n := by
    rw [Decimal.roundAt, hn, hd]
    exact Rounding.halfUp_mul n Nat.one_pos
  rw [splitRounded, reduced_whole false he h]
  simp only [hr, Nat.pow_zero, Nat.div_one]
  rfl

namespace NumberLayout

def integer (more : Nat) (grouped : Bool) : NumberLayout :=
  ⟨integerParts more, none, none, ⟨false, 0, grouped⟩⟩

variable {more n : Nat} {grouped : Bool}

lemma wholeParts_integer : (integer more grouped).wholeParts = integerParts more :=
  if_neg fun h => by cases h.1

lemma render_integer_of_split {x : Binary64} {digits : Text}
    (hx : x.splitRounded 0 = (digits, [])) (locale : Locale) :
    (integer more grouped).render locale x =
      (integer more grouped).grouped locale (generalText x) (significantDigits digits) := by
  have hp : (integer more grouped).places = 0 := rfl
  change (integer more grouped).positional locale (generalText x) x = _
  rw [positional, hp, hx]
  exact List.append_nil _

lemma render_integer (locale : Locale) (he : n ≤ exactLimit) (h : n < 10 ^ 15) :
    (integer more grouped).render locale (finite false (Binary64.whole n he)) =
      if grouped then Text.thousands locale.thousands n else Text.numeral n := by
  have hw : FieldsOnly (integer more grouped).wholeParts := by
    rw [wholeParts_integer]
    exact fieldsOnly_integerParts more
  rw [render_integer_of_split (splitRounded_whole he h), grouped_of_fieldsOnly hw,
    wholeParts_integer, spread_numeral, groupThousands_of_allDigits (Text.allDigits_numeral n),
    groupDigits_numeral]
  rfl

end NumberLayout

lemma toList_repr (v : Int) : v.repr.toList = signText (v < 0) ++ Text.numeral v.natAbs := by
  cases v with
  | ofNat n =>
    rw [decide_eq_false (by simp)]
    exact String.toList_ofList
  | negSucc n =>
    rw [decide_eq_true (Int.negSucc_lt_zero n)]
    exact String.toList_append.trans (congrArg _ String.toList_ofList)

lemma lt_zero_ofInt {v : Int} (h : v.natAbs ≤ exactLimit) :
    (ofInt v).lt 0 = decide (v < 0) := by
  rw [ofInt_eq h, Bool.eq_iff_iff, lt_zero_iff, decide_eq_true_iff]
  have hq : (whole v.natAbs h).quanta = v.natAbs * perUnit := rfl
  have hp := perUnit_pos
  by_cases hv : v < 0
  · have h0 : 0 < v.natAbs * perUnit := Nat.mul_pos (Int.natAbs_pos.2 hv.ne) hp
    simp only [signed, hv, decide_true, if_true, hq, iff_true]
    omega
  · simp only [signed, hv, decide_false, Bool.false_eq_true, if_false, hq, iff_false]
    omega

variable {v : Int}

lemma NumberFormat.render?_integer {f : NumberFormat} {more : Nat} {grouped : Bool}
    {c : Option Color} (hf : f.sections = [⟨.number (.integer more grouped), c⟩]) (o : Options)
    (h : v.natAbs < 10 ^ 15) :
    f.render? o (ofInt v) = .ok (signText (v < 0) ++
      if grouped then Text.thousands o.locale.thousands v.natAbs else Text.numeral v.natAbs) := by
  have he : v.natAbs ≤ exactLimit := (h.trans (by decide)).le
  have hx : (ofInt v).isFinite = true := by
    rw [ofInt_eq he]
    rfl
  have ha : (ofInt v).abs = finite false (whole v.natAbs he) := by
    rw [ofInt_eq he]
    rfl
  rw [f.render?_finite o hx, select_one hf]
  simp only [Section.renderNumber, Bool.not_false, Bool.and_true]
  rw [ha, lt_zero_ofInt he, NumberLayout.render_integer o.locale he h]

/-- Integers of up to fifteen digits are shown as their numerals, or cut into thousands by commas,
and are read back from what is shown. -/
theorem integers_shown (h : v.natAbs < 10 ^ 15) :
    (∀ o, ∃ t, (NumberFormat.parse ['0']).render? o (ofInt v) = .ok t ∧
      String.ofList t = v.repr ∧ (String.ofList t).toInt? = some v) ∧
    ∀ o, o.locale = .english → ∃ t,
      (NumberFormat.parse "#,##0".toList).render? o (ofInt v) = .ok t ∧
      t = signText (v < 0) ++ Text.thousands ',' v.natAbs ∧
      String.ofList (t.filter (· ≠ ',')) = v.repr ∧
      (String.ofList (t.filter (· ≠ ','))).toInt? = some v := by
  have hp : (NumberFormat.parse ['0']).sections = [⟨.number (.integer 0 false), none⟩] := by
    decide +kernel
  have hg : (NumberFormat.parse "#,##0".toList).sections = [⟨.number (.integer 3 true), none⟩] := by
    decide +kernel
  have hr : String.ofList (signText (v < 0) ++ Text.numeral v.natAbs) = v.repr := by
    rw [← toList_repr, String.ofList_toList]
  refine ⟨fun o => ⟨_, NumberFormat.render?_integer hp o h, hr, ?_⟩, fun o ho => ?_⟩
  · exact hr ▸ Int.toInt?_repr v
  · have hs : (signText (v < 0)).filter (· ≠ ',') = signText (v < 0) := by
      cases decide (v < 0) <;> rfl
    have ht : String.ofList ((signText (v < 0) ++ Text.thousands ',' v.natAbs).filter (· ≠ ',')) =
        v.repr := by
      rw [List.filter_append, hs, filter_thousands rfl, hr]
    refine ⟨_, NumberFormat.render?_integer hg o h, ?_, ?_⟩
    · rw [ho]
      rfl
    · rw [ho]
      exact ⟨ht, ht ▸ Int.toInt?_repr v⟩

theorem integers_shown_least :
    let v : Int := -999999999999999
    v.natAbs < 10 ^ 15 ∧ ∃ t,
      (NumberFormat.parse "#,##0".toList).render? .standard (ofInt v) = .ok t ∧
      t = "-999,999,999,999,999".toList ∧
      (String.ofList (t.filter (· ≠ ','))).toInt? = some v := by
  intro v
  have h : v.natAbs < 10 ^ 15 := by decide
  obtain ⟨t, hr, ht, -, hi⟩ := (integers_shown h).2 .standard rfl
  refine ⟨h, t, hr, ?_, hi⟩
  rw [ht, ← groupDigits_numeral]
  decide +kernel

end SheetFormat
