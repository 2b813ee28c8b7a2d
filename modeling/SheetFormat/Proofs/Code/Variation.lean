import SheetFormat.Proofs.Code.Hidden

/-! Codes that differ in quoted and escaped characters only are read alike, token by token. -/

namespace SheetFormat

open Token

/-- Where two codes differ both characters are quoted or escaped, and no spaces. -/
structure HiddenVariation (a b : Text) : Prop where
  length_eq : a.length = b.length
  hidden : ∀ i < a.length, a[i]? ≠ b[i]? → Hidden a i ∧ Hidden b i
  visible : ∀ i < a.length, a[i]? ≠ b[i]? → a[i]? ≠ some ' ' ∧ b[i]? ≠ some ' '

lemma HiddenVariation.refl (a : Text) : HiddenVariation a a :=
  ⟨rfl, fun _ _ h => absurd rfl h, fun _ _ h => absurd rfl h⟩

lemma HiddenVariation.lt_length {a b : Text} (h : HiddenVariation a b) {i : Nat}
    (hi : a[i]? ≠ b[i]?) : i < a.length := by
  by_contra hl
  rw [List.getElem?_eq_none (Nat.le_of_not_lt hl),
    List.getElem?_eq_none (h.length_eq ▸ Nat.le_of_not_lt hl)] at hi
  exact hi rfl

def hiddenIn (a b : Text) (k : Nat) : List (Char × Char) := hiddenPairs a k 0 (a.zip b)

inductive Twin : Token × Text → Token × Text → Prop
  | same (x : Token × Text) : Twin x x
  | quoted {u v : Text} (q : Text) : u.length = v.length →
      Twin (.quoted u, '"' :: (u ++ q)) (.quoted v, '"' :: (v ++ q))
  | escaped (c d : Char) : Twin (.escaped c, ['\\', c]) (.escaped d, ['\\', d])

namespace Token

variable {t u : Token} {v w after other : Text}

lemma Spells.eq_of_prefix (h : Spells t v after) (h' : Spells u w other)
    (hl : v.length ≤ w.length) (hw : w <+: v ++ after) : t = u ∧ v = w := by
  obtain ⟨z, rfl⟩ : v <+: w := List.prefix_of_prefix_length_le (List.prefix_append v after) hw hl
  have hs : Spells t v z := h.of_prefix ((List.prefix_append_right_inj v).1 hw)
  have hn : Spells u (v ++ z) [] := h'.of_prefix List.nil_prefix
  obtain ⟨c, x, rfl, hc⟩ := hs.scan
  obtain ⟨d, y, hy, hd⟩ := hn.scan
  obtain ⟨rfl, rfl⟩ : c = d ∧ x ++ z = y := List.cons.inj hy
  rw [List.append_nil, hc] at hd
  obtain ⟨rfl, rfl⟩ := Prod.mk.inj hd
  exact ⟨rfl, (List.append_nil _).symm⟩

lemma Spells.of_quote (h : Spells t v after) (hv : v.head? = some '"') : ∃ x, t = .quoted x := by
  obtain ⟨c, y, rfl, hs⟩ := h.scan
  obtain rfl : c = '"' := Option.some.inj hv
  exact ⟨_, (congrArg Prod.fst hs).symm⟩

lemma Spells.of_backslash (h : Spells t v after) (hv : v.head? = some '\\')
    (hl : 1 < (v ++ after).length) : ∃ x, t = .escaped x := by
  obtain ⟨c, y, rfl, hs⟩ := h.scan
  obtain rfl : c = '\\' := Option.some.inj hv
  have hs : withNext (.literal '\\') .escaped (y ++ after) = (t, after) := hs
  cases hy : y ++ after with
  | nil => simp [hy] at hl
  | cons x rest =>
    rw [hy] at hs
    exact ⟨x, (congrArg Prod.fst hs).symm⟩

lemma Spells.not_hides (h : Spells t v after) (hq : v.head? ≠ some '"')
    (hb : ¬(v.head? = some '\\' ∧ 1 < (v ++ after).length)) (i : Nat) : ¬t.hides i := by
  cases t with
  | quoted x =>
    rcases h.quoted_eq.2 with rfl | ⟨rfl, -⟩
    · exact absurd rfl hq
    · exact absurd rfl hq
  | escaped c =>
    cases h
    exact absurd ⟨rfl, by simp⟩ hb
  | _ => exact id

end Token

structure Agree (ts us : List (Token × Text)) (a b : Text) : Prop where
  length_eq : a.length = b.length
  hidden : ∀ i : Nat, a[i]? ≠ b[i]? → hiddenAt ts i ∧ hiddenAt us i

namespace Agree

variable {t u : Token} {v w a b : Text} {ts us : List (Token × Text)}

lemma symm (h : Agree ts us a b) : Agree us ts b a :=
  ⟨h.length_eq.symm, fun i hi => (h.hidden i hi.symm).symm⟩

lemma tail (h : Agree ((t, v) :: ts) ((u, w) :: us) (v ++ a) (w ++ b))
    (hl : v.length = w.length) : Agree ts us a b := by
  constructor
  · have := h.length_eq
    simp only [List.length_append] at this
    omega
  · intro i hi
    have hd := h.hidden (v.length + i)
    rw [List.getElem?_append_right (by omega), List.getElem?_append_right (by omega), hiddenAt,
      hiddenAt, ← hl, if_neg (by omega), if_neg (by omega), Nat.add_sub_cancel_left] at hd
    exact hd hi

lemma getElem?_eq (h : Agree ((t, v) :: ts) us (v ++ a) b) {i : Nat} (hi : i < v.length)
    (hn : ¬t.hides i) : (v ++ a)[i]? = b[i]? := by
  by_contra hd
  have hh := (h.hidden i hd).1
  rw [hiddenAt, if_pos hi] at hh
  exact hn hh

lemma head?_eq (h : Agree ((t, v) :: ts) ((u, w) :: us) (v ++ a) (w ++ b)) (hv : v ≠ [])
    (hw : w ≠ []) : v.head? = w.head? := by
  have hn : ¬t.hides 0 := by
    cases t <;> simp [Token.hides]
  have he := h.getElem?_eq (List.length_pos_iff.2 hv) hn
  rwa [List.getElem?_append_left (List.length_pos_iff.2 hv),
    List.getElem?_append_left (List.length_pos_iff.2 hw), ← List.head?_eq_getElem?,
    ← List.head?_eq_getElem?] at he

lemma isPrefix (h : Agree ((t, v) :: ts) us (v ++ a) b) (hn : ∀ i, ¬t.hides i) : v <+: b := by
  rw [List.prefix_iff_getElem?]
  intro i hi
  rw [← h.getElem?_eq hi (hn i), List.getElem?_append_left hi, List.getElem?_eq_getElem hi]

lemma length_le_of_quoted {x y : Text}
    (h : Agree ((.quoted x, v) :: ts) ((.quoted y, w) :: us) (v ++ a) (w ++ b))
    (hv : Spells (.quoted x) v a) (hw : Spells (.quoted y) w b) : y.length ≤ x.length := by
  obtain ⟨-, hv⟩ := hv.quoted_eq
  obtain ⟨hy, hw⟩ := hw.quoted_eq
  by_contra hl
  obtain ⟨q, rfl⟩ : ∃ q, w = '"' :: (y ++ q) := by
    rcases hw with hw | ⟨hw, -⟩
    · exact ⟨_, hw⟩
    · exact ⟨_, hw⟩
  rcases hv with rfl | ⟨rfl, rfl⟩
  · have hi : x.length + 1 < ('"' :: (x ++ ['"'])).length := by simp
    have he := h.getElem?_eq hi fun hn => absurd hn.2 (Nat.not_succ_le_self _)
    have hx : x.length < y.length := Nat.lt_of_not_le hl
    simp [List.getElem?_append_left hx] at he
    exact hy (List.mem_of_getElem? he.symm)
  · have := h.length_eq
    simp at this
    omega

lemma twin_and_length_eq_of_quoted {x y : Text}
    (h : Agree ((.quoted x, v) :: ts) ((.quoted y, w) :: us) (v ++ a) (w ++ b))
    (hv : Spells (.quoted x) v a) (hw : Spells (.quoted y) w b) :
    Twin (.quoted x, v) (.quoted y, w) ∧ v.length = w.length := by
  have hl := Nat.le_antisymm (h.symm.length_le_of_quoted hw hv) (h.length_le_of_quoted hv hw)
  have hab := h.length_eq
  rcases hv.quoted_eq.2 with rfl | ⟨rfl, rfl⟩ <;> rcases hw.quoted_eq.2 with rfl | ⟨rfl, rfl⟩
  · exact ⟨.quoted _ hl, by simp [hl]⟩
  · simp at hab
    omega
  · simp at hab
    omega
  · exact ⟨.quoted _ hl, by simp [hl]⟩

lemma twin_and_length_eq (h : Agree ((t, v) :: ts) ((u, w) :: us) (v ++ a) (w ++ b))
    (hv : Spells t v a) (hw : Spells u w b) : Twin (t, v) (u, w) ∧ v.length = w.length := by
  have hh := h.head?_eq hv.ne_nil hw.ne_nil
  by_cases hq : v.head? = some '"'
  · obtain ⟨x, rfl⟩ := hv.of_quote hq
    obtain ⟨y, rfl⟩ := hw.of_quote (hh ▸ hq)
    exact h.twin_and_length_eq_of_quoted hv hw
  by_cases hb : v.head? = some '\\' ∧ 1 < (v ++ a).length
  · obtain ⟨x, rfl⟩ := hv.of_backslash hb.1 hb.2
    obtain ⟨y, rfl⟩ := hw.of_backslash (hh ▸ hb.1) (h.length_eq ▸ hb.2)
    cases hv
    cases hw
    exact ⟨.escaped x y, rfl⟩
  · have hp := h.isPrefix (hv.not_hides hq hb)
    have hs := h.symm.isPrefix (hw.not_hides (hh ▸ hq) (hh ▸ h.length_eq ▸ hb))
    suffices he : t = u ∧ v = w by
      obtain ⟨rfl, rfl⟩ := he
      exact ⟨.same _, rfl⟩
    rcases Nat.le_total v.length w.length with hl | hl
    · exact hv.eq_of_prefix hw hl hs
    · obtain ⟨h₁, h₂⟩ := hw.eq_of_prefix hv hl hp
      exact ⟨h₁.symm, h₂.symm⟩

end Agree

lemma forall₂_twin_of_agree {ts us : List (Token × Text)} {a b : Text} (hts : Spelled ts a)
    (hus : Spelled us b) (h : Agree ts us a b) : List.Forall₂ Twin ts us := by
  induction hts generalizing us b with
  | nil =>
    cases hus with
    | nil => exact .nil
    | cons hw _ => exact absurd (List.length_eq_zero_iff.1 h.length_eq.symm) (by simp [hw.ne_nil])
  | @cons t v after ts hv _ ih =>
    cases hus with
    | nil => exact absurd (List.length_eq_zero_iff.1 h.length_eq) (by simp [hv.ne_nil])
    | cons hw hus =>
      obtain ⟨ht, hl⟩ := h.twin_and_length_eq hv hw
      exact .cons ht (ih hus (h.tail hl))

lemma HiddenVariation.forall₂_twin {a b : Text} (h : HiddenVariation a b)
    {ts us : List (Token × Text)} (hts : Spelled ts a) (hus : Spelled us b) :
    List.Forall₂ Twin ts us := by
  refine forall₂_twin_of_agree hts hus ⟨h.length_eq, fun i hi => ?_⟩
  obtain ⟨ha, hb⟩ := h.hidden i (h.lt_length hi) hi
  exact ⟨(hidden_iff hts i).1 ha, (hidden_iff hus i).1 hb⟩

def SameSpaces (u v : Text) : Prop := ∀ x ∈ u.zip v, x.1 = ' ' ↔ x.2 = ' '

lemma SameSpaces.refl (u : Text) : SameSpaces u u := by
  rintro ⟨c, d⟩ hx
  obtain ⟨i, hi⟩ := List.mem_iff_getElem?.1 hx
  obtain ⟨hc, hd⟩ := List.getElem?_zip_eq_some.1 hi
  rw [Option.some.inj (hc.symm.trans hd)]

lemma HiddenVariation.sameSpaces {a b : Text} (h : HiddenVariation a b) : SameSpaces a b := by
  rintro ⟨c, d⟩ hx
  obtain ⟨i, hi⟩ := List.mem_iff_getElem?.1 hx
  obtain ⟨hc, hd⟩ := List.getElem?_zip_eq_some.1 hi
  by_cases hcd : c = d
  · rw [hcd]
  · have hv := h.visible i (List.getElem?_eq_some_iff.1 hc).1
    simp only [hc, hd, ne_eq, Option.some.injEq] at hv
    obtain ⟨h₁, h₂⟩ := hv hcd
    exact iff_of_false h₁ h₂

lemma SameSpaces.append {u v x y : Text} (hl : u.length = v.length)
    (h : SameSpaces (u ++ x) (v ++ y)) : SameSpaces u v ∧ SameSpaces x y := by
  rw [SameSpaces, List.zip_append hl] at h
  exact ⟨fun z hz => h z (List.mem_append_left _ hz), fun z hz => h z (List.mem_append_right _ hz)⟩

def Token.pairs : Token → Token → List (Char × Char)
  | .quoted u, .quoted v => (u.zip v).filter fun x => x.1 ≠ ' '
  | .escaped c, .escaped d => [(c, d)].filter fun x => x.1 ≠ ' '
  | _, _ => []

def pairsFrom (k : Nat) : Nat → List (Token × Text) → List (Token × Text) → List (Char × Char)
  | c, (t, _) :: ts, (u, _) :: us =>
    (if c = k then t.pairs u else []) ++ pairsFrom k (if t = .separator then c + 1 else c) ts us
  | _, _, _ => []

lemma Twin.length_eq {x y : Token × Text} (h : Twin x y) : x.2.length = y.2.length := by
  cases h with
  | same => rfl
  | quoted q h => simp [h]
  | escaped c d => rfl

section Pairs

variable {code v w after : Text} {k n c : Nat} {t u : Token}

lemma hiddenPairs_of_quoted {x y q : Text} (hl : x.length = y.length)
    (hh : ∀ i < ('"' :: (x ++ q)).length, Hidden code (n + i) ↔ (Token.quoted x).hides i)
    (hs : ∀ i < ('"' :: (x ++ q)).length,
      sectionAt code (Text.byteSize (code.take (n + i))) = c) :
    hiddenPairs code k n (('"' :: (x ++ q)).zip ('"' :: (y ++ q))) =
      if c = k then (Token.quoted x).pairs (.quoted y) else [] := by
  have hz : (x.zip y).length = x.length := by rw [List.length_zip, ← hl, Nat.min_self]
  have hcut : ('"' :: (x ++ q)).zip ('"' :: (y ++ q)) =
      [('"', '"')] ++ (x.zip y ++ q.zip q) := by
    rw [List.zip_cons_cons, List.zip_append hl]
    rfl
  simp only [List.length_cons, List.length_append] at hh hs
  have hfirst : hiddenPairs code k n [('"', '"')] = [] := by
    refine hiddenPairs_of_visible fun i hi => ?_
    obtain rfl : i = 0 := Nat.lt_one_iff.1 hi
    rw [hh 0 (by omega)]
    simp [hides]
  have hinner : hiddenPairs code k (n + 1) (x.zip y) =
      if c = k then (x.zip y).filter fun z => z.1 ≠ ' ' else [] := by
    refine hiddenPairs_of_hidden (fun i hi => ?_) fun i hi => ?_
    · rw [Nat.add_assoc, hh _ (by omega)]
      exact ⟨by omega, by omega⟩
    · rw [Nat.add_assoc]
      exact hs _ (by omega)
  have hlast : hiddenPairs code k (n + 1 + (x.zip y).length) (q.zip q) = [] := by
    refine hiddenPairs_of_visible fun i hi => ?_
    rw [List.length_zip, Nat.min_self] at hi
    rw [hz, Nat.add_assoc, Nat.add_assoc, hh _ (by omega)]
    exact fun hn => absurd hn.2 (by omega)
  rw [hcut, hiddenPairs_append, hiddenPairs_append, hfirst, List.length_singleton, hinner, hlast,
    List.nil_append, List.append_nil]
  rfl

lemma hiddenPairs_of_escaped {x y : Char}
    (hh : ∀ i < 2, Hidden code (n + i) ↔ (Token.escaped x).hides i)
    (hs : ∀ i < 2, sectionAt code (Text.byteSize (code.take (n + i))) = c) :
    hiddenPairs code k n (['\\', x].zip ['\\', y]) =
      if c = k then (Token.escaped x).pairs (.escaped y) else [] := by
  have hfirst : hiddenPairs code k n [('\\', '\\')] = [] := by
    refine hiddenPairs_of_visible fun i hi => ?_
    obtain rfl : i = 0 := Nat.lt_one_iff.1 hi
    rw [hh 0 (by decide)]
    exact Nat.zero_ne_one
  have hnext : hiddenPairs code k (n + 1) [(x, y)] =
      if c = k then [(x, y)].filter fun z => z.1 ≠ ' ' else [] := by
    refine hiddenPairs_of_hidden (fun i hi => ?_) fun i hi => ?_
    · obtain rfl : i = 0 := Nat.lt_one_iff.1 hi
      exact (hh 1 (by decide)).2 rfl
    · obtain rfl : i = 0 := Nat.lt_one_iff.1 hi
      exact hs 1 (by decide)
  have hcut : ['\\', x].zip ['\\', y] = [('\\', '\\')] ++ [(x, y)] := rfl
  rw [hcut, hiddenPairs_append, hfirst, List.length_singleton, hnext, List.nil_append]
  rfl

lemma hiddenPairs_of_twin (ht : Twin (t, v) (u, w)) (hv : Spells t v after)
    (hh : ∀ i < v.length, Hidden code (n + i) ↔ t.hides i)
    (hs : ∀ i < v.length, sectionAt code (Text.byteSize (code.take (n + i))) = c) :
    hiddenPairs code k n (v.zip w) = if c = k then t.pairs u else [] := by
  cases ht with
  | quoted q hl => exact hiddenPairs_of_quoted hl hh hs
  | escaped x y => exact hiddenPairs_of_escaped hh hs
  | same =>
    cases t with
    | quoted x =>
      rcases hv.quoted_eq.2 with rfl | ⟨rfl, -⟩
      · exact hiddenPairs_of_quoted rfl hh hs
      · exact hiddenPairs_of_quoted rfl hh hs
    | escaped x =>
      cases hv
      exact hiddenPairs_of_escaped hh hs
    | _ =>
      have hn : ∀ i < (v.zip v).length, ¬Hidden code (n + i) := by
        intro i hi
        rw [List.length_zip, Nat.min_self] at hi
        exact (hh i hi).not.2 id
      rw [hiddenPairs_of_visible hn]
      exact (ite_self _).symm

end Pairs

lemma hiddenPairs_eq {done ts us : List (Token × Text)} {code : Text}
    (h : List.Forall₂ Twin ts us) (hs : Spelled (done ++ ts) code) (k : Nat) :
    hiddenPairs code k (spelling done).length ((spelling ts).zip (spelling us)) =
      pairsFrom k ((done.map Prod.fst).count .separator) ts us := by
  induction h generalizing done with
  | nil => rfl
  | @cons x y ts us hx _ ih =>
    obtain ⟨t, v⟩ := x
    obtain ⟨u, w⟩ := y
    obtain ⟨after, hv⟩ := hs.exists_spells
    have hl : v.length = w.length := hx.length_eq
    have hr := @ih (done ++ [(t, v)]) (by simpa using hs)
    have hd : (spelling (done ++ [(t, v)])).length = (spelling done).length + v.length := by
      rw [spelling_append, List.length_append]
      simp
    have hz : (v.zip w).length = v.length := by rw [List.length_zip, ← hl, Nat.min_self]
    have hc : ((done ++ [(t, v)]).map Prod.fst).count .separator =
        if t = .separator then (done.map Prod.fst).count .separator + 1
        else (done.map Prod.fst).count .separator := by
      simp [List.count_append, List.count_cons, apply_ite]
    rw [hd, hc] at hr
    rw [spelling_cons, spelling_cons, List.zip_append hl, hiddenPairs_append, hz, hr,
      hiddenPairs_of_twin hx hv (fun i hi => hidden_inside hs hi)
        fun i hi => sectionAt_inside hs hi]
    rfl

lemma hiddenIn_eq {ts us : List (Token × Text)} {a b : Text} (h : List.Forall₂ Twin ts us)
    (hts : Spelled ts a) (hus : Spelled us b) (k : Nat) : hiddenIn a b k = pairsFrom k 0 ts us := by
  have hc := @hiddenPairs_eq [] ts us a h hts k
  rw [hts.spelling_eq, hus.spelling_eq] at hc
  exact hc

end SheetFormat
