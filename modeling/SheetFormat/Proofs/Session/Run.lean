import Mathlib.Data.Finset.Card
import SheetFormat.Proofs.Section.Kinds
import SheetFormat.Proofs.Session

/-! A handle belongs for good to one cache, one stretch between clears and one code. -/

namespace SheetFormat

namespace Request

def isClear : Request → Bool
  | clear => true
  | _ => false

def codeAt? (p : Session.Place) : Request → Option Text
  | get q code => if q = p then some code else none
  | _ => none

end Request

namespace Session

/-- What a handle is for: a code in a cache that has been cleared so many times. -/
structure Stamp where
  place : Place
  clears : Nat
  code : Text

def clearsAt : Place → Nat → Nat
  | .own, n => n
  | .shared, _ => 0

/-- The formats of a session are those of the codes on the stamps, and its caches hold the handles
with stamps of the time after `n` clears. -/
structure Stamped (s : Session) (n : Nat) (stamps : List Stamp) : Prop where
  compiled : s.compiled = stamps.map fun t => .parse t.code
  distinct : stamps.Nodup
  past : ∀ t ∈ stamps, t.clears ≤ clearsAt t.place n
  lookup : ∀ p code h, (s.cache p).lookup code = some h ↔
    stamps[h]? = some ⟨p, clearsAt p n, code⟩

variable {s : Session} {p q : Place} {code other : Text} {h k n : Nat} {stamps : List Stamp}

lemma stamped_empty : Stamped .empty 0 [] := by
  refine ⟨rfl, List.nodup_nil, by simp, fun p code h => ?_⟩
  cases p <;> simp [cache, empty]

lemma Stamped.format? (hs : Stamped s n stamps) {t : Stamp} (ht : stamps[h]? = some t) :
    s.format? h = some (.parse t.code) := by
  rw [Session.format?, hs.compiled, List.getElem?_map, ht]
  rfl

lemma getElem?_snoc {α : Type} {l : List α} {a b : α} {i : Nat} (h : (l ++ [a])[i]? = some b) :
    l[i]? = some b ∨ i = l.length ∧ a = b := by
  rw [List.getElem?_append] at h
  split_ifs at h with hi
  · exact .inl h
  · rw [List.getElem?_singleton] at h
    split_ifs at h with h0
    exact .inr ⟨by omega, Option.some.inj h⟩

lemma eq_iff_of_nodup {α : Type} {l : List α} (hl : l.Nodup) {a b : α} (hh : l[h]? = some a)
    (hk : l[k]? = some b) : h = k ↔ a = b := by
  obtain ⟨hi, -⟩ := List.getElem?_eq_some_iff.1 hh
  rw [← List.getElem?_inj hi hl, hh, hk, Option.some.injEq]

lemma Stamped.get_of_miss (hs : Stamped s n stamps) (hl : (s.cache p).lookup code = none) :
    (s.get p code).1 = stamps.length ∧
      Stamped (s.get p code).2 n (stamps ++ [⟨p, clearsAt p n, code⟩]) := by
  obtain ⟨t, ht, hc, hp, hq⟩ := Session.get_of_miss hl
  have hlen : s.compiled.length = stamps.length := by rw [hs.compiled, List.length_map]
  have hnew : ⟨p, clearsAt p n, code⟩ ∉ stamps := by
    intro hm
    obtain ⟨i, hi⟩ := List.getElem?_of_mem hm
    rw [(hs.lookup p code i).2 hi] at hl
    cases hl
  rw [ht]
  refine ⟨hlen, ?_, ?_, ?_, ?_⟩
  · rw [hc, hs.compiled, List.map_append]
    rfl
  · rw [← List.concat_eq_append, List.nodup_concat]
    exact ⟨hnew, hs.distinct⟩
  · intro u hu
    rcases List.mem_append.1 hu with hu | hu
    · exact hs.past u hu
    · rw [List.mem_singleton.1 hu]
  · intro q other i
    constructor
    · intro hi
      by_cases hpq : q = p
      · subst hpq
        rw [hp, List.lookup_cons] at hi
        by_cases he : other = code
        · subst he
          simp only [beq_self_eq_true, Option.some.injEq] at hi
          rw [← hi, hlen]
          exact List.getElem?_concat_length
        · simp only [beq_eq_false_iff_ne.2 he] at hi
          exact getElem?_of_append ((hs.lookup q other i).1 hi) _
      · rw [hq q hpq] at hi
        exact getElem?_of_append ((hs.lookup q other i).1 hi) _
    · intro hi
      rcases getElem?_snoc hi with hi | ⟨rfl, he⟩
      · have ho := (hs.lookup q other i).2 hi
        by_cases hpq : q = p
        · subst hpq
          have hne : other ≠ code := by
            rintro rfl
            rw [ho] at hl
            cases hl
          rw [hp, List.lookup_cons, beq_eq_false_iff_ne.2 hne]
          exact ho
        · rw [hq q hpq]
          exact ho
      · obtain ⟨rfl, -, rfl⟩ := Stamp.mk.inj he
        rw [hp, List.lookup_cons_self, hlen]

lemma Stamped.get (hs : Stamped s n stamps) (p : Place) (code : Text) :
    ∃ more, Stamped (s.get p code).2 n (stamps ++ more) ∧
      (stamps ++ more)[(s.get p code).1]? = some ⟨p, clearsAt p n, code⟩ := by
  cases hl : (s.cache p).lookup code with
  | some h =>
    refine ⟨[], ?_⟩
    rw [get_of_hit hl, List.append_nil]
    exact ⟨hs, (hs.lookup p code h).1 hl⟩
  | none =>
    obtain ⟨hh, ht⟩ := hs.get_of_miss hl
    refine ⟨_, ht, ?_⟩
    rw [hh]
    exact List.getElem?_concat_length

lemma Stamped.clear (hs : Stamped s n stamps) : Stamped s.clear (n + 1) stamps := by
  refine ⟨hs.compiled, hs.distinct, fun t ht => ?_, fun p code h => ?_⟩
  · have hp := hs.past t ht
    cases ht : t.place <;> rw [ht] at hp
    · exact hp.trans (Nat.le_succ n)
    · exact hp
  · cases p with
    | own =>
      constructor
      · intro hl
        cases hl
      · intro ht
        have hp := hs.past _ (List.mem_of_getElem? ht)
        exact absurd hp (Nat.not_succ_le_self n)
    | shared => exact hs.lookup .shared code h

lemma Stamped.step (hs : Stamped s n stamps) (o : Options) (r : Request) :
    ∃ more, Stamped (s.step o r).2 (n + if r.isClear then 1 else 0) (stamps ++ more) := by
  cases r with
  | get p code =>
    obtain ⟨more, ht, -⟩ := hs.get p code
    exact ⟨more, ht⟩
  | clear =>
    refine ⟨[], ?_⟩
    rw [List.append_nil]
    exact hs.clear
  | format h x =>
    refine ⟨[], ?_⟩
    rw [List.append_nil, Session.step]
    cases s.format? h <;> exact hs

def after (o : Options) : Session → List Request → Session
  | s, [] => s
  | s, r :: rest => after o (s.step o r).2 rest

lemma after_append (o : Options) (s : Session) (rs more : List Request) :
    after o s (rs ++ more) = after o (after o s rs) more := by
  induction rs generalizing s with
  | nil => rfl
  | cons r rs ih => exact ih _

lemma Stamped.after (hs : Stamped s n stamps) (o : Options) (rs : List Request) :
    ∃ more, Stamped (after o s rs) (n + rs.countP Request.isClear) (stamps ++ more) := by
  induction rs generalizing s n stamps with
  | nil => exact ⟨[], by rwa [List.append_nil]⟩
  | cons r rs ih =>
    obtain ⟨first, hr⟩ := hs.step o r
    obtain ⟨more, hm⟩ := ih hr
    refine ⟨first ++ more, ?_⟩
    rw [List.countP_cons, ← List.append_assoc, Nat.add_comm (rs.countP _), ← Nat.add_assoc]
    exact hm

lemma clearsAt_eq_iff {p q : Place} {n j : Nat} {c d : Text} :
    (⟨p, clearsAt p n, c⟩ : Stamp) = ⟨q, clearsAt q (n + j), d⟩ ↔
      p = q ∧ c = d ∧ (p = .own → j = 0) := by
  rw [Stamp.mk.injEq]
  constructor
  · rintro ⟨rfl, hn, rfl⟩
    refine ⟨rfl, rfl, ?_⟩
    rintro rfl
    exact Nat.add_eq_left.1 hn.symm
  · rintro ⟨rfl, rfl, hj⟩
    refine ⟨rfl, ?_, rfl⟩
    cases p with
    | own => rw [hj rfl, Nat.add_zero]
    | shared => rfl

lemma Stamped.get_get (hs : Stamped s n stamps) (o : Options) (p q : Place) (c d : Text)
    (between : List Request) :
    (Session.after o (s.get p c).2 between).format? (s.get p c).1 = some (.parse c) ∧
      ((s.get p c).1 = ((Session.after o (s.get p c).2 between).get q d).1 ↔
        p = q ∧ c = d ∧ (p = .own → between.countP Request.isClear = 0)) := by
  obtain ⟨first, h₁, hp⟩ := hs.get p c
  obtain ⟨more, h₂⟩ := h₁.after o between
  obtain ⟨last, h₃, hq⟩ := h₂.get q d
  refine ⟨h₂.format? (getElem?_of_append hp more), ?_⟩
  rw [eq_iff_of_nodup h₃.distinct (getElem?_of_append (getElem?_of_append hp more) last) hq]
  exact clearsAt_eq_iff

lemma cache_get_of_ne (hq : q ≠ p) : (s.get p code).2.cache q = s.cache q := by
  cases hl : (s.cache p).lookup code with
  | some h => rw [get_of_hit hl]
  | none =>
    obtain ⟨t, ht, -, -, ho⟩ := Session.get_of_miss hl
    rw [ht]
    exact ho q hq

def sinceClear : Place → List Request → List Request
  | .own, rs => (rs.reverse.takeWhile (!·.isClear)).reverse
  | .shared, rs => rs

def codesHeld (p : Place) (rs : List Request) : List Text :=
  (sinceClear p rs).filterMap (Request.codeAt? p)

def keys (s : Session) (p : Place) : List Text := (s.cache p).map Prod.fst

def Holds (s : Session) (p : Place) (codes : List Text) : Prop :=
  (s.keys p).Nodup ∧ ∀ code, code ∈ s.keys p ↔ code ∈ codes

lemma codesHeld_snoc_clear (rs : List Request) : codesHeld .own (rs ++ [.clear]) = [] := by
  simp [codesHeld, sinceClear, Request.isClear]

lemma codesHeld_snoc {r : Request} (hr : p = .own → r.isClear = false) (rs : List Request) :
    codesHeld p (rs ++ [r]) = codesHeld p rs ++ (r.codeAt? p).toList := by
  have hs : sinceClear p (rs ++ [r]) = sinceClear p rs ++ [r] := by
    cases p with
    | own => simp [sinceClear, hr rfl]
    | shared => rfl
  rw [codesHeld, hs, List.filterMap_append]
  cases hc : r.codeAt? p <;> simp [codesHeld, hc]

lemma codesHeld_snoc_of_none {r : Request} (hr : p = .own → r.isClear = false)
    (hc : r.codeAt? p = none) (rs : List Request) :
    codesHeld p (rs ++ [r]) = codesHeld p rs := by
  rw [codesHeld_snoc hr, hc, Option.toList_none, List.append_nil]

lemma lookup_eq_none_iff : (s.cache p).lookup code = none ↔ code ∉ s.keys p := by
  rw [List.lookup_eq_none_iff, keys, List.mem_map]
  constructor
  · rintro hl ⟨e, he, rfl⟩
    simpa using hl e he
  · intro hk e he
    rw [bne_iff_ne]
    rintro rfl
    exact hk ⟨e, he, rfl⟩

lemma Holds.card {codes : List Text} (hs : s.Holds p codes) :
    (s.cache p).length = codes.toFinset.card := by
  have hk : (s.keys p).toFinset = codes.toFinset := by
    ext code
    simpa using hs.2 code
  rw [← hk, List.toFinset_card_of_nodup hs.1, keys, List.length_map]

lemma Holds.get {codes : List Text} (hs : s.Holds p codes) (q : Place) (code : Text) :
    (s.get q code).2.Holds p (codes ++ (Request.codeAt? p (.get q code)).toList) := by
  cases hl : (s.cache q).lookup code with
  | some h =>
    rw [get_of_hit hl]
    refine ⟨hs.1, fun other => ?_⟩
    have hc : q = p → code ∈ codes := by
      rintro rfl
      rw [← hs.2, ← not_not (a := code ∈ _), ← lookup_eq_none_iff, hl]
      exact Option.some_ne_none h
    rw [hs.2, List.mem_append, Request.codeAt?]
    split_ifs with hq
    · refine ⟨.inl, fun ho => ho.elim id fun ho => ?_⟩
      rw [List.mem_singleton.1 ho]
      exact hc hq
    · simp
  | none =>
    obtain ⟨t, ht, -, hp, ho⟩ := Session.get_of_miss hl
    rw [ht, Request.codeAt?]
    split_ifs with hq
    · subst hq
      have hk : t.keys q = code :: s.keys q := congrArg (List.map Prod.fst) hp
      refine ⟨?_, fun other => ?_⟩
      · rw [hk, List.nodup_cons]
        exact ⟨lookup_eq_none_iff.1 hl, hs.1⟩
      · rw [hk, List.mem_cons, hs.2, List.mem_append, Option.toList_some, List.mem_singleton]
        exact or_comm
    · have hk : t.keys p = s.keys p := congrArg (List.map Prod.fst) (ho p (Ne.symm hq))
      rw [Option.toList_none, List.append_nil, Holds, hk]
      exact hs

lemma holds_after (o : Options) (p : Place) (rs : List Request) :
    (after o .empty rs).Holds p (codesHeld p rs) := by
  induction rs using List.reverseRecOn with
  | nil => cases p <;> exact ⟨List.nodup_nil, fun code => Iff.rfl⟩
  | append_singleton rs r ih =>
    rw [after_append]
    cases r with
    | get q code =>
      rw [codesHeld_snoc (fun _ => rfl)]
      exact ih.get q code
    | clear =>
      cases p with
      | own =>
        rw [codesHeld_snoc_clear]
        exact ⟨List.nodup_nil, fun code => Iff.rfl⟩
      | shared =>
        rw [codesHeld_snoc_of_none (fun hp => by cases hp) rfl]
        exact ih
    | format h x =>
      have hf : after o (after o .empty rs) [.format h x] = after o .empty rs := by
        rw [after, after, Session.step]
        cases (after o .empty rs).format? h <;> rfl
      rw [codesHeld_snoc_of_none (fun _ => rfl) rfl, hf]
      exact ih

lemma getElem?_run (o : Options) (s : Session) (rs : List Request) (i : Nat) :
    (run o s rs)[i]? = rs[i]?.map fun r =>
      (((after o s (rs.take i)).step o r).1, ((after o s (rs.take i)).step o r).2.size) := by
  induction rs generalizing s i with
  | nil => rfl
  | cons r rs ih =>
    cases i with
    | zero => rfl
    | succ i => exact ih _ i

def between (i j : Nat) (rs : List Request) : List Request := (rs.take j).drop (i + 1)

variable {o : Options} {rs : List Request} {i j : Nat} {r : Request}

lemma mem_between : r ∈ between i j rs ↔ ∃ l, i < l ∧ l < j ∧ rs[l]? = some r := by
  rw [between, List.mem_iff_getElem?]
  constructor
  · rintro ⟨m, hm⟩
    rw [List.getElem?_drop, List.getElem?_take] at hm
    split_ifs at hm with hj
    exact ⟨i + 1 + m, by omega, hj, hm⟩
  · rintro ⟨l, hi, hj, hl⟩
    refine ⟨l - (i + 1), ?_⟩
    rw [List.getElem?_drop, Nat.add_sub_of_le hi, List.getElem?_take_of_lt hj, hl]

lemma countP_between_eq_zero_iff : (between i j rs).countP Request.isClear = 0 ↔
    ∀ l, i < l → l < j → rs[l]? ≠ some .clear := by
  rw [List.countP_eq_zero]
  constructor
  · intro h l hi hj hl
    exact h .clear (mem_between.2 ⟨l, hi, hj, hl⟩) rfl
  · intro h r hr hc
    obtain ⟨l, hi, hj, hl⟩ := mem_between.1 hr
    cases r with
    | clear => exact h l hi hj hl
    | get p code => cases hc
    | format h x => cases hc

lemma after_take (hij : i < j) (hr : rs[i]? = some r) (o : Options) (s : Session) :
    after o s (rs.take j) =
      after o ((after o s (rs.take i)).step o r).2 (between i j rs) := by
  have hj : (rs.take j)[i]? = some r := by rw [List.getElem?_take_of_lt hij, hr]
  obtain ⟨hlt, he⟩ := List.getElem?_eq_some_iff.1 hj
  have hd := List.drop_eq_getElem_cons hlt
  conv => lhs; rw [← List.take_append_drop i (rs.take j), hd, he, List.take_take,
    Nat.min_eq_left hij.le, after_append]
  rfl

def before (o : Options) (rs : List Request) (i : Nat) : Session := after o .empty (rs.take i)

lemma exists_stamped (o : Options) (rs : List Request) :
    ∃ n stamps, Stamped (after o .empty rs) n stamps := by
  obtain ⟨stamps, hs⟩ := stamped_empty.after o rs
  exact ⟨_, _, hs⟩

lemma run_get (o : Options) (hi : rs[i]? = some (.get p code)) :
    (run o .empty rs)[i]? = some (.handle ((before o rs i).get p code).1,
      ((before o rs i).get p code).2.size) := by
  rw [getElem?_run, hi]
  rfl

lemma run_format {f : NumberFormat} {x : Binary64} (o : Options)
    (hj : rs[j]? = some (.format h x)) (hf : (before o rs j).format? h = some f) :
    (run o .empty rs)[j]? = some (.rendered f.source (f.render o x), (before o rs j).size) := by
  rw [getElem?_run, hj, Option.map_some, Session.step, ← before, hf]

lemma format?_before (o : Options) (hij : i < j) (hi : rs[i]? = some (.get p code)) :
    (before o rs j).format? ((before o rs i).get p code).1 = some (.parse code) := by
  obtain ⟨n, stamps, hs⟩ := exists_stamped o (rs.take i)
  rw [before, after_take hij hi]
  exact (hs.get_get o p p code code _).1

lemma get_eq_get_iff {c d : Text} (o : Options) (hij : i < j) (hi : rs[i]? = some (.get p c)) :
    ((before o rs i).get p c).1 = ((before o rs j).get q d).1 ↔
      p = q ∧ c = d ∧ (p = .own → ∀ l, i < l → l < j → rs[l]? ≠ some .clear) := by
  obtain ⟨n, stamps, hs⟩ := exists_stamped o (rs.take i)
  rw [← countP_between_eq_zero_iff, before, before, after_take hij hi]
  exact (hs.get_get o p q c d _).2

lemma size_step (o : Options) (hi : rs[i]? = some r) :
    ((before o rs i).step o r).2.size = (codesHeld .own (rs.take (i + 1))).toFinset.card := by
  obtain ⟨hlt, he⟩ := List.getElem?_eq_some_iff.1 hi
  have ht : after o .empty (rs.take (i + 1)) = ((before o rs i).step o r).2 := by
    rw [← List.take_append_getElem hlt, he, after_append]
    rfl
  rw [← ht]
  exact (holds_after o .own _).card

lemma isEmpty_iff (s : Session) : s.isEmpty = true ↔ s.size = 0 := by
  rw [isEmpty, size, List.isEmpty_iff, List.length_eq_zero_iff]

/-- A run of requests replies as if nothing were kept: a handle stands for the format that its code
compiles to, at any later time. Handles are equal exactly for one code in one cache that is not
cleared in between, and a cache is as large as the set of codes got since it was cleared. -/
theorem run_transparent (o : Options) (rs : List Request) :
    (∀ (i : Nat) (p : Place) (code : Text), rs[i]? = some (.get p code) →
      ∃ h n, (run o .empty rs)[i]? = some (.handle h, n) ∧ ∀ j, i < j →
        (after o .empty (rs.take j)).format? h = some (.parse code) ∧
        ∀ x, rs[j]? = some (.format h x) → ∃ n, (run o .empty rs)[j]? =
          some (.rendered code ((NumberFormat.parse code).render o x), n)) ∧
    (∀ (i j : Nat) (p q : Place) (c d : Text) (h k : Handle) (m n : Nat), i < j →
      rs[i]? = some (.get p c) → rs[j]? = some (.get q d) →
      (run o .empty rs)[i]? = some (.handle h, m) → (run o .empty rs)[j]? = some (.handle k, n) →
      (h = k ↔ p = q ∧ c = d ∧ (p = .own → ∀ l, i < l → l < j → rs[l]? ≠ some .clear))) ∧
    (∀ (i : Nat) (r : Reply) (n : Nat), (run o .empty rs)[i]? = some (r, n) →
      n = (codesHeld .own (rs.take (i + 1))).toFinset.card) ∧
    (∀ p, ((after o .empty rs).cache p).length = (codesHeld p rs).toFinset.card) ∧
    ((after o .empty rs).isEmpty = true ↔ (codesHeld .own rs).toFinset.card = 0) ∧
    ∀ p q code, q ≠ p →
      (after o .empty (rs ++ [.get p code])).cache q = (after o .empty rs).cache q := by
  refine ⟨?_, ?_, ?_, ?_, ?_, ?_⟩
  · intro i p code hi
    refine ⟨_, _, run_get o hi, fun j hij => ⟨format?_before o hij hi, fun x hj => ?_⟩⟩
    refine ⟨(before o rs j).size, ?_⟩
    rw [run_format o hj (format?_before o hij hi), NumberFormat.parse_source]
  · intro i j p q c d h k m n hij hi hj hh hk
    rw [run_get o hi] at hh
    rw [run_get o hj] at hk
    obtain ⟨hh, -⟩ := Prod.mk.inj (Option.some.inj hh)
    obtain ⟨hk, -⟩ := Prod.mk.inj (Option.some.inj hk)
    rw [← Reply.handle.inj hh, ← Reply.handle.inj hk]
    exact get_eq_get_iff o hij hi
  · intro i r n hn
    rw [getElem?_run] at hn
    obtain ⟨q, hq, he⟩ := Option.map_eq_some_iff.1 hn
    rw [← size_step o hq]
    exact (Prod.mk.inj he).2.symm
  · exact fun p => (holds_after o p rs).card
  · rw [isEmpty_iff]
    exact iff_of_eq (congrArg (· = 0) (holds_after o .own rs).card)
  · intro p q code hpq
    rw [after_append]
    exact cache_get_of_ne hpq

theorem run_transparent_cleared :
    let o := Options.standard
    let code := "0.00".toList
    let x := Binary64.ofQuotient false 1 8
    let rs : List Request := [.get .own code, .get .own "0.00 ".toList, .get .own code, .clear,
      .get .shared code, .get .own code, .format 0 x]
    (rs[0]? = some (.get .own code) ∧ rs[2]? = some (.get .own code) ∧
      rs[5]? = some (.get .own code) ∧ rs[3]? = some .clear ∧ rs[6]? = some (.format 0 x) ∧
      (run o .empty rs)[0]? = some (.handle 0, 1) ∧ (run o .empty rs)[2]? = some (.handle 0, 2) ∧
      (run o .empty rs)[5]? = some (.handle 3, 1)) ∧
    (0 = 0 ↔ Place.own = .own ∧ code = code ∧
      (Place.own = .own → ∀ l, 0 < l → l < 2 → rs[l]? ≠ some .clear)) ∧
    (0 = 3 ↔ Place.own = .own ∧ code = code ∧
      (Place.own = .own → ∀ l, 0 < l → l < 5 → rs[l]? ≠ some .clear)) ∧
    (after o .empty (rs.take 6)).format? 0 = some (.parse code) ∧
    (∃ n, (run o .empty rs)[6]? =
      some (.rendered code ((NumberFormat.parse code).render o x), n)) ∧
    2 = (codesHeld .own (rs.take 3)).toFinset.card ∧
    (after o .empty (rs ++ [.get .own []])).cache .shared = (after o .empty rs).cache .shared := by
  intro o code x rs
  obtain ⟨hget, heq, hsize, -, -, hother⟩ := run_transparent o rs
  have h0 : (run o .empty rs)[0]? = some (.handle 0, 1) := by decide +kernel
  have h2 : (run o .empty rs)[2]? = some (.handle 0, 2) := by decide +kernel
  have h5 : (run o .empty rs)[5]? = some (.handle 3, 1) := by decide +kernel
  obtain ⟨h, n, hr, hf⟩ := hget 0 .own code rfl
  obtain rfl : h = 0 := by
    rw [hr] at h0
    exact Reply.handle.inj (Prod.mk.inj (Option.some.inj h0)).1
  obtain ⟨hc, hx⟩ := hf 6 (by decide)
  exact ⟨⟨rfl, rfl, rfl, rfl, rfl, h0, h2, h5⟩,
    heq 0 2 .own .own code code 0 0 1 2 (by decide) rfl rfl h0 h2,
    heq 0 5 .own .own code code 0 3 1 1 (by decide) rfl rfl h0 h5,
    hc, hx x rfl, hsize 2 _ 2 h2, hother .own .shared [] (by decide)⟩

end Session

end SheetFormat
