import Mathlib.Tactic.Lemma
import SheetFormat.Cache

/-! What a cache holds for a code is the format that the code compiles to, in any session. -/

namespace SheetFormat.Session

inductive Reachable : Session → Prop
  | empty : Reachable .empty
  | step {s : Session} (o : Options) (r : Request) (h : Reachable s) : Reachable (s.step o r).2

def Coherent (s : Session) : Prop :=
  ∀ p code h, (s.cache p).lookup code = some h → s.format? h = some (.parse code)

variable {s : Session} {p : Place} {code : Text} {h : Handle}

lemma coherent_empty : Coherent .empty := by
  intro p code h hl
  cases p <;> cases hl

lemma Coherent.clear (hs : s.Coherent) : s.clear.Coherent := by
  intro p code h hl
  cases p with
  | own => cases hl
  | shared => exact hs .shared code h hl

lemma get_of_hit (hl : (s.cache p).lookup code = some h) : s.get p code = (h, s) := by
  rw [get, hl]

lemma getElem?_of_append {α : Type} {l : List α} {a : α} {i : Nat} (h : l[i]? = some a)
    (more : List α) : (l ++ more)[i]? = some a := by
  obtain ⟨hi, -⟩ := List.getElem?_eq_some_iff.1 h
  rw [List.getElem?_append_left hi]
  exact h

lemma get_of_miss (hl : (s.cache p).lookup code = none) :
    ∃ t, s.get p code = (s.compiled.length, t) ∧ t.compiled = s.compiled ++ [.parse code] ∧
      t.cache p = (code, s.compiled.length) :: s.cache p ∧ ∀ q ≠ p, t.cache q = s.cache q := by
  rw [get, hl]
  refine ⟨_, rfl, ?_⟩
  cases p with
  | own =>
    refine ⟨rfl, rfl, fun q hq => ?_⟩
    cases q with
    | own => exact absurd rfl hq
    | shared => rfl
  | shared =>
    refine ⟨rfl, rfl, fun q hq => ?_⟩
    cases q with
    | own => rfl
    | shared => exact absurd rfl hq

lemma Coherent.get (hs : s.Coherent) (p : Place) (code : Text) :
    (s.get p code).2.Coherent ∧
      (s.get p code).2.format? (s.get p code).1 = some (.parse code) := by
  cases hl : (s.cache p).lookup code with
  | some h =>
    rw [get_of_hit hl]
    exact ⟨hs, hs p code h hl⟩
  | none =>
    obtain ⟨t, ht, hc, hp, hq⟩ := get_of_miss hl
    have hn : t.format? s.compiled.length = some (.parse code) := by
      simp [format?, hc]
    have ho : ∀ h g, s.format? h = some g → t.format? h = some g := by
      intro h g hg
      rw [format?, hc]
      exact getElem?_of_append hg _
    rw [ht]
    refine ⟨?_, hn⟩
    intro q other h hm
    by_cases hpq : q = p
    · subst hpq
      rw [hp, List.lookup_cons] at hm
      by_cases he : other = code
      · subst he
        simp at hm
        rw [← hm, hn]
      · simp [beq_eq_false_iff_ne.2 he] at hm
        exact ho h _ (hs q other h hm)
    · rw [hq q hpq] at hm
      exact ho h _ (hs q other h hm)

lemma Coherent.step (hs : s.Coherent) (o : Options) (r : Request) : (s.step o r).2.Coherent := by
  cases r with
  | get p code => exact (hs.get p code).1
  | clear => exact hs.clear
  | format h x =>
    rw [Session.step]
    cases s.format? h <;> exact hs

lemma Reachable.coherent (hs : s.Reachable) : s.Coherent := by
  induction hs with
  | empty => exact coherent_empty
  | step o r _ ih => exact ih.step o r

lemma Reachable.compile (hs : s.Reachable) (code : Text) :
    (s.compile code).1 = some (.parse code) ∧ (s.compile code).2.Reachable :=
  ⟨(hs.coherent.get .shared code).2, hs.step .standard (.get .shared code)⟩

variable (o : Options) (x : Binary64)

lemma Reachable.renderCode? (hs : s.Reachable) (code : Text) :
    (s.renderCode? o code x).1 = some ((NumberFormat.parse code).render? o x) ∧
      (s.renderCode? o code x).2.Reachable := by
  obtain ⟨hf, hr⟩ := hs.compile code
  have ht := congrArg (Option.map fun f : NumberFormat => f.render? o x) hf
  exact ⟨ht, hr⟩

lemma Reachable.renderCode (hs : s.Reachable) (code : Text) :
    (s.renderCode code x).1 = some ((NumberFormat.parse code).render .standard x) ∧
      (s.renderCode code x).2.Reachable := by
  obtain ⟨hf, hr⟩ := hs.compile code
  have ht := congrArg (Option.map fun f : NumberFormat => f.render .standard x) hf
  exact ⟨ht, hr⟩

end SheetFormat.Session
