import Mathlib.Data.List.TakeWhile
import SheetFormat.Section.Compile

/-! Lists that agree one by one but for some characters that they carry in places of their own. -/

namespace SheetFormat

/-- The lists agree but for the pairs of characters, no spaces, which they carry in their order. -/
inductive Woven {α : Type} (hole : Char → α) : List (Char × Char) → List α → List α → Prop
  | nil : Woven hole [] [] []
  | same (x : α) {cs : List (Char × Char)} {xs ys : List α} :
      Woven hole cs xs ys → Woven hole cs (x :: xs) (x :: ys)
  | changed {c d : Char} {cs : List (Char × Char)} {xs ys : List α} : c ≠ ' ' → d ≠ ' ' →
      Woven hole cs xs ys → Woven hole ((c, d) :: cs) (hole c :: xs) (hole d :: ys)

namespace Woven

variable {α β : Type} {hole : Char → α} {p : α → Bool} {cs ds : List (Char × Char)}
  {xs ys us vs : List α}

lemma refl (hole : Char → α) (xs : List α) : Woven hole [] xs xs := by
  induction xs with
  | nil => exact .nil
  | cons x xs ih => exact .same x ih

lemma append (h : Woven hole cs xs ys) (h' : Woven hole ds us vs) :
    Woven hole (cs ++ ds) (xs ++ us) (ys ++ vs) := by
  induction h with
  | nil => exact h'
  | same x _ ih => exact .same x ih
  | changed hc hd _ ih => exact .changed hc hd ih

lemma reverse (h : Woven hole cs xs ys) : Woven hole cs.reverse xs.reverse ys.reverse := by
  induction h with
  | nil => exact .nil
  | same x _ ih =>
    simpa using ih.append (refl hole [x])
  | @changed c d cs xs ys hc hd _ ih =>
    simpa using ih.append (.changed hc hd .nil)

lemma any_eq (hp : ∀ c, c ≠ ' ' → p (hole c) = false) (h : Woven hole cs xs ys) :
    xs.any p = ys.any p := by
  induction h with
  | nil => rfl
  | same x _ ih => rw [List.any_cons, List.any_cons, ih]
  | changed hc hd _ ih => rw [List.any_cons, List.any_cons, ih, hp _ hc, hp _ hd]

lemma find?_eq (hp : ∀ c, c ≠ ' ' → p (hole c) = false) (h : Woven hole cs xs ys) :
    xs.find? p = ys.find? p := by
  induction h with
  | nil => rfl
  | same x _ ih => rw [List.find?_cons, List.find?_cons, ih]
  | changed hc hd _ ih => rw [List.find?_cons, List.find?_cons, ih, hp _ hc, hp _ hd]

lemma head?_any_eq (hp : ∀ c, c ≠ ' ' → p (hole c) = false) (h : Woven hole cs xs ys) :
    xs.head?.any p = ys.head?.any p := by
  cases h with
  | nil => rfl
  | same x _ => rfl
  | changed hc hd _ =>
    change p (hole _) = p (hole _)
    rw [hp _ hc, hp _ hd]

lemma getLast?_any_eq (hp : ∀ c, c ≠ ' ' → p (hole c) = false) (h : Woven hole cs xs ys) :
    xs.getLast?.any p = ys.getLast?.any p := by
  simpa using h.reverse.head?_any_eq hp

lemma takeWhile_eq_and_dropWhile (hp : ∀ c, c ≠ ' ' → p (hole c) = false)
    (h : Woven hole cs xs ys) :
    xs.takeWhile p = ys.takeWhile p ∧ Woven hole cs (xs.dropWhile p) (ys.dropWhile p) := by
  induction h with
  | nil => exact ⟨rfl, .nil⟩
  | @same x cs xs ys h ih =>
    cases hx : p x with
    | true => simpa [hx] using ih
    | false => simpa [hx] using .same x h
  | @changed c d cs xs ys hc hd h ih =>
    simpa [hp _ hc, hp _ hd] using .changed hc hd h

lemma exists_takeWhile_dropWhile (hp : ∀ c, c ≠ ' ' → p (hole c) = true)
    (h : Woven hole cs xs ys) :
    ∃ cs₁ cs₂, cs = cs₁ ++ cs₂ ∧ Woven hole cs₁ (xs.takeWhile p) (ys.takeWhile p) ∧
      ((xs.dropWhile p = [] ∧ ys.dropWhile p = [] ∧ cs₂ = []) ∨
        ∃ x us vs, p x = false ∧ xs.dropWhile p = x :: us ∧ ys.dropWhile p = x :: vs ∧
          Woven hole cs₂ us vs) := by
  induction h with
  | nil => exact ⟨[], [], rfl, .nil, .inl ⟨rfl, rfl, rfl⟩⟩
  | @same x cs xs ys h ih =>
    cases hx : p x with
    | true =>
      obtain ⟨cs₁, cs₂, rfl, ht, hd⟩ := ih
      exact ⟨cs₁, cs₂, rfl, by simpa [hx] using .same x ht, by simpa [hx] using hd⟩
    | false =>
      refine ⟨[], cs, rfl, by simpa [hx] using .nil, .inr ⟨x, xs, ys, hx, ?_, ?_, h⟩⟩
      · simp [hx]
      · simp [hx]
  | @changed c d cs xs ys hc hd h ih =>
    obtain ⟨cs₁, cs₂, rfl, ht, hr⟩ := ih
    refine ⟨(c, d) :: cs₁, cs₂, rfl, ?_, ?_⟩
    · simpa [hp _ hc, hp _ hd] using .changed hc hd ht
    · simpa [hp _ hc, hp _ hd] using hr

lemma flatMap {hole' : Char → β} {f : α → List β} (hf : ∀ c, f (hole c) = [hole' c])
    (h : Woven hole cs xs ys) : Woven hole' cs (xs.flatMap f) (ys.flatMap f) := by
  induction h with
  | nil => exact .nil
  | same x _ ih =>
    rw [List.flatMap_cons, List.flatMap_cons]
    exact (refl hole' (f x)).append ih
  | changed hc hd _ ih =>
    rw [List.flatMap_cons, List.flatMap_cons, hf, hf]
    exact .changed hc hd ih

lemma filterMap {hole' : Char → β} {f : α → Option β} (hf : ∀ c, f (hole c) = some (hole' c))
    (h : Woven hole cs xs ys) : Woven hole' cs (xs.filterMap f) (ys.filterMap f) := by
  induction h with
  | nil => exact .nil
  | same x _ ih =>
    rw [List.filterMap_cons, List.filterMap_cons]
    cases f x with
    | none => exact ih
    | some y => exact .same y ih
  | changed hc hd _ ih =>
    rw [List.filterMap_cons_some (hf _), List.filterMap_cons_some (hf _)]
    exact .changed hc hd ih

end Woven

end SheetFormat
