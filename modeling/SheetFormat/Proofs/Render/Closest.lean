import Mathlib.Algebra.Order.Field.Basic
import Mathlib.Data.Rat.Cast.Order
import Mathlib.Tactic.FieldSimp
import Mathlib.Tactic.Linarith
import Mathlib.Tactic.Positivity
import Mathlib.Tactic.Ring

/-! Of two adjacent fractions the nearer one is the closest of all to a number between them, and
almost so to one that is almost between. -/

namespace SheetFormat

def IsClosest (largest : ℕ) (x : ℚ) (n d : ℕ) : Prop :=
  ∀ (p : ℤ) (q : ℕ), 1 ≤ q → q ≤ largest → |x - n / d| ≤ |x - p / q|

/-- Two fractions with no other one up to the largest denominator between them; the second is above
the first on the side of 1, and below it on the side of -1. -/
structure Adjacent (largest : ℕ) (side : ℤ) (n d g e : ℕ) : Prop where
  pos_left : 1 ≤ d
  le_left : d ≤ largest
  pos_right : 1 ≤ e
  le_right : e ≤ largest
  largest_lt : largest < d + e
  unit : side = 1 ∨ side = -1
  det : g * d - n * e = side

def Beside (error : ℚ) (side : ℤ) (n d : ℕ) (x : ℚ) : Prop := -error ≤ side * (x - n / d)

variable {largest n d g e q a b : ℕ} {p side : ℤ} {x y error : ℚ}

lemma abs_side_mul (h : side = 1 ∨ side = -1) (x : ℚ) : |(side : ℚ) * x| = |x| := by
  rcases h with rfl | rfl <;> simp

lemma one_div_le_abs_sub (hq : 1 ≤ q) (hb : 1 ≤ b) (h : p * b ≠ a * q) :
    1 / (q * b : ℚ) ≤ |(p : ℚ) / q - a / b| := by
  have hq0 : (0 : ℚ) < q := by exact_mod_cast hq
  have hb0 : (0 : ℚ) < b := by exact_mod_cast hb
  have he : (p : ℚ) / q - a / b = ((p * b - a * q : ℤ) : ℚ) / (q * b) := by
    push_cast
    field_simp
  have hi : (1 : ℚ) ≤ |((p * b - a * q : ℤ) : ℚ)| := by
    exact_mod_cast Int.one_le_abs (sub_ne_zero.2 h)
  rw [he, abs_div, abs_of_pos (mul_pos hq0 hb0)]
  exact div_le_div_of_nonneg_right hi (mul_pos hq0 hb0).le

namespace Adjacent

lemma symm (h : Adjacent largest side n d g e) : Adjacent largest (-side) g e n d where
  pos_left := h.pos_right
  le_left := h.le_right
  pos_right := h.pos_left
  le_right := h.le_left
  largest_lt := Nat.add_comm d e ▸ h.largest_lt
  unit := h.unit.elim (fun hs => .inr (congrArg _ hs)) fun hs => .inl (by rw [hs]; rfl)
  det := by
    have := h.det
    omega

lemma not_between (h : Adjacent largest side n d g e) (p : ℤ) (hq : q ≤ largest) :
    side * (p * d - n * q) ≤ 0 ∨ -side * (p * e - g * q) ≤ 0 := by
  have hs : side * (p * d - n * q) * e + -side * (p * e - g * q) * d = q := by
    calc side * (p * d - n * q) * e + -side * (p * e - g * q) * d
        = side * (g * d - n * e) * q := by ring
      _ = q := by rw [h.det, mul_self_eq_one_iff.2 h.unit, one_mul]
  by_contra! hc
  have h1 : (e : ℤ) ≤ side * (p * d - n * q) * e := le_mul_of_one_le_left (by positivity) hc.1
  have h2 : (d : ℤ) ≤ -side * (p * e - g * q) * d := le_mul_of_one_le_left (by positivity) hc.2
  have := h.largest_lt
  omega

lemma side_mul_sub (h : Adjacent largest side n d g e) :
    side * ((g : ℚ) / e - n / d) = 1 / (d * e) := by
  have hd : (0 : ℚ) < d := by exact_mod_cast h.pos_left
  have he : (0 : ℚ) < e := by exact_mod_cast h.pos_right
  have hdet : (g * d - n * e : ℚ) = side := by exact_mod_cast h.det
  have hs : (side * side : ℚ) = 1 := by exact_mod_cast mul_self_eq_one_iff.2 h.unit
  have hsub : (g : ℚ) / e - n / d = (g * d - n * e) / (d * e) := by field_simp
  rw [hsub, hdet, mul_div_assoc', hs]

end Adjacent

lemma side_mul_div_sub (hd : 1 ≤ d) (hq : 1 ≤ q) :
    (side : ℚ) * (p / q - n / d) = ((side * (p * d - n * q) : ℤ) : ℚ) / (q * d) := by
  have hd0 : (0 : ℚ) < d := by exact_mod_cast hd
  have hq0 : (0 : ℚ) < q := by exact_mod_cast hq
  push_cast
  field_simp

lemma Beside.le_add (h : Beside error side n d x) (hs : side = 1 ∨ side = -1) (h0 : 0 ≤ error)
    (hd : 1 ≤ d) (hq : 1 ≤ q) (hp : side * (p * d - n * q) ≤ 0) :
    |x - n / d| ≤ |x - p / q| + error := by
  have hp' : (side : ℚ) * (p / q - n / d) ≤ 0 := by
    rw [side_mul_div_sub hd hq]
    exact div_nonpos_of_nonpos_of_nonneg (by exact_mod_cast hp) (by positivity)
  rw [← abs_side_mul hs, ← abs_side_mul hs (x - p / q)]
  have hle := le_abs_self ((side : ℚ) * (x - p / q))
  have h0' := abs_nonneg ((side : ℚ) * (x - p / q))
  have hsub : (side : ℚ) * (x - p / q) = side * (x - n / d) - side * (p / q - n / d) := by ring
  unfold Beside at h
  rw [abs_le]
  constructor <;> linarith

lemma Beside.le (h : Beside error side n d x) (hs : side = 1 ∨ side = -1) (h0 : 0 ≤ error)
    (hd : 1 ≤ d) (hdl : d ≤ largest) (hq : 1 ≤ q) (hql : q ≤ largest)
    (he : 2 * error * largest ^ 2 ≤ 1) (hp : side * (p * d - n * q) ≤ 0) :
    |x - n / d| ≤ |x - p / q| := by
  have hd0 : (0 : ℚ) < d := by exact_mod_cast hd
  have hq0 : (0 : ℚ) < q := by exact_mod_cast hq
  by_cases hz : p * d - n * q = 0
  · have hpq : (p : ℚ) / q = n / d := by
      rw [div_eq_div_iff hq0.ne' hd0.ne']
      exact_mod_cast sub_eq_zero.1 hz
    rw [hpq]
  · have hp1 : side * (p * d - n * q) ≤ -1 := by
      have hne : side * (p * d - n * q) ≠ 0 := by
        rcases hs with rfl | rfl <;> omega
      omega
    have hp' : (side : ℚ) * (p / q - n / d) ≤ -(2 * error) := by
      have hdl' : (d : ℚ) ≤ largest := by exact_mod_cast hdl
      have hql' : (q : ℚ) ≤ largest := by exact_mod_cast hql
      have hqd : (q * d : ℚ) ≤ largest ^ 2 := by
        rw [pow_two]
        exact mul_le_mul hql' hdl' hd0.le (hq0.le.trans hql')
      have h2 : 2 * error * (q * d) ≤ 1 :=
        (mul_le_mul_of_nonneg_left hqd (by linarith)).trans he
      have h1 : ((side * (p * d - n * q) : ℤ) : ℚ) ≤ -1 := by exact_mod_cast hp1
      rw [side_mul_div_sub hd hq, div_le_iff₀ (mul_pos hq0 hd0)]
      linarith
    rw [← abs_side_mul hs, ← abs_side_mul hs (x - p / q)]
    have hle := le_abs_self ((side : ℚ) * (x - p / q))
    have hsub : (side : ℚ) * (x - p / q) = side * (x - n / d) - side * (p / q - n / d) := by ring
    unfold Beside at h
    rw [abs_le]
    constructor <;> linarith

structure Around (error : ℚ) (largest : ℕ) (side : ℤ) (n d g e : ℕ) (x : ℚ) : Prop where
  adjacent : Adjacent largest side n d g e
  beside : Beside error side n d x
  beside_next : Beside error (-side) g e x
  abs_sub_le : |x - n / d| ≤ 1 / (d * (largest + 1)) + error

namespace Around

lemma le_add (h : Around error largest side n d g e x) (h0 : 0 ≤ error) (p : ℤ) (hq : 1 ≤ q)
    (hql : q ≤ largest) :
    |x - n / d| ≤ |x - p / q| + error ∨ |x - g / e| ≤ |x - p / q| + error := by
  rcases h.adjacent.not_between p hql with hp | hp
  · exact .inl (h.beside.le_add h.adjacent.unit h0 h.adjacent.pos_left hq hp)
  · exact .inr (h.beside_next.le_add h.adjacent.symm.unit h0 h.adjacent.pos_right hq hp)

lemma isClosest_iff (h : Around error largest side n d g e x) (h0 : 0 ≤ error)
    (he : 2 * error * largest ^ 2 ≤ 1) :
    IsClosest largest x n d ↔ |x - n / d| ≤ |x - g / e| := by
  have ha := h.adjacent
  constructor
  · intro hc
    have hg := hc g e ha.pos_right ha.le_right
    rwa [Int.cast_natCast] at hg
  · intro hle p q hq hql
    rcases ha.not_between p hql with hp | hp
    · exact h.beside.le ha.unit h0 ha.pos_left ha.le_left hq hql he hp
    · exact hle.trans (h.beside_next.le ha.symm.unit h0 ha.pos_right ha.le_right hq hql he hp)

end Around

lemma Adjacent.around (h : Adjacent largest side n d g e) (hy : |y - x| ≤ error)
    (h0 : 0 ≤ side * (y - n / d)) (h1 : side * (y - n / d) ≤ 1 / (d * (d + e))) :
    Around error largest side n d g e x := by
  have hd : (0 : ℚ) < d := by exact_mod_cast h.pos_left
  have he : (0 : ℚ) < e := by exact_mod_cast h.pos_right
  have hl : (largest + 1 : ℚ) ≤ d + e := by exact_mod_cast h.largest_lt
  have hge := h.side_mul_sub
  have hmed : 1 / (d * (d + e) : ℚ) ≤ 1 / (d * e) := by gcongr; linarith
  have hfar : 1 / (d * (d + e) : ℚ) ≤ 1 / (d * (largest + 1)) := by gcongr
  have hs : |(side : ℚ) * (y - x)| ≤ error := by rwa [abs_side_mul h.unit]
  have hn : |y - n / d| ≤ 1 / (d * (d + e)) := by
    rwa [← abs_side_mul h.unit, abs_of_nonneg h0]
  obtain ⟨hsl, hsr⟩ := abs_le.1 hs
  refine ⟨h, ?_, ?_, ?_⟩
  · rw [Beside]
    linarith
  · rw [Beside]
    push_cast
    linarith
  · have ht := abs_sub_le x y (n / d)
    rw [abs_sub_comm x y] at ht
    linarith

lemma eq_of_abs_sub_lt (hd : 1 ≤ d) (hb : 1 ≤ b)
    (h : |x - n / d| + |x - a / b| < 1 / (d * b)) : n * b = a * d := by
  by_contra hc
  have hne : (n : ℤ) * b ≠ a * d := by exact_mod_cast hc
  have hle := one_div_le_abs_sub hd hb hne
  have ht := abs_sub_le ((n : ℤ) / d : ℚ) x (a / b)
  rw [abs_sub_comm _ x] at ht
  push_cast at hle ht
  linarith

lemma isClosest_of_abs_sub_le (hb : 1 ≤ b) (h : |x - a / b| ≤ error)
    (he : 2 * error * (b * largest) ≤ 1) : IsClosest largest x a b := by
  intro p q hq hql
  have hb0 : (0 : ℚ) < b := by exact_mod_cast hb
  have hq0 : (0 : ℚ) < q := by exact_mod_cast hq
  by_cases hc : p * b = a * q
  · have hpq : (p : ℚ) / q = a / b := by
      rw [div_eq_div_iff hq0.ne' hb0.ne']
      exact_mod_cast hc
    rw [hpq]
  · have hle := one_div_le_abs_sub hq hb hc
    have ht := abs_sub_le ((p : ℚ) / q) x (a / b)
    rw [abs_sub_comm _ x] at ht
    have h2 : 2 * error ≤ 1 / (q * b) := by
      have hql' : (q : ℚ) ≤ largest := by exact_mod_cast hql
      have h0 : 0 ≤ error := (abs_nonneg _).trans h
      rw [le_div_iff₀ (mul_pos hq0 hb0), mul_comm (q : ℚ)]
      exact (mul_le_mul_of_nonneg_left (mul_le_mul_of_nonneg_left hql' hb0.le)
        (by linarith)).trans he
    linarith

end SheetFormat
