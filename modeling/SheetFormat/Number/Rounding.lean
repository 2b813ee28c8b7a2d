/-! Quotients of natural numbers rounded to a neighbour, and to a number of significant bits. -/

namespace SheetFormat.Rounding

-- Powers of natural numbers are the same ones here whatever algebra is imported.
attribute [local instance (2000)] instPowNat

def halfEven (n d : Nat) : Nat :=
  if 2 * (n % d) < d then n / d
  else if d < 2 * (n % d) then n / d + 1
  else n / d + n / d % 2

def halfUp (n d : Nat) : Nat := (2 * n + d) / (2 * d)

theorem div_le_halfEven (n d : Nat) : n / d ≤ halfEven n d := by
  unfold halfEven
  split
  · omega
  · split <;> omega

theorem halfEven_le_succ (n d : Nat) : halfEven n d ≤ n / d + 1 := by
  unfold halfEven
  split
  · omega
  · split <;> omega

theorem halfEven_le {n d k : Nat} (hd : 0 < d) (h : n ≤ d * k) : halfEven n d ≤ k := by
  have hq : n / d ≤ k := Nat.div_le_of_le_mul h
  rcases Nat.lt_or_ge (n / d) k with hlt | hge
  · have := halfEven_le_succ n d
    omega
  · have he : n / d = k := by omega
    have hm := Nat.div_add_mod n d
    rw [he] at hm
    have hz : n % d = 0 := by omega
    simp [halfEven, hz, hd, he]

@[simp] theorem halfEven_mul {k d : Nat} (hd : 0 < d) : halfEven (k * d) d = k := by
  simp [halfEven, hd]

/-- The distance of neighbouring numbers with `bits` significant bits around `m`. -/
def spacing (bits m : Nat) : Nat := 2 ^ (m.log2 + 1 - bits)

theorem spacing_pos (bits m : Nat) : 0 < spacing bits m := Nat.two_pow_pos _

def toBits (bits n d : Nat) : Nat :=
  halfEven n (d * spacing bits (n / d)) * spacing bits (n / d)

theorem lt_pow_mul_spacing (bits m : Nat) : m < 2 ^ bits * spacing bits m := by
  have h := @Nat.lt_log2_self m
  rw [spacing, ← Nat.pow_add]
  exact Nat.lt_of_lt_of_le h (Nat.pow_le_pow_right (by decide) (by omega))

theorem significand_le (bits n : Nat) {d : Nat} (hd : 0 < d) :
    halfEven n (d * spacing bits (n / d)) ≤ 2 ^ bits := by
  apply halfEven_le (Nat.mul_pos hd (spacing_pos _ _))
  have h := lt_pow_mul_spacing bits (n / d)
  have := Nat.lt_mul_of_div_lt h hd
  calc n ≤ d * (2 ^ bits * spacing bits (n / d)) := by
        rw [Nat.mul_comm]; exact Nat.le_of_lt this
    _ = d * spacing bits (n / d) * 2 ^ bits := by
        rw [Nat.mul_comm (2 ^ bits), Nat.mul_assoc]

theorem spacing_dvd {bits k j : Nat} (hb : 0 < bits) (hk : k ≤ 2 ^ bits) :
    spacing bits (k * 2 ^ j) ∣ k * 2 ^ j := by
  rcases Nat.eq_zero_or_pos k with rfl | hpos
  · simp
  have hne : k * 2 ^ j ≠ 0 := Nat.mul_ne_zero (by omega) (Nat.ne_of_gt (Nat.two_pow_pos j))
  rcases Nat.lt_or_ge k (2 ^ bits) with hlt | hge
  · have hl : (k * 2 ^ j).log2 < bits + j := by
      rw [Nat.log2_lt hne, Nat.pow_add]
      exact Nat.mul_lt_mul_of_pos_right hlt (Nat.two_pow_pos j)
    exact Nat.dvd_trans (Nat.pow_dvd_pow 2 (by omega)) (Nat.dvd_mul_left _ _)
  · obtain rfl : k = 2 ^ bits := by omega
    rw [← Nat.pow_add] at hne ⊢
    have hl : (2 ^ (bits + j)).log2 < bits + j + 1 := by
      rw [Nat.log2_lt hne]
      exact Nat.pow_lt_pow_right (by decide) (by omega)
    exact Nat.pow_dvd_pow 2 (by omega)

theorem spacing_dvd_toBits {bits n d : Nat} (hb : 0 < bits) (hd : 0 < d) :
    spacing bits (toBits bits n d) ∣ toBits bits n d :=
  spacing_dvd hb (significand_le bits n hd)

theorem toBits_of_dvd {bits m : Nat} (h : spacing bits m ∣ m) : toBits bits m 1 = m := by
  obtain ⟨k, hk⟩ := h
  have : halfEven m (1 * spacing bits (m / 1)) = k := by
    rw [Nat.div_one, Nat.one_mul]
    conv => lhs; arg 1; rw [hk, Nat.mul_comm]
    exact halfEven_mul (spacing_pos _ _)
  rw [toBits, this, Nat.div_one, Nat.mul_comm, ← hk]

end SheetFormat.Rounding
