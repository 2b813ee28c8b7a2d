import Mathlib.Data.Nat.Log
import Mathlib.Tactic.Ring
import SheetFormat.Number.Binary64

/-! Rounding keeps order, and whole numbers up to `2 ^ 53` are exact. -/

namespace SheetFormat

attribute [local instance (2000)] instPowNat

namespace Rounding

variable {bits n d k : Nat}

lemma log2_le_log2 {a b : Nat} (h : a ≤ b) : a.log2 ≤ b.log2 := by
  rw [Nat.log2_eq_log_two, Nat.log2_eq_log_two]
  exact Nat.log_mono_right h

lemma spacing_dvd_spacing {a b : Nat} (h : a ≤ b) : spacing bits a ∣ spacing bits b := by
  have hl := log2_le_log2 h
  exact Nat.pow_dvd_pow 2 (by omega)

lemma spacing_of_one_lt (h : 1 < spacing bits k) :
    ∃ j, k.log2 + 1 = bits + (j + 1) ∧ spacing bits k = 2 ^ (j + 1) := by
  have hl : k.log2 + 1 - bits ≠ 0 := fun h0 => by rw [spacing, h0] at h; exact absurd h (by decide)
  obtain ⟨j, hj⟩ := Nat.exists_eq_succ_of_ne_zero hl
  exact ⟨j, by omega, congrArg (2 ^ ·) hj⟩

lemma add_spacing_le (hk : spacing bits k ∣ k) : k + spacing bits k ≤ 2 ^ (k.log2 + 1) := by
  have hd : spacing bits k ∣ 2 ^ (k.log2 + 1) := Nat.pow_dvd_pow 2 (Nat.sub_le _ _)
  have hl := Nat.le_of_dvd (Nat.sub_pos_of_lt Nat.lt_log2_self) (Nat.dvd_sub hd hk)
  have := @Nat.lt_log2_self k
  omega

lemma spacing_dvd_two_pow (hb : 0 < bits) (j : Nat) : spacing bits (2 ^ j) ∣ 2 ^ j := by
  have h := spacing_dvd (j := j) hb (Nat.one_le_two_pow (n := bits))
  rwa [Nat.one_mul] at h

lemma le_toBits_of_dvd (hd : 0 < d) (hk : spacing bits (n / d) ∣ k) (h : k * d ≤ n) :
    k ≤ toBits bits n d := by
  obtain ⟨j, rfl⟩ := hk
  have hj : j ≤ n / (d * spacing bits (n / d)) := by
    apply (Nat.le_div_iff_mul_le (Nat.mul_pos hd (spacing_pos _ _))).2
    calc j * (d * spacing bits (n / d)) = spacing bits (n / d) * j * d := by ring
      _ ≤ n := h
  rw [toBits, Nat.mul_comm]
  exact Nat.mul_le_mul_right _ (hj.trans (div_le_halfEven _ _))

lemma toBits_le (hd : 0 < d) (hk : spacing bits k ∣ k) (h : n ≤ k * d) :
    toBits bits n d ≤ k := by
  have hq : n / d ≤ k := Nat.div_le_of_le_mul (by rwa [Nat.mul_comm])
  obtain ⟨j, hj⟩ := (spacing_dvd_spacing hq).trans hk
  rw [toBits]
  calc halfEven n (d * spacing bits (n / d)) * spacing bits (n / d)
      ≤ j * spacing bits (n / d) := by
        apply Nat.mul_le_mul_right
        apply halfEven_le (Nat.mul_pos hd (spacing_pos _ _))
        calc n ≤ k * d := h
          _ = d * spacing bits (n / d) * j := by rw [hj]; ring
    _ = k := by rw [hj, Nat.mul_comm]

lemma le_toBits (hb : 0 < bits) (hd : 0 < d) (hk : spacing bits k ∣ k) (h : k * d ≤ n) :
    k ≤ toBits bits n d := by
  have hq : k ≤ n / d := (Nat.le_div_iff_mul_le hd).2 h
  by_cases hl : (n / d).log2 = k.log2
  · apply le_toBits_of_dvd hd _ h
    rwa [spacing, hl]
  · rcases Nat.eq_zero_or_pos k with rfl | hp
    · exact Nat.zero_le _
    have hlt : k.log2 < (n / d).log2 := by
      have := log2_le_log2 hq
      omega
    calc k ≤ 2 ^ (k.log2 + 1) := Nat.lt_log2_self.le
      _ ≤ 2 ^ (n / d).log2 := Nat.pow_le_pow_right (by decide) hlt
      _ ≤ toBits bits n d := by
        apply le_toBits_of_dvd hd (Nat.pow_dvd_pow 2 (by omega))
        calc 2 ^ (n / d).log2 * d ≤ n / d * d :=
              Nat.mul_le_mul_right _ (Nat.log2_self_le (by omega))
          _ ≤ n := Nat.div_mul_le_self n d

end Rounding

lemma limit_eq_pow : ∃ j ≥ 2098, limit = 2 ^ j := by
  have h : limit = 2 ^ (2098 : Nat) := limit.eq_1
  generalize (2098 : Nat) = j at h ⊢
  exact ⟨j, le_rfl, h⟩

lemma two_pow_le_limit {j : Nat} (h : j ≤ 2098) : 2 ^ j ≤ limit := by
  obtain ⟨k, hk, hl⟩ := limit_eq_pow
  rw [hl]
  exact Nat.pow_le_pow_right (by decide) (h.trans hk)

lemma perUnit_eq_pow : ∃ j, perUnit = 2 ^ j := by
  have h : perUnit = 2 ^ (1074 : Nat) := perUnit.eq_1
  generalize (1074 : Nat) = j at h
  exact ⟨j, h⟩

lemma two_pow_le_perUnit {j : Nat} (h : j ≤ 1074) : 2 ^ j ≤ perUnit := by
  have hp : perUnit = 2 ^ (1074 : Nat) := perUnit.eq_1
  generalize (1074 : Nat) = k at h hp
  rw [hp]
  exact Nat.pow_le_pow_right (by decide) h

attribute [local irreducible] perUnit limit

namespace Binary64

open Rounding

lemma exists_ofQuanta (s : Bool) {n d : Nat} (hd : 0 < d) (hl : toBits 53 n d < limit) :
    ∃ m, ofQuanta s n d = .finite s m ∧ m.quanta = toBits 53 n d := by
  rw [ofQuanta, dif_pos hd]
  exact ⟨_, dif_pos hl, rfl⟩

lemma ofQuanta_of_limit_le (s : Bool) {n d : Nat} (hd : 0 < d) (hl : limit ≤ toBits 53 n d) :
    ofQuanta s n d = .infinite s := by
  rw [ofQuanta, dif_pos hd]
  exact dif_neg (Nat.not_lt.2 hl)

lemma quanta_of_ofQuanta {s t : Bool} {n d : Nat} {m : Magnitude} (hd : 0 < d)
    (h : ofQuanta s n d = .finite t m) : m.quanta = toBits 53 n d := by
  rcases Nat.lt_or_ge (toBits 53 n d) limit with hl | hl
  · obtain ⟨k, hk, hq⟩ := exists_ofQuanta s hd hl
    cases hk.symm.trans h
    exact hq
  · cases (ofQuanta_of_limit_le s hd hl).symm.trans h

def exactLimit : Nat := 2 ^ (53 : Nat)

lemma aligned_mul_two_pow {n : Nat} (h : n ≤ exactLimit) (k : Nat) :
    spacing 53 (n * 2 ^ k * perUnit) ∣ n * 2 ^ k * perUnit := by
  obtain ⟨j, hj⟩ := perUnit_eq_pow
  rw [hj, Nat.mul_assoc, ← Nat.pow_add]
  exact spacing_dvd (by decide) h

lemma aligned_whole {n : Nat} (h : n ≤ exactLimit) : spacing 53 (n * perUnit) ∣ n * perUnit := by
  have ha := aligned_mul_two_pow h 0
  rwa [Nat.pow_zero, Nat.mul_one] at ha

lemma whole_lt_limit {n : Nat} (h : n ≤ exactLimit) : n * perUnit < limit :=
  calc n * perUnit ≤ exactLimit * perUnit := Nat.mul_le_mul_right _ h
    _ < limit := by decide +kernel

lemma limit_pos : 0 < limit := Nat.zero_lt_of_lt (whole_lt_limit (Nat.zero_le exactLimit))

def whole (n : Nat) (h : n ≤ exactLimit) : Magnitude :=
  ⟨n * perUnit, aligned_whole h, whole_lt_limit h⟩

lemma ofQuotient_one {n : Nat} (h : n ≤ exactLimit) (s : Bool) :
    ofQuotient s n 1 = .finite s (whole n h) := ofQuanta_quanta s (whole n h)

lemma ofNat_eq_finite {n : Nat} (h : n ≤ exactLimit) : ofNat n = .finite false (whole n h) :=
  ofQuotient_one h false

lemma mul_ofNat_eq (s : Bool) (m : Magnitude) {n : Nat} (h : n ≤ exactLimit) :
    finite s m * ofNat n = ofQuanta (s != false) (m.quanta * (n * perUnit)) perUnit := by
  rw [ofNat_eq_finite h]
  rfl

lemma finite_add (m x : Magnitude) :
    finite false m + finite false x = ofQuanta false (m.quanta + x.quanta) 1 := by
  change add _ _ = _
  have hq : signed false m + signed false x = ((m.quanta + x.quanta : Nat) : Int) :=
    (Int.natCast_add _ _).symm
  rw [add, hq, Int.natAbs_natCast, Bool.and_false,
    decide_eq_false (Int.not_lt.2 (Int.natCast_nonneg _)), ite_self]

lemma finite_div (s t : Bool) (m : Magnitude) {z : Magnitude} (hz : z.quanta ≠ 0) :
    finite s m / finite t z = ofQuanta (s != t) (m.quanta * perUnit) z.quanta := if_neg hz

lemma div_ofNat_eq (s : Bool) (m : Magnitude) {n : Nat} (hn : 0 < n) (h : n ≤ exactLimit) :
    finite s m / ofNat n = ofQuanta (s != false) (m.quanta * perUnit) (n * perUnit) := by
  rw [ofNat_eq_finite h]
  exact finite_div s false m (Nat.mul_pos hn perUnit_pos).ne'

lemma rank_ofNat {n : Nat} (h : n ≤ exactLimit) :
    (ofNat n).rank = some ((n * perUnit : Nat) : Int) := by
  rw [ofNat_eq_finite h]
  rfl

lemma rank_zero : rank 0 = some 0 := by
  have h := rank_ofNat (Nat.zero_le exactLimit)
  rwa [Nat.zero_mul] at h

lemma le_ofNat_iff {n : Nat} (h : n ≤ exactLimit) {s : Bool} {m : Magnitude} :
    (ofNat n).le (.finite s m) = true ↔ ((n * perUnit : Nat) : Int) ≤ signed s m := by
  rw [le, rank_ofNat h]
  simp [rank]

lemma lt_ofNat_iff {n : Nat} (h : n ≤ exactLimit) {s : Bool} {m : Magnitude} :
    lt (.finite s m) (ofNat n) = true ↔ signed s m < ((n * perUnit : Nat) : Int) := by
  rw [lt, rank_ofNat h]
  simp [rank]

lemma finite_le_ofNat_iff {n : Nat} (h : n ≤ exactLimit) {s : Bool} {m : Magnitude} :
    le (.finite s m) (ofNat n) = true ↔ signed s m ≤ ((n * perUnit : Nat) : Int) := by
  rw [le, rank_ofNat h]
  simp [rank]

lemma ofNat_le_self {n : Nat} (h : n ≤ exactLimit) : (ofNat n).le (ofNat n) = true := by
  rw [le, rank_ofNat h]
  simp

lemma ofNat_lt_succ {n : Nat} (h : n < exactLimit) :
    (ofNat n).lt (ofNat (n + 1)) = true := by
  have hn := rank_ofNat h.le
  have hs := rank_ofNat (Nat.succ_le_of_lt h)
  have hlt : ((n * perUnit : Nat) : Int) < ((n + 1) * perUnit : Nat) :=
    Int.ofNat_lt.2 (Nat.mul_lt_mul_of_pos_right n.lt_succ_self perUnit_pos)
  generalize n * perUnit = a at hn hlt
  generalize (n + 1) * perUnit = b at hs hlt
  rw [lt, hn, hs]
  exact decide_eq_true hlt

lemma ofNat_le_iff {n k : Nat} (hn : n ≤ exactLimit) (hk : k ≤ exactLimit) :
    (ofNat n).le (ofNat k) = true ↔ n ≤ k := by
  rw [ofNat_eq_finite hk, le_ofNat_iff hn]
  change ((n * perUnit : Nat) : Int) ≤ ((k * perUnit : Nat) : Int) ↔ _
  rw [Int.ofNat_le]
  exact Nat.mul_le_mul_right_iff perUnit_pos

lemma ofNat_inj {n k : Nat} (hk : k < exactLimit) (h : ofNat n = ofNat k) : n = k := by
  have hn : n ≤ exactLimit := by
    by_contra hn
    have hl : exactLimit * perUnit ≤ toBits 53 (n * perUnit) 1 := by
      apply le_toBits (by decide) Nat.one_pos (aligned_whole le_rfl)
      rw [Nat.mul_one]
      exact Nat.mul_le_mul_right _ (Nat.le_of_not_le hn)
    have hq : k * perUnit = toBits 53 (n * perUnit) 1 :=
      quanta_of_ofQuanta Nat.one_pos (h.trans (ofNat_eq_finite hk.le))
    exact absurd hk (Nat.not_lt.2 (Nat.le_of_mul_le_mul_right (hq ▸ hl) perUnit_pos))
  apply Nat.le_antisymm
  · rw [← ofNat_le_iff hn hk.le, h]
    exact ofNat_le_self hk.le
  · rw [← ofNat_le_iff hk.le hn, h]
    exact ofNat_le_self hk.le

lemma exists_between {x : Binary64} {n k : Nat} (hn : n ≤ exactLimit) (hk : k ≤ exactLimit)
    (hl : (ofNat n).le x = true) (hu : x.lt (ofNat k) = true) :
    ∃ s m, x = .finite s m ∧ ((n * perUnit : Nat) : Int) ≤ signed s m ∧
      signed s m < ((k * perUnit : Nat) : Int) := by
  cases x with
  | finite s m => exact ⟨s, m, rfl, (le_ofNat_iff hn).1 hl, (lt_ofNat_iff hk).1 hu⟩
  | infinite s =>
    have h0 := limit_pos
    have hw := whole_lt_limit hk
    have hz : (0 : Int) ≤ n * perUnit := Int.natCast_nonneg (n * perUnit)
    rw [le, rank_ofNat hn] at hl
    rw [lt, rank_ofNat hk] at hu
    cases s <;> simp [rank] at hl hu <;> omega
  | nan =>
    rw [lt, rank] at hu
    cases hu

lemma toInt64_whole {n : Nat} (h : n ≤ exactLimit) (s : Bool) :
    (Binary64.finite s (whole n h)).toInt64 = if s then -(n : Int) else n := by
  have hw : (whole n h).quanta / perUnit = n := Nat.mul_div_cancel n perUnit_pos
  have hn : n ≤ 2 ^ (63 : Nat) - 1 := h.trans (by decide)
  cases s <;> simp only [toInt64, hw]
  · rw [Nat.min_eq_left hn]
    rfl
  · rw [Nat.min_eq_left (hn.trans (Nat.sub_le _ _))]
    rfl

lemma toInt64_floor {x : Binary64} {n : Nat} (h : n < exactLimit)
    (hl : (ofNat n).le x = true) (hu : x.lt (ofNat (n + 1)) = true) : x.floor.toInt64 = n := by
  obtain ⟨s, m, rfl, hm, hn⟩ := exists_between h.le h hl hu
  cases s with
  | false =>
    have hq : m.quanta / perUnit = n := by
      simp only [signed, Bool.false_eq_true, if_false] at hm hn
      rw [Nat.div_eq_iff perUnit_pos]
      have := perUnit_pos
      rw [Nat.succ_mul] at hn
      omega
    rw [floor, hq, ofQuotient_one h.le, toInt64_whole]
    rfl
  | true =>
    have hz : m.quanta = 0 ∧ n = 0 := by
      simp only [signed, if_true] at hm
      have := perUnit_pos
      refine ⟨by omega, ?_⟩
      by_contra h0
      have := Nat.mul_pos (Nat.pos_of_ne_zero h0) perUnit_pos
      omega
    obtain ⟨hq, rfl⟩ := hz
    have hf : (m.quanta + (perUnit - 1)) / perUnit = 0 := by
      have := perUnit_pos
      exact Nat.div_eq_of_lt (by omega)
    rw [floor, hf, ofQuotient_one (Nat.zero_le _), toInt64_whole]
    rfl

lemma lt_zero_iff {s : Bool} {m : Magnitude} : lt (.finite s m) 0 = true ↔ signed s m < 0 := by
  rw [lt, rank_zero]
  simp [rank]

lemma zero_lt_iff {s : Bool} {m : Magnitude} : lt 0 (.finite s m) = true ↔ 0 < signed s m := by
  rw [lt, rank_zero]
  simp [rank]

lemma zero_le_iff {s : Bool} {m : Magnitude} : le 0 (.finite s m) = true ↔ 0 ≤ signed s m := by
  rw [le, rank_zero]
  simp [rank]

variable {x : Binary64}

lemma exists_finite (hx : x.isFinite = true) : ∃ s m, x = .finite s m := by
  cases x with
  | finite s m => exact ⟨s, m, rfl⟩
  | infinite s => cases hx
  | nan => cases hx

lemma eq_of_pos (hx : x.isFinite = true) (hp : lt 0 x = true) :
    ∃ m : Magnitude, m.quanta ≠ 0 ∧ x = .finite false m := by
  obtain ⟨s, m, rfl⟩ := exists_finite hx
  rw [zero_lt_iff] at hp
  cases s with
  | false => exact ⟨m, by simpa [signed, Nat.pos_iff_ne_zero] using hp, rfl⟩
  | true =>
    simp [signed] at hp
    omega

lemma lt_zero_of_pos (hx : x.isFinite = true) (hp : lt 0 x = true) :
    x.lt 0 = false ∧ x.neg.lt 0 = true := by
  obtain ⟨m, hm, rfl⟩ := eq_of_pos hx hp
  refine ⟨?_, ?_⟩
  · rw [← Bool.not_eq_true, lt_zero_iff]
    simp [signed]
  · rw [neg, lt_zero_iff]
    simp [signed]
    omega

lemma lt_zero_of_nonneg (hx : x.isFinite = true) (hp : le 0 x = true) : x.lt 0 = false := by
  obtain ⟨s, m, rfl⟩ := exists_finite hx
  rw [zero_le_iff] at hp
  rw [← Bool.not_eq_true, lt_zero_iff]
  exact not_lt.2 hp

lemma zero_lt_of_neg (hx : x.isFinite = true) (hn : x.lt 0 = true) : lt 0 x = false := by
  obtain ⟨s, m, rfl⟩ := exists_finite hx
  rw [lt_zero_iff] at hn
  rw [← Bool.not_eq_true, zero_lt_iff]
  exact not_lt.2 hn.le

lemma rank_of_isZero (hz : x.isZero = true) : x.rank = some 0 := by
  cases x with
  | finite s m =>
    have hm : m.quanta = 0 := by simpa [isZero] using hz
    cases s <;> simp [rank, signed, hm]
  | infinite s => cases hz
  | nan => cases hz

lemma lt_of_isZero (hz : x.isZero = true) : lt 0 x = false ∧ x.lt 0 = false := by
  rw [lt, lt, rank_zero, rank_of_isZero hz]
  simp

lemma le_of_isZero {y : Binary64} (hz : x.isZero = true) (hy : le 0 y = true) :
    x.le y = true := by
  rw [le, rank_zero] at hy
  rwa [le, rank_of_isZero hz]

lemma exists_rank (hx : x ≠ .nan) : ∃ a, x.rank = some a := by
  cases x with
  | finite s m => exact ⟨_, rfl⟩
  | infinite s => exact ⟨_, rfl⟩
  | nan => exact absurd rfl hx

lemma lt_iff_rank {y : Binary64} :
    x.lt y = true ↔ ∃ a b, x.rank = some a ∧ y.rank = some b ∧ a < b := by
  rw [lt]
  cases x.rank <;> cases y.rank <;> simp

lemma le_iff_rank {y : Binary64} :
    x.le y = true ↔ ∃ a b, x.rank = some a ∧ y.rank = some b ∧ a ≤ b := by
  rw [le]
  cases x.rank <;> cases y.rank <;> simp

lemma le_self (hx : x ≠ .nan) : x.le x = true := by
  obtain ⟨a, ha⟩ := exists_rank hx
  exact le_iff_rank.2 ⟨a, a, ha, ha, le_rfl⟩

lemma not_lt_self (x : Binary64) : ¬x.lt x = true := by
  intro h
  obtain ⟨a, b, ha, hb, hlt⟩ := lt_iff_rank.1 h
  rw [ha] at hb
  exact hlt.ne (Option.some.inj hb)

lemma le_of_lt_true {y : Binary64} (h : x.lt y = true) : x.le y = true := by
  obtain ⟨a, b, ha, hb, hlt⟩ := lt_iff_rank.1 h
  exact le_iff_rank.2 ⟨a, b, ha, hb, hlt.le⟩

lemma lt_trans_le {y z : Binary64} (hxy : x.lt y = true) (hyz : y.le z = true) :
    x.lt z = true := by
  obtain ⟨a, b, ha, hb, hlt⟩ := lt_iff_rank.1 hxy
  obtain ⟨b', c, hb', hc, hle⟩ := le_iff_rank.1 hyz
  obtain rfl : b = b' := Option.some.inj (hb.symm.trans hb')
  exact lt_iff_rank.2 ⟨a, c, ha, hc, hlt.trans_le hle⟩

lemma le_of_not_lt {y : Binary64} (hx : x ≠ .nan) (hy : y ≠ .nan) (h : ¬x.lt y = true) :
    y.le x = true := by
  obtain ⟨a, ha⟩ := exists_rank hx
  obtain ⟨b, hb⟩ := exists_rank hy
  refine le_iff_rank.2 ⟨b, a, hb, ha, not_lt.1 fun hlt => h ?_⟩
  exact lt_iff_rank.2 ⟨a, b, ha, hb, hlt⟩

lemma le_eq_false_of_lt {y : Binary64} (h : x.lt y = true) : y.le x = false := by
  obtain ⟨a, b, ha, hb, hlt⟩ := lt_iff_rank.1 h
  rw [le, ha, hb]
  exact decide_eq_false (not_le.2 hlt)

lemma abs_lt_zero (x : Binary64) : x.abs.lt 0 = false := by
  rw [← Bool.not_eq_true]
  cases x with
  | finite s m =>
    rw [abs, lt_zero_iff]
    simp [signed]
  | infinite s =>
    rw [abs, lt, rank_zero]
    simp [rank]
  | nan =>
    rw [abs, lt]
    simp [rank]

lemma abs_neg (x : Binary64) : x.neg.abs = x.abs := by cases x <;> rfl

lemma abs_abs (x : Binary64) : x.abs.abs = x.abs := by cases x <;> rfl

lemma isFinite_abs (x : Binary64) : x.abs.isFinite = x.isFinite := by cases x <;> rfl

lemma isFinite_neg (x : Binary64) : x.neg.isFinite = x.isFinite := by cases x <;> rfl

end Binary64

end SheetFormat
