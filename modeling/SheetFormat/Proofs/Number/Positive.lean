import SheetFormat.Proofs.Number.Order

/-! Lower bounds in quanta, which sums and quotients keep. -/

namespace SheetFormat.Binary64

open Rounding

attribute [local instance (2000)] instPowNat
attribute [local irreducible] perUnit limit

def AtLeast (k : Nat) (x : Binary64) : Prop := ∃ r, x.rank = some r ∧ (k : Int) ≤ r

variable {n d j k : Nat} {x y : Binary64}

lemma AtLeast.mono (hx : x.AtLeast k) (h : j ≤ k) : x.AtLeast j := by
  obtain ⟨r, hr, hk⟩ := hx
  exact ⟨r, hr, by omega⟩

lemma AtLeast.zero_lt (hx : x.AtLeast k) (hk : 0 < k) : lt 0 x = true := by
  obtain ⟨r, hr, hl⟩ := hx
  rw [lt, rank_zero, hr]
  exact decide_eq_true (by omega)

lemma lt_zero_of_zero_lt (h : lt 0 x = true) : x.lt 0 = false := by
  rw [lt, rank_zero] at h
  rw [lt, rank_zero]
  cases hr : x.rank with
  | none => rfl
  | some r =>
    rw [hr] at h
    have h0 : (0 : Int) < r := of_decide_eq_true h
    exact decide_eq_false (by omega)

lemma atLeast_infinite (hk : k ≤ limit) : (infinite false).AtLeast k :=
  ⟨limit, rfl, Int.ofNat_le.2 hk⟩

lemma not_atLeast_nan : ¬nan.AtLeast k := by
  rintro ⟨r, hr, -⟩
  cases hr

lemma AtLeast.eq_false {s : Bool} (h : (infinite s).AtLeast k) : s = false := by
  cases s with
  | false => rfl
  | true =>
    obtain ⟨r, hr, hk⟩ := h
    have hl := limit_pos
    have he : -(limit : Int) = r := Option.some.inj hr
    omega

lemma AtLeast.signed {s : Bool} {m : Magnitude} (h : (finite s m).AtLeast k) :
    (k : Int) ≤ Binary64.signed s m := by
  obtain ⟨r, hr, hk⟩ := h
  rwa [← Option.some.inj hr] at hk

lemma atLeast_ofQuanta (hk : spacing 53 k ∣ k) (hl : k ≤ limit) (hd : 0 < d) (h : k * d ≤ n) :
    (ofQuanta false n d).AtLeast k := by
  have hq : k ≤ toBits 53 n d := le_toBits (by decide) hd hk h
  rcases Nat.lt_or_ge (toBits 53 n d) limit with hb | hb
  · obtain ⟨m, hm, he⟩ := exists_ofQuanta false hd hb
    rw [hm]
    exact ⟨_, rfl, Int.ofNat_le.2 (he ▸ hq)⟩
  · rw [ofQuanta_of_limit_le false hd hb]
    exact atLeast_infinite hl

lemma atLeast_ofNat (hk : spacing 53 k ∣ k) (hl : k ≤ limit) (h : k ≤ n * perUnit) :
    (ofNat n).AtLeast k :=
  atLeast_ofQuanta hk hl Nat.one_pos (by rwa [Nat.mul_one])

lemma atLeast_ofNat_div (hk : spacing 53 k ∣ k) (hl : k ≤ limit) (hn : n ≤ exactLimit)
    (hd : 0 < d) (he : d ≤ exactLimit) (h : k * d ≤ n * perUnit) :
    (ofNat n / ofNat d).AtLeast k := by
  have hw : 0 < d * perUnit := Nat.mul_pos hd perUnit_pos
  have hq : ofNat n / ofNat d = ofQuanta false (n * perUnit * perUnit) (d * perUnit) := by
    rw [ofNat_eq_finite hn]
    exact div_ofNat_eq false _ hd he
  rw [hq]
  apply atLeast_ofQuanta hk hl hw
  rw [← Nat.mul_assoc]
  exact Nat.mul_le_mul_right _ h

lemma atLeast_zero_ofNat (n : Nat) : (ofNat n).AtLeast 0 :=
  atLeast_ofNat (by decide) (Nat.zero_le _) (Nat.zero_le _)

lemma atLeast_zero_ofNat_div (hn : n ≤ exactLimit) (hd : 0 < d) (he : d ≤ exactLimit) :
    (ofNat n / ofNat d).AtLeast 0 := by
  apply atLeast_ofNat_div (by decide) (Nat.zero_le _) hn hd he
  rw [Nat.zero_mul]
  exact Nat.zero_le _

lemma AtLeast.div_ofNat (hx : x.AtLeast (k * n)) (hk : spacing 53 k ∣ k) (hl : k ≤ limit)
    (h0 : 0 < k * n) (hn : n ≤ exactLimit) : (x / ofNat n).AtLeast k := by
  have hn0 : 0 < n := Nat.pos_of_mul_pos_left h0
  cases x with
  | finite s m =>
    have hm := hx.signed
    have hs : s = false := by
      rw [← Bool.not_eq_true]
      rintro rfl
      simp only [Binary64.signed, if_true] at hm
      omega
    subst hs
    rw [div_ofNat_eq false m hn0 hn]
    apply atLeast_ofQuanta hk hl (Nat.mul_pos hn0 perUnit_pos)
    rw [← Nat.mul_assoc]
    exact Nat.mul_le_mul_right _ (Int.ofNat_le.1 hm)
  | infinite s =>
    obtain rfl := hx.eq_false
    rw [ofNat_eq_finite hn]
    exact atLeast_infinite hl
  | nan => exact absurd hx not_atLeast_nan

lemma AtLeast.add (hx : x.AtLeast j) (hy : y.AtLeast k) (h0 : 0 < j + k)
    (hd : spacing 53 (j + k) ∣ j + k) (hl : j + k ≤ limit) : (x + y).AtLeast (j + k) := by
  cases x with
  | finite s m =>
    cases y with
    | finite t m' =>
      have hs : ((j + k : Nat) : Int) ≤ Binary64.signed s m + Binary64.signed t m' := by
        have := hx.signed
        have := hy.signed
        omega
      change (Binary64.add _ _).AtLeast _
      rw [Binary64.add, if_neg (by omega), decide_eq_false (by omega)]
      exact atLeast_ofQuanta hd hl Nat.one_pos (by omega)
    | infinite t =>
      obtain rfl := hy.eq_false
      exact atLeast_infinite hl
    | nan => exact absurd hy not_atLeast_nan
  | infinite s =>
    obtain rfl := hx.eq_false
    cases y with
    | finite t m' => exact atLeast_infinite hl
    | infinite t =>
      obtain rfl := hy.eq_false
      exact atLeast_infinite hl
    | nan => exact absurd hy not_atLeast_nan
  | nan => exact absurd hx not_atLeast_nan

end SheetFormat.Binary64
