import Generation.Decimal.Shortest
import Mathlib.Tactic.Ring

/-!
Rounding to the nearest magnitude: it depends only on the quotient that is rounded, keeps what needs
no rounding, and goes no further than to the neighbours.
-/
namespace Generation.Binary64

variable {u num den k s : Nat} {e : Int}

theorem spacing_pos (q : Nat) : 0 < spacing q := Nat.two_pow_pos _

/-- A magnitude is its own nearest one. -/
theorem nearest_exact (hu : spacing u ∣ u) (hden : 0 < den) : nearest (u * den) den = u := by
  have hstep : 0 < spacing u * den := Nat.mul_pos (spacing_pos u) hden
  have hlow : u / spacing u * spacing u = u := Nat.div_mul_cancel hu
  simp only [nearest, Nat.mul_div_cancel u hden, hlow, Nat.sub_self, Nat.mul_zero, Nat.not_lt_zero,
    Nat.ne_of_gt hstep, false_and, or_self, if_false]

/-- A quotient is rounded alike however it is written. -/
theorem nearest_scale (num den : Nat) (hk : 0 < k) :
    nearest (k * num) (k * den) = nearest num den := by
  simp only [nearest, Nat.mul_div_mul_left num den hk]
  have hexcess (low step : Nat) :
      2 * (k * num - low * step * (k * den)) = k * (2 * (num - low * step * den)) := by
    rw [show low * step * (k * den) = k * (low * step * den) by ring, ← Nat.mul_sub]
    ring
  have hstep (step : Nat) : step * (k * den) = k * (step * den) := by ring
  simp only [hexcess]
  simp only [hstep, Nat.mul_lt_mul_left hk, Nat.mul_right_inj (Nat.ne_of_gt hk)]

/-- Rounding keeps the leading bit, or carries it. -/
theorem two_pow_log2_le_nearest (h : num / den ≠ 0) : 2 ^ (num / den).log2 ≤ nearest num den := by
  have hle : 2 ^ (num / den).log2 ≤ num / den / spacing (num / den) * spacing (num / den) := by
    have hself := Nat.log2_self_le h
    unfold spacing
    have hsplit : (2 : Nat) ^ (num / den).log2 =
        2 ^ ((num / den).log2 - ((num / den).log2 - 52)) * 2 ^ ((num / den).log2 - 52) := by
      rw [← Nat.pow_add]
      congr 1
      omega
    rw [hsplit] at hself ⊢
    exact Nat.mul_le_mul_right _ ((Nat.le_div_iff_mul_le (Nat.two_pow_pos _)).mpr hself)
  refine hle.trans ?_
  unfold nearest
  dsimp only
  split
  · exact Nat.mul_le_mul_right _ (Nat.le_succ _)
  · exact le_rfl

/-- Rounding up stops at a power of two. -/
theorem lt_two_pow_of_nearest {n : Nat} (h : nearest num den < 2 ^ n) : num / den < 2 ^ n := by
  rcases Nat.eq_zero_or_pos (num / den) with hz | hpos
  · rw [hz]
    exact Nat.two_pow_pos n
  · have hne := Nat.ne_of_gt hpos
    have hpow := Nat.lt_of_le_of_lt (two_pow_log2_le_nearest hne) h
    exact (Nat.log2_lt hne).mp ((Nat.pow_lt_pow_iff_right (by omega)).mp hpow)

/-- What is rounded to more than nothing is more than half a unit. -/
theorem lt_two_mul_of_nearest (h : nearest num den ≠ 0) (hden : 0 < den) : den < 2 * num := by
  rcases Nat.lt_or_ge num den with hlt | hge
  · have hq : num / den = 0 := Nat.div_eq_of_lt hlt
    have hspacing : spacing 0 = 1 := rfl
    by_contra hle
    refine h ?_
    simp only [nearest, hq, hspacing, Nat.zero_div, Nat.zero_mul, Nat.sub_zero, Nat.one_mul,
      Nat.zero_mod, Nat.zero_ne_one, and_false, or_false, hle, if_false]
  · omega

/-! Decimals -/

theorem nearestDecimal_eq (s : Nat) (e : Int) :
    nearestDecimal s e = nearest (s * 10 ^ e.toNat * unitsPerOne) (10 ^ (-e).toNat) := by
  cases e with
  | ofNat e => simp [nearestDecimal]
  | negSucc e => simp [nearestDecimal, Int.neg_negSucc]

/-- A decimal is rounded alike with zeros at its end. -/
theorem nearestDecimal_scale (s : Nat) (e : Int) (k : Nat) :
    nearestDecimal (s * 10 ^ k) (e - k) = nearestDecimal s e := by
  rw [nearestDecimal_eq, nearestDecimal_eq]
  generalize unitsPerOne = one
  have hten (n : Nat) : 0 < 10 ^ n := Nat.pow_pos (by omega)
  rcases Int.lt_or_le e k with hlt | hle
  · rcases Int.lt_or_le e 0 with hneg | hpos
    · have hden : (-(e - k)).toNat = k + (-e).toNat := by omega
      rw [show (e - k).toNat = 0 by omega, show e.toNat = 0 by omega, hden, Nat.pow_add,
        ← nearest_scale (s * 10 ^ 0 * one) _ (hten k)]
      congr 1
      ring
    · have hden : (-(e - k)).toNat = k - e.toNat := by omega
      have hk : 10 ^ k = 10 ^ (k - e.toNat) * 10 ^ e.toNat := by
        rw [← Nat.pow_add]
        congr 1
        omega
      rw [show (e - k).toNat = 0 by omega, show (-e).toNat = 0 by omega, hden, hk,
        ← nearest_scale (s * 10 ^ e.toNat * one) _ (hten (k - e.toNat))]
      congr 1 <;> ring
  · have hexp : e.toNat = (e - k).toNat + k := by omega
    rw [show (-(e - k)).toNat = 0 by omega, show (-e).toNat = 0 by omega, hexp, Nat.pow_add]
    congr 1
    ring

theorem mul_pow_lt_of_nearestDecimal (h : nearestDecimal s e < 2 ^ k * unitsPerOne) :
    s * 10 ^ e.toNat < 2 ^ k * 10 ^ (-e).toNat := by
  have hpow : 2 ^ k * unitsPerOne = 2 ^ (k + 1074) := by rw [unitsPerOne, Nat.pow_add]
  rw [hpow, nearestDecimal_eq] at h
  have hdiv := (Nat.div_lt_iff_lt_mul (Nat.pow_pos (by decide))).mp (lt_two_pow_of_nearest h)
  rw [← hpow] at hdiv
  generalize unitsPerOne = one at hdiv
  rw [Nat.mul_right_comm (2 ^ k)] at hdiv
  exact Nat.lt_of_mul_lt_mul_right hdiv

theorem pow_lt_of_nearestDecimal (h : nearestDecimal s e ≠ 0) :
    ∃ k ≤ 324, 10 ^ (-e).toNat < s * 10 ^ e.toNat * 10 ^ k := by
  have hpow : 2 * unitsPerOne ≤ 10 ^ 324 := by decide +kernel
  rw [nearestDecimal_eq] at h
  have hlt := lt_two_mul_of_nearest h (Nat.pow_pos (by omega))
  refine ⟨324, le_rfl, ?_⟩
  generalize unitsPerOne = one at hpow hlt
  generalize (10 : Nat) ^ 324 = small at hpow ⊢
  calc 10 ^ (-e).toNat < 2 * (s * 10 ^ e.toNat * one) := hlt
    _ = s * 10 ^ e.toNat * (2 * one) := by ring
    _ ≤ s * 10 ^ e.toNat * small := Nat.mul_le_mul_left _ hpow

theorem pow_length_toDigits_le (hs : s ≠ 0) : 10 ^ ((Nat.toDigits 10 s).length - 1) ≤ s := by
  rcases Nat.lt_or_ge 1 (Nat.toDigits 10 s).length with hlong | hshort
  · by_contra hlt
    have hle := (Nat.length_toDigits_le_iff (by omega) (by omega)).mpr (Nat.not_le.mp hlt)
    omega
  · rw [show (Nat.toDigits 10 s).length - 1 = 0 by omega]
    exact Nat.pos_of_ne_zero hs

theorem lt_pow_length_toDigits (s : Nat) : s < 10 ^ (Nat.toDigits 10 s).length :=
  (Nat.length_toDigits_le_iff (by omega) Nat.length_toDigits_pos).mp le_rfl

/-- Below a power of ten the decimal point stands no further right. -/
theorem point_lt {j : Nat} (h : nearestDecimal s e < 2 ^ k * unitsPerOne) (hs : s ≠ 0)
    (hj : 2 ^ k ≤ 10 ^ j) : (Nat.toDigits 10 s).length + e < j + 1 := by
  have hpos : 0 < (Nat.toDigits 10 s).length := Nat.length_toDigits_pos
  have hhigh : 10 ^ ((Nat.toDigits 10 s).length - 1 + e.toNat) < 10 ^ (j + (-e).toNat) := by
    rw [Nat.pow_add, Nat.pow_add]
    calc 10 ^ ((Nat.toDigits 10 s).length - 1) * 10 ^ e.toNat
        ≤ s * 10 ^ e.toNat := Nat.mul_le_mul_right _ (pow_length_toDigits_le hs)
      _ < 2 ^ k * 10 ^ (-e).toNat := mul_pow_lt_of_nearestDecimal h
      _ ≤ 10 ^ j * 10 ^ (-e).toNat := Nat.mul_le_mul_right _ hj
  have hexp := (Nat.pow_lt_pow_iff_right (by omega)).mp hhigh
  omega

theorem significand_ne_zero (h : nearestDecimal s e ≠ 0) : s ≠ 0 := by
  rintro rfl
  obtain ⟨k, -, hlt⟩ := pow_lt_of_nearestDecimal h
  simp at hlt

/-- Where the decimal point of a number in range may stand. -/
theorem point_bounds (h : nearestDecimal s e ≠ 0) (hlimit : nearestDecimal s e < limit) :
    -324 < (Nat.toDigits 10 s).length + e ∧ (Nat.toDigits 10 s).length + e < 310 := by
  constructor
  · obtain ⟨k, hk, hlt⟩ := pow_lt_of_nearestDecimal h
    have hlow : 10 ^ (-e).toNat < 10 ^ ((Nat.toDigits 10 s).length + e.toNat + k) := by
      rw [Nat.pow_add, Nat.pow_add]
      exact hlt.trans_le (Nat.mul_le_mul_right _
        (Nat.mul_le_mul_right _ (Nat.le_of_lt (lt_pow_length_toDigits s))))
    have hexp := (Nat.pow_lt_pow_iff_right (by omega)).mp hlow
    omega
  · have hone : limit = 2 ^ 1024 * unitsPerOne := by decide +kernel
    have hpow : 2 ^ 1024 ≤ 10 ^ 309 := by decide +kernel
    exact point_lt (hone ▸ hlimit) (significand_ne_zero h) hpow

theorem ofRatio_eq {negative : Bool} (hn : nearest (num * unitsPerOne) den = u) (h : Fits u) :
    ofRatio negative num den = .finite negative u h := by
  subst hn
  rw [ofRatio, dif_pos h.2]

/-- A decimal that rounds to a magnitude in range is read as the number of that magnitude. -/
theorem ofDecimal_of_nearestDecimal {negative : Bool} (hn : nearestDecimal s e = u) (hu : u ≠ 0)
    (h : Fits u) : ofDecimal negative s e = .finite negative u h := by
  obtain ⟨hlow, hhigh⟩ := point_bounds (hn ▸ hu) (hn ▸ h.2)
  have hs : s ≠ 0 := significand_ne_zero (hn ▸ hu)
  have hzero : ¬ (s = 0 ∨ (Nat.toDigits 10 s).length + e < -330) := by omega
  have hlarge : ¬ 310 < (Nat.toDigits 10 s).length + e := by omega
  unfold ofDecimal
  dsimp only
  rw [if_neg hzero, if_neg hlarge]
  cases e with
  | ofNat e => exact ofRatio_eq hn h
  | negSucc e => exact ofRatio_eq hn h

end Generation.Binary64

namespace Generation.Decimal

open Binary64

variable {halfUp : Bool} {u : Nat} {e : Int} {d : Decimal}

theorem readsBack_of_onGrid? (h : onGrid? halfUp u e = some d) : d.ReadsBack u := by
  simp only [onGrid?] at h
  split at h
  case isTrue hlow =>
    split at h
    case isTrue hup => exact Option.some.inj h ▸ hup.2
    case isFalse => exact Option.some.inj h ▸ hlow
  case isFalse =>
    split at h
    case isTrue hhigh => exact Option.some.inj h ▸ hhigh
    case isFalse => cases h

/-- All the digits of a magnitude read back without any rounding. -/
theorem readsBack_all {n : Nat} (hn : unitsPerOne = 2 ^ n) (h : Fits u) :
    ReadsBack ⟨u * 5 ^ n, -n⟩ u := by
  have hone : 5 ^ n * unitsPerOne = 10 ^ n := by rw [hn, ← Nat.mul_pow]
  have hlow : (-(n : Int)).toNat = 0 := by omega
  have hhigh : (- -(n : Int)).toNat = n := by omega
  have hexact := nearest_exact h.1 (Nat.pow_pos (n := n) (by decide : 0 < 10))
  unfold ReadsBack
  rw [nearestDecimal_eq, hlow, hhigh, Nat.pow_zero, Nat.mul_one, Nat.mul_assoc, hone, hexact]

theorem readsBack_shortest (halfUp : Bool) (h : Fits u) : (shortest halfUp u).ReadsBack u := by
  unfold shortest
  dsimp only
  cases hgrid : (List.range 17).findSome? fun i : Nat => onGrid? halfUp u (leading u - i) with
  | none => exact readsBack_all (by rw [unitsPerOne]) h
  | some d =>
    obtain ⟨i, -, hd⟩ := List.exists_of_findSome?_eq_some hgrid
    exact readsBack_of_onGrid? hd

end Generation.Decimal
