import Generation.Json.Token
import Generation.Proofs.Decimal.Closeness

/-!
Dividing by powers of ten. Small whole numbers and small powers are exact, so that one rounding
remains; the other quotients are still no larger than they should be.
-/
namespace Generation.Binary64

variable {n k u v g : Nat} {s t : Bool}

theorem spacing_dvd_whole (h : n ≤ 2 ^ 53) (k : Nat) :
    spacing (n * 2 ^ k * unitsPerOne) ∣ n * 2 ^ k * unitsPerOne := by
  rw [Nat.mul_assoc, unitsPerOne, ← Nat.pow_add]
  exact spacing_dvd h

theorem spacing_dvd_two_pow (k : Nat) : spacing (2 ^ k * unitsPerOne) ∣ 2 ^ k * unitsPerOne := by
  have h := spacing_dvd_whole (n := 1) (by decide) k
  rwa [Nat.one_mul] at h

theorem fits_two_pow (h : k < 1024) : Fits (2 ^ k * unitsPerOne) := by
  obtain ⟨j, hj, hlimit⟩ : ∃ j, k < j ∧ limit = 2 ^ j * unitsPerOne := ⟨1024, h, by decide +kernel⟩
  refine ⟨spacing_dvd_two_pow k, ?_⟩
  rw [hlimit]
  exact Nat.mul_lt_mul_of_pos_right (Nat.pow_lt_pow_right (by omega) hj) unitsPerOne_pos

/-- A whole number is no more than the magnitudes that it does not exceed. -/
theorem exists_ofNat (hg : Fits g) (hn : n * unitsPerOne ≤ g) :
    ∃ u h, ofNat n = .finite false u h ∧ u = nearest (n * unitsPerOne) 1 ∧ u ≤ g := by
  have hle : nearest (n * unitsPerOne) 1 ≤ g :=
    nearest_le hg.1 Nat.one_pos (by rwa [Nat.mul_one])
  exact ⟨_, ⟨spacing_dvd_nearest _ _, hle.trans_lt hg.2⟩, ofRatio_eq rfl _, rfl, hle⟩

theorem nearest_whole (h : spacing (n * unitsPerOne) ∣ n * unitsPerOne) :
    nearest (n * unitsPerOne) 1 = n * unitsPerOne := by
  have hexact := nearest_exact h Nat.one_pos
  rwa [Nat.mul_one] at hexact

/-- A quotient of at most a power of two stays so. -/
theorem exists_div (hu : Fits u) (hv : Fits v) (hpos : v ≠ 0) (hk : k ≤ 1) (h : u ≤ 2 ^ k * v) :
    ∃ w hw, div (.finite s u hu) (.finite t v hv) = .finite (s != t) w hw ∧
      w ≤ 2 ^ k * unitsPerOne := by
  have hfits := fits_two_pow (Nat.lt_of_le_of_lt hk (by decide))
  have hle : nearest (u * unitsPerOne) v ≤ 2 ^ k * unitsPerOne := by
    refine nearest_le hfits.1 (Nat.pos_of_ne_zero hpos) ?_
    rw [Nat.mul_right_comm]
    exact Nat.mul_le_mul_right _ h
  refine ⟨_, ⟨spacing_dvd_nearest _ _, hle.trans_lt hfits.2⟩, ?_, hle⟩
  rw [div, if_neg hpos]
  exact ofRatio_eq rfl _

end Generation.Binary64

namespace Generation.Json.Read

open Binary64

variable {n k v value places : Nat}

/-- Powers of ten are no smaller than one, and exact up to the twenty-second. -/
theorem exists_power (h : n ≤ maxPower) : ∃ p hp, power n = .finite false p hp ∧
    unitsPerOne ≤ p ∧ (n ≤ 22 → p = 10 ^ n * unitsPerOne) ∧
      (20 ≤ n → 2 ^ 64 * unitsPerOne ≤ p) := by
  obtain ⟨g, hg, hle⟩ : ∃ g, Fits g ∧ 10 ^ n * unitsPerOne ≤ g := by
    have hpower : 10 ^ n ≤ 3 * 2 ^ 1022 :=
      (Nat.pow_le_pow_right (by omega) h).trans (by decide +kernel)
    exact ⟨_, ⟨spacing_dvd_whole (by decide) 1022, by decide +kernel⟩,
      Nat.mul_le_mul_right _ hpower⟩
  obtain ⟨p, hp, heq, hvalue, -⟩ := exists_ofNat hg hle
  have hge {j : Nat} (hj : 2 ^ j ≤ 10 ^ n) : 2 ^ j * unitsPerOne ≤ p := by
    rw [hvalue]
    refine le_nearest (spacing_dvd_two_pow j) Nat.one_pos ?_
    rw [Nat.mul_one]
    exact Nat.mul_le_mul_right _ hj
  refine ⟨p, hp, heq, ?_, fun hn => ?_, fun hn => hge ?_⟩
  · have hone := hge (j := 0) (Nat.pow_pos (by omega))
    generalize unitsPerOne = one at hone ⊢
    rwa [Nat.pow_zero, Nat.one_mul] at hone
  · have hfive : 5 ^ n ≤ 2 ^ 53 := (Nat.pow_le_pow_right (by omega) hn).trans (by decide)
    have hten : 10 ^ n = 5 ^ n * 2 ^ n := Nat.mul_pow 5 2 n
    rw [hvalue, hten]
    exact nearest_whole (spacing_dvd_whole hfive n)
  · exact (show 2 ^ 64 ≤ 10 ^ 20 by decide).trans (Nat.pow_le_pow_right (by omega) hn)

/-- Dividing further leaves a number below its bound. -/
theorem exists_scaleDown (hk : k ≤ 1) (n : Nat) {s : Bool} {hv : Fits v}
    (hle : v ≤ 2 ^ k * unitsPerOne) :
    ∃ w hw, scaleDown (.finite s v hv) n = .finite s w hw ∧ w ≤ 2 ^ k * unitsPerOne := by
  induction n using Nat.strongRecOn generalizing v with
  | ind n ih =>
    have hstep {j : Nat} (hj : j ≤ maxPower) : ∃ w hw,
        (Binary64.finite s v hv).div (power j) = .finite s w hw ∧ w ≤ 2 ^ k * unitsPerOne := by
      obtain ⟨p, hp, hpower, hone, -, -⟩ := exists_power hj
      have hne : p ≠ 0 := Nat.ne_of_gt (unitsPerOne_pos.trans_le hone)
      have hquotient : v ≤ 2 ^ k * p := hle.trans (Nat.mul_le_mul_left _ hone)
      rw [hpower]
      simpa using exists_div (s := s) (t := false) hv hp hne hk hquotient
    rw [scaleDown]
    split
    · exact hstep ‹_›
    · split
      · exact ⟨v, hv, rfl, hle⟩
      · obtain ⟨w, hw, hdiv, hbound⟩ := hstep (Nat.le_refl maxPower)
        rw [hdiv]
        exact ih _ (by simp only [maxPower] at *; omega) hbound

/-- A word is rounded to no more than a power of ten that is exact, or larger than every word. -/
theorem exists_ofNat_le (hk : k ≤ 1) (hsize : value < 2 ^ 64) (hle : value ≤ 2 ^ k * 10 ^ n) :
    ∃ v hv, .ofNat value = Binary64.finite false v hv ∧
      ∀ p, (n ≤ 22 → p = 10 ^ n * unitsPerOne) → (20 ≤ n → 2 ^ 64 * unitsPerOne ≤ p) →
        v ≤ 2 ^ k * p := by
  rcases Nat.lt_or_ge 22 n with hlarge | hsmall
  · have hword : Fits (2 ^ 64 * unitsPerOne) := fits_two_pow (by decide)
    obtain ⟨v, hv, heq, -, hbound⟩ := exists_ofNat hword (Nat.mul_le_mul_right _ hsize.le)
    refine ⟨v, hv, heq, fun p _ hp => ?_⟩
    calc v ≤ 2 ^ 64 * unitsPerOne := hbound
      _ ≤ p := hp (by omega)
      _ ≤ 2 ^ k * p := Nat.le_mul_of_pos_left p (Nat.two_pow_pos k)
  · have hfive : 5 ^ n ≤ 2 ^ 53 := (Nat.pow_le_pow_right (by omega) hsmall).trans (by decide)
    have hten : 2 ^ k * 10 ^ n = 5 ^ n * 2 ^ (n + k) := by
      rw [show 10 ^ n = 5 ^ n * 2 ^ n from Nat.mul_pow 5 2 n, Nat.pow_add]
      ring
    have hlimit : 2 ^ k * 10 ^ n * unitsPerOne < limit := by
      refine (Nat.mul_le_mul_right _ (Nat.mul_le_mul (Nat.pow_le_pow_right (by omega) hk)
        (Nat.pow_le_pow_right (by omega) hsmall))).trans_lt ?_
      decide +kernel
    have hspacing := spacing_dvd_whole hfive (n + k)
    rw [← hten] at hspacing
    obtain ⟨v, hv, heq, -, hbound⟩ := exists_ofNat ⟨hspacing, hlimit⟩ (Nat.mul_le_mul_right _ hle)
    refine ⟨v, hv, heq, fun p hp _ => ?_⟩
    rw [hp hsmall, ← Nat.mul_assoc]
    exact hbound

/-- The digits of a number of at most one or two are divided into one that is no larger. -/
theorem exists_scaleDown_ofNat (hk : k ≤ 1) (hsize : value < 2 ^ 64)
    (hle : value ≤ 2 ^ k * 10 ^ places) :
    ∃ w hw, scaleDown (.ofNat value) places = .finite false w hw ∧ w ≤ 2 ^ k * unitsPerOne := by
  rcases Nat.lt_or_ge maxPower places with hlarge | hsmall
  · have hword : value ≤ 2 ^ k * 10 ^ maxPower := by
      have hpower : 2 ^ 64 ≤ 10 ^ maxPower := by decide +kernel
      exact (hsize.le.trans hpower).trans (Nat.le_mul_of_pos_left _ (Nat.two_pow_pos k))
    obtain ⟨v, hv, heq, hquotient⟩ := exists_ofNat_le hk hsize hword
    obtain ⟨p, hp, hpower, hone, hexact, hlarge'⟩ := exists_power (Nat.le_refl maxPower)
    have hne : p ≠ 0 := Nat.ne_of_gt (unitsPerOne_pos.trans_le hone)
    rw [heq, scaleDown, if_neg (Nat.not_le.mpr hlarge)]
    split
    case isTrue hzero =>
      obtain rfl : v = 0 := by
        cases v with
        | zero => rfl
        | succ v => cases hzero
      exact ⟨0, hv, rfl, Nat.zero_le _⟩
    case isFalse =>
      obtain ⟨w, hw, hdiv, hbound⟩ :=
        exists_div (s := false) (t := false) hv hp hne hk (hquotient p hexact hlarge')
      rw [hpower, hdiv]
      exact exists_scaleDown hk _ hbound
  · obtain ⟨v, hv, heq, hquotient⟩ := exists_ofNat_le hk hsize hle
    obtain ⟨p, hp, hpower, hone, hexact, hlarge⟩ := exists_power hsmall
    have hne : p ≠ 0 := Nat.ne_of_gt (unitsPerOne_pos.trans_le hone)
    rw [heq, scaleDown, if_pos hsmall, hpower]
    exact exists_div hv hp hne hk (hquotient p hexact hlarge)

/-- Few digits behind the point of a number with few digits are read exactly. -/
theorem scaleDown_exact (hvalue : value ≤ 2 ^ 53) (hplaces : places ≤ 22) {u : Nat} (hu : Fits u)
    (hback : nearest (value * unitsPerOne) (10 ^ places) = u) :
    scaleDown (.ofNat value) places = .finite false u hu := by
  have hwhole : spacing (value * unitsPerOne) ∣ value * unitsPerOne := by
    have hspacing := spacing_dvd_whole hvalue 0
    rwa [Nat.pow_zero, Nat.mul_one] at hspacing
  have hlimit : value * unitsPerOne < limit :=
    (Nat.mul_le_mul_right _ hvalue).trans_lt (by decide +kernel)
  obtain ⟨v, hv, heq, hnum, -⟩ := exists_ofNat ⟨hwhole, hlimit⟩ le_rfl
  have hmax : places ≤ maxPower := hplaces.trans (by decide)
  obtain ⟨p, hp, hpower, hone, hten, -⟩ := exists_power hmax
  have hne : p ≠ 0 := Nat.ne_of_gt (unitsPerOne_pos.trans_le hone)
  rw [nearest_whole hwhole] at hnum
  rw [scaleDown, if_pos hmax, heq, hpower, div, if_neg hne]
  refine ofRatio_eq ?_ hu
  rw [hnum, hten hplaces, Nat.mul_comm (10 ^ places), Nat.mul_comm (value * unitsPerOne),
    nearest_scale _ _ unitsPerOne_pos, hback]

end Generation.Json.Read
