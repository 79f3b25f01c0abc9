import Generation.Proofs.Decimal.Rounding

/-!
Rounding does not step over a magnitude, and finds a magnitude from anywhere close to it. So a
decimal with seventeen digits always reads back.
-/
namespace Generation.Binary64

variable {u v num den step : Nat}

theorem unitsPerOne_pos : 0 < unitsPerOne := by decide +kernel

theorem spacing_dvd_spacing (h : u ≤ v) (hu : u ≠ 0) : spacing u ∣ spacing v := by
  have hlog : u.log2 ≤ v.log2 := (Nat.le_log2 (by omega)).mpr ((Nat.log2_self_le hu).trans h)
  exact Nat.pow_dvd_pow 2 (by omega)

/-- What is no more than a magnitude is not rounded above it. -/
theorem nearest_le (hv : spacing v ∣ v) (hden : 0 < den) (h : num ≤ v * den) :
    nearest num den ≤ v := by
  have hq : num / den ≤ v := Nat.div_le_of_le_mul (Nat.mul_comm v den ▸ h)
  rcases Nat.lt_or_eq_of_le hq with hlt | heq
  · have hstep : spacing (num / den) ∣ v := by
      rcases Nat.eq_zero_or_pos (num / den) with hz | hpos
      · rw [hz]
        exact Nat.one_dvd v
      · exact (spacing_dvd_spacing hq (Nat.ne_of_gt hpos)).trans hv
    have hnext : (num / den / spacing (num / den) + 1) * spacing (num / den) ≤ v := by
      obtain ⟨m, hm⟩ := hstep
      rw [Nat.mul_comm] at hm
      have hlow : num / den / spacing (num / den) < m :=
        (Nat.div_lt_iff_lt_mul (spacing_pos _)).mpr (hm ▸ hlt)
      rw [hm]
      exact Nat.mul_le_mul_right _ hlow
    unfold nearest
    dsimp only
    split
    · exact hnext
    · exact (Nat.mul_le_mul_right _ (Nat.le_succ _)).trans hnext
  · have hnum : num = v * den := by
      refine Nat.le_antisymm h ?_
      rw [← heq]
      exact Nat.div_mul_le_self num den
    rw [hnum]
    exact (nearest_exact hv hden).le

/-- What is no less than a magnitude is not rounded below it. -/
theorem le_nearest (hv : spacing v ∣ v) (hden : 0 < den) (h : v * den ≤ num) :
    v ≤ nearest num den := by
  have hq : v ≤ num / den := (Nat.le_div_iff_mul_le hden).mpr h
  rcases Nat.eq_zero_or_pos v with rfl | hpos
  · exact Nat.zero_le _
  have hne : num / den ≠ 0 := by omega
  rcases Nat.lt_or_ge v (2 ^ (num / den).log2) with hlt | hge
  · exact hlt.le.trans (two_pow_log2_le_nearest hne)
  · have hlog : v.log2 = (num / den).log2 := by
      refine Nat.le_antisymm ?_ ((Nat.le_log2 (Nat.ne_of_gt hpos)).mpr hge)
      exact (Nat.le_log2 hne).mpr ((Nat.log2_self_le (Nat.ne_of_gt hpos)).trans hq)
    have hsame : spacing v = spacing (num / den) := by rw [spacing, spacing, hlog]
    have hlow : v ≤ num / den / spacing (num / den) * spacing (num / den) := by
      rw [hsame] at hv
      obtain ⟨m, hm⟩ := hv
      rw [Nat.mul_comm] at hm
      rw [hm] at hq ⊢
      exact Nat.mul_le_mul_right _ ((Nat.le_div_iff_mul_le (spacing_pos _)).mpr hq)
    refine hlow.trans ?_
    unfold nearest
    dsimp only
    split
    · exact Nat.mul_le_mul_right _ (Nat.le_succ _)
    · exact le_rfl

/-- From less than half a step away a multiple of the step is found. -/
theorem nearest_of_grid (hstep : spacing (num / den) = step) (hu : step ∣ u)
    (hhigh : 2 * (num - u * den) < step * den) (hlow : 2 * (u * den - num) < step * den) :
    nearest num den = u := by
  obtain ⟨m, rfl⟩ := hu
  have hpos : 0 < step * den := by omega
  have hpoint : step * m * den = m * (step * den) := by ring
  have hquotient : num / den / step = num / (step * den) := by
    rw [Nat.div_div_eq_div_mul, Nat.mul_comm]
  rw [hpoint] at hhigh hlow
  have hnext : (m + 1) * (step * den) = m * (step * den) + step * den := Nat.succ_mul m _
  simp only [nearest, hstep, hquotient, Nat.mul_assoc]
  rcases Nat.lt_or_ge num (m * (step * den)) with hbelow | habove
  · obtain ⟨j, rfl⟩ : ∃ j, m = j + 1 := by
      refine Nat.exists_eq_succ_of_ne_zero ?_
      rintro rfl
      omega
    have hprev : (j + 1) * (step * den) = j * (step * den) + step * den := Nat.succ_mul j _
    have hq : num / (step * den) = j := by
      refine Nat.div_eq_of_lt_le ?_ ?_
      · omega
      · exact hbelow
    rw [hq, if_pos (Or.inl (by omega)), Nat.mul_comm]
  · have hq : num / (step * den) = m := by
      refine Nat.div_eq_of_lt_le ?_ ?_
      · exact habove
      · omega
    rw [hq, if_neg (by omega), Nat.mul_comm]

/-- Between a magnitude and the next power of two there is room for a step. -/
theorem add_spacing_le (hu : spacing u ∣ u) : u + spacing u ≤ 2 ^ (u.log2 + 1) := by
  have hpow : spacing u ∣ 2 ^ (u.log2 + 1) := Nat.pow_dvd_pow 2 (by omega)
  obtain ⟨m, hm⟩ := hu
  obtain ⟨n, hn⟩ := hpow
  have hlt : spacing u * m < spacing u * n := by
    rw [← hm, ← hn]
    exact Nat.lt_log2_self
  calc u + spacing u = spacing u * (m + 1) := by rw [Nat.mul_succ, ← hm]
    _ ≤ spacing u * n := Nat.mul_le_mul_left _ (Nat.lt_of_mul_lt_mul_left hlt)
    _ = 2 ^ (u.log2 + 1) := hn.symm

/-- A magnitude is a power of two, or a step above one. -/
theorem eq_two_pow_or_le (hu : spacing u ∣ u) (hne : u ≠ 0) :
    u = 2 ^ u.log2 ∨ 2 ^ u.log2 + spacing u ≤ u := by
  have hpow : spacing u ∣ 2 ^ u.log2 := Nat.pow_dvd_pow 2 (by omega)
  rcases Nat.lt_or_eq_of_le (Nat.log2_self_le hne) with hlt | heq
  · obtain ⟨m, hm⟩ := hu
    obtain ⟨n, hn⟩ := hpow
    have hmn : spacing u * n < spacing u * m := by rwa [← hm, ← hn]
    refine Or.inr ?_
    calc 2 ^ u.log2 + spacing u = spacing u * (n + 1) := by rw [Nat.mul_succ, ← hn]
      _ ≤ spacing u * m := Nat.mul_le_mul_left _ (Nat.lt_of_mul_lt_mul_left hmn)
      _ = u := hm.symm
  · exact Or.inl heq.symm

/-- The significand of a magnitude has at most 53 bits. -/
theorem mul_lt_mul_spacing (u : Nat) (hden : 0 < den) : u * den < 2 ^ 53 * (spacing u * den) := by
  have hbits : u < 2 ^ 53 * spacing u := by
    refine Nat.lt_log2_self.trans_le ?_
    rw [spacing, ← Nat.pow_add]
    exact Nat.pow_le_pow_right (by omega) (by omega)
  rw [← Nat.mul_assoc]
  exact Nat.mul_lt_mul_of_pos_right hbits hden

/-- A number that is less than a power of two but not half of it. -/
theorem log2_eq_pred {q l : Nat} (hq : q < 2 ^ l) (hhalf : 2 ^ l ≤ 2 * q + 1) : q.log2 = l - 1 := by
  cases l with
  | zero =>
    rw [Nat.pow_zero, Nat.lt_one_iff] at hq
    rw [hq]
    rfl
  | succ l =>
    rw [Nat.pow_succ] at hq hhalf
    have hpos := Nat.two_pow_pos l
    rcases Nat.eq_zero_or_pos q with rfl | hne
    · obtain rfl : l = 0 := by
        by_contra hl
        have := Nat.pow_le_pow_right (n := 2) (by omega) (Nat.one_le_iff_ne_zero.mpr hl)
        omega
      rfl
    · refine (Nat.log2_eq_iff (Nat.ne_of_gt hne)).mpr ⟨?_, ?_⟩
      · change 2 ^ l ≤ q
        omega
      · change q < 2 ^ (l + 1)
        rw [Nat.pow_succ]
        exact hq

/-- From closely above a magnitude it is found. -/
theorem nearest_of_close_above (hu : spacing u ∣ u) (hden : 0 < den)
    (habove : 2 ^ u.log2 ≤ num / den) (hhigh : 2 ^ 54 * (num - u * den) < u * den)
    (hlow : 2 ^ 54 * (u * den - num) < u * den) : nearest num den = u := by
  have hwide := mul_lt_mul_spacing u hden
  have hnum : num < (u + spacing u) * den := by
    rw [Nat.add_mul]
    omega
  have hq : num / den < 2 ^ (u.log2 + 1) :=
    ((Nat.div_lt_iff_lt_mul hden).mpr hnum).trans_le (add_spacing_le hu)
  have hqne : num / den ≠ 0 := by
    have := Nat.two_pow_pos u.log2
    omega
  have hstep : spacing (num / den) = spacing u := by
    rw [spacing, (Nat.log2_eq_iff hqne).mpr ⟨habove, hq⟩, spacing]
  exact nearest_of_grid hstep hu (by omega) (by omega)

/-- From closely below a power of two, where the steps are half as large, it is found as well. -/
theorem nearest_of_close_below (hu : spacing u ∣ u) (hne : u ≠ 0) (hden : 0 < den)
    (hbelow : num / den < 2 ^ u.log2) (hlow : 2 ^ 54 * (u * den - num) < u * den) :
    nearest num den = u := by
  have hself : 2 ^ u.log2 * den ≤ u * den := Nat.mul_le_mul_right den (Nat.log2_self_le hne)
  have hwide := mul_lt_mul_spacing u hden
  have hnum : num < 2 ^ u.log2 * den := (Nat.div_lt_iff_lt_mul hden).mp hbelow
  have hhalf : 2 ^ u.log2 ≤ 2 * (num / den) + 1 := by
    have hnext := Nat.lt_mul_div_succ num hden
    have hbound : 2 ^ u.log2 * den < (2 * (num / den) + 2) * den :=
      calc 2 ^ u.log2 * den ≤ 2 * num := by omega
        _ < 2 * (den * (num / den + 1)) := by omega
        _ = (2 * (num / den) + 2) * den := by ring
    exact Nat.le_of_lt_succ (Nat.lt_of_mul_lt_mul_right hbound)
  have hstep : spacing (num / den) = 2 ^ (u.log2 - 1 - 52) := by
    rw [spacing, log2_eq_pred hbelow hhalf]
  rcases Nat.lt_or_ge u.log2 53 with hsmall | hlarge
  · have hone : spacing u = 1 := by rw [spacing, show u.log2 - 52 = 0 by omega, Nat.pow_zero]
    rw [show u.log2 - 1 - 52 = 0 by omega, Nat.pow_zero] at hstep
    rw [hone] at hwide
    exact nearest_of_grid hstep (Nat.one_dvd u) (by omega) (by omega)
  · have hdouble : spacing u = 2 * 2 ^ (u.log2 - 1 - 52) := by
      rw [spacing, ← Nat.pow_succ']
      congr 1
      omega
    have hpow : 2 ^ u.log2 = 2 ^ 53 * 2 ^ (u.log2 - 1 - 52) := by
      rw [← Nat.pow_add]
      congr 1
      omega
    rcases eq_two_pow_or_le hu hne with heq | habove
    · have hpoint : u * den = 2 ^ 53 * (2 ^ (u.log2 - 1 - 52) * den) := by
        rw [← Nat.mul_assoc, ← hpow, ← heq]
      have hdvd : 2 ^ (u.log2 - 1 - 52) ∣ u := by
        rw [hpow, Nat.mul_comm] at heq
        exact ⟨_, heq⟩
      generalize 2 ^ (u.log2 - 1 - 52) = step at *
      rw [← heq] at hnum
      exact nearest_of_grid hstep hdvd (by omega) (by omega)
    -- nothing that close lies below the power of two, unless the magnitude is that power
    · have hroom := Nat.mul_le_mul_right den habove
      rw [Nat.add_mul] at hroom
      omega

/-- A magnitude is found from anywhere closer than a part in `2 ^ 54` of it. -/
theorem nearest_of_close (hu : spacing u ∣ u) (hden : 0 < den)
    (hhigh : 2 ^ 54 * (num - u * den) < u * den) (hlow : 2 ^ 54 * (u * den - num) < u * den) :
    nearest num den = u := by
  have hne : u ≠ 0 := by
    rintro rfl
    omega
  rcases Nat.lt_or_ge (num / den) (2 ^ u.log2) with hbelow | habove
  · exact nearest_of_close_below hu hne hden hbelow hlow
  · exact nearest_of_close_above hu hden habove hhigh hlow

end Generation.Binary64

namespace Generation.Decimal

open Binary64

variable {halfUp : Bool} {u : Nat} {e : Int} {d : Decimal}

theorem leading_of_le (h : unitsPerOne ≤ u) : ∃ l : Nat, leading u = l ∧
    unitsPerOne * 10 ^ l ≤ u ∧ u ≤ unitsPerOne * 10 ^ (l + 1) := by
  have hone := unitsPerOne_pos
  have hwhole : 0 < u / unitsPerOne := Nat.div_pos h hone
  have hlen : 0 < (Nat.toDigits 10 (u / unitsPerOne)).length := Nat.length_toDigits_pos
  have hlow := (Nat.le_div_iff_mul_le hone).mp (pow_length_toDigits_le (Nat.ne_of_gt hwhole))
  have hhigh := (Nat.div_lt_iff_lt_mul hone).mp (lt_pow_length_toDigits (u / unitsPerOne))
  rw [leading, if_pos hwhole]
  generalize (Nat.toDigits 10 (u / unitsPerOne)).length = n at hlen hlow hhigh ⊢
  obtain ⟨l, rfl⟩ := Nat.exists_eq_succ_of_ne_zero (Nat.ne_of_gt hlen)
  refine ⟨l, by omega, ?_, ?_⟩
  · rw [Nat.mul_comm]
    exact hlow
  · rw [Nat.mul_comm]
    exact hhigh.le

theorem leading_of_lt (hu : u ≠ 0) (h : u < unitsPerOne) : ∃ l : Nat, leading u = -l ∧
    unitsPerOne ≤ u * 10 ^ l ∧ u * 10 ^ l ≤ unitsPerOne * 10 := by
  have hone := unitsPerOne_pos
  have hpos : 0 < u := Nat.pos_of_ne_zero hu
  have hwhole : ¬ 0 < u / unitsPerOne := by
    rw [Nat.div_eq_of_lt h]
    exact Nat.lt_irrefl 0
  have hlen : 0 < (Nat.toDigits 10 (unitsPerOne / u)).length := Nat.length_toDigits_pos
  have hlow := (Nat.le_div_iff_mul_le hpos).mp
    (pow_length_toDigits_le (Nat.ne_of_gt (Nat.div_pos h.le hpos)))
  have hhigh := (Nat.div_lt_iff_lt_mul hpos).mp (lt_pow_length_toDigits (unitsPerOne / u))
  rw [leading, if_neg hwhole]
  generalize (Nat.toDigits 10 (unitsPerOne / u)).length = n at hlen hlow hhigh ⊢
  obtain ⟨l, rfl⟩ := Nat.exists_eq_succ_of_ne_zero (Nat.ne_of_gt hlen)
  refine ⟨l + 1, rfl, ?_, ?_⟩
  · rw [Nat.mul_comm]
    exact hhigh.le
  · generalize unitsPerOne = one at hlow ⊢
    calc u * 10 ^ (l + 1) = 10 ^ l * u * 10 := by
          rw [Nat.pow_succ]
          ring
      _ ≤ one * 10 := Nat.mul_le_mul_right 10 hlow

/-- The leading digit of a magnitude is where it is said to be. -/
theorem leading_spec (hu : u ≠ 0) :
    unitsPerOne * 10 ^ (leading u).toNat ≤ u * 10 ^ (-leading u).toNat ∧
      u * 10 ^ (-leading u).toNat ≤ unitsPerOne * 10 ^ ((leading u).toNat + 1) := by
  rcases Nat.lt_or_ge u unitsPerOne with hlt | hge
  · obtain ⟨l, hl, hlow, hhigh⟩ := leading_of_lt hu hlt
    rw [hl, Int.neg_neg, Int.toNat_neg_natCast, Int.toNat_natCast, Nat.pow_zero, Nat.mul_one,
      Nat.zero_add, Nat.pow_one]
    exact ⟨hlow, hhigh⟩
  · obtain ⟨l, hl, hlow, hhigh⟩ := leading_of_le hge
    rw [hl, Int.toNat_neg_natCast, Int.toNat_natCast, Nat.pow_zero, Nat.mul_one]
    exact ⟨hlow, hhigh⟩

/-- On a grid that is fine enough one of the two decimals around a magnitude reads back. -/
theorem exists_onGrid? (halfUp : Bool) (hu : spacing u ∣ u)
    (hfine : 2 ^ 53 * (unitsPerOne * 10 ^ e.toNat) < u * 10 ^ (-e).toNat) :
    ∃ d, onGrid? halfUp u e = some d := by
  have hden : 0 < unitsPerOne * 10 ^ e.toNat :=
    Nat.mul_pos unitsPerOne_pos (Nat.pow_pos (by omega))
  have hten : 0 < 10 ^ (-e).toNat := Nat.pow_pos (by omega)
  have hsplit := Nat.div_add_mod (u * 10 ^ (-e).toNat) (unitsPerOne * 10 ^ e.toNat)
  have hrest := Nat.mod_lt (u * 10 ^ (-e).toNat) hden
  have hreads (s : Nat) : ReadsBack ⟨s, e⟩ u ↔
      nearest (unitsPerOne * 10 ^ e.toNat * s) (10 ^ (-e).toNat) = u := by
    rw [ReadsBack, nearestDecimal_eq, Nat.mul_comm s, Nat.mul_right_comm,
      Nat.mul_comm _ unitsPerOne]
  have hback : ReadsBack ⟨u * 10 ^ (-e).toNat / (unitsPerOne * 10 ^ e.toNat), e⟩ u ∨
      ReadsBack ⟨u * 10 ^ (-e).toNat / (unitsPerOne * 10 ^ e.toNat) + 1, e⟩ u := by
    rw [hreads, hreads, Nat.mul_succ]
    rcases Nat.lt_or_ge (2 * (u * 10 ^ (-e).toNat % (unitsPerOne * 10 ^ e.toNat)))
      (unitsPerOne * 10 ^ e.toNat) with hlow | hhigh
    · exact Or.inl (nearest_of_close hu hten (by omega) (by omega))
    · exact Or.inr (nearest_of_close hu hten (by omega) (by omega))
  unfold onGrid?
  dsimp only
  rcases hback with hlow | hhigh
  · rw [if_pos hlow]
    split
    · exact ⟨_, rfl⟩
    · exact ⟨_, rfl⟩
  · rw [if_pos hhigh]
    split
    · split
      · exact ⟨_, rfl⟩
      · exact ⟨_, rfl⟩
    · exact ⟨_, rfl⟩

theorem significand_of_onGrid? (h : onGrid? halfUp u e = some d) :
    d.significand ≤ u * 10 ^ (-e).toNat / (unitsPerOne * 10 ^ e.toNat) + 1 := by
  unfold onGrid? at h
  dsimp only at h
  split at h
  · split at h
    · rw [← Option.some.inj h]
    · rw [← Option.some.inj h]
      exact Nat.le_succ _
  · split at h
    · rw [← Option.some.inj h]
    · cases h

/-- The exponents of a grid, without signs. -/
theorem grid_exponents (l : Int) (i : Nat) :
    l.toNat + (-(l - i)).toNat = i + (l - i).toNat + (-l).toNat := by omega

theorem grid_fine (hu : u ≠ 0) : 2 ^ 53 * (unitsPerOne * 10 ^ (leading u - (16 : Nat)).toNat) <
    u * 10 ^ (-(leading u - (16 : Nat))).toNat := by
  obtain ⟨hlow, -⟩ := leading_spec hu
  have hexp := grid_exponents (leading u) 16
  have hone : 0 < unitsPerOne := unitsPerOne_pos
  generalize unitsPerOne = one at hlow hone ⊢
  generalize (leading u - (16 : Nat)).toNat = p at hexp ⊢
  generalize (-(leading u - (16 : Nat))).toNat = q at hexp ⊢
  generalize (leading u).toNat = a at hlow hexp
  generalize (-leading u).toNat = b at hlow hexp
  have hten (n : Nat) : 0 < 10 ^ n := Nat.pow_pos (by omega)
  refine Nat.lt_of_mul_lt_mul_right (a := 10 ^ b) ?_
  calc 2 ^ 53 * (one * 10 ^ p) * 10 ^ b = 2 ^ 53 * (one * 10 ^ p * 10 ^ b) := by ring
    _ < 10 ^ 16 * (one * 10 ^ p * 10 ^ b) :=
        (Nat.mul_lt_mul_right (Nat.mul_pos (Nat.mul_pos hone (hten p)) (hten b))).mpr (by decide)
    _ = one * 10 ^ (16 + p + b) := by rw [Nat.pow_add, Nat.pow_add]; ring
    _ = one * 10 ^ a * 10 ^ q := by rw [← hexp, Nat.pow_add]; ring
    _ ≤ u * 10 ^ b * 10 ^ q := Nat.mul_le_mul_right _ hlow
    _ = u * 10 ^ q * 10 ^ b := by ring

theorem grid_significand (hu : u ≠ 0) (i : Nat) : u * 10 ^ (-(leading u - i)).toNat /
    (unitsPerOne * 10 ^ (leading u - i).toNat) ≤ 10 ^ (i + 1) := by
  obtain ⟨-, hhigh⟩ := leading_spec hu
  have hexp := grid_exponents (leading u) i
  have hone : 0 < unitsPerOne := unitsPerOne_pos
  generalize unitsPerOne = one at hhigh hone ⊢
  generalize (leading u - i).toNat = p at hexp ⊢
  generalize (-(leading u - i)).toNat = q at hexp ⊢
  generalize (leading u).toNat = a at hhigh hexp
  generalize (-leading u).toNat = b at hhigh hexp
  have hten (n : Nat) : 0 < 10 ^ n := Nat.pow_pos (by omega)
  refine Nat.div_le_of_le_mul ?_
  refine Nat.le_of_mul_le_mul_right ?_ (hten b)
  calc u * 10 ^ q * 10 ^ b = u * 10 ^ b * 10 ^ q := by ring
    _ ≤ one * 10 ^ (a + 1) * 10 ^ q := Nat.mul_le_mul_right _ hhigh
    _ = one * 10 ^ (a + q) * 10 := by rw [Nat.pow_add, Nat.pow_add]; ring
    _ = one * 10 ^ p * 10 ^ (i + 1) * 10 ^ b := by
        rw [hexp, Nat.pow_add, Nat.pow_add, Nat.pow_add]
        ring

/-- Seventeen digits are enough for every magnitude. -/
theorem significand_shortest_le (halfUp : Bool) (hu : spacing u ∣ u) (hne : u ≠ 0) :
    (shortest halfUp u).significand ≤ 10 ^ 17 + 1 := by
  have hsome :
      ((List.range 17).findSome? fun i : Nat => onGrid? halfUp u (leading u - i)).isSome := by
    rw [List.findSome?_isSome_iff]
    obtain ⟨d, hd⟩ := exists_onGrid? halfUp hu (grid_fine hne)
    exact ⟨16, by simp, by rw [hd]; rfl⟩
  obtain ⟨d, hd⟩ := Option.isSome_iff_exists.mp hsome
  obtain ⟨i, hi, hgrid⟩ := List.exists_of_findSome?_eq_some hd
  have hshortest : shortest halfUp u = d := by
    rw [shortest, hd, Option.getD_some]
  have hpow : 10 ^ (i + 1) ≤ 10 ^ 17 := by
    have hlt := List.mem_range.mp hi
    exact Nat.pow_le_pow_right (by omega) (by omega)
  rw [hshortest]
  exact (significand_of_onGrid? hgrid).trans
    (Nat.succ_le_succ ((grid_significand hne i).trans hpow))

end Generation.Decimal
