import Generation.Proofs.Decimal.ReadBack
import Generation.Proofs.Json.RoundTrip
import Generation.Proofs.Json.Scaling

/-!
Small numbers that are no integers, as they are written and read. The text of each is read as some
number, which need not be the number written: its digits are rounded before they are divided, and
the quotient is rounded again.
-/
namespace Generation.Json

open Read
open Text (encode)
open Binary64 (Fits unitsPerOne nearestDecimal)

variable {cs ds : List Char} {u value places : Nat}

/-- The texts of small numbers: one digit before the point, and an exponent only if it is
negative. They stand for `value` divided by ten `places` times. -/
inductive SmallText : List Char → Nat → Nat → Prop where
  | point {c : Char} {fraction : List Char} : c.isDigit → (∀ d ∈ fraction, d.isDigit) →
    fraction ≠ [] →
    SmallText (c :: '.' :: fraction) (Nat.ofDigitChars 10 (c :: fraction) 0) fraction.length
  | pointExponent {c : Char} {fraction es : List Char} : c.isDigit → (∀ d ∈ fraction, d.isDigit) →
    fraction ≠ [] → (∀ d ∈ es, d.isDigit) → es ≠ [] → Nat.ofDigitChars 10 es 0 < 2 ^ 31 →
    SmallText (c :: '.' :: (fraction ++ 'e' :: '-' :: es)) (Nat.ofDigitChars 10 (c :: fraction) 0)
      (fraction.length + Nat.ofDigitChars 10 es 0)
  | exponent {c : Char} {es : List Char} : c.isDigit → (∀ d ∈ es, d.isDigit) → es ≠ [] →
    Nat.ofDigitChars 10 es 0 < 2 ^ 31 → 0 < Nat.ofDigitChars 10 es 0 →
    SmallText (c :: 'e' :: '-' :: es) (Nat.ofDigitChars 10 [c] 0) (Nat.ofDigitChars 10 es 0)

theorem noDigit_exponent (es : List Char) (rest : List UInt8) :
    NoDigit (encode ('e' :: '-' :: es) ++ rest) := by
  rw [Text.encode_cons, Text.encodeChar_of_lt (by decide)]
  exact noDigit_cons (by decide)

/-- Small numbers are read as their digits say, whatever follows them. -/
theorem SmallText.number (h : SmallText cs value places) (hsize : value < 2 ^ 64) (negative : Bool)
    {rest : List UInt8} (hr : Delimited rest) : Read.number negative (encode cs ++ rest) =
      .ok (.real (signed negative (scaleDown (.ofNat value) places)), rest) := by
  cases h with
  | @point c fraction hc hf hne =>
    rw [number_fraction hc hf hne hsize hr.noDigit, realTail_delimited hr,
      realOf_neg (List.length_pos_iff.mpr hne)]
  | @pointExponent c fraction es hc hf hne he hne' hexp =>
    have htext : encode (c :: '.' :: (fraction ++ 'e' :: '-' :: es)) ++ rest =
        encode (c :: '.' :: fraction) ++ (encode ('e' :: '-' :: es) ++ rest) := by
      rw [← List.append_assoc, ← Text.encode_append]
      rfl
    have hplaces : -(fraction.length : Int) - Nat.ofDigitChars 10 es 0 =
        -(fraction.length + Nat.ofDigitChars 10 es 0 : Nat) := by omega
    have hpos := List.length_pos_iff.mpr hne
    rw [htext, number_fraction hc hf hne hsize (noDigit_exponent es rest),
      realTail_negativeExponent he hne' hexp hr, hplaces, realOf_neg (by omega)]
  | @exponent c es hc he hne hexp hpos =>
    have htext : encode (c :: 'e' :: '-' :: es) ++ rest =
        encode [c] ++ (encode ('e' :: '-' :: es) ++ rest) := by
      rw [← List.append_assoc, ← Text.encode_append]
      rfl
    have hmark : (encode ('e' :: '-' :: es) ++ rest).head? = some 'e'.toUInt8 := by
      rw [Text.encode_cons, Text.encodeChar_of_lt (by decide)]
      rfl
    have hvalue : Nat.ofDigitChars 10 [c] 0 = digitValue c.toUInt8 := by
      rw [Nat.ofDigitChars_cons, Nat.ofDigitChars_nil, digitValue_toUInt8 hc, Nat.mul_zero,
        Nat.zero_add]
    rw [htext, number_exponent hc hmark, realTail_negativeExponent he hne hexp hr, Int.zero_sub,
      realOf_neg hpos, hvalue]

theorem SmallText.exists_cons (h : SmallText cs value places) :
    ∃ c ds, cs = c :: ds ∧ c.isDigit := by
  cases h with
  | point hc => exact ⟨_, _, rfl, hc⟩
  | pointExponent hc => exact ⟨_, _, rfl, hc⟩
  | exponent hc => exact ⟨_, _, rfl, hc⟩

/-- A number is read as these digits divided by ten so many times. -/
def ReadDigits (cs : List Char) (digits places : Nat) : Prop :=
  ∃ value shift, SmallText cs value shift ∧ value < 2 ^ 64 ∧
    scaleDown (.ofNat value) shift = scaleDown (.ofNat digits) places

/-- A single digit may be followed by a zero. -/
theorem scaleDown_digit {n : Nat} (h : n < 10) :
    scaleDown (.ofNat (10 * n)) 1 = scaleDown (.ofNat n) 0 := by
  revert n
  decide +kernel

theorem readDigits_digit {c : Char} (hc : c.isDigit) :
    ReadDigits [c, '.', '0'] (Nat.ofDigitChars 10 [c] 0) 0 := by
  have hlt : c.toNat - '0'.toNat < 10 := digitValue_toUInt8 hc ▸ digitValue_lt hc
  have hvalue : Nat.ofDigitChars 10 [c] 0 = c.toNat - '0'.toNat := by
    rw [Nat.ofDigitChars_cons, Nat.ofDigitChars_nil, Nat.mul_zero, Nat.zero_add]
  have hnext : Nat.ofDigitChars 10 [c, '0'] 0 = 10 * (c.toNat - '0'.toNat) := by
    rw [← hvalue]
    rfl
  have htext : SmallText [c, '.', '0'] (Nat.ofDigitChars 10 [c, '0'] 0) 1 :=
    .point hc (Layout.isDigit_of_mem_zeros 1) (List.cons_ne_nil _ _)
  refine ⟨_, _, htext, ?_, ?_⟩
  · rw [hnext]
    omega
  · rw [hnext, scaleDown_digit hlt, hvalue]

/-- Up to one the digits of a number stand behind the point, but for one. -/
theorem readDigits_positional {e : Int} (hd : ∀ d ∈ ds, d.isDigit) (hne : ds ≠ []) (he : e ≤ 0)
    (hsize : Nat.ofDigitChars 10 ds 0 < 2 ^ 64) : ReadDigits (Layout.positional ds e)
      (Nat.ofDigitChars 10 ds 0) (ds.length - 1 - e).toNat := by
  obtain ⟨c, ds, rfl⟩ := List.exists_cons_of_ne_nil hne
  have hc := hd c (by simp)
  cases e with
  | ofNat e =>
    obtain rfl : e = 0 := by
      rw [Int.ofNat_eq_natCast] at he
      omega
    cases ds with
    | nil => exact readDigits_digit hc
    | cons d ds =>
      have htext : SmallText (c :: '.' :: d :: ds) (Nat.ofDigitChars 10 (c :: d :: ds) 0)
          (d :: ds).length :=
        .point hc (fun x hx => hd x (List.mem_cons_of_mem _ hx)) (List.cons_ne_nil d ds)
      rw [Layout.positional, if_neg (by simp)]
      refine ⟨_, _, htext, hsize, ?_⟩
      congr 1
      simp only [List.length_cons, Int.ofNat_eq_natCast]
      omega
  | negSucc e =>
    have hdigits : ∀ d ∈ List.replicate e '0' ++ c :: ds, d.isDigit :=
      Layout.isDigit_of_mem_append (Layout.isDigit_of_mem_zeros e) hd
    have htext : Layout.positional (c :: ds) (.negSucc e) =
        '0' :: '.' :: (List.replicate e '0' ++ c :: ds) := by
      simp [Layout.positional]
    have hvalue : Nat.ofDigitChars 10 ('0' :: (List.replicate e '0' ++ c :: ds)) 0 =
        Nat.ofDigitChars 10 (c :: ds) 0 := by
      rw [Nat.ofDigitChars_cons, Nat.ofDigitChars_append, Nat.ofDigitChars_replicate_zero]
      rfl
    rw [htext]
    refine ⟨_, _, .point (by decide) hdigits (by simp), hvalue ▸ hsize, ?_⟩
    rw [hvalue]
    congr 1
    simp only [List.length_append, List.length_replicate, List.length_cons]
    omega

theorem readDigits_withExponent {e : Int} (hd : ∀ d ∈ ds, d.isDigit) (hne : ds ≠ []) (he : e < 0)
    (hlow : -2 ^ 31 < e) (hsize : Nat.ofDigitChars 10 ds 0 < 2 ^ 64) (plus : Bool) :
    ReadDigits (Layout.withExponent plus ds e) (Nat.ofDigitChars 10 ds 0)
      (ds.length - 1 - e).toNat := by
  have hes : ∀ d ∈ Nat.toDigits 10 e.natAbs, d.isDigit :=
    fun d hm => Digits.isDigit_of_mem_toDigits hm
  have hvalue : Nat.ofDigitChars 10 (Nat.toDigits 10 e.natAbs) 0 = e.natAbs :=
    Nat.ofDigitChars_ten_toDigits
  have hsmall : Nat.ofDigitChars 10 (Nat.toDigits 10 e.natAbs) 0 < 2 ^ 31 := by
    rw [hvalue]
    omega
  match ds, hne with
  | [d], _ =>
    have hpos : 0 < Nat.ofDigitChars 10 (Nat.toDigits 10 e.natAbs) 0 := by
      rw [hvalue]
      omega
    have h := SmallText.exponent (hd d (by simp)) hes Nat.toDigits_ne_nil hsmall hpos
    refine ⟨_, _, by simpa [Layout.withExponent, he] using h, hsize, ?_⟩
    congr 1
    rw [List.length_singleton]
    omega
  | first :: second :: more, _ =>
    have hmore : ∀ d ∈ second :: more, d.isDigit := fun d hm => hd d (List.mem_cons_of_mem _ hm)
    have h := SmallText.pointExponent (hd first (by simp)) hmore (by simp) hes Nat.toDigits_ne_nil
      hsmall
    refine ⟨_, _, by simpa [Layout.withExponent, he] using h, hsize, ?_⟩
    congr 1
    simp only [List.length_cons]
    omega

end Generation.Json

namespace Generation

open Binary64

/-- The digits of a small decimal without the zeros at their end, and how many of them stand behind
the point. -/
def Decimal.fractional (d : Decimal) : Nat × Nat :=
  (Nat.ofDigitChars 10 d.scientific.1 0, (d.scientific.1.length - 1 - d.scientific.2).toNat)

/-- The shortest digits of a small magnitude, and how many of them stand behind the point. -/
def Binary64.written (u : Nat) : Nat × Nat := (Decimal.shortest Layout.json.halfUp u).fractional

/-- What the text of a small number is read as: its digits are rounded to a number, which is divided
by a power of ten and rounded again. -/
def Binary64.reread : Binary64 → Binary64
  | .finite negative u _ =>
    Json.Read.signed negative (Json.Read.scaleDown (.ofNat (written u).1) (written u).2)
  | x => x

namespace Binary64

variable {u k : Nat} {negative : Bool}

theorem written_lt (h : spacing u ∣ u) : (written u).1 < 2 ^ 64 := by
  rcases Nat.eq_zero_or_pos u with rfl | hpos
  · decide +kernel
  · have hseventeen :=
      Decimal.significand_shortest_le Layout.json.halfUp h (Nat.ne_of_gt hpos)
    exact (Decimal.ofDigitChars_scientific_le _).trans_lt (by omega)

/-- The point of a number below four stands behind the first digit, or before it. -/
theorem leading_shortest_le (h : Fits u) (hne : u ≠ 0) (hu : u < 2 ^ 2 * unitsPerOne) :
    -324 ≤ (Decimal.shortest Layout.json.halfUp u).scientific.2 ∧
      (Decimal.shortest Layout.json.halfUp u).scientific.2 ≤ 0 := by
  have hback : nearestDecimal (Decimal.shortest Layout.json.halfUp u).significand
    (Decimal.shortest Layout.json.halfUp u).exponent = u :=
      Decimal.readsBack_shortest Layout.json.halfUp h
  generalize Decimal.shortest Layout.json.halfUp u = d at hback ⊢
  subst hback
  obtain ⟨hlow, -⟩ := point_bounds hne h.2
  have hhigh := point_lt hu (significand_ne_zero hne) (show 2 ^ 2 ≤ 10 ^ 1 by decide)
  have hexponent : d.scientific.2 = d.exponent + (Nat.toDigits 10 d.significand).length - 1 := rfl
  omega

/-- A number below four is the one nearest to its digits. -/
theorem nearest_written (h : Fits u) (hne : u ≠ 0) (hu : u < 2 ^ 2 * unitsPerOne) :
    nearestDecimal (written u).1 (-(written u).2) = u := by
  obtain ⟨-, hpoint⟩ := leading_shortest_le h hne hu
  have hback : nearestDecimal (Decimal.shortest Layout.json.halfUp u).significand
    (Decimal.shortest Layout.json.halfUp u).exponent = u :=
      Decimal.readsBack_shortest Layout.json.halfUp h
  rw [written]
  generalize Decimal.shortest Layout.json.halfUp u = d at hpoint hback ⊢
  obtain ⟨hdigits, -, hvalue⟩ := Decimal.scientific_spec (significand_ne_zero (hback ▸ hne))
  have hlength := List.length_pos_iff.mpr hdigits
  have hplaces : -(d.fractional.2 : Int) = d.scientific.2 + 1 - d.scientific.1.length := by
    rw [Decimal.fractional]
    omega
  rw [hplaces]
  exact hvalue.trans hback

/-- Digits stand for no more than the power of two that a number does not exceed. -/
theorem written_le (h : Fits u) (hk : k ≤ 1) (hle : u ≤ 2 ^ k * unitsPerOne) :
    (written u).1 ≤ 2 ^ k * 10 ^ (written u).2 := by
  rcases Nat.lt_or_eq_of_le hle with hlt | heq
  · rcases Nat.eq_zero_or_pos u with rfl | hpos
    · have hzero : (written 0).1 = 0 := by decide +kernel
      rw [hzero]
      exact Nat.zero_le _
    · have hfour : u < 2 ^ 2 * unitsPerOne :=
        hlt.trans_le (Nat.mul_le_mul_right _ (Nat.pow_le_pow_right (by omega) (by omega)))
      have hback := nearest_written h (Nat.ne_of_gt hpos) hfour
      have hbound := mul_pow_lt_of_nearestDecimal (hback.trans_lt hlt)
      simp only [Int.toNat_neg_natCast, Int.neg_neg, Int.toNat_natCast, Nat.pow_zero,
        Nat.mul_one] at hbound
      exact hbound.le
  · rw [heq]
    rcases Nat.le_one_iff_eq_zero_or_eq_one.mp hk with rfl | rfl
    · decide +kernel
    · decide +kernel

/-- What is read from the text of a number is no larger than one or two, if the number is not. -/
theorem exists_reread (negative : Bool) (h : Fits u) (hk : k ≤ 1)
    (hle : u ≤ 2 ^ k * unitsPerOne) : ∃ v hv,
      reread (.finite negative u h) = .finite negative v hv ∧ v ≤ 2 ^ k * unitsPerOne := by
  obtain ⟨v, hv, heq, hbound⟩ :=
    Json.Read.exists_scaleDown_ofNat hk (written_lt h.1) (written_le h hk hle)
  refine ⟨v, hv, ?_, hbound⟩
  rw [reread, heq]
  cases negative with
  | true => rfl
  | false => rfl

/-- Digits up to `2 ^ 53`, at most twenty-two of them behind the point, are read as the number that
they were written for. -/
theorem reread_eq_self (h : Fits u) (hu : u < 2 ^ 2 * unitsPerOne)
    (hdigits : (written u).1 ≤ 2 ^ 53) (hplaces : (written u).2 ≤ 22) :
    reread (.finite negative u h) = .finite negative u h := by
  have hback : nearest ((written u).1 * unitsPerOne) (10 ^ (written u).2) = u := by
    rcases Nat.eq_zero_or_pos u with rfl | hpos
    · decide +kernel
    · have hback := nearest_written h (Nat.ne_of_gt hpos) hu
      rwa [nearestDecimal_eq, Int.toNat_neg_natCast, Int.neg_neg, Int.toNat_natCast, Nat.pow_zero,
        Nat.mul_one] at hback
  rw [reread, Json.Read.scaleDown_exact hdigits hplaces h hback]
  cases negative with
  | true => rfl
  | false => rfl

/-- Both zeros keep their sign. -/
theorem reread_zero (h : Fits 0) : reread (.finite negative 0 h) = .finite negative 0 h :=
  reread_eq_self h (by decide +kernel) (by decide +kernel) (by decide +kernel)

/-- Numbers below four are read as their digits say. -/
theorem readDigits_magnitude (h : Fits u) (hu : u < 2 ^ 2 * unitsPerOne) :
    Json.ReadDigits (Layout.json.magnitude u) (written u).1 (written u).2 := by
  rcases Nat.eq_zero_or_pos u with rfl | hpos
  · rw [Layout.magnitude, if_pos rfl]
    have htext : Json.SmallText ['0', '.', '0'] 0 1 :=
      .point (by decide) (Layout.isDigit_of_mem_zeros 1) (List.cons_ne_nil _ _)
    exact ⟨0, 1, htext, by decide, by decide +kernel⟩
  have hne : u ≠ 0 := Nat.ne_of_gt hpos
  have hback : nearestDecimal (Decimal.shortest Layout.json.halfUp u).significand
    (Decimal.shortest Layout.json.halfUp u).exponent = u :=
      Decimal.readsBack_shortest Layout.json.halfUp h
  obtain ⟨hdigits, hall, -⟩ := Decimal.scientific_spec (significand_ne_zero (hback ▸ hne))
  obtain ⟨hlow, hhigh⟩ := leading_shortest_le h hne hu
  have hlowest : Layout.json.lowest = -5 := rfl
  have hbeyond : Layout.json.beyond = 16 := rfl
  rw [Layout.magnitude, if_neg hne]
  dsimp only
  split
  case isTrue => exact Json.readDigits_positional hall hdigits hhigh (written_lt h.1)
  case isFalse hfar =>
    exact Json.readDigits_withExponent hall hdigits (by omega) (by omega) (written_lt h.1) _

/-- The text of a number below four is read as it says, whatever follows. -/
theorem numberReadBy_reread (h : Fits u) (hu : u < 2 ^ 2 * unitsPerOne) (negative : Bool) :
    Json.Read.NumberReadBy (Json.Number.text (.real (.finite negative u h)))
      (.real (reread (.finite negative u h))) := by
  obtain ⟨value, shift, hsmall, hsize, hscale⟩ := readDigits_magnitude h hu
  obtain ⟨c, ds, hcs, hc⟩ := hsmall.exists_cons
  have hread (rest : List UInt8) (hr : Json.Read.Delimited rest) := hsmall.number hsize negative hr
  rw [Json.Number.text, Layout.write, reread, ← hscale]
  cases negative with
  | true => exact Or.inr ⟨Layout.json.magnitude u, rfl, hread⟩
  | false =>
    rw [hcs] at hread ⊢
    exact Or.inl ⟨c, ds, rfl, hc, hread⟩

end Binary64

end Generation
