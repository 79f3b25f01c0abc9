/-!
Binary floating point numbers of 64 bits. A finite magnitude is kept as the number of times that
`2 ^ -1074`, the least positive magnitude, is contained in it, so that arithmetic on magnitudes is
arithmetic on natural numbers followed by one rounding.
-/
namespace Generation

/-- Powers are the ones that are computed with, also where an algebraic structure is in sight. -/
@[default_instance 20000]
instance (priority := high) instPow {α : Type} [NatPow α] : Pow α Nat := instPowNat

namespace Binary64

/-- The number of units in one. -/
def unitsPerOne : Nat := 2 ^ 1074

/-- The number of units in `2 ^ 1024`, the least power of two that is too large. -/
def limit : Nat := 2 ^ 2098

theorem limit_pos : 0 < limit := by decide +kernel

/-- The distance, in units, between neighbouring magnitudes at `units`. -/
def spacing (units : Nat) : Nat := 2 ^ (units.log2 - 52)

/-- A magnitude has at most 53 significant bits and lies below `2 ^ 1024`. -/
def Fits (units : Nat) : Prop := spacing units ∣ units ∧ units < limit

instance (units : Nat) : Decidable (Fits units) := inferInstanceAs (Decidable (_ ∧ _))

end Binary64

inductive Binary64 where
  | nan
  | infinite (negative : Bool)
  | finite (negative : Bool) (units : Nat) (fits : Binary64.Fits units)
  deriving DecidableEq

namespace Binary64

theorem fits_zero : Fits 0 := ⟨Nat.dvd_zero _, limit_pos⟩

def zero (negative : Bool) : Binary64 := .finite negative 0 fits_zero

theorem spacing_dvd {r e : Nat} (h : r ≤ 2 ^ 53) : spacing (r * 2 ^ e) ∣ r * 2 ^ e := by
  unfold spacing
  obtain hr | hr := Nat.lt_or_ge r (2 ^ 53)
  · obtain rfl | hpos := Nat.eq_zero_or_pos r
    · simp
    · have hlt : (r * 2 ^ e).log2 < 53 + e := by
        rw [Nat.log2_lt (Nat.ne_of_gt (Nat.mul_pos hpos (Nat.two_pow_pos e))), Nat.pow_add]
        exact (Nat.mul_lt_mul_right (Nat.two_pow_pos e)).2 hr
      exact Nat.dvd_trans (Nat.pow_dvd_pow 2 (by omega)) (Nat.dvd_mul_left _ _)
  · obtain rfl : r = 2 ^ 53 := Nat.le_antisymm h hr
    have hlt : (2 ^ 53 * 2 ^ e).log2 < 54 + e := by
      rw [← Nat.pow_add, Nat.log2_lt (Nat.ne_of_gt (Nat.two_pow_pos _))]
      exact Nat.pow_lt_pow_right (by decide) (by omega)
    rw [← Nat.pow_add] at *
    exact Nat.pow_dvd_pow 2 (by omega)

theorem div_spacing_lt (q : Nat) : q / spacing q < 2 ^ 53 := by
  unfold spacing
  rw [Nat.div_lt_iff_lt_mul (Nat.two_pow_pos _), ← Nat.pow_add]
  exact Nat.lt_of_lt_of_le Nat.lt_log2_self (Nat.pow_le_pow_right (by decide) (by omega))

/-- The magnitude nearest to `num / den` units, the one with an even significand on a tie. -/
def nearest (num den : Nat) : Nat :=
  let step := spacing (num / den)
  let low := num / den / step
  let excess := 2 * (num - low * step * den)
  let up := step * den < excess ∨ (step * den = excess ∧ low % 2 = 1)
  (if up then low + 1 else low) * step

theorem spacing_dvd_nearest (num den : Nat) : spacing (nearest num den) ∣ nearest num den := by
  have h := div_spacing_lt (num / den)
  unfold nearest
  apply spacing_dvd
  split <;> omega

/-- The number nearest to `num / den`. -/
def ofRatio (negative : Bool) (num den : Nat) : Binary64 :=
  let units := nearest (num * unitsPerOne) den
  if h : units < limit then .finite negative units ⟨spacing_dvd_nearest .., h⟩
  else .infinite negative

def ofNat (n : Nat) : Binary64 := ofRatio false n 1

/-- The number nearest to `n`; zero has no sign. -/
def ofInt (n : Int) : Binary64 := ofRatio (n < 0) n.natAbs 1

def isZero : Binary64 → Bool
  | .finite _ 0 _ => true
  | _ => false

def negative : Binary64 → Bool
  | .nan => false
  | .infinite s => s
  | .finite s _ _ => s

def isInfinite : Binary64 → Bool
  | .infinite _ => true
  | _ => false

def neg : Binary64 → Binary64
  | .nan => .nan
  | .infinite s => .infinite !s
  | .finite s u h => .finite (!s) u h

def mul : Binary64 → Binary64 → Binary64
  | .finite s u _, .finite t v _ => ofRatio (s != t) (u * v) (unitsPerOne * unitsPerOne)
  | x, y =>
    if x = .nan ∨ y = .nan ∨ x.isZero ∨ y.isZero then .nan
    else .infinite (x.negative != y.negative)

def div : Binary64 → Binary64 → Binary64
  | .finite s u _, .finite t v _ =>
    if v = 0 then if u = 0 then .nan else .infinite (s != t)
    else ofRatio (s != t) u v
  | .finite s _ _, .infinite t => zero (s != t)
  | .infinite s, .finite t _ _ => .infinite (s != t)
  | _, _ => .nan

/-- The value of a finite number in units. -/
def signedUnits (negative : Bool) (units : Nat) : Int := if negative then -units else units

/-- The order of numbers: both zeros are equal, and nothing compares with a number that is none. -/
def le : Binary64 → Binary64 → Bool
  | .nan, _ | _, .nan => false
  | .infinite true, _ | _, .infinite false => true
  | .infinite false, _ | _, .infinite true => false
  | .finite s u _, .finite t v _ => signedUnits s u ≤ signedUnits t v

/-- The magnitude, in units, nearest to `significand * 10 ^ exponent`. -/
def nearestDecimal (significand : Nat) (exponent : Int) : Nat :=
  match exponent with
  | .ofNat e => nearest (significand * 10 ^ e * unitsPerOne) 1
  | .negSucc e => nearest (significand * unitsPerOne) (10 ^ (e + 1))

/-- The number nearest to `significand * 10 ^ exponent`. The decimal point is looked at first: from
`10 ^ 310` on every number is too large, and below `10 ^ -330` it is too small. -/
def ofDecimal (negative : Bool) (significand : Nat) (exponent : Int) : Binary64 :=
  let point := (Nat.toDigits 10 significand).length + exponent
  if significand = 0 ∨ point < -330 then zero negative
  else if 310 < point then .infinite negative
  else
    match exponent with
    | .ofNat e => ofRatio negative (significand * 10 ^ e) 1
    | .negSucc e => ofRatio negative significand (10 ^ (e + 1))

end Binary64

end Generation
