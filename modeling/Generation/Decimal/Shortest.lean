import Generation.Decimal.Binary64
import Generation.Text.Blank

/-!
The decimal with the fewest digits that reads back as a given magnitude, and ways to lay it out.
-/
namespace Generation

/-- The number `significand * 10 ^ exponent`. -/
structure Decimal where
  significand : Nat
  exponent : Int
  deriving DecidableEq, Repr

namespace Decimal

/-- The exponent of the leading decimal digit of a positive magnitude given in units. -/
def leading (units : Nat) : Int :=
  let whole := units / Binary64.unitsPerOne
  if 0 < whole then (Nat.toDigits 10 whole).length - 1
  else -(Nat.toDigits 10 (Binary64.unitsPerOne / units)).length

def ReadsBack (d : Decimal) (units : Nat) : Prop :=
  Binary64.nearestDecimal d.significand d.exponent = units

instance (d : Decimal) (units : Nat) : Decidable (d.ReadsBack units) :=
  inferInstanceAs (Decidable (_ = _))

/-- The better of the two multiples of `10 ^ exponent` around a magnitude, if one reads back: the
nearer one, and on a tie the upper one if `halfUp`, else the even one. -/
def onGrid? (halfUp : Bool) (units : Nat) (exponent : Int) : Option Decimal :=
  let num := units * 10 ^ (-exponent).toNat
  let den := Binary64.unitsPerOne * 10 ^ exponent.toNat
  let low : Decimal := ⟨num / den, exponent⟩
  let high : Decimal := ⟨num / den + 1, exponent⟩
  if low.ReadsBack units then
    let middle := (2 * low.significand + 1) * den
    let up := middle < 2 * num ∨ (middle = 2 * num ∧ (halfUp ∨ low.significand % 2 = 1))
    if up ∧ high.ReadsBack units then some high else some low
  else if high.ReadsBack units then some high
  else none

/-- The first of the grids with one, two, … seventeen digits that has a decimal for the magnitude;
should none have one, all its digits. -/
def shortest (halfUp : Bool) (units : Nat) : Decimal :=
  let grid? (i : Nat) := onGrid? halfUp units (leading units - i)
  ((List.range 17).findSome? grid?).getD ⟨units * 5 ^ 1074, -1074⟩

/-- The digits without the zeros at their end, and the exponent of the first one. -/
def scientific (d : Decimal) : List Char × Int :=
  let digits := Nat.toDigits 10 d.significand
  (Text.dropEndWhile (· == '0') digits, d.exponent + digits.length - 1)

end Decimal

/-- How a number is laid out. Exponents of the leading digit from `lowest` to below `beyond` are
written with a point alone and at least one digit after it. -/
structure Layout where
  lowest : Int
  beyond : Int
  /-- Positive exponents carry a plus sign. -/
  plus : Bool
  /-- Of two equally near shortest decimals the upper one is taken, else the even one. -/
  halfUp : Bool

namespace Layout

def positional (digits : List Char) (exponent : Int) : List Char :=
  match exponent with
  | .negSucc e => "0.".toList ++ List.replicate e '0' ++ digits
  | .ofNat e =>
    if digits.length ≤ e + 1 then
      digits ++ List.replicate (e + 1 - digits.length) '0' ++ ".0".toList
    else digits.take (e + 1) ++ '.' :: digits.drop (e + 1)

def withExponent (plus : Bool) (digits : List Char) (exponent : Int) : List Char :=
  let sign := if exponent < 0 then ['-'] else if plus then ['+'] else []
  let mantissa :=
    match digits with
    | first :: second :: rest => first :: '.' :: second :: rest
    | _ => digits
  mantissa ++ 'e' :: sign ++ Nat.toDigits 10 exponent.natAbs

def magnitude (l : Layout) (units : Nat) : List Char :=
  if units = 0 then "0.0".toList
  else
    let (digits, exponent) := (Decimal.shortest l.halfUp units).scientific
    if l.lowest ≤ exponent ∧ exponent < l.beyond then positional digits exponent
    else withExponent l.plus digits exponent

def write (l : Layout) : Binary64 → List Char
  | .nan => "NaN".toList
  | .infinite s => (if s then ['-'] else []) ++ "inf".toList
  | .finite s units _ => (if s then ['-'] else []) ++ l.magnitude units

/-- Numbers in messages and listings. -/
def plain : Layout := ⟨-4, 16, false, true⟩

/-- Numbers in JSON texts. -/
def json : Layout := ⟨-5, 16, true, false⟩

end Layout

end Generation
