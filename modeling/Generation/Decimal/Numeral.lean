import Generation.Decimal.Binary64

/-!
Reading numbers from text. Digits are ASCII digits throughout.
-/
namespace Generation.Numeral

/-- One or more digits. -/
def natural? (cs : List Char) : Option Nat :=
  if cs ≠ [] ∧ cs.all Char.isDigit then some (Nat.ofDigitChars 10 cs 0) else none

/-- An optional plus sign and digits. -/
def unsigned? : List Char → Option Nat
  | '+' :: cs => natural? cs
  | cs => natural? cs

/-- An optional sign and digits. -/
def integer? : List Char → Option Int
  | '-' :: cs => (natural? cs).map fun n => -(n : Int)
  | cs => (unsigned? cs).map fun n => (n : Int)

/-- The digits before and after an optional point, and what follows them. -/
def mantissa (cs : List Char) : List Char × List Char × List Char :=
  let whole := cs.takeWhile Char.isDigit
  match cs.dropWhile Char.isDigit with
  | '.' :: rest => (whole, rest.takeWhile Char.isDigit, rest.dropWhile Char.isDigit)
  | rest => (whole, [], rest)

/-- Nothing, or an `e` of either case and an integer. -/
def exponent? : List Char → Option Int
  | [] => some 0
  | c :: cs => if c = 'e' ∨ c = 'E' then integer? cs else none

/-- A magnitude in decimal notation: digits on at least one side of the point. -/
def decimal? (negative : Bool) (cs : List Char) : Option Binary64 :=
  let (whole, fraction, rest) := mantissa cs
  if whole = [] ∧ fraction = [] then none
  else (exponent? rest).map fun e =>
    .ofDecimal negative (Nat.ofDigitChars 10 (whole ++ fraction) 0) (e - fraction.length)

/-- The words for what is not a finite number, in any case. -/
def word? (negative : Bool) (cs : List Char) : Option Binary64 :=
  let word := cs.map Char.toLower
  if word = "inf".toList ∨ word = "infinity".toList then some (.infinite negative)
  else if word = "nan".toList then some .nan
  else none

/-- An optional sign, and decimal notation or a word; the nearest number is taken. -/
def real? (cs : List Char) : Option Binary64 :=
  let magnitude? (negative : Bool) (cs : List Char) : Option Binary64 :=
    (decimal? negative cs).or (word? negative cs)
  match cs with
  | '-' :: cs => magnitude? true cs
  | '+' :: cs => magnitude? false cs
  | cs => magnitude? false cs

end Generation.Numeral
