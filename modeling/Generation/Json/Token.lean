import Generation.Json.Fault
import Generation.Text.Encoding

/-!
The smallest parts of a JSON text: blanks, words, strings and numbers. A reader gets the bytes that
are still to come. A fault at the last byte read carries the bytes behind it, a fault at the next
byte those behind that one.
-/
namespace Generation.Json.Read

def isSpace (b : UInt8) : Bool :=
  b = ' '.toUInt8 ∨ b = '\n'.toUInt8 ∨ b = '\t'.toUInt8 ∨ b = '\r'.toUInt8

def skipSpace (s : List UInt8) : List UInt8 := s.dropWhile isSpace

def isDigit (b : UInt8) : Bool := '0'.toUInt8 ≤ b && b ≤ '9'.toUInt8

def digitValue (b : UInt8) : Nat := b.toNat - '0'.toNat

/-- Takes the given bytes from the front. -/
def word : List UInt8 → List UInt8 → Except Fault (List UInt8)
  | [], s => .ok s
  | _ :: _, [] => malformed .endOfValue []
  | e :: es, b :: s => if b = e then word es s else malformed .wordExpected s

/-! Strings -/

def hexValue? (b : UInt8) : Option Nat :=
  if isDigit b then some (digitValue b)
  else if 'a'.toUInt8 ≤ b ∧ b ≤ 'f'.toUInt8 then some (b.toNat - 'a'.toNat + 10)
  else if 'A'.toUInt8 ≤ b ∧ b ≤ 'F'.toUInt8 then some (b.toNat - 'A'.toNat + 10)
  else none

/-- Four hexadecimal digits. Fewer than four bytes are an unfinished string. -/
def hexUnit : List UInt8 → Except Fault (Nat × List UInt8)
  | a :: b :: c :: d :: rest =>
    match hexValue? a, hexValue? b, hexValue? c, hexValue? d with
    | some a, some b, some c, some d => .ok (((a * 16 + b) * 16 + c) * 16 + d, rest)
    | _, _, _, _ => malformed .badEscape rest
  | _ => malformed .endOfString []

/-- The escape after `\u`: one unit, or a pair of surrogates. -/
def unicodeEscape (s : List UInt8) : Except Fault (Char × List UInt8) := do
  let (unit, rest) ← hexUnit s
  if 0xdc00 ≤ unit ∧ unit ≤ 0xdfff then malformed .loneSurrogate rest
  else if 0xd800 ≤ unit ∧ unit ≤ 0xdbff then
    match rest with
    | [] => malformed .endOfString []
    | b :: rest =>
      if b ≠ '\\'.toUInt8 then malformed .unpairedSurrogate rest
      else match rest with
        | [] => malformed .endOfString []
        | b :: rest =>
          if b ≠ 'u'.toUInt8 then malformed .unpairedSurrogate rest
          else
            let (low, rest) ← hexUnit rest
            if 0xdc00 ≤ low ∧ low ≤ 0xdfff then
              .ok (.ofNat (0x10000 + (unit - 0xd800) * 0x400 + (low - 0xdc00)), rest)
            else malformed .loneSurrogate rest
  else .ok (.ofNat unit, rest)

/-- The characters with an escape of one letter. -/
def shortEscape? (b : UInt8) : Option Char :=
  if b = '"'.toUInt8 then some '"'
  else if b = '\\'.toUInt8 then some '\\'
  else if b = '/'.toUInt8 then some '/'
  else if b = 'b'.toUInt8 then some '\x08'
  else if b = 'f'.toUInt8 then some '\x0c'
  else if b = 'n'.toUInt8 then some '\n'
  else if b = 'r'.toUInt8 then some '\r'
  else if b = 't'.toUInt8 then some '\t'
  else none

/-- The escape after a backslash. -/
def escape : List UInt8 → Except Fault (Char × List UInt8)
  | [] => malformed .endOfString []
  | b :: rest =>
    if b = 'u'.toUInt8 then unicodeEscape rest
    else match shortEscape? b with
      | some c => .ok (c, rest)
      | none => malformed .badEscape rest

/-- The bytes of a string whose opening quote has been read; the first `skip` bytes belong to an
escape already taken. -/
def stringBytes : Nat → List UInt8 → Except Fault (List UInt8 × List UInt8)
  | _, [] => malformed .endOfString []
  | skip + 1, _ :: rest => stringBytes skip rest
  | 0, b :: rest =>
    if b = '"'.toUInt8 then .ok ([], rest)
    else if b = '\\'.toUInt8 then
      match escape rest with
      | .error f => .error f
      | .ok (c, after) =>
        (stringBytes (rest.length - after.length) rest).map fun (bs, rest) =>
          (String.utf8EncodeChar c ++ bs, rest)
    else if b < 0x20 then malformed .controlCharacter rest
    else (stringBytes 0 rest).map fun (bs, rest) => (b :: bs, rest)

/-- A string whose opening quote has been read. An ill-encoded byte is found when the string has
been read, and reported as many bytes before its end as the text then still has. -/
def string (s : List UInt8) : Except Fault (String × List UInt8) :=
  match stringBytes 0 s with
  | .error f => .error f
  | .ok (bs, rest) =>
    match Text.decode? bs with
    | some text => .ok (text, rest)
    | none =>
      let left := rest.length + (bs.length - Text.wellEncodedLength bs)
      malformed .badEncoding (s.drop (s.length - left))

/-! Numbers -/

/-- The significand with more digits appended, as long as it stays a 64-bit word, and how many. -/
def absorb (significand : Nat) : List UInt8 → Nat × Nat
  | [] => (significand, 0)
  | b :: bs =>
    let longer := significand * 10 + digitValue b
    if longer < 2 ^ 64 then
      let (significand, taken) := absorb longer bs
      (significand, taken + 1)
    else (significand, 0)

/-- The largest exponent of a power of ten that is a number. -/
def maxPower : Nat := 308

def power (n : Nat) : Binary64 := .ofNat (10 ^ n)

/-- `x` divided by a power of ten, in one rounding for the power and one for the quotient. Larger
powers are divided by in turns. -/
def scaleDown (x : Binary64) (n : Nat) : Binary64 :=
  if n ≤ maxPower then x.div (power n)
  else if x.isZero then x
  else scaleDown (x.div (power maxPower)) (n - maxPower)
termination_by n
decreasing_by simp only [maxPower] at *; omega

/-- `x` times a power of ten, unless it is too large. -/
def scale? (x : Binary64) : Int → Option Binary64
  | .negSucc n => some (scaleDown x (n + 1))
  | .ofNat n =>
    if n ≤ maxPower then
      let product := x.mul (power n)
      if product.isInfinite then none else some product
    else if x.isZero then some x
    else none

def signed (negative : Bool) (x : Binary64) : Binary64 := if negative then x.neg else x

/-- The number `significand * 10 ^ exponent`, up to the roundings of `scale?`. -/
def realOf (negative : Bool) (significand : Nat) (exponent : Int) (rest : List UInt8) :
    Except Fault (Number × List UInt8) :=
  match scale? (.ofNat significand) exponent with
  | some x => .ok (.real (signed negative x), rest)
  | none => malformed .numberOutOfRange rest

/-- The digits of an exponent. One beyond the 32-bit range ends the reading: the number is zero, or
too large. -/
def exponentDigits : Nat → List UInt8 → Except (List UInt8) (Nat × List UInt8)
  | e, [] => .ok (e, [])
  | e, b :: rest =>
    if isDigit b then
      let e := e * 10 + digitValue b
      if e < 2 ^ 31 then exponentDigits e rest else .error rest
    else .ok (e, b :: rest)

/-- What follows the `e` of a number with the given digits. -/
def exponentPart (negative : Bool) (significand : Nat) (exponent : Int) (s : List UInt8) :
    Except Fault (Number × List UInt8) :=
  let (down, s) :=
    match s with
    | b :: rest =>
      if b = '-'.toUInt8 then (true, rest)
      else if b = '+'.toUInt8 then (false, rest)
      else (false, s)
    | [] => (false, s)
  match s with
  | [] => malformed .endOfValue []
  | b :: rest =>
    if isDigit b then
      match exponentDigits (digitValue b) rest with
      | .ok (e, rest) =>
        realOf negative significand (if down then exponent - e else exponent + e) rest
      | .error rest =>
        if significand ≠ 0 ∧ !down then malformed .numberOutOfRange rest
        else .ok (.real (.zero negative), rest.dropWhile isDigit)
    else malformed .badNumber rest

def isExponentMark (b : UInt8) : Bool := b = 'e'.toUInt8 ∨ b = 'E'.toUInt8

/-- What follows the digits of a number with a fraction, or with digits that were left out. -/
def realTail (negative : Bool) (significand : Nat) (exponent : Int) :
    List UInt8 → Except Fault (Number × List UInt8)
  | [] => realOf negative significand exponent []
  | b :: rest =>
    if isExponentMark b then exponentPart negative significand exponent rest
    else realOf negative significand exponent (b :: rest)

/-- What follows the point of a number. -/
def fractionPart (negative : Bool) (significand : Nat) (exponent : Int) (s : List UInt8) :
    Except Fault (Number × List UInt8) :=
  match s.takeWhile isDigit with
  | [] => malformed (if s = [] then .endOfValue else .badNumber) s.tail
  | digits =>
    let (significand, taken) := absorb significand digits
    realTail negative significand (exponent - taken) (s.dropWhile isDigit)

/-- A number that was written as an integer and fits a word. A negative zero is no integer. -/
def integerOf (negative : Bool) (significand : Nat) : Number :=
  if negative then
    if significand = 0 ∨ 2 ^ 63 < significand then .real (.neg (.ofNat significand))
    else .integer (-significand)
  else .integer significand

/-- A number without its sign. Digits that a word cannot hold count only as places. -/
def number (negative : Bool) : List UInt8 → Except Fault (Number × List UInt8)
  | [] => malformed .endOfValue []
  | b :: rest =>
    if isDigit b then
      let digits := rest.takeWhile isDigit
      let after := rest.dropWhile isDigit
      if b = '0'.toUInt8 ∧ digits ≠ [] then malformed .badNumber rest.tail
      else
        let (significand, taken) := absorb (digitValue b) digits
        let left := digits.length - taken
        match after with
        | c :: tail =>
          if c = '.'.toUInt8 then fractionPart negative significand left tail
          else if left = 0 ∧ !isExponentMark c then .ok (integerOf negative significand, after)
          else realTail negative significand left after
        | [] =>
          if left = 0 then .ok (integerOf negative significand, [])
          else realOf negative significand left []
    else malformed .badNumber rest

end Generation.Json.Read
