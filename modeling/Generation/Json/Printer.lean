import Generation.Json.Basic
import Generation.Decimal.Shortest

/-! JSON texts: on one line without blanks, or one member a line with two spaces a level. -/
namespace Generation.Json

def escapedChar (c : Char) : List Char :=
  if c = '"' ∨ c = '\\' then ['\\', c]
  else if c = '\n' then ['\\', 'n']
  else if c = '\r' then ['\\', 'r']
  else if c = '\t' then ['\\', 't']
  else if c = '\x08' then ['\\', 'b']
  else if c = '\x0c' then ['\\', 'f']
  else if c.toNat < 0x20 then
    "\\u00".toList ++ [Nat.digitChar (c.toNat / 16), Nat.digitChar (c.toNat % 16)]
  else [c]

def quotedText (s : String) : List Char :=
  '"' :: s.toList.flatMap escapedChar ++ ['"']

def integerText (n : Int) : List Char :=
  (if n < 0 then ['-'] else []) ++ Nat.toDigits 10 n.natAbs

/-- JSON has no notation for what is not a finite number. -/
def Number.text : Number → List Char
  | .integer n => integerText n
  | .real (.finite s units h) => Layout.json.write (.finite s units h)
  | .real _ => "null".toList

/-- What stands before an item at nesting depth `depth`. -/
def lineStart (pretty : Bool) (depth : Nat) : List Char :=
  if pretty then '\n' :: List.replicate (2 * depth) ' ' else []

def colon (pretty : Bool) : List Char :=
  if pretty then [':', ' '] else [':']

mutual

/-- The text of a value whose own line is at nesting depth `depth`. -/
def chars (pretty : Bool) (depth : Nat) : Json → List Char
  | .null => "null".toList
  | .boolean b => (toString b).toList
  | .number n => n.text
  | .string s => quotedText s
  | .array [] => ['[', ']']
  | .array items => '[' :: itemChars pretty (depth + 1) items ++ lineStart pretty depth ++ [']']
  | .object [] => ['\x7b', '\x7d']
  | .object members =>
    '\x7b' :: memberChars pretty (depth + 1) members ++ lineStart pretty depth ++ ['\x7d']

def itemChars (pretty : Bool) (depth : Nat) : List Json → List Char
  | [] => []
  | [v] => lineStart pretty depth ++ chars pretty depth v
  | v :: rest =>
    lineStart pretty depth ++ chars pretty depth v ++ ',' :: itemChars pretty depth rest

def memberChars (pretty : Bool) (depth : Nat) : List (String × Json) → List Char
  | [] => []
  | [(n, v)] => lineStart pretty depth ++ quotedText n ++ colon pretty ++ chars pretty depth v
  | (n, v) :: rest =>
    lineStart pretty depth ++ quotedText n ++ colon pretty ++ chars pretty depth v ++
      ',' :: memberChars pretty depth rest

end

def write (pretty : Bool) (v : Json) : String := String.ofList (chars pretty 0 v)

end Generation.Json
