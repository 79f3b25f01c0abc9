import Generation.Text.Shown

/-!
Text between quotes, for messages and log fields.
-/
namespace Generation.Text

/-- Lower-case hexadecimal digits. -/
def hex (n : Nat) : List Char := Nat.toDigits 16 n

/-- A character inside a quoted text: quotes, backslashes, NUL, tabs and line ends have short
escapes, and what is not shown is written by its code point. -/
def quotedChar (c : Char) : List Char :=
  if c = '\x00' then ['\\', '0']
  else if c = '\t' then ['\\', 't']
  else if c = '\r' then ['\\', 'r']
  else if c = '\n' then ['\\', 'n']
  else if c = '\\' ∨ c = '"' then ['\\', c]
  else if isShown c then [c]
  else ['\\', 'u', '\x7b'] ++ hex c.toNat ++ ['\x7d']

def quoted (s : String) : String :=
  String.ofList ('"' :: s.toList.flatMap quotedChar ++ ['"'])

end Generation.Text
