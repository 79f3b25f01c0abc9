import Generation.Json.Mismatch

/-! Why and where the reading of a JSON text stopped. -/
namespace Generation.Json

/-- A place where a text departs from the grammar. -/
inductive SyntaxFault where
  | endOfList
  | endOfObject
  | endOfString
  | endOfValue
  | colonExpected
  | listEndExpected
  | objectEndExpected
  | wordExpected
  | valueExpected
  | badEscape
  | badNumber
  | numberOutOfRange
  | badEncoding
  | controlCharacter
  | nameNotString
  | loneSurrogate
  | unpairedSurrogate
  | trailingComma
  | trailingCharacters
  | nestingTooDeep
  deriving DecidableEq

def SyntaxFault.message : SyntaxFault → String
  | .endOfList => "EOF while parsing a list"
  | .endOfObject => "EOF while parsing an object"
  | .endOfString => "EOF while parsing a string"
  | .endOfValue => "EOF while parsing a value"
  | .colonExpected => "expected `:`"
  | .listEndExpected => "expected `,` or `]`"
  | .objectEndExpected => "expected `,` or `\x7d`"
  | .wordExpected => "expected ident"
  | .valueExpected => "expected value"
  | .badEscape => "invalid escape"
  | .badNumber => "invalid number"
  | .numberOutOfRange => "number out of range"
  | .badEncoding => "invalid unicode code point"
  | .controlCharacter => "control character (\\u0000-\\u001F) found while parsing a string"
  | .nameNotString => "key must be a string"
  | .loneSurrogate => "lone leading surrogate in hex escape"
  | .unpairedSurrogate => "unexpected end of hex escape"
  | .trailingComma => "trailing comma"
  | .trailingCharacters => "trailing characters"
  | .nestingTooDeep => "recursion limit exceeded"

inductive Cause where
  | grammar (f : SyntaxFault)
  | mismatch (m : Mismatch)

def Cause.message : Cause → String
  | .grammar f => f.message
  | .mismatch m => m.message

/-- A cause and the part of the text behind the place it is reported for. -/
structure Fault where
  cause : Cause
  rest : List UInt8

/-- Lines count from one, columns are bytes since the last line end. -/
structure Position where
  line : Nat
  column : Nat
  deriving DecidableEq

/-- The place in `text` where `rest` is still to come. -/
def Position.before (text rest : List UInt8) : Position :=
  let read := text.take (text.length - rest.length)
  ⟨read.count '\n'.toUInt8 + 1, (read.reverse.takeWhile (· ≠ '\n'.toUInt8)).length⟩

structure ReadError where
  cause : Cause
  position : Position

def ReadError.message (e : ReadError) : String :=
  s!"{e.cause.message} at line {e.position.line} column {e.position.column}"

def Fault.locate (text : List UInt8) (f : Fault) : ReadError :=
  ⟨f.cause, .before text f.rest⟩

def malformed (f : SyntaxFault) (rest : List UInt8) : Except Fault α :=
  .error ⟨.grammar f, rest⟩

def mismatched (m : Mismatch) (rest : List UInt8) : Except Fault α :=
  .error ⟨.mismatch m, rest⟩

/-- Reads a whole text. -/
def runReader (read : List UInt8 → Except Fault α) (text : List UInt8) : Except ReadError α :=
  match read text with
  | .ok v => .ok v
  | .error f => .error (f.locate text)

end Generation.Json
