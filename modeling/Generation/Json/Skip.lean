import Generation.Json.Reader

/-!
Passing over a value that nobody asks for. Nesting has no limit here, and neither the encoding of a
string nor the pairing of surrogates nor the size of a number is looked at.
-/
namespace Generation.Json.Read

/-- Passes over a string whose opening quote has been read, but for the first `skip` bytes. -/
def skipString : Nat → List UInt8 → Except Fault (List UInt8)
  | _, [] => malformed .endOfString []
  | skip + 1, _ :: rest => skipString skip rest
  | 0, b :: rest =>
    if b = '"'.toUInt8 then .ok rest
    else if b = '\\'.toUInt8 then
      match rest with
      | [] => malformed .endOfString []
      | c :: tail =>
        if c = 'u'.toUInt8 then
          match hexUnit tail with
          | .error f => .error f
          | .ok _ => skipString 5 rest
        else if (shortEscape? c).isSome then skipString 1 rest
        else malformed .badEscape tail
    else if b < 0x20 then malformed .controlCharacter (b :: rest)
    else skipString 0 rest

def skipExponent (s : List UInt8) : Except Fault (List UInt8) :=
  let s :=
    match s with
    | b :: rest => if b = '-'.toUInt8 ∨ b = '+'.toUInt8 then rest else s
    | [] => s
  match s with
  | [] => malformed .badNumber []
  | b :: rest => if isDigit b then .ok (rest.dropWhile isDigit) else malformed .badNumber rest

def skipFraction (s : List UInt8) : Except Fault (List UInt8) :=
  if s.takeWhile isDigit = [] then malformed .badNumber s.tail
  else
    match s.dropWhile isDigit with
    | [] => .ok []
    | b :: rest => if isExponentMark b then skipExponent rest else .ok (b :: rest)

/-- Passes over a number without its sign. -/
def skipNumber : List UInt8 → Except Fault (List UInt8)
  | [] => malformed .badNumber []
  | b :: rest =>
    if isDigit b then
      let after := rest.dropWhile isDigit
      if b = '0'.toUInt8 ∧ rest.takeWhile isDigit ≠ [] then malformed .badNumber rest.tail
      else
        match after with
        | [] => .ok []
        | c :: tail =>
          if c = '.'.toUInt8 then skipFraction tail
          else if isExponentMark c then skipExponent tail
          else .ok after
    else malformed .badNumber rest

/-- A container that is still open. -/
inductive Frame where
  | list
  | object
  deriving DecidableEq

def Frame.close : Frame → UInt8
  | .list => ']'.toUInt8
  | .object => '\x7d'.toUInt8

def Frame.unfinished : Frame → SyntaxFault
  | .list => .endOfList
  | .object => .endOfObject

def Frame.closeExpected : Frame → SyntaxFault
  | .list => .listEndExpected
  | .object => .objectEndExpected

/-- Passes to the start of the next value in a container: in an object over a name and a colon. -/
def Frame.enter (f : Frame) (s : List UInt8) : Except Fault (List UInt8) :=
  match f with
  | .list => .ok s
  | .object =>
    match skipSpace s with
    | [] => malformed .endOfObject []
    | b :: rest =>
      if b = '"'.toUInt8 then (skipString 0 rest).bind skipColon
      else malformed .nameNotString rest

/-- Passes over a value that is no container. -/
def skipScalar (b : UInt8) (rest : List UInt8) : Except Fault (List UInt8) :=
  if b = 'n'.toUInt8 then word (Text.bytes "ull") rest
  else if b = 't'.toUInt8 then word (Text.bytes "rue") rest
  else if b = 'f'.toUInt8 then word (Text.bytes "alse") rest
  else if b = '-'.toUInt8 then skipNumber rest
  else if isDigit b then skipNumber (b :: rest)
  else if b = '"'.toUInt8 then skipString 0 rest
  else malformed .valueExpected rest

/-- Passes over a value inside the given containers and over their rest. With `done` the value is
already read. Every step takes a byte, so the length of the text bounds their number. -/
def skipIn : Nat → Bool → List Frame → List UInt8 → Except Fault (List UInt8)
  | 0, _, _, _ => malformed .endOfValue []
  | _ + 1, true, [], s => .ok s
  | n + 1, true, f :: outer, s =>
    match skipSpace s with
    | [] => malformed f.unfinished []
    | b :: rest =>
      if b = ','.toUInt8 then (f.enter rest).bind (skipIn n false (f :: outer))
      else if b = f.close then skipIn n true outer rest
      else malformed f.closeExpected rest
  | n + 1, false, frames, s =>
    match skipSpace s with
    | [] => malformed .endOfValue []
    | b :: rest =>
      if b = '['.toUInt8 ∨ b = '\x7b'.toUInt8 then
        let f : Frame := if b = '['.toUInt8 then .list else .object
        match skipSpace rest with
        | [] => malformed f.unfinished []
        | c :: tail =>
          if c = f.close then skipIn n true frames tail
          else (f.enter (c :: tail)).bind (skipIn n false (f :: frames))
      else (skipScalar b rest).bind (skipIn n true frames)

def skipValue (s : List UInt8) : Except Fault (List UInt8) :=
  skipIn (s.length + 2) false [] s

end Generation.Json.Read
