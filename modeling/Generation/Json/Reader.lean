import Generation.Json.Token

/-! Reading JSON values. -/
namespace Generation.Json

namespace Read

/-- Steps to the next item of a list: to its start, or to the closing bracket. -/
def nextItem (first : Bool) (s : List UInt8) : Except Fault (Bool × List UInt8) :=
  match skipSpace s with
  | [] => malformed .endOfList []
  | b :: rest =>
    if b = ']'.toUInt8 then .ok (false, b :: rest)
    else if first then .ok (true, b :: rest)
    else if b = ','.toUInt8 then
      match skipSpace rest with
      | [] => malformed .endOfValue []
      | c :: rest =>
        if c = ']'.toUInt8 then malformed .trailingComma rest else .ok (true, c :: rest)
    else malformed .listEndExpected rest

/-- Steps to the next member of an object: behind the quote that opens its name, or to the closing
brace. -/
def nextMember (first : Bool) (s : List UInt8) : Except Fault (Bool × List UInt8) :=
  match skipSpace s with
  | [] => malformed .endOfObject []
  | b :: rest =>
    if b = '\x7d'.toUInt8 then .ok (false, b :: rest)
    else if first then
      if b = '"'.toUInt8 then .ok (true, rest) else malformed .nameNotString rest
    else if b = ','.toUInt8 then
      match skipSpace rest with
      | [] => malformed .endOfValue []
      | c :: rest =>
        if c = '"'.toUInt8 then .ok (true, rest)
        else if c = '\x7d'.toUInt8 then malformed .trailingComma rest
        else malformed .nameNotString rest
    else malformed .objectEndExpected rest

/-- The colon between a name and its value. -/
def skipColon (s : List UInt8) : Except Fault (List UInt8) :=
  match skipSpace s with
  | [] => malformed .endOfObject []
  | b :: rest => if b = ':'.toUInt8 then .ok rest else malformed .colonExpected rest

/-- The items of a list up to its closing bracket. Each item takes a byte, so the length of the
text bounds their number. -/
def items (item : List UInt8 → Except Fault (α × List UInt8)) :
    Nat → Bool → List UInt8 → Except Fault (List α × List UInt8)
  | 0, _, _ => malformed .endOfList []
  | n + 1, first, s => do
    let (more, s) ← nextItem first s
    if more then
      let (v, s) ← item s
      let (vs, s) ← items item n false s
      .ok (v :: vs, s)
    else .ok ([], s.tail)

/-- The members of an object up to its closing brace. -/
def members (value : List UInt8 → Except Fault (α × List UInt8)) :
    Nat → Bool → List UInt8 → Except Fault (List (String × α) × List UInt8)
  | 0, _, _ => malformed .endOfObject []
  | n + 1, first, s => do
    let (more, s) ← nextMember first s
    if more then
      let (name, s) ← string s
      let s ← skipColon s
      let (v, s) ← value s
      let (rest, s) ← members value n false s
      .ok ((name, v) :: rest, s)
    else .ok ([], s.tail)

/-- A value; `depth` is the number of lists and objects that may still be nested in each other. -/
def value : Nat → List UInt8 → Except Fault (Json × List UInt8)
  | depth, s =>
    match skipSpace s with
    | [] => malformed .endOfValue []
    | b :: rest =>
      if b = 'n'.toUInt8 then (word (Text.bytes "ull") rest).map fun rest => (.null, rest)
      else if b = 't'.toUInt8 then
        (word (Text.bytes "rue") rest).map fun rest => (.boolean true, rest)
      else if b = 'f'.toUInt8 then
        (word (Text.bytes "alse") rest).map fun rest => (.boolean false, rest)
      else if b = '-'.toUInt8 then (number true rest).map fun (n, rest) => (.number n, rest)
      else if isDigit b then (number false (b :: rest)).map fun (n, rest) => (.number n, rest)
      else if b = '"'.toUInt8 then (string rest).map fun (t, rest) => (.string t, rest)
      else if b = '['.toUInt8 then
        match depth with
        | 0 => malformed .nestingTooDeep rest
        | depth + 1 =>
          (items (value depth) (rest.length + 1) true rest).map fun (vs, rest) =>
            (.array vs, rest)
      else if b = '\x7b'.toUInt8 then
        match depth with
        | 0 => malformed .nestingTooDeep rest
        | depth + 1 =>
          (members (value depth) (rest.length + 1) true rest).map fun (ms, rest) =>
            (.object (ofMembers ms), rest)
      else malformed .valueExpected rest

/-- Lists and objects nest at most this deep. -/
def maxDepth : Nat := 127

/-- Nothing but blanks may follow. -/
def finish (v : α) (s : List UInt8) : Except Fault α :=
  match skipSpace s with
  | [] => .ok v
  | _ :: rest => malformed .trailingCharacters rest

end Read

/-- The value that a text holds. -/
def parse (text : List UInt8) : Except ReadError Json :=
  runReader (fun s => do let (v, s) ← Read.value Read.maxDepth s; Read.finish v s) text

end Generation.Json
