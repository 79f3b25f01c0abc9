import Generation.Json.Skip
import Generation.Settings.Document

/-!
Reading settings straight from a JSON text, where every member has to have the right shape. Ranges
are not looked at.
-/
namespace Generation

open Json (Fault malformed mismatched)
open Json.Read

namespace Json.Read

/-- A value of another type than expected. It is read as far as its type and value show. -/
def wrongType (expected : String) (s : List UInt8) : Except Fault α :=
  let reject (found : Found) (rest : List UInt8) := mismatched (.wrongType found expected) rest
  match s with
  | [] => malformed .endOfValue []
  | b :: rest =>
    if b = 'n'.toUInt8 then (word (Text.bytes "ull") rest).bind (reject .null)
    else if b = 't'.toUInt8 then (word (Text.bytes "rue") rest).bind (reject (.boolean true))
    else if b = 'f'.toUInt8 then (word (Text.bytes "alse") rest).bind (reject (.boolean false))
    else if b = '-'.toUInt8 then
      (number true rest).bind fun (n, rest) => reject (.number n) rest
    else if isDigit b then
      (number false (b :: rest)).bind fun (n, rest) => reject (.number n) rest
    else if b = '"'.toUInt8 then (string rest).bind fun (t, rest) => reject (.string t) rest
    else if b = '['.toUInt8 then reject .sequence s
    else if b = '\x7b'.toUInt8 then reject .map s
    else malformed .valueExpected rest

/-- A mismatch found behind the text of a value. -/
def located (r : Except Mismatch α) (rest : List UInt8) : Except Fault (α × List UInt8) :=
  match r with
  | .ok v => .ok (v, rest)
  | .error m => mismatched m rest

/-- A string, or a fault that names what is expected. -/
def text (expected : String) (s : List UInt8) : Except Fault (String × List UInt8) :=
  match skipSpace s with
  | [] => malformed .endOfValue []
  | b :: rest => if b = '"'.toUInt8 then string rest else wrongType expected (b :: rest)

def boolean (s : List UInt8) : Except Fault (Bool × List UInt8) :=
  match skipSpace s with
  | [] => malformed .endOfValue []
  | b :: rest =>
    if b = 't'.toUInt8 then (word (Text.bytes "rue") rest).map fun rest => (true, rest)
    else if b = 'f'.toUInt8 then (word (Text.bytes "alse") rest).map fun rest => (false, rest)
    else wrongType "a boolean" (b :: rest)

def anyNumber (expected : String) (s : List UInt8) : Except Fault (Number × List UInt8) :=
  match skipSpace s with
  | [] => malformed .endOfValue []
  | b :: rest =>
    if b = '-'.toUInt8 then number true rest
    else if isDigit b then number false (b :: rest)
    else wrongType expected (b :: rest)

/-- A token whose opening quote has been read. -/
def token [Choice α] (s : List UInt8) : Except Fault (α × List UInt8) := do
  let (t, s) ← string s
  located (variant t) s

/-- A token as the first name of an object. -/
def tokenName [Choice α] (s : List UInt8) : Except Fault (α × List UInt8) :=
  match skipSpace s with
  | [] => malformed .endOfObject []
  | b :: rest =>
    if b = '"'.toUInt8 then token rest
    else malformed (if b = '\x7d'.toUInt8 then .valueExpected else .nameNotString) rest

/-- The value null where nothing else may stand. -/
def unit (s : List UInt8) : Except Fault (List UInt8) :=
  match skipSpace s with
  | [] => malformed .endOfValue []
  | b :: rest =>
    if b = 'n'.toUInt8 then word (Text.bytes "ull") rest else wrongType "unit" (b :: rest)

/-- A token as a string, or as the only name in an object with the value null. -/
def choice [Choice α] (s : List UInt8) : Except Fault (α × List UInt8) :=
  match skipSpace s with
  | [] => malformed .endOfValue []
  | b :: rest =>
    if b = '"'.toUInt8 then token rest
    else if b = '\x7b'.toUInt8 then do
      let (a, s) ← tokenName rest
      let s ← skipColon s
      let s ← unit s
      match skipSpace s with
      | [] => malformed .endOfObject []
      | c :: rest =>
        if c = '\x7d'.toUInt8 then .ok (a, rest) else malformed .valueExpected (c :: rest)
    else malformed .valueExpected rest

def tools (s : List UInt8) : Except Fault (List Tool × List UInt8) :=
  match skipSpace s with
  | [] => malformed .endOfValue []
  | b :: rest =>
    if b = '['.toUInt8 then items choice (rest.length + 1) true rest
    else wrongType "a sequence" (b :: rest)

end Json.Read

namespace Kind

def read : (κ : Kind) → List UInt8 → Except Fault (κ.Value × List UInt8)
  | .text, s => Json.Read.text "a string" s
  | .boolean, s => Json.Read.boolean s
  | .integer, s => (anyNumber "i64" s).bind fun (n, s) => located n.toInt64 s
  | .unsigned, s => (anyNumber "u64" s).bind fun (n, s) => located n.toUInt64 s
  | .real _ _, s => (anyNumber "f64" s).map fun (n, s) => (n.toReal, s)
  | @choice _ _, s => Json.Read.choice s
  | .tools, s => Json.Read.tools s

/-- Null stands for a value that is not set. -/
def read? (κ : Kind) (s : List UInt8) : Except Fault (Option κ.Value × List UInt8) :=
  match skipSpace s with
  | [] => malformed .endOfValue []
  | b :: rest =>
    if b = 'n'.toUInt8 then (word (Text.bytes "ull") rest).map fun rest => (none, rest)
    else (κ.read (b :: rest)).map fun (v, rest) => (some v, rest)

end Kind

namespace Settings

/-- Where a repeated name is reported: at what follows the name, or behind the closing brace that
follows it. -/
def afterRepeated (s : List UInt8) : List UInt8 :=
  match skipSpace s with
  | [] => []
  | b :: rest => if b = '\x7d'.toUInt8 then rest else b :: rest

/-- The members of an object up to its closing brace. No key may come twice, even with the value
null; values under other names are passed over. -/
def readMembers : Nat → Bool → List Key → Settings → List UInt8 →
    Except Fault (Settings × List UInt8)
  | 0, _, _, _, _ => malformed .endOfObject []
  | n + 1, first, seen, acc, s => do
    let (more, s) ← nextMember first s
    if more then
      let (name, s) ← string s
      match Key.ofMemberName? name with
      | none =>
        let s ← skipColon s
        let s ← skipValue s
        readMembers n false seen acc s
      | some k =>
        if k ∈ seen then mismatched (.duplicateField name) (afterRepeated s)
        else
          let s ← skipColon s
          let (v, s) ← k.kind.read? s
          readMembers n false (k :: seen) (acc.set k v) s
    else .ok (acc, s.tail)

/-- The end of a list that has an item for every key. -/
def closeList (s : List UInt8) : Except Fault (List UInt8) :=
  match skipSpace s with
  | [] => malformed .endOfList []
  | b :: rest =>
    if b = ']'.toUInt8 then .ok rest
    else if b = ','.toUInt8 ∧ (skipSpace rest).head? = some ']'.toUInt8 then
      malformed .trailingComma (skipSpace rest).tail
    else malformed .trailingCharacters (if b = ','.toUInt8 then (skipSpace rest).tail else rest)

/-- The items of a list, one for each key in order; missing ones at the end are not set. -/
def readItems : List Key → Bool → Settings → List UInt8 → Except Fault (Settings × List UInt8)
  | [], _, acc, s => (closeList s).map fun s => (acc, s)
  | k :: keys, first, acc, s => do
    let (more, s) ← nextItem first s
    if more then
      let (v, s) ← k.kind.read? s
      readItems keys false (acc.set k v) s
    else .ok (acc, s.tail)

def read (s : List UInt8) : Except Fault (Settings × List UInt8) :=
  match skipSpace s with
  | [] => malformed .endOfValue []
  | b :: rest =>
    if b = '\x7b'.toUInt8 then readMembers (rest.length + 1) true [] .empty rest
    else if b = '['.toUInt8 then readItems Key.fields true .empty rest
    else wrongType "struct Settings" (b :: rest)

/-- The settings that a text holds. -/
def parse (text : List UInt8) : Except Json.ReadError Settings :=
  Json.runReader (fun s => do let (v, s) ← read s; finish v s) text

end Settings

end Generation
