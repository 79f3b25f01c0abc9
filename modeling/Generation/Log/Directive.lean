import Generation.Decimal.Numeral
import Generation.Log.Pattern
import Generation.Text.Encoding

/-!
The parts of a log filter, such as `warn` or `fmcli=debug`: a target, brackets around a span and a
field in braces, and a level. Each of them may be missing.
-/
namespace Generation.Log

structure FieldDemand where
  name : String
  /-- The field has to have a certain value. -/
  hasValue : Bool

structure Directive where
  target : Option String
  span : Option String
  field : Option FieldDemand
  /-- The rank of the most talkative level that passes; nothing passes at zero. -/
  rank : Nat

/-- A place in a directive: the characters ahead, without the blanks around the directive, and the
bytes as far behind the start of its whole text. Parts are cut out of the bytes, so that blanks in
front move all of them and blanks at the end belong to the last one. -/
structure Place where
  ahead : List Char
  bytes : List UInt8

namespace Place

def start (text : List Char) : Place :=
  ⟨Text.trim text, Text.bytes (String.ofList text)⟩

/-- The part in front of the first of the given marks, that mark, and the place behind it. -/
def cut? (marks : List Char) (p : Place) : Option (String × Char × Place) :=
  let part := p.ahead.takeWhile (· ∉ marks)
  let size := (Text.bytes (String.ofList part)).length
  match p.ahead.drop part.length with
  | [] => none
  | mark :: ahead =>
    (Text.decode? (p.bytes.take size)).map fun text =>
      (text, mark, ⟨ahead, p.bytes.drop (size + mark.utf8Size)⟩)

def rest? (p : Place) : Option String := Text.decode? p.bytes

end Place

namespace Directive

/-- Levels are written as words in any case, or as numbers. -/
def rank? (level : String) : Option Nat :=
  match Numeral.unsigned? level.toList with
  | some n => if n ≤ 5 then some n else none
  | none =>
    match level.toLower with
    | "off" => some 0
    | "error" => some 1
    | "warn" => some 2
    | "info" => some 3
    | "debug" => some 4
    | "trace" => some 5
    | _ => none

/-- Without a level everything passes. -/
def rankOrAll? (level : String) : Option Nat :=
  if level.isEmpty then some 5 else rank? level

/-- The rank of a level at the end. -/
def level? (p : Place) : Option Nat := p.rest?.bind rankOrAll?

/-- What may follow the brackets. -/
def ending? (p : Place) : Option Nat :=
  match p.ahead with
  | [] => some 5
  | '=' :: _ => (p.cut? ['=']).bind fun (_, _, p) => level? p
  | _ => none

/-- A value is a number or a pattern. -/
def isValue (cs : List Char) : Bool :=
  (Numeral.real? cs).isSome || Pattern.isWellFormed cs

/-- A name, and a value behind an equals sign; what a second one starts does not count. -/
def fieldDemand? (field : String) : Option FieldDemand :=
  match field.toList.splitOn '=' with
  | name :: value :: _ => if isValue value then some ⟨String.ofList name, true⟩ else none
  | _ => if field.isEmpty then none else some ⟨field, false⟩

/-- A span and a field, behind the opening bracket. -/
def brackets? (target : Option String) (p : Place) : Option Directive := do
  let (span, mark, p) ← p.cut? [']', '\x7b']
  if mark = ']' then return ⟨target, some span, none, ← ending? p⟩
  let (field, _, p) ← p.cut? ['\x7d']
  let field ← fieldDemand? field
  match p.ahead with
  | ']' :: _ =>
    let (_, _, p) ← p.cut? [']']
    return ⟨target, if span.isEmpty then none else some span, some field, ← ending? p⟩
  | _ => none

def canStart (c : Char) : Bool :=
  c ∈ ['-', ':', '_', '['] || Text.isLetterOrNumeral c

/-- A lone word is a level if it can be, and a target otherwise. -/
def word (text : String) : Directive :=
  match rank? text with
  | some rank => ⟨none, none, none, rank⟩
  | none => ⟨some text, none, none, 5⟩

def parse? (text : List Char) : Option Directive :=
  let p := Place.start text
  match p.ahead with
  | [] => none
  | c :: _ =>
    if !canStart c then none
    else if '=' ∉ p.ahead ∧ '[' ∉ p.ahead then p.rest?.map word
    else do
      let (target, mark, rest) ← p.cut? ['=', '[']
      if mark = '=' then return ⟨some target, none, none, ← level? rest⟩
      brackets? (if c = '[' then none else some target) rest

end Directive

end Generation.Log
