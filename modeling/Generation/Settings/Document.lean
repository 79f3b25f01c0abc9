import Generation.Json.Mismatch
import Generation.Settings.Basic

/-! Settings as JSON values: one member for each key that is set. -/
namespace Generation

open Json (Mismatch)

def choiceJson [Choice α] (a : α) : Json := .string (Choice.token a)

/-- The value of a token. -/
def variant [Choice α] (token : String) : Except Mismatch α :=
  match Choice.ofToken? token with
  | some a => .ok a
  | none => .error (.unknownVariant token (Choice.tokens α))

/-- A token is written as a string, or as the only name in an object with the value null. -/
def choiceOfJson [Choice α] : Json → Except Mismatch α
  | .string token => variant token
  | .object [(token, content)] =>
    match variant token, content with
    | .error e, _ => .error e
    | .ok a, .null => .ok a
    | .ok _, content => .error (.wrongType content.found "unit")
  | .object _ => .error (.wrongValue .map "map with a single key")
  | v => .error (.wrongType v.found "string or map")

namespace Json.Number

def toInt64 : Number → Except Mismatch Int64
  | .integer n =>
    match int64? n with
    | some v => .ok v
    | none => .error (.wrongValue (.number (.integer n)) "i64")
  | n => .error (.wrongType (.number n) "i64")

def toUInt64 : Number → Except Mismatch UInt64
  | .integer n =>
    match if n < 0 then none else uint64? n.toNat with
    | some v => .ok v
    | none => .error (.wrongValue (.number (.integer n)) "u64")
  | n => .error (.wrongType (.number n) "u64")

def toReal : Number → Binary64
  | .integer n => .ofInt n
  | .real x => x

end Json.Number

namespace Kind

def toJson : (κ : Kind) → κ.Value → Json
  | .text, v => .string v
  | .boolean, v => .boolean v
  | .integer, v => .number (.integer v.toInt)
  | .unsigned, v => .number (.integer v.toNat)
  | .real _ _, v => .number (.real v)
  | @choice _ _, v => choiceJson v
  | .tools, v => .array (v.map choiceJson)

/-- The value that a JSON value stands for, whatever its range. -/
def ofJson : (κ : Kind) → Json → Except Mismatch κ.Value
  | .text, .string s => .ok s
  | .text, v => .error (.wrongType v.found "a string")
  | .boolean, .boolean b => .ok b
  | .boolean, v => .error (.wrongType v.found "a boolean")
  | .integer, .number n => n.toInt64
  | .integer, v => .error (.wrongType v.found "i64")
  | .unsigned, .number n => n.toUInt64
  | .unsigned, v => .error (.wrongType v.found "u64")
  | .real _ _, .number n => .ok n.toReal
  | .real _ _, v => .error (.wrongType v.found "f64")
  | @choice _ _, v => choiceOfJson v
  | .tools, .array items => items.mapM choiceOfJson
  | .tools, v => .error (.wrongType v.found "a sequence")

/-- Null stands for a value that is not set. -/
def ofJson? (κ : Kind) : Json → Except Mismatch (Option κ.Value)
  | .null => .ok none
  | v => (κ.ofJson v).map some

end Kind

namespace Settings

def toJson (s : Settings) : Json :=
  .object (Key.fields.filterMap fun k => (s.get k).map fun v => (k.memberName, k.kind.toJson v))

/-- The settings that the members of an object stand for, if all of them have the right shape.
Members under other names do not count. -/
def decodeMembers (s : Settings) : Json.Members → Except Mismatch Settings
  | [] => .ok s
  | (name, v) :: rest =>
    match Key.ofMemberName? name with
    | none => s.decodeMembers rest
    | some k =>
      match k.kind.ofJson? v with
      | .error m => .error m
      | .ok x => (s.set k x).decodeMembers rest

/-- Why a member of a settings document is left out. -/
inductive MemberFault where
  | mismatch (m : Mismatch)
  | setting (e : SettingError)

def MemberFault.message : MemberFault → String
  | .mismatch m => m.message
  | .setting e => "Invalid input: " ++ e.message

/-- Stores what an object with one member sets, as if its text had been typed. -/
def store (s : Settings) (k : Key) (v : Json) : Except MemberFault Settings :=
  match empty.decodeMembers [(k.name, v)] with
  | .error m => .error (.mismatch m)
  | .ok single =>
    match single.render? k with
    | none => .ok s
    | some raw =>
      match s.assign k raw with
      | .ok s => .ok s
      | .error e => .error (.setting e)

/-- The settings in the members of a document. A member with a bad value is left out alone, and
members under other names do not count. -/
def ofMembers (s : Settings) : Json.Members → Settings × List (Key × MemberFault)
  | [] => (s, [])
  | (name, v) :: rest =>
    match Key.ofName? name with
    | none => s.ofMembers rest
    | some k =>
      match s.store k v with
      | .ok s => s.ofMembers rest
      | .error e =>
        let (s, faults) := s.ofMembers rest
        (s, (k, e) :: faults)

end Settings

end Generation
