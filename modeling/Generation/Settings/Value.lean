import Generation.Decimal.Numeral
import Generation.Settings.Key
import Generation.Text.Blank

/-! Reading values from what users type, and writing them back. -/
namespace Generation

/-- Why a text is no value of a kind. -/
inductive Rejection where
  | notInteger (raw : String)
  | notUnsigned (raw : String)
  | notNumber (raw : String)
  | outOfRange (raw : String) (low high : Nat)
  | notBoolean (raw : String)
  | notChoice (raw : String) (tokens : List String)
  | noTools
  | notTool (piece : String)
  deriving DecidableEq

def Rejection.message : Rejection → String
  | .notInteger raw => s!"'{raw}' is not a valid integer."
  | .notUnsigned raw => s!"'{raw}' is not a valid unsigned integer."
  | .notNumber raw => s!"'{raw}' is not a valid number."
  | .outOfRange raw low high => s!"{raw} is out of range ({rangeText low high})."
  | .notBoolean raw => s!"'{raw}' is not a valid boolean (true/false)."
  | .notChoice raw tokens =>
    s!"'{raw}' is not a valid choice. Valid values: " ++ ", ".intercalate tokens
  | .noTools => "tool list is empty. Valid tools: " ++ ", ".intercalate (Choice.tokens Tool)
  | .notTool piece =>
    s!"'{piece}' is not a valid tool. Valid tools: " ++ ", ".intercalate (Choice.tokens Tool)

def int64? (n : Int) : Option Int64 :=
  if -2 ^ 63 ≤ n ∧ n < 2 ^ 63 then some (.ofInt n) else none

def uint64? (n : Nat) : Option UInt64 := if n < 2 ^ 64 then some (.ofNat n) else none

/-- Both ends belong to the range; what is not a number lies in none. -/
def inRange (low high : Nat) (x : Binary64) : Bool :=
  (Binary64.ofNat low).le x && x.le (.ofNat high)

/-- The pieces between commas without the blanks around them; empty ones do not count. -/
def toolPieces (raw : String) : List String :=
  (((raw.toList.splitOn ',').map Text.trim).filter (· ≠ [])).map String.ofList

def parseTool (piece : String) : Except Rejection Tool :=
  match Choice.ofToken? piece with
  | some tool => .ok tool
  | none => .error (.notTool piece)

def parseBoolean : String → Except Rejection Bool
  | "true" => .ok true
  | "false" => .ok false
  | raw => .error (.notBoolean raw)

def parseReal (low high : Nat) (raw : String) : Except Rejection Binary64 :=
  match Numeral.real? raw.toList with
  | none => .error (.notNumber raw)
  | some x => if inRange low high x then .ok x else .error (.outOfRange raw low high)

def parseTools (raw : String) : Except Rejection (List Tool) :=
  match toolPieces raw with
  | [] => .error .noTools
  | pieces => pieces.mapM parseTool

def parseChoice [Choice α] (raw : String) : Except Rejection α :=
  match Choice.ofToken? raw with
  | some a => .ok a
  | none => .error (.notChoice raw (Choice.tokens α))

def orReject (value? : Option α) (r : Rejection) : Except Rejection α :=
  match value? with
  | some v => .ok v
  | none => .error r

namespace Kind

def parse : (κ : Kind) → String → Except Rejection κ.Value
  | .text, raw => .ok raw
  | .boolean, raw => parseBoolean raw
  | .integer, raw => orReject ((Numeral.integer? raw.toList).bind int64?) (.notInteger raw)
  | .unsigned, raw => orReject ((Numeral.unsigned? raw.toList).bind uint64?) (.notUnsigned raw)
  | .real low high, raw => parseReal low high raw
  | @choice _ _, raw => parseChoice raw
  | .tools, raw => parseTools raw

def render : (κ : Kind) → κ.Value → String
  | .text, v => v
  | .boolean, v => if v then "true" else "false"
  | .integer, v =>
    String.ofList ((if v.toInt < 0 then ['-'] else []) ++ Nat.toDigits 10 v.toInt.natAbs)
  | .unsigned, v => String.ofList (Nat.toDigits 10 v.toNat)
  | .real _ _, v => String.ofList (Layout.plain.write v)
  | @choice _ _, v => Choice.token v
  | .tools, v => ",".intercalate (v.map Choice.token)

end Kind

end Generation
