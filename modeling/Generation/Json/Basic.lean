import Generation.Decimal.Binary64

/-! JSON values. An object is the list of its members in the order in which they are written. -/
namespace Generation

inductive Json.Number where
  | integer (n : Int)
  | real (x : Binary64)
  deriving DecidableEq

inductive Json where
  | null
  | boolean (b : Bool)
  | number (n : Json.Number)
  | string (s : String)
  | array (items : List Json)
  | object (members : List (String × Json))

namespace Json

abbrev Members := List (String × Json)

/-- Puts a member in its place by name, instead of an earlier member of that name. -/
def insert (name : String) (value : Json) : Members → Members
  | [] => [(name, value)]
  | (n, v) :: rest =>
    if name < n then (name, value) :: (n, v) :: rest
    else if name = n then (name, value) :: rest
    else (n, v) :: insert name value rest

/-- The members in ascending order of their names; of equal names the last one counts. -/
def ofMembers (members : Members) : Members :=
  members.foldl (fun sorted m => insert m.1 m.2 sorted) []

def string? : Json → Option String
  | .string s => some s
  | _ => none

def array? : Json → Option (List Json)
  | .array items => some items
  | _ => none

def object? : Json → Option Members
  | .object members => some members
  | _ => none

/-- A number written without fraction and exponent, if it is a 64-bit word. -/
def word? : Json → Option UInt64
  | .number (.integer n) => if 0 ≤ n ∧ n < 2 ^ 64 then some (.ofNat n.toNat) else none
  | _ => none

end Json

end Generation
