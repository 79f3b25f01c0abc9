import Generation.Json.Printer
import Generation.Text.Quoted

/-! Values of another shape than the reader of the text expects. -/
namespace Generation.Json

/-- What was found instead of what was expected. -/
inductive Found where
  | null
  | boolean (b : Bool)
  | number (n : Number)
  | string (s : String)
  | sequence
  | map

def Found.text : Found → String
  | .null => "null"
  | .boolean b => s!"boolean `{b}`"
  | .number (.integer n) => s!"integer `{String.ofList (integerText n)}`"
  | .number (.real x) => s!"floating point `{String.ofList (Layout.json.write x)}`"
  | .string s => "string " ++ Text.quoted s
  | .sequence => "sequence"
  | .map => "map"

def found : Json → Found
  | .null => .null
  | .boolean b => .boolean b
  | .number n => .number n
  | .string s => .string s
  | .array _ => .sequence
  | .object _ => .map

inductive Mismatch where
  | wrongType (found : Found) (expected : String)
  /-- The type is right, but the value lies outside of it. -/
  | wrongValue (found : Found) (expected : String)
  | unknownVariant (name : String) (variants : List String)
  | duplicateField (name : String)

/-- Alternatives in backquotes. -/
def alternatives : List String → String
  | [] => "nothing"
  | [a] => s!"`{a}`"
  | [a, b] => s!"`{a}` or `{b}`"
  | names => "one of " ++ ", ".intercalate (names.map fun n => s!"`{n}`")

def Mismatch.message : Mismatch → String
  | .wrongType found expected => s!"invalid type: {found.text}, expected {expected}"
  | .wrongValue found expected => s!"invalid value: {found.text}, expected {expected}"
  | .unknownVariant name variants =>
    s!"unknown variant `{name}`, expected {alternatives variants}"
  | .duplicateField name => s!"duplicate field `{name}`"

end Generation.Json
