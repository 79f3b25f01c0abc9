import Generation.Decimal.Shortest
import Generation.Settings.Choice
import Generation.Text.EditDistance

/-! The recognized settings, the kind of value of each, and what users are told about them. -/
namespace Generation

/-- The kinds of values. Numbers of a `real` kind lie between two whole numbers. -/
inductive Kind where
  | text
  | boolean
  | integer
  | unsigned
  | real (low high : Nat)
  | choice (α : Type) [Choice α]
  | tools

@[reducible] def Kind.Value : Kind → Type
  | .text => String
  | .boolean => Bool
  | .integer => Int64
  | .unsigned => UInt64
  | .real _ _ => Binary64
  | @choice α _ => α
  | .tools => List Tool

def Kind.typeName : Kind → String
  | .text | @choice _ _ => "string"
  | .boolean => "bool"
  | .integer => "int"
  | .unsigned => "uint64"
  | .real _ _ => "double"
  | .tools => "[string]"

/-- The tokens that a value consists of. -/
def Kind.tokens? : Kind → Option (List String)
  | @choice α _ => some (Choice.tokens α)
  | .tools => some (Choice.tokens Tool)
  | _ => none

def rangeText (low high : Nat) : String :=
  String.ofList (Layout.plain.write (.ofNat low) ++ '-' :: Layout.plain.write (.ofNat high))

def Kind.range? : Kind → Option String
  | .real low high => some (rangeText low high)
  | _ => none

inductive Key where
  | adapter
  | format
  | guardrails
  | instructions
  | language
  | logEnabled
  | maxTokens
  | rawJson
  | sampling
  | samplingSeed
  | samplingThreshold
  | samplingTop
  | stream
  | temperature
  | toolApproval
  | tools
  deriving DecidableEq

/-- A letter at the start or behind an underscore becomes a capital one, and underscores go away. -/
def pascalCase (capital : Bool) : List Char → List Char
  | [] => []
  | c :: cs =>
    if c = '_' then pascalCase true cs
    else (if capital then c.toUpper else c) :: pascalCase false cs

/-- Words in one: all of them but the first start with a capital letter. -/
def camelCase (name : String) : String :=
  match pascalCase true name.toList with
  | [] => ""
  | c :: cs => String.ofList (c.toLower :: cs)

namespace Key

/-! The fields of settings -/

/-- Every key, in the order in which the fields are declared. -/
def fields : List Key :=
  [adapter, format, guardrails, instructions, language, logEnabled, maxTokens, rawJson, sampling,
    samplingSeed, samplingThreshold, samplingTop, stream, temperature, toolApproval, tools]

def fieldName : Key → String
  | adapter => "adapter"
  | format => "format"
  | guardrails => "guardrails"
  | instructions => "instructions"
  | language => "language"
  | logEnabled => "log_enabled"
  | maxTokens => "max_tokens"
  | rawJson => "raw_json"
  | sampling => "sampling"
  | samplingSeed => "sampling_seed"
  | samplingThreshold => "sampling_threshold"
  | samplingTop => "sampling_top"
  | stream => "stream"
  | temperature => "temperature"
  | toolApproval => "tool_approval"
  | tools => "tools"

/-- The name of a field in a document. -/
def memberName (k : Key) : String := camelCase k.fieldName

def ofMemberName? (n : String) : Option Key := fields.find? (memberName · == n)

/-! The registry of keys that users name -/

def name : Key → String
  | adapter => "adapter"
  | format => "format"
  | guardrails => "guardrails"
  | instructions => "instructions"
  | language => "language"
  | logEnabled => "logEnabled"
  | maxTokens => "maxTokens"
  | rawJson => "rawJson"
  | sampling => "sampling"
  | samplingSeed => "samplingSeed"
  | samplingThreshold => "samplingThreshold"
  | samplingTop => "samplingTop"
  | stream => "stream"
  | temperature => "temperature"
  | toolApproval => "toolApproval"
  | tools => "tools"

/-- Every key, in the order in which they are registered. -/
def registered : List Key :=
  [maxTokens, temperature, sampling, samplingThreshold, samplingTop, samplingSeed, guardrails,
    adapter, tools, toolApproval, format, stream, instructions, logEnabled, language, rawJson]

/-- Puts a key before the first one whose name is not smaller. -/
def insertByName (k : Key) : List Key → List Key
  | [] => [k]
  | j :: keys => if j.name < k.name then j :: insertByName k keys else k :: j :: keys

/-- Every key, in ascending order of the names. -/
def all : List Key := registered.foldr insertByName []

/-- The fields are declared in the order of the names. -/
theorem all_eq_fields : all = fields := by decide

theorem mem_all (k : Key) : k ∈ all := by
  rw [all_eq_fields]
  cases k <;> decide

def names : List String := all.map name

def ofName? (n : String) : Option Key := all.find? (name · == n)

@[simp] theorem ofName?_name (k : Key) : ofName? k.name = some k := by
  rw [ofName?, all_eq_fields]
  cases k <;> rfl

theorem name_of_ofName? {n : String} {k : Key} (h : ofName? n = some k) : k.name = n := by
  simpa using List.find?_some h

/-! A key is named alike in a document and in the registry. -/

theorem memberName_eq_name (k : Key) : k.memberName = k.name := by cases k <;> decide

theorem ofMemberName?_eq_ofName? (n : String) : ofMemberName? n = ofName? n := by
  simp only [ofMemberName?, ofName?, all_eq_fields, memberName_eq_name]

@[reducible] def kind : Key → Kind
  | adapter | instructions => .text
  | logEnabled | rawJson | stream => .boolean
  | maxTokens | samplingTop => .integer
  | samplingSeed => .unsigned
  | samplingThreshold => .real 0 1
  | temperature => .real 0 2
  | format => .choice OutputFormat
  | guardrails => .choice Guardrails
  | language => .choice Language
  | sampling => .choice SamplingMode
  | toolApproval => .choice ToolApproval
  | tools => .tools

abbrev Value (k : Key) : Type := k.kind.Value

def description : Key → String
  | adapter => "Path to a model adapter file"
  | format => "Output format"
  | guardrails => "Guardrails level"
  | instructions => "Default system instructions"
  | language => "Response language hint"
  | logEnabled => "Record prompts and responses to the history log"
  | maxTokens => "Maximum number of response tokens"
  | rawJson => "Print structured output as raw JSON without formatting"
  | sampling => "Sampling mode"
  | samplingSeed => "Random sampling seed"
  | samplingThreshold => "Random sampling probability threshold"
  | samplingTop => "Random sampling top-k count"
  | stream => "Stream responses as they are generated"
  | temperature => "Sampling temperature"
  | toolApproval => "Tool approval mode"
  | tools => "Built-in tools to enable (comma-separated)"

/-- Names further away than this many edits are not proposed. -/
def suggestionLimit : Nat := 3

/-- The key name nearest to a name that is none. -/
def suggestion? (n : String) : Option String := closest? n names suggestionLimit

end Key

end Generation
