import Generation.Settings.Document

/-! The options in effect: what is given, else what is stored, else the default of each option. -/
namespace Generation

/-- How the next token is picked. -/
inductive Sampling where
  | default
  | greedy
  | randomThreshold (threshold : Binary64) (seed : Option UInt64)
  | randomTop (top : Int64) (seed : Option UInt64)

/-- A mode excludes random sampling, and a threshold goes before a count. A seed alone selects
nothing. -/
def Sampling.ofParts (mode? : Option SamplingMode) (threshold? : Option Binary64)
    (top? : Option Int64) (seed? : Option UInt64) : Sampling :=
  match mode?, threshold?, top? with
  | some .greedy, _, _ => .greedy
  | none, some threshold, _ => .randomThreshold threshold seed?
  | none, none, some top => .randomTop top seed?
  | none, none, none => .default

/-- Values given for one run. The language is kept as it was written; `values` holds none. -/
structure Overrides where
  values : Settings
  language : Option String

/-- An empty list of tools counts as not given. -/
def Overrides.given (o : Overrides) : (k : Key) → Option k.Value
  | .tools =>
    match o.values.get .tools with
    | some [] => none
    | v => v
  | k => o.values.get k

structure GenerationOptions where
  maxTokens : Option Int64
  temperature : Option Binary64
  sampling : Sampling

structure ModelOptions where
  guardrails : Guardrails
  adapter : Option String

structure ToolOptions where
  tools : List Tool
  approval : ToolApproval

structure OutputOptions where
  format : OutputFormat
  stream : Bool
  rawJson : Bool
  logEnabled : Bool
  instructions : Option String

structure Options where
  generation : GenerationOptions
  model : ModelOptions
  tools : ToolOptions
  output : OutputOptions

namespace Options

/-- The value for one key. -/
def effective? (o : Overrides) (s : Settings) (k : Key) : Option k.Value :=
  (o.given k).or (s.get k)

/-- Every part of the sampling is taken for itself before the parts are put together. -/
def generationOf (o : Overrides) (s : Settings) : GenerationOptions where
  maxTokens := effective? o s .maxTokens
  temperature := effective? o s .temperature
  sampling := .ofParts (effective? o s .sampling) (effective? o s .samplingThreshold)
    (effective? o s .samplingTop) (effective? o s .samplingSeed)

def modelOf (o : Overrides) (s : Settings) : ModelOptions where
  guardrails := (effective? o s .guardrails).getD Guardrails.default
  adapter := effective? o s .adapter

def toolsOf (o : Overrides) (s : Settings) : ToolOptions where
  tools := (effective? o s .tools).getD ([] : List Tool)
  approval := (effective? o s .toolApproval).getD ToolApproval.ask

def outputOf (o : Overrides) (s : Settings) : OutputOptions where
  format := (effective? o s .format).getD OutputFormat.text
  stream := (effective? o s .stream).getD false
  rawJson := (effective? o s .rawJson).getD false
  logEnabled := (effective? o s .logEnabled).getD false
  instructions := s.effectiveInstructions (o.given .instructions) o.language

def resolve (o : Overrides) (s : Settings) : Options where
  generation := generationOf o s
  model := modelOf o s
  tools := toolsOf o s
  output := outputOf o s

end Options

/-- What is not there is written as null. -/
def Json.ofOption (f : α → Json) : Option α → Json
  | none => .null
  | some a => f a

def Sampling.toJson : Sampling → Json
  | .default => .object [("mode", .string "default")]
  | .greedy => .object [("mode", .string "greedy")]
  | .randomThreshold threshold seed =>
    .object [("mode", .string "randomThreshold"), ("threshold", .number (.real threshold)),
      ("seed", .ofOption Kind.unsigned.toJson seed)]
  | .randomTop top seed =>
    .object [("mode", .string "randomTop"), ("top", Kind.integer.toJson top),
      ("seed", .ofOption Kind.unsigned.toJson seed)]

def Options.toJson (o : Options) : Json :=
  .object
    [("generation", .object
        [("maxTokens", .ofOption Kind.integer.toJson o.generation.maxTokens),
          ("temperature", .ofOption (fun x => .number (.real x)) o.generation.temperature),
          ("sampling", o.generation.sampling.toJson)]),
      ("model", .object
        [("guardrails", choiceJson o.model.guardrails),
          ("adapter", .ofOption .string o.model.adapter)]),
      ("tools", .object
        [("tools", .array (o.tools.tools.map choiceJson)),
          ("approval", choiceJson o.tools.approval)]),
      ("output", .object
        [("format", choiceJson o.output.format), ("stream", .boolean o.output.stream),
          ("rawJson", .boolean o.output.rawJson), ("logEnabled", .boolean o.output.logEnabled),
          ("instructions", .ofOption .string o.output.instructions)])]

/-- Option values as they were typed, for any of the keys. -/
structure Flags where
  raw : Key → Option String

namespace Flags

/-- The keys whose values are checked. A language that is not recognized only leaves no hint. -/
def checkedKeys : List Key := Key.all.filter (· ≠ .language)

def assignGiven (f : Flags) (s : Settings) (k : Key) : Except SettingError Settings :=
  match f.raw k with
  | none => .ok s
  | some raw => s.assign k raw

/-- The values given by flags; the first bad one in ascending order of the keys is reported. -/
def overrides (f : Flags) : Except SettingError Overrides :=
  match checkedKeys.foldlM f.assignGiven .empty with
  | .ok values => .ok ⟨values, f.raw .language⟩
  | .error e => .error e

end Flags

end Generation
