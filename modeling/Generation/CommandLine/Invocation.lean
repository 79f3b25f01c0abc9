import Generation.CommandLine.Grammar
import Generation.Options

/-! The commands of the program, and how they are written. -/
namespace Generation

/-- The name of the option that stands for a key. -/
def Key.flag : Key → String
  | adapter => "adapter"
  | format => "format"
  | guardrails => "guardrails"
  | instructions => "instructions"
  | language => "language"
  | logEnabled => "log-enabled"
  | maxTokens => "max-tokens"
  | rawJson => "raw-json"
  | sampling => "sampling"
  | samplingSeed => "sampling-seed"
  | samplingThreshold => "sampling-threshold"
  | samplingTop => "sampling-top"
  | stream => "stream"
  | temperature => "temperature"
  | toolApproval => "tool-approval"
  | tools => "tools"

namespace CommandLine

inductive ConfigCommand where
  | list (all : Bool)
  | get (key : String)
  | set (key value : String)
  | reset (key : Option String)
  | describe (key : Option String)
  | preset (name : Option String)

inductive Command where
  | config (c : ConfigCommand)
  | compile (file : String) (pretty : Bool)
  | options (flags : Flags)

structure Invocation where
  command : Command
  configDir : Option String
  isVerbose : Bool

def switch (long : String) (short : Option Char) : OptionSpec := ⟨long, short, .switch, false, true⟩

def helpOption : OptionSpec := ⟨"help", some 'h', .help, false, true⟩

def versionOption : OptionSpec := ⟨"version", some 'V', .version, false, true⟩

/-- The options that every command has. The directory of the settings file needs a name. -/
def globalOptions : List OptionSpec :=
  [⟨"config-dir", none, .value, false, false⟩, switch "verbose" (some 'v'), helpOption]

/-- Options whose values are often negative or free text take hyphens. -/
def flagOption (k : Key) : OptionSpec :=
  ⟨k.flag, none, .value, k ∈ [.temperature, .samplingThreshold, .instructions], true⟩

def leaf (name : String) (options : List OptionSpec) (positionals : List PositionalSpec) :
    CommandSpec :=
  ⟨name, options ++ globalOptions, positionals, []⟩

def configSpec : CommandSpec :=
  ⟨"config", globalOptions, [],
    [leaf "list" [switch "all" none] [],
      leaf "get" [] [⟨"key", true, false⟩],
      leaf "set" [] [⟨"key", true, false⟩, ⟨"value", true, true⟩],
      leaf "reset" [] [⟨"key", false, false⟩],
      leaf "describe" [] [⟨"key", false, false⟩],
      leaf "preset" [] [⟨"name", false, false⟩]]⟩

def schemaSpec : CommandSpec :=
  ⟨"schema", globalOptions, [], [leaf "compile" [switch "pretty" none] [⟨"file", true, false⟩]]⟩

def programSpec : CommandSpec :=
  ⟨"fmcli", versionOption :: globalOptions, [],
    [configSpec, schemaSpec, leaf "options" (Key.all.map flagOption) []]⟩

def Level.has (l : Level) (option : String) : Bool := l.options.any (·.1 = option)

def ConfigCommand.ofLevel? (l : Level) : Option ConfigCommand :=
  match l.command, l.positionals with
  | "list", [] => some (.list (l.has "all"))
  | "get", [key] => some (.get key)
  | "set", [key, value] => some (.set key value)
  | "reset", keys => some (.reset keys.head?)
  | "describe", keys => some (.describe keys.head?)
  | "preset", names => some (.preset names.head?)
  | _, _ => none

def Command.ofLevels? : List Level → Option Command
  | [_, group, l] =>
    match group.command, l.positionals with
    | "config", _ => (ConfigCommand.ofLevel? l).map .config
    | "schema", [file] => some (.compile file (l.has "pretty"))
    | _, _ => none
  | [_, l] => some (.options ⟨fun k => l.options.lookup k.flag⟩)
  | _ => none

/-- Reads the words behind the program's name. An option that every command has counts for the whole
line; given to several commands, the innermost one wins. -/
def Invocation.parse (words : List String) : Except UsageError Invocation :=
  match programSpec.matchWords .start words with
  | .error e => .error e
  | .ok levels =>
    match Command.ofLevels? levels with
    | none => .error .missingSubcommand
    | some command =>
      .ok ⟨command, levels.reverse.findSome? (·.options.lookup "config-dir"),
        levels.any (·.has "verbose")⟩

end CommandLine

end Generation
