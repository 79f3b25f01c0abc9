/-!
Command lines as trees of commands, each with options, positional arguments and subcommands, and how
the words of a command line are matched with them.
-/
namespace Generation.CommandLine

inductive Role where
  | switch
  | value
  | help
  | version
  deriving DecidableEq

structure OptionSpec where
  long : String
  short : Option Char
  role : Role
  /-- The value may start with a hyphen, whatever it looks like. -/
  hyphenValue : Bool
  emptyValue : Bool
  deriving DecidableEq

structure PositionalSpec where
  name : String
  isRequired : Bool
  hyphenValue : Bool

/-- A command with subcommands needs one of them. -/
structure CommandSpec where
  name : String
  options : List OptionSpec
  positionals : List PositionalSpec
  subcommands : List CommandSpec

inductive UsageError where
  | helpShown
  | versionShown
  | helpForMissing
  | missingSubcommand
  | invalidSubcommand
  | unknownArgument
  | repeatedArgument
  | invalidValue
  | missingArgument
  | unneededValue
  deriving DecidableEq

def UsageError.exitCode : UsageError → UInt32
  | .helpShown | .versionShown => 0
  | _ => 2

/-- What was given to one command of the line. -/
structure Level where
  command : String
  options : List (String × String)
  positionals : List String

/-- A command while its words are read. -/
structure Progress where
  options : List (String × String)
  positionals : List String
  /-- The last option with a value of its own word, and that word once it is there. -/
  pending : Option (OptionSpec × Option String)
  /-- After two hyphens alone, options and subcommands are not looked for. -/
  trailing : Bool

namespace Progress

def start : Progress := ⟨[], [], none, false⟩

/-- The option whose value is the next word. -/
def awaiting? (p : Progress) : Option OptionSpec :=
  match p.pending with
  | some (o, none) => some o
  | _ => none

/-- Adds an option. None may be given twice to one command. -/
def give (p : Progress) (o : OptionSpec) (value : String) : Except UsageError Progress :=
  if p.options.any (·.1 = o.long) then .error .repeatedArgument
  else if o.role = .value ∧ value = "" ∧ !o.emptyValue then .error .invalidValue
  else .ok { p with options := p.options ++ [(o.long, value)] }

/-- Adds the pending option. -/
def settle (p : Progress) : Except UsageError Progress :=
  match p.pending with
  | none => .ok p
  | some (_, none) => .error .invalidValue
  | some (o, some value) => { p with pending := none }.give o value

/-- Meets an option without a value of its own word. -/
def meet (p : Progress) (o : OptionSpec) (value : String) : Except UsageError Progress := do
  let p ← p.settle
  match o.role with
  | .help => .error .helpShown
  | .version => .error .versionShown
  | _ => p.give o value

end Progress

namespace CommandSpec
variable (c : CommandSpec)

def helpName : String := "help"

/-- Every command with subcommands has one more that shows help. -/
def hasSubcommand (name : String) : Bool :=
  c.subcommands.any (·.name = name) || (!c.subcommands.isEmpty && name = helpName)

/-- Help is shown for a command that the words lead to. -/
def helpFor : CommandSpec → List String → UsageError
  | _, [] => .helpShown
  | c, word :: rest =>
    match c.subcommands.find? (·.name = word) with
    | some sub => helpFor sub rest
    | none =>
      if c.hasSubcommand word ∧ rest = [] then .helpShown else .invalidSubcommand

/-- The next positional argument. -/
def nextPositional? (p : Progress) : Option PositionalSpec := c.positionals[p.positionals.length]?

def nextTakesHyphens (p : Progress) : Bool := (c.nextPositional? p).any (·.hyphenValue)

/-- A word that is neither option nor subcommand: the awaited value, or a positional argument. -/
def takeWord (p : Progress) (word : String) : Except UsageError Progress :=
  match if p.trailing then none else p.awaiting? with
  | some o => .ok { p with pending := some (o, some word) }
  | none =>
    match c.nextPositional? p with
    | some _ => do
      let p ← p.settle
      .ok { p with positionals := p.positionals ++ [word] }
    | none =>
      if p.trailing ∧ c.hasSubcommand word then .error .unknownArgument
      else if c.subcommands.isEmpty then .error .unknownArgument
      else .error .invalidSubcommand

/-- A word that starts with two hyphens and goes on with `body`. -/
def takeLong (p : Progress) (word : String) (body : List Char) : Except UsageError Progress :=
  let name := String.ofList (body.takeWhile (· ≠ '='))
  let attached? : Option String :=
    match body.dropWhile (· ≠ '=') with
    | _ :: value => some (String.ofList value)
    | [] => none
  match c.options.find? (·.long = name) with
  | some o =>
    match o.role, attached? with
    | .value, some value => p.meet o value
    | .value, none => do
      let p ← p.settle
      .ok { p with pending := some (o, none) }
    | _, some _ => .error .unneededValue
    | _, none => p.meet o ""
  | none => if c.nextTakesHyphens p then c.takeWord p word else .error .unknownArgument

def shortOption? (letter : Char) : Option OptionSpec :=
  c.options.find? (·.short = some letter)

/-- A word that starts with one hyphen and goes on with the letters of switches. -/
def takeShort (p : Progress) (word : String) (letters : List Char) : Except UsageError Progress :=
  if c.nextTakesHyphens p ∧ letters.any (fun l => (c.shortOption? l).isNone) then
    c.takeWord p word
  else
    letters.foldlM (fun p letter =>
      match c.shortOption? letter with
      | some o => p.meet o ""
      | none => .error .unknownArgument) p

/-- A word that is no subcommand. -/
def take (p : Progress) (word : String) : Except UsageError Progress :=
  if p.trailing ∨ p.awaiting?.any (·.hyphenValue) then c.takeWord p word
  else
    match word.toList with
    | ['-', '-'] => .ok { p with trailing := true }
    | '-' :: '-' :: body => c.takeLong p word body
    | '-' :: l :: letters => c.takeShort p word (l :: letters)
    | _ => c.takeWord p word

/-- What is known once all words are read. -/
def close (p : Progress) (hasSubcommand : Bool) : Except UsageError Level := do
  let p ← p.settle
  if !hasSubcommand ∧ !c.subcommands.isEmpty then
    .error (if p.options = [] then .helpForMissing else .missingSubcommand)
  else if (c.positionals.drop p.positionals.length).any (·.isRequired) then
    .error .missingArgument
  else .ok ⟨c.name, p.options, p.positionals⟩

/-- Matches words with a command that has been met before. A subcommand takes all words that are
left, and its faults go before those of the option that is pending here. -/
def matchWords : CommandSpec → Progress → List String → Except UsageError (List Level)
  | c, p, [] => (c.close p false).map ([·])
  | c, p, word :: rest =>
    if !p.trailing ∧ p.awaiting?.isNone ∧ c.hasSubcommand word then
      match c.subcommands.find? (·.name = word) with
      | none => .error (c.helpFor rest)
      | some sub =>
        match matchWords sub .start rest with
        | .error e => .error e
        | .ok levels => (c.close p true).map (· :: levels)
    else
      match c.take p word with
      | .error e => .error e
      | .ok p => matchWords c p rest

end CommandSpec

end Generation.CommandLine
