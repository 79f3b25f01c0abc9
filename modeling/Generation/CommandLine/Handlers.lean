import Generation.CommandLine.Invocation
import Generation.Failure
import Generation.Settings.Report

/-! What the commands do. Each one answers the lines to print, or why it fails. -/
namespace Generation.CommandLine

open Host (log)

variable {m : Type → Type} [Monad m] [Host m]

def listSettings (store : Store) (all : Bool) : m (Except Failure (List String)) := do
  let s : Settings ← store.load
  return .ok (if all then s.fullListing else s.listing)

def getSetting (store : Store) (key : String) : m (Except Failure (List String)) := do
  let s : Settings ← store.load
  return (s.valueLines key).mapError .setting

def setSetting (store : Store) (key value : String) : m (Except Failure (List String)) := do
  let s : Settings ← store.load
  match s.withValue key value with
  | .error e => return .error (.setting e)
  | .ok updated =>
    match ← store.save updated with
    | .error e => return .error (.store e)
    | .ok () =>
      log (.settingChanged key)
      return .ok [match s.value? key with
        | some previous => s!"Set {key} = {value} (was: {previous})"
        | none => s!"Set {key} = {value}"]

/-- Unsets one key, or removes the whole file. -/
def resetSettings (store : Store) : Option String → m (Except Failure (List String))
  | some key => do
    let s : Settings ← store.load
    match s.withoutValue key with
    | .error e => return .error (.setting e)
    | .ok updated =>
      match ← store.save updated with
      | .error e => return .error (.store e)
      | .ok () => return .ok [s!"Reset {key}"]
  | none => do
    match ← store.reset with
    | .error e => return .error (.store e)
    | .ok () => return .ok ["Reset all settings"]

def describeSettings (store : Store) (key : Option String) :
    m (Except Failure (List String)) := do
  let s : Settings ← store.load
  return (s.description key).mapError .setting

/-- The event that tells of a preset that was tried. A preset that is not there is not told of. -/
def presetEvent? (name : String) :
    Except (Preset.Failure × Preset.Application) Preset.Application → Option Log.Event
  | .ok application => some (.presetApplied name application.changes.length)
  | .error (.rejected preset key _, _) => some (.presetRejected preset key)
  | .error (.unknown _ _, _) => none

/-- Applies a preset and saves the result. Nothing is saved if an assignment is rejected. -/
def applyPreset (store : Store) (catalog : Catalog) (name : String) :
    m (Except Failure (List String)) := do
  let s : Settings ← store.load
  let result := catalog.apply name s
  (presetEvent? name result).forM log
  match result with
  | .error (e, _) => return .error (.preset e)
  | .ok application =>
    match ← store.save application.settings with
    | .error e => return .error (.store e)
    | .ok () =>
      let description := ((catalog.find? name).map Preset.description).getD ""
      return .ok (s!"Applied preset '{name}': {description}" ::
        application.changes.map fun c => "  " ++ c.text)

def runConfig (store : Store) : ConfigCommand → m (Except Failure (List String))
  | .list all => listSettings store all
  | .get key => getSetting store key
  | .set key value => setSetting store key value
  | .reset key => resetSettings store key
  | .describe key => describeSettings store key
  | .preset (some name) => applyPreset store .builtin name
  | .preset none => return .ok Catalog.builtin.listing

/-- Prints the options in effect. Flags are checked before the settings are loaded. -/
def showOptions (store : Store) (flags : Flags) : m (Except Failure (List String)) := do
  match flags.overrides with
  | .error e => return .error (.setting e)
  | .ok overrides =>
    let s : Settings ← store.load
    return .ok [(Options.resolve overrides s).toJson.write true]

/-- The compiled description in a file; a `~` before the path stands for the home directory. -/
def loadSchema (home : Path) (file : String) : m (Except Failure Schema.Compiled) := do
  match ← Host.read (Path.expand home file) with
  | .error e => return .error (.schemaUnreadable file e)
  | .ok contents =>
    match Schema.Compiled.ofText contents with
    | .error e => return .error (.schema e)
    | .ok compiled =>
      log (.schemaCompiled compiled.name)
      return .ok compiled

def compileSchema (home : Path) (file : String) (pretty : Bool) :
    m (Except Failure (List String)) := do
  return (← loadSchema home file).map fun compiled => [compiled.text pretty]

/-- Runs a command for a user. -/
def run (e : Environment) (i : Invocation) : m (Except Failure (List String)) :=
  let store := Store.ofDir e (i.configDir.map Path.mk)
  match i.command with
  | .config c => runConfig store c
  | .compile file pretty => compileSchema e.home file pretty
  | .options flags => showOptions store flags

end Generation.CommandLine
