import Generation.Text.Quoted

/-! What a run reports besides its answer. -/
namespace Generation.Log

inductive Level where
  | error
  | warn
  | info
  | debug
  | trace
  deriving DecidableEq

def Level.name : Level → String
  | .error => "ERROR"
  | .warn => "WARN"
  | .info => "INFO"
  | .debug => "DEBUG"
  | .trace => "TRACE"

/-- How much a level tells; a filter lets through what tells no more than it names. -/
def Level.rank : Level → Nat
  | .error => 1
  | .warn => 2
  | .info => 3
  | .debug => 4
  | .trace => 5

/-- A named detail of an event, which a line shows between quotes if the event asks for it. -/
structure Field where
  name : String
  value : String
  isQuoted : Bool

def Field.text (f : Field) : String :=
  f.name ++ "=" ++ if f.isQuoted then Text.quoted f.value else f.value

inductive Event where
  | settingsUnreadable (path error : String)
  | settingsNotObject (path : String)
  | settingsMalformed (path error : String)
  | settingIgnored (path key error : String)
  | settingsLoaded (path : String)
  | settingsSaved (path : String)
  | settingsRemoved (path : String)
  | settingChanged (key : String)
  | presetRejected (preset key : String)
  | presetApplied (preset : String) (changes : Nat)
  | schemaCompiled (root : String)

namespace Event

def level : Event → Level
  | settingsUnreadable .. | settingsNotObject .. | settingsMalformed .. | settingIgnored .. => .warn
  | _ => .debug

/-- The part of the program that a filter can name. -/
def target : Event → String
  | settingChanged .. => "fmcli::cli::config"
  | presetRejected .. | presetApplied .. => "fmcli::core::preset"
  | schemaCompiled .. => "fmcli::schema::compiler"
  | _ => "fmcli::core::settings::store"

def message : Event → String
  | settingsUnreadable .. => "settings unreadable; using defaults"
  | settingsNotObject .. => "settings document is not an object; using defaults"
  | settingsMalformed .. => "settings malformed; using defaults"
  | settingIgnored .. => "ignoring invalid setting"
  | settingsLoaded .. => "loaded settings"
  | settingsSaved .. => "saved settings"
  | settingsRemoved .. => "removed settings"
  | settingChanged .. => "setting saved"
  | presetRejected .. => "preset assignment rejected"
  | presetApplied .. => "applied preset"
  | schemaCompiled .. => "compiled schema"

def fields : Event → List Field
  | settingsUnreadable path error | settingsMalformed path error =>
    [⟨"path", path, false⟩, ⟨"error", error, false⟩]
  | settingsNotObject path | settingsLoaded path | settingsSaved path | settingsRemoved path =>
    [⟨"path", path, false⟩]
  | settingIgnored path key error =>
    [⟨"path", path, false⟩, ⟨"key", key, false⟩, ⟨"error", error, false⟩]
  | settingChanged key => [⟨"key", key, true⟩]
  | presetRejected preset key => [⟨"preset", preset, false⟩, ⟨"key", key, false⟩]
  | presetApplied preset changes =>
    [⟨"preset", preset, false⟩, ⟨"changes", toString changes, false⟩]
  | schemaCompiled root => [⟨"root", root, true⟩]

/-- The event as a line of a log. -/
def line (e : Event) : String :=
  " ".intercalate (e.level.name :: e.message :: e.fields.map Field.text)

end Event

end Generation.Log
