import Generation.Settings.Basic

/-! Changes of settings, made in place or on a copy. -/
namespace Generation

/-- A change of one setting, as it is asked for. -/
inductive Edit where
  | assign (name raw : String)
  | unset (name : String)

namespace Edit

def name : Edit → String
  | assign name _ | unset name => name

/-- Settings with a change. -/
def apply (s : Settings) : Edit → Except SettingError Settings
  | assign name raw => s.withValue name raw
  | unset name => s.withoutValue name

/-- Answers a copy with a change. -/
def copy (e : Edit) : StateM Settings (Except SettingError Settings) := do
  return e.apply (← get)

/-- Makes a change in place. The settings are only replaced if it is accepted. -/
def make (e : Edit) : StateM Settings (Except SettingError Unit) := do
  match e.apply (← get) with
  | .error r => return .error r
  | .ok s =>
    set s
    return .ok ()

/-- Makes one change after the other, whether or not those before it were accepted. -/
def makeAll (edits : List Edit) : StateM Settings (List (Except SettingError Unit)) :=
  edits.mapM make

end Edit

end Generation
