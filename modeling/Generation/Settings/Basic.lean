import Generation.Settings.Value

/-! Settings: at most one value for each key, changed one key at a time. -/
namespace Generation

@[ext] structure Settings where
  get : (k : Key) → Option k.Value

/-- Why a setting cannot be read or changed. -/
inductive SettingError where
  | unknownKey (name : String)
  | invalidValue (key : Key) (reason : Rejection)
  deriving DecidableEq

def unknownKeyMessage (name : String) : String :=
  s!"Unknown setting key: '{name}'. " ++
    match Key.suggestion? name with
    | some suggestion => s!"Did you mean '{suggestion}'?"
    | none => "Valid keys: " ++ ", ".intercalate Key.names

def SettingError.message : SettingError → String
  | .unknownKey name => unknownKeyMessage name
  | .invalidValue key reason => s!"Invalid value for {key.name}: {reason.message}"

def Key.require (name : String) : Except SettingError Key :=
  match Key.ofName? name with
  | some k => .ok k
  | none => .error (.unknownKey name)

namespace Settings
variable {s : Settings} {j k : Key}

def empty : Settings := ⟨fun _ => none⟩

def set (s : Settings) (k : Key) (v : Option k.Value) : Settings :=
  ⟨fun j => if h : k = j then h ▸ v else s.get j⟩

@[simp] theorem get_empty : empty.get k = none := rfl

@[simp] theorem get_set_self {v : Option k.Value} : (s.set k v).get k = v := by simp [set]

theorem get_set_of_ne {v : Option k.Value} (h : j ≠ k) : (s.set k v).get j = s.get j := by
  simp [set, h.symm]

/-- Reads a value and stores it. -/
def assign (s : Settings) (k : Key) (raw : String) : Except SettingError Settings :=
  match k.kind.parse raw with
  | .ok v => .ok (s.set k (some v))
  | .error r => .error (.invalidValue k r)

def render? (s : Settings) (k : Key) : Option String := (s.get k).map k.kind.render

/-- The value under a name as users see it. -/
def value? (s : Settings) (name : String) : Option String :=
  (Key.ofName? name).bind s.render?

def withValue (s : Settings) (name raw : String) : Except SettingError Settings :=
  match Key.require name with
  | .ok k => s.assign k raw
  | .error e => .error e

def withoutValue (s : Settings) (name : String) : Except SettingError Settings :=
  match Key.require name with
  | .ok k => .ok (s.set k none)
  | .error e => .error e

/-- The names and values of all keys that are set, in ascending order. -/
def allValues (s : Settings) : List (String × String) :=
  Key.all.filterMap fun k => (s.render? k).map fun v => (k.name, v)

def isEmpty (s : Settings) : Bool := Key.fields.all fun k => (s.get k).isNone

/-- The language hint before the instructions. What is given replaces what is stored; a given
language that is not recognized leaves no hint. -/
def effectiveInstructions (s : Settings) (instructions? language? : Option String) :
    Option String :=
  let hint? :=
    match language? with
    | some token => (Choice.ofToken? token).map Language.hint
    | none => (s.get .language).map Language.hint
  match hint?, instructions?.or (s.get .instructions) with
  | some hint, some base => some s!"{hint} {base}"
  | some hint, none => some hint
  | none, base? => base?

end Settings

end Generation
