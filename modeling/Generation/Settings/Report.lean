import Generation.Settings.Basic

/-! What users are shown of settings, line by line. -/
namespace Generation

def notSet : String := "(not set)"

/-- A column of labels, then the value. -/
def labelled (label value : String) : String :=
  let label := label ++ ":"
  label ++ String.ofList (List.replicate (13 - label.length) ' ') ++ value

/-- All that is known about a key, with its present value. -/
def Key.card (k : Key) (current? : Option String) : List String :=
  [labelled "Key" k.name, labelled "Type" k.kind.typeName, labelled "Description" k.description] ++
    (k.kind.tokens?.map fun tokens => labelled "Valid" (", ".intercalate tokens)).toList ++
    (k.kind.range?.map (labelled "Range")).toList ++
    [labelled "Current" (current?.getD notSet)]

namespace Settings

/-- Every key with its value, or with what it is for. -/
def fullListing (s : Settings) : List String :=
  Key.all.map fun k =>
    match s.render? k with
    | some v => s!"{k.name}: {v}"
    | none => s!"{k.name}: {notSet}  # {k.description}"

def listing (s : Settings) : List String :=
  match s.allValues with
  | [] => ["No settings configured."]
  | values => values.map fun (name, v) => s!"{name}: {v}"

/-- The value of a key; there is no line for a key that is not set. -/
def valueLines (s : Settings) (name : String) : Except SettingError (List String) :=
  match Key.require name with
  | .error e => .error e
  | .ok k => .ok (s.render? k).toList

/-- One line for every key, or the card of the key of a name. -/
def description (s : Settings) : Option String → Except SettingError (List String)
  | none => .ok (Key.all.map fun k =>
      s!"{k.name} ({k.kind.typeName}): {k.description} [{(s.render? k).getD notSet}]")
  | some name =>
    match Key.require name with
    | .error e => .error e
    | .ok k => .ok (k.card (s.render? k))

end Settings

end Generation
