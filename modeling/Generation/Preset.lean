import Generation.Settings.Basic

/-! Named lists of assignments to settings. -/
namespace Generation

structure Preset where
  name : String
  description : String
  assignments : List (String × String)

namespace Preset

def summary (p : Preset) : String :=
  ", ".intercalate (p.assignments.map fun (key, value) => s!"{key}={value}")

/-- One assignment that was made, and what the key held before. -/
structure Change where
  key : String
  previous : Option String
  value : String

def Change.text (c : Change) : String :=
  match c.previous with
  | some previous => s!"{c.key}: {previous} -> {c.value}"
  | none => s!"{c.key}: {c.value}"

/-- The settings after some assignments, and these in order. -/
structure Application where
  settings : Settings
  changes : List Change

inductive Failure where
  | unknown (name : String) (available : List String)
  | rejected (preset key : String) (reason : SettingError)

def Failure.message : Failure → String
  | .unknown name available =>
    s!"Unknown preset '{name}'. Available: " ++ ", ".intercalate available
  | .rejected _ _ reason => reason.message

/-- Makes the assignments in order. The first one rejected ends the run; the assignments before it
stay made. -/
def run (preset : String) (done : Application) :
    List (String × String) → Except (Failure × Application) Application
  | [] => .ok done
  | (key, value) :: rest =>
    match done.settings.withValue key value with
    | .error reason => .error (.rejected preset key reason, done)
    | .ok settings =>
      run preset ⟨settings, done.changes ++ [⟨key, done.settings.value? key, value⟩]⟩ rest

end Preset

/-- Presets in the order in which they are listed. Of two with one name the first counts. -/
abbrev Catalog := List Preset

namespace Catalog

def names (c : Catalog) : List String := c.map Preset.name

def find? (c : Catalog) (name : String) : Option Preset :=
  List.find? (fun (p : Preset) => p.name == name) c

/-- Applies the preset of a name. A failure comes with what was done before it. -/
def apply (c : Catalog) (name : String) (s : Settings) :
    Except (Preset.Failure × Preset.Application) Preset.Application :=
  match c.find? name with
  | none => .error (.unknown name c.names, ⟨s, []⟩)
  | some p => Preset.run p.name ⟨s, []⟩ p.assignments

/-- Answers what the preset of a name makes of a copy. -/
def applyCopy (c : Catalog) (name : String) :
    StateM Settings (Except (Preset.Failure × Preset.Application) Preset.Application) := do
  return c.apply name (← get)

def listing (c : Catalog) : List String :=
  "Available presets:" :: c.map fun p => s!"  {p.name} - {p.description} ({p.summary})"

/-- The presets that every installation has. -/
def builtin : Catalog :=
  [⟨"precise", "Deterministic, focused answers", [("temperature", "0.2"), ("sampling", "greedy")]⟩,
    ⟨"balanced", "General-purpose defaults", [("temperature", "0.7")]⟩,
    ⟨"creative", "Varied, exploratory output", [("temperature", "1.5")]⟩,
    ⟨"json", "Structured JSON output without streaming", [("format", "json"), ("stream", "false")]⟩,
    ⟨"agent", "Enable built-in tools with approval prompts",
      [("tools", "shell,file-read"), ("toolApproval", "ask")]⟩]

end Catalog

end Generation
