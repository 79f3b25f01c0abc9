import Generation.Preset
import Generation.Schema.Compiled
import Generation.Settings.Store

/-! Why a command fails. -/
namespace Generation

inductive Failure where
  | setting (e : SettingError)
  | preset (e : Preset.Failure)
  | store (e : StoreError)
  | schemaUnreadable (path : String) (e : IoError)
  | schema (e : Schema.Error)

namespace Failure

def message : Failure → String
  | setting e => "Invalid input: " ++ e.message
  | preset e => "Invalid input: " ++ e.message
  | store e => "File error: " ++ e.message
  | schemaUnreadable path e => s!"File error: Cannot read schema file: {path} ({e.message})"
  | schema e => "Invalid input: " ++ e.message

def exitCode : UInt32 := 1

end Failure

end Generation
