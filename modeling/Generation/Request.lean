import Generation.Options
import Generation.Schema.Compiled

/-! What a model runtime is asked for. -/
namespace Generation

structure Request where
  prompt : String
  options : Options
  schema : Option Schema.Compiled

/-- Whether the answer has to follow a schema. -/
def Request.isStructured (r : Request) : Bool := r.schema.isSome

structure GenerationError where
  detail : String
  deriving DecidableEq

def GenerationError.message (e : GenerationError) : String := s!"Generation error: {e.detail}"

/-- A model runtime. -/
structure Engine (Answer : Type) where
  generate : Request → Except GenerationError Answer

/-- An engine that answers every request with a prompt. -/
def Engine.ofAnswer (answer : Request → Answer) : Engine Answer where
  generate r := if r.prompt = "" then .error ⟨"empty prompt"⟩ else .ok (answer r)

end Generation
