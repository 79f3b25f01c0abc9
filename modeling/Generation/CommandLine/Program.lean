import Generation.CommandLine.Handlers
import Generation.Log.Filter

/-! The program as a whole: from words to what is printed and the exit code. -/
namespace Generation.CommandLine

def version : String := "0.3.1-dev"

def versionLine : String := s!"{programSpec.name} {version}"

structure Outcome where
  exitCode : UInt32
  output : List String
  errors : List String

namespace Outcome

def ofResult : Except Failure (List String) → Outcome
  | .ok lines => ⟨0, lines, []⟩
  | .error e => ⟨Failure.exitCode, [], [s!"❌ {e.message}"]⟩

end Outcome

/-- Runs the program behind a log filter. -/
def runProgram {m : Type → Type} [Monad m] [Host m] (e : Environment) (i : Invocation) :
    m Outcome := do
  return .ofResult (← run e i)

/-- The lines of a log that a run shows. -/
def logLines (i : Invocation) (logFilter? : Option String) (events : List Log.Event) :
    List String :=
  (events.filter (Log.Filter.ofRun i.isVerbose logFilter?).shows).map Log.Event.line

end Generation.CommandLine
