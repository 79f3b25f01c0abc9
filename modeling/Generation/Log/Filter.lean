import Generation.Log.Directive
import Generation.Log.Event

/-! Which events a log shows. -/
namespace Generation.Log

namespace Directive

/-- Whether a directive is about an event: its target starts that of the event, and the event has
its field. One with a span, or with a value for its field, is about events inside of a span, and
none is. -/
def concerns (d : Directive) (e : Event) : Bool :=
  d.span.isNone && (d.target.all fun t => e.target.startsWith t) &&
    d.field.all fun f => !f.hasValue && (f.name = "message" || e.fields.any (·.name = f.name))

/-- How specific a directive is: a longer target is more specific, and then a field is. -/
def specificity (d : Directive) : Nat × Nat :=
  ((d.target.map (·.utf8ByteSize + 1)).getD 0, d.field.toList.length)

/-- Among equally specific directives the order of their fields decides. -/
def isAtLeast (d e : Directive) : Bool :=
  let (target, fields) := d.specificity
  let (otherTarget, otherFields) := e.specificity
  otherTarget < target || (otherTarget = target &&
    (otherFields < fields || (otherFields = fields &&
      e.field.all fun f => d.field.any fun g => f.name ≤ g.name)))

end Directive

abbrev Filter := List Directive

namespace Filter

/-- Directives between commas; empty ones do not count. One that cannot be read spoils them all. -/
def parse? (text : String) : Option Filter :=
  ((text.toList.splitOn ',').filter (· ≠ [])).mapM Directive.parse?

/-- The most specific directive decides, the last one among equals. -/
def shows (f : Filter) (e : Event) : Bool :=
  let better (best : Option Directive) (d : Directive) :=
    match best with
    | none => some d
    | some b => if d.isAtLeast b then some d else best
  match (f.filter (·.concerns e)).foldl better none with
  | none => false
  | some d => e.level.rank ≤ d.rank

def warnings : Filter := [⟨none, none, none, 2⟩]

def verbose : Filter := [⟨none, none, none, 2⟩, ⟨some "fmcli", none, none, 4⟩]

/-- The filter of a run: a fixed one if it is to be verbose, else that of the environment, if it
can be read. -/
def ofRun (isVerbose : Bool) (logFilter? : Option String) : Filter :=
  if isVerbose then verbose else (logFilter?.bind parse?).getD warnings

end Filter

end Generation.Log
