import Generation.Disk.Host

/-!
Surroundings that may refuse what a run asks of them, for want of rights or of room or for any other
reason.
-/
namespace Generation

/-- What a run asks of its surroundings, besides reports. -/
inductive Operation where
  | read (p : Path)
  | createDir (p : Path)
  | isDirectory (p : Path)
  | createTemporary (dir : Path)
  | write (p : Path)
  | sync (p : Path)
  | rename (source target : Path)
  | remove (p : Path)

structure Refusal where
  cause : IoError
  /-- How many bytes are written before a write is refused. -/
  written : Nat

/-- What is refused of the operations of a run, which are numbered in the order in which they are
asked for. Whatever decides about them, be it rights, room or chance, comes to such a table. -/
abbrev Guard := Nat → Operation → Option Refusal

/-- Files that are created in a directory can be removed from it again. -/
def Guard.Releases (g : Guard) (dir : Path) : Prop :=
  ∀ (t u : FileTree) (base : Location) (temporary : Path),
    t.createTemporary base dir = .ok (u, temporary) → ∀ n, g n (.remove temporary) = none

/-- A machine, and how many operations were asked of it so far. -/
structure Attended extends Machine where
  asked : Nat

/-- A run on a machine behind a guard. -/
abbrev Guarded := ReaderT Guard (StateM Attended)

namespace Guarded

/-- Asks for an operation, or does what is left to do where it is refused. -/
def ask (o : Operation) (x : StateM Machine α) (refused : Refusal → StateM Machine α) :
    Guarded α := fun g w =>
  let (a, machine) :=
    match g w.asked o with
    | none => x w.toMachine
    | some r => refused r w.toMachine
  (a, ⟨machine, w.asked + 1⟩)

/-- Asks for an operation that does nothing at all where it is refused. -/
def attempt (o : Operation) (x : StateM Machine (Except IoError α)) : Guarded (Except IoError α) :=
  ask o x fun r => pure (.error r.cause)

/-- Writes the front of the contents, and fails. -/
def cutShort (p : Path) (contents : List UInt8) (r : Refusal) :
    StateM Machine (Except IoError Unit) := do
  let _ ← Host.write p (contents.take r.written)
  return .error r.cause

instance : Host Guarded where
  read p := attempt (.read p) (Host.read p)
  createDir p := attempt (.createDir p) (Host.createDir p)
  isDirectory p := ask (.isDirectory p) (Host.isDirectory p) fun _ => pure false
  createTemporary dir := attempt (.createTemporary dir) (Host.createTemporary dir)
  write p contents := ask (.write p) (Host.write p contents) (cutShort p contents)
  sync p := attempt (.sync p) (Host.sync p)
  rename source target := attempt (.rename source target) (Host.rename source target)
  remove p := attempt (.remove p) (Host.remove p)
  log e := fun _ w => ((), { w with events := w.events ++ [e] })

end Guarded

end Generation
