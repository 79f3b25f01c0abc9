import Generation.Disk.FileTree
import Generation.Log.Event

/-! What a run needs from its surroundings, and surroundings that are a value. -/
namespace Generation

class Host (m : Type → Type) where
  read : Path → m (Except IoError (List UInt8))
  /-- Creates a directory in one that is there. -/
  createDir : Path → m (Except IoError Unit)
  isDirectory : Path → m Bool
  /-- Creates an empty file with a name of its own in a directory. -/
  createTemporary : Path → m (Except IoError Path)
  /-- Fills a file that is there and empty. What was written before a failure stays. -/
  write : Path → List UInt8 → m (Except IoError Unit)
  /-- Waits until a file is on the disk as it was written. -/
  sync : Path → m (Except IoError Unit)
  rename : Path → Path → m (Except IoError Unit)
  remove : Path → m (Except IoError Unit)
  log : Log.Event → m Unit

namespace Host
variable {m : Type → Type} [Monad m] [Host m]

/-- A directory that cannot be created may be there already. -/
def createDirOrFind (p : Path) : m (Except IoError Unit) := do
  match ← createDir p with
  | .ok () => return .ok ()
  | .error e => return if ← isDirectory p then .ok () else .error e

/-- Creates a directory and those above it that are missing, at most `depth` of them. -/
def createDirsWithin : Nat → Path → m (Except IoError Unit)
  | 0, _ => return .error .notFound
  | depth + 1, p => do
    if p.text = "" then return .ok ()
    match ← createDir p with
    | .ok () => return .ok ()
    | .error .notFound =>
      match p.parent? with
      | none => return .error (.other "failed to create whole tree")
      | some parent =>
        match ← createDirsWithin depth parent with
        | .error e => return .error e
        | .ok () => createDirOrFind p
    | .error e => return if ← isDirectory p then .ok () else .error e

/-- Creates a directory and those above it that are missing. What was created stays if a later
step fails. -/
def createDirs (p : Path) : m (Except IoError Unit) := createDirsWithin (p.text.length + 1) p

end Host

/-- Files, the directory where relative paths start, and the events so far. -/
structure Machine where
  tree : FileTree
  workingDir : Location
  events : List Log.Event

namespace Machine

/-- Runs an operation that changes the tree if it succeeds. -/
def change (f : FileTree → Location → Except IoError (FileTree × α)) :
    StateM Machine (Except IoError α) := fun w =>
  match f w.tree w.workingDir with
  | .error e => (.error e, w)
  | .ok (tree, a) => (.ok a, { w with tree })

/-- Runs an operation that has no answer but the tree. -/
def update (f : FileTree → Location → Except IoError FileTree) :
    StateM Machine (Except IoError Unit) :=
  change fun t base => (f t base).map (·, ())

instance : Host (StateM Machine) where
  read p := fun w => (w.tree.read w.workingDir p, w)
  createDir p := update fun t base => t.createDir base p
  isDirectory p := fun w => (w.tree.isDirectory w.workingDir p, w)
  createTemporary dir := change fun t base => t.createTemporary base dir
  write p contents := update fun t base => t.write base p contents
  sync _ := pure (.ok ())
  rename source target := update fun t base => t.rename base source target
  remove p := update fun t base => t.remove base p
  log e := fun w => ((), { w with events := w.events ++ [e] })

end Machine

end Generation
