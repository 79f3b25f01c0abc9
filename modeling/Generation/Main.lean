import Generation.CommandLine.Program

/-! The program on a real disk, with events on standard error. -/
namespace Generation

/-- What the system says about a failure, by its number, which some calls give with a minus sign. -/
def IoError.ofCode (code : UInt32) (detail : String) : IoError :=
  let number := if code < 0x80000000 then code else -code
  match number with
  | 2 => .notFound
  | 17 => .alreadyExists
  | 20 => .notDirectory
  | 21 => .isDirectory
  | 36 => .nameTooLong
  | _ => .other s!"{detail} (os error {number})"

def IoError.ofSystem : IO.Error → IoError
  | .alreadyExists _ c d | .otherError c d | .resourceBusy c d | .resourceVanished c d
  | .unsupportedOperation c d | .hardwareFault c d | .unsatisfiedConstraints c d
  | .illegalOperation c d | .protocolError c d | .timeExpired c d | .interrupted _ c d
  | .noFileOrDirectory _ c d | .invalidArgument _ c d | .permissionDenied _ c d
  | .resourceExhausted _ c d | .inappropriateType _ c d | .noSuchThing _ c d => .ofCode c d
  | .unexpectedEof => .other "unexpected end of file"
  | .userError detail => .other detail

namespace Live

/-- A run shows the events that its filter lets through. -/
abbrev Run := ReaderT Log.Filter IO

def attempt (action : IO α) : Run (Except IoError α) := fun _ => do
  match ← EIO.toBaseIO action with
  | .ok a => return .ok a
  | .error e => return .error (.ofSystem e)

def isDirectory (p : Path) : BaseIO Bool :=
  let entry : IO.FS.DirEntry := { root := p.text, fileName := "" }
  entry.root.isDir

/-- Names that are taken are passed over, a few times. -/
def createTemporary (dir : Path) : Nat → IO Path
  | 0 => throw (.userError "no free file name")
  | tries + 1 => do
    let now ← IO.monoNanosNow
    let p := dir.join ⟨s!".tmp{now}"⟩
    try
      let _ ← IO.FS.Handle.mk p.text .writeNew
      return p
    catch
      | .alreadyExists .. => createTemporary dir tries
      | e => throw e

def write (p : Path) (contents : List UInt8) : IO Unit := do
  let handle ← IO.FS.Handle.mk p.text .write
  handle.write ⟨contents.toArray⟩
  handle.flush

def remove (p : Path) : Run (Except IoError Unit) := do
  if ← isDirectory p then return .error .isDirectory
  attempt (IO.FS.removeFile p.text)

instance : Host Run where
  read p := attempt do return (← (← IO.FS.Handle.mk p.text .read).readBinToEnd).toList
  createDir p := attempt (IO.FS.createDir p.text)
  isDirectory p := isDirectory p
  createTemporary dir := attempt (createTemporary dir 16)
  write p contents := attempt (write p contents)
  -- nothing here waits for the disk: a file that is flushed is with the system
  sync _ := pure (.ok ())
  rename source target := attempt (IO.FS.rename source.text target.text)
  remove := remove
  log e := do if (← read).shows e then IO.eprintln e.line

end Live

namespace CommandLine

def usageLine : String := s!"Usage: {programSpec.name} [OPTIONS] <COMMAND>"

def runLive (i : Invocation) : IO UInt32 := do
  let e := Environment.ofVariables (← IO.getEnv "HOME") (← IO.getEnv "XDG_CONFIG_HOME") "/"
  let run : Live.Run Outcome := runProgram e i
  let outcome ← run (.ofRun i.isVerbose (← IO.getEnv "RUST_LOG"))
  outcome.output.forM IO.println
  outcome.errors.forM IO.eprintln
  return outcome.exitCode

end CommandLine

end Generation

open Generation.CommandLine in
def main (args : List String) : IO UInt32 := do
  match Invocation.parse args with
  | .ok invocation => runLive invocation
  | .error .helpShown => IO.println usageLine; return 0
  | .error .versionShown => IO.println versionLine; return 0
  | .error e => IO.eprintln usageLine; return e.exitCode
