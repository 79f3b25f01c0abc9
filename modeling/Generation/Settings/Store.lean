import Generation.Disk.Host
import Generation.Json.Reader
import Generation.Settings.Document

/-!
The file that keeps settings between runs. Loading never fails, and saving puts a whole new file in
the place of the old one.
-/
namespace Generation

open Host (log)

inductive StoreError where
  | createDir (shown : String) (cause : IoError)
  | write (shown : String) (cause : IoError)
  | remove (shown : String) (cause : IoError)

def StoreError.cause : StoreError → IoError
  | .createDir _ e | .write _ e | .remove _ e => e

def StoreError.message : StoreError → String
  | .createDir shown e => s!"Failed to create settings directory {shown}: {e.message}"
  | .write shown e => s!"Failed to write settings at {shown}: {e.message}"
  | .remove shown e => s!"Failed to remove settings at {shown}: {e.message}"

def Settings.fileName : String := "settings.json"

/-- The text of a settings file. -/
def Settings.fileText (s : Settings) : String := s.toJson.write true ++ "\n"

structure Store where
  home : Path
  dir : Path

namespace Store

/-- The store in a given directory, or in the usual one. -/
def ofDir (e : Environment) (dir? : Option Path) : Store := ⟨e.home, dir?.getD e.settingsDir⟩

def path (s : Store) : Path := s.dir.join ⟨Settings.fileName⟩

def shownPath (s : Store) : String := s.path.display s.home

/-- The settings in the contents of a file, and what there is to report about them. -/
def decode (shown : String) (contents : List UInt8) : Settings × List Log.Event :=
  if (Text.decode? contents).isNone then
    (.empty, [.settingsUnreadable shown IoError.badEncoding.message])
  else
    match Json.parse contents with
    | .error e => (.empty, [.settingsMalformed shown e.message])
    | .ok (.object members) =>
      let (settings, faults) := Settings.empty.ofMembers members
      (settings, faults.map (fun (k, fault) => .settingIgnored shown k.name fault.message) ++
        [.settingsLoaded shown])
    | .ok _ => (.empty, [.settingsNotObject shown])

variable {m : Type → Type} [Monad m] [Host m]

/-- A file that is missing holds no settings; one that cannot be used is reported. -/
def load (s : Store) : m Settings := do
  match ← Host.read s.path with
  | .error .notFound => return .empty
  | .error e =>
    log (.settingsUnreadable s.shownPath e.message)
    return .empty
  | .ok contents =>
    let (settings, events) := decode s.shownPath contents
    events.forM log
    return settings

/-- Fills a new file and moves it in the place of the settings file. -/
def fill (s : Store) (temporary : Path) (contents : List UInt8) : m (Except IoError Unit) := do
  match ← Host.write temporary contents with
  | .error e => return .error e
  | .ok () =>
    match ← Host.sync temporary with
    | .error e => return .error e
    | .ok () => Host.rename temporary s.path

/-- Writes the text beside the settings file and moves it there. If any of that fails the new file
goes away, unless it cannot be removed either: the answer tells of the first failure alone. -/
def replace (s : Store) (contents : List UInt8) : m (Except IoError Unit) := do
  match ← Host.createTemporary s.dir with
  | .error e => return .error e
  | .ok temporary =>
    match ← s.fill temporary contents with
    | .ok () => return .ok ()
    | .error e =>
      let _ ← Host.remove temporary
      return .error e

def save (s : Store) (settings : Settings) : m (Except StoreError Unit) := do
  match ← Host.createDirs s.dir with
  | .error e => return .error (.createDir (s.dir.display s.home) e)
  | .ok () =>
    match ← s.replace (Text.bytes settings.fileText) with
    | .error e => return .error (.write s.shownPath e)
    | .ok () =>
      log (.settingsSaved s.shownPath)
      return .ok ()

/-- Removes the settings file, if there is one. -/
def reset (s : Store) : m (Except StoreError Unit) := do
  match ← Host.remove s.path with
  | .ok () =>
    log (.settingsRemoved s.shownPath)
    return .ok ()
  | .error .notFound => return .ok ()
  | .error e => return .error (.remove s.shownPath e)

end Store

end Generation
