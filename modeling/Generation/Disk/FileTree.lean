import Generation.Path

/-! Files and directories as a value, and the operations of a file system on it. -/
namespace Generation

inductive IoError where
  | notFound
  | alreadyExists
  | notDirectory
  | isDirectory
  | nameTooLong
  /-- A path cannot hold the character NUL. -/
  | badPath
  /-- The contents are not a text. -/
  | badEncoding
  | other (detail : String)
  deriving DecidableEq

def IoError.message : IoError → String
  | .notFound => "No such file or directory (os error 2)"
  | .alreadyExists => "File exists (os error 17)"
  | .notDirectory => "Not a directory (os error 20)"
  | .isDirectory => "Is a directory (os error 21)"
  | .nameTooLong => "File name too long (os error 36)"
  | .badPath => "file name contained an unexpected NUL byte"
  | .badEncoding => "stream did not contain valid UTF-8"
  | .other detail => detail

/-- The names that lead from the root to a file or directory. -/
abbrev Location := List String

inductive Entry where
  | file (contents : List UInt8)
  | directory
  deriving DecidableEq

/-- All files and directories but the root, which is always there. -/
structure FileTree where
  entries : List (Location × Entry)

namespace FileTree

/-- The tree that has nothing but the directories on the way to a location. -/
def ofLocation (l : Location) : FileTree :=
  ⟨(List.range l.length).map fun n => (l.take (n + 1), .directory)⟩

def lookup (t : FileTree) : Location → Option Entry
  | [] => some .directory
  | l => t.entries.lookup l

def erase (t : FileTree) (l : Location) : FileTree := ⟨t.entries.filter (·.1 ≠ l)⟩

def put (t : FileTree) (l : Location) (e : Entry) : FileTree := ⟨(l, e) :: (t.erase l).entries⟩

def maxNameSize : Nat := 255

def maxPathSize : Nat := 4095

/-- Follows segments of a path. Each one is looked up in a directory. -/
def walk (t : FileTree) : Location → List (List Char) → Except IoError Location
  | here, [] => .ok here
  | here, segment :: rest =>
    match t.lookup here with
    | none => .error .notFound
    | some (.file _) => .error .notDirectory
    | some .directory =>
      if Path.isVoid segment then t.walk here rest
      else if segment = ['.', '.'] then t.walk here.dropLast rest
      else
        let name := String.ofList segment
        if maxNameSize < name.utf8ByteSize then .error .nameTooLong
        else t.walk (here ++ [name]) rest

/-- Refuses paths that no file system takes. -/
def checkPath (p : Path) : Except IoError Unit :=
  if '\x00' ∈ p.text.toList then .error .badPath
  else if p.text = "" then .error .notFound
  else if maxPathSize < p.text.utf8ByteSize then .error .nameTooLong
  else .ok ()

/-- The location that a path leads to, whether or not something is there. -/
def locate (t : FileTree) (base : Location) (p : Path) : Except IoError Location :=
  match checkPath p with
  | .error e => .error e
  | .ok () => t.walk (if p.segments.1 then [] else base) p.segments.2

def entryAt (t : FileTree) (base : Location) (p : Path) : Except IoError (Location × Entry) :=
  match t.locate base p with
  | .error e => .error e
  | .ok l =>
    match t.lookup l with
    | none => .error .notFound
    | some e => .ok (l, e)

def isDirectory (t : FileTree) (base : Location) (p : Path) : Bool :=
  match t.entryAt base p with
  | .ok (_, .directory) => true
  | _ => false

def read (t : FileTree) (base : Location) (p : Path) : Except IoError (List UInt8) :=
  match t.entryAt base p with
  | .error e => .error e
  | .ok (_, .directory) => .error .isDirectory
  | .ok (_, .file contents) => .ok contents

/-- Slashes at the end of the path of a new directory do not count. -/
def createDir (t : FileTree) (base : Location) (p : Path) : Except IoError FileTree :=
  match checkPath p with
  | .error e => .error e
  | .ok () =>
    let segments := (p.segments.2.reverse.dropWhile (· = [])).reverse
    match t.walk (if p.segments.1 then [] else base) segments with
    | .error e => .error e
    | .ok l => if (t.lookup l).isSome then .error .alreadyExists else .ok (t.put l .directory)

/-- A name that nothing in a directory has. -/
def freshName (t : FileTree) (dir : Location) : String :=
  let name (n : Nat) := s!".tmp{n}"
  let isFree (n : Nat) := !(t.entries.any fun e => e.1 = dir ++ [name n])
  name (((List.range (t.entries.length + 1)).find? isFree).getD 0)

/-- Puts an empty file with a fresh name into a directory, and gives its path. The path of the file
may be too long where that of the directory is not. -/
def createTemporary (t : FileTree) (base : Location) (dir : Path) :
    Except IoError (FileTree × Path) :=
  match t.entryAt base (if dir.text = "" then ⟨"."⟩ else dir) with
  | .error e => .error e
  | .ok (_, .file _) => .error .notDirectory
  | .ok (l, .directory) =>
    let temporary := dir.join ⟨t.freshName l⟩
    match t.locate base temporary with
    | .error e => .error e
    | .ok m => .ok (t.put m (.file []), temporary)

/-- Writes a file that is there. -/
def write (t : FileTree) (base : Location) (p : Path) (contents : List UInt8) :
    Except IoError FileTree :=
  match t.entryAt base p with
  | .error e => .error e
  | .ok (_, .directory) => .error .isDirectory
  | .ok (l, .file _) => .ok (t.put l (.file contents))

/-- Moves a file in the place of another one. -/
def rename (t : FileTree) (base : Location) (source target : Path) : Except IoError FileTree :=
  match t.entryAt base source, t.locate base target with
  | .error e, _ | _, .error e => .error e
  | .ok (l, entry), .ok m =>
    match t.lookup m with
    | some .directory => .error .isDirectory
    | _ => .ok ((t.erase l).put m entry)

def remove (t : FileTree) (base : Location) (p : Path) : Except IoError FileTree :=
  match t.entryAt base p with
  | .error e => .error e
  | .ok (_, .directory) => .error .isDirectory
  | .ok (l, .file _) => .ok (t.erase l)

/-- The names in a directory, in ascending order. -/
def list (t : FileTree) (base : Location) (p : Path) : Except IoError (List String) :=
  match t.entryAt base p with
  | .error e => .error e
  | .ok (_, .file _) => .error .notDirectory
  | .ok (l, .directory) =>
    let names := t.entries.filterMap fun e =>
      match e.1.getLast? with
      | some name => if e.1 = l ++ [name] then some name else none
      | none => none
    .ok (names.mergeSort (· ≤ ·))

end FileTree

end Generation
