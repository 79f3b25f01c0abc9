/-!
Paths as texts. Only slashes separate names; runs of slashes, and dots alone between slashes, have
no meaning except for a dot at the start of a relative path.
-/
namespace Generation

structure Path where
  text : String
  deriving DecidableEq

namespace Path

inductive Component where
  | root
  | here
  | parent
  | name (n : List Char)
  deriving DecidableEq

/-- What stands between the slashes of a path, and whether it starts with a slash. -/
def segments (p : Path) : Bool × List (List Char) :=
  match p.text.toList with
  | '/' :: cs => (true, cs.splitOn '/')
  | cs => (false, cs.splitOn '/')

/-- Segments that name nothing. -/
def isVoid (segment : List Char) : Bool := segment = [] || segment = ['.']

def componentOf (segment : List Char) : Component :=
  if segment = ['.', '.'] then .parent else .name segment

/-- A path is read as a start, if it has one, and segments behind it: the root of an absolute path,
or a dot alone at the start of a relative one. -/
def start? (p : Path) : Option Component × List (List Char) :=
  match p.segments with
  | (true, rest) => (some .root, rest)
  | (false, ['.'] :: rest) => (some .here, rest)
  | (false, rest) => (none, rest)

def components (p : Path) : List Component :=
  let (start?, rest) := p.start?
  start?.toList ++ (rest.filter (!isVoid ·)).map componentOf

def isAbsolute (p : Path) : Bool := p.segments.1

/-- The segments behind those with the given components. -/
def dropComponents : List Component → List (List Char) → Option (List (List Char))
  | [], rest => some rest
  | _ :: _, [] => none
  | c :: cs, segment :: rest =>
    if isVoid segment then dropComponents (c :: cs) rest
    else if componentOf segment = c then dropComponents cs rest
    else none

/-- Segments without the void ones at both ends, with slashes between them. -/
def ofSegments (segments : List (List Char)) : Path :=
  let kept := ((segments.dropWhile isVoid).reverse.dropWhile isVoid).reverse
  ⟨String.ofList (['/'].intercalate kept)⟩

/-- The part of a path below another one, component by component. -/
def below? (base p : Path) : Option Path :=
  let (start?, rest) := p.start?
  match start?, base.components with
  | none, cs => (dropComponents cs rest).map ofSegments
  | some _, [] => some p
  | some start, c :: cs =>
    if start = c then (dropComponents cs rest).map ofSegments else none

/-- A path seen from another one; an absolute path stays itself. -/
def join (base p : Path) : Path :=
  if p.isAbsolute then p
  else if base.text = "" ∨ base.text.endsWith "/" then ⟨base.text ++ p.text⟩
  else ⟨base.text ++ "/" ++ p.text⟩

/-- The path without its last component. -/
def parent? (p : Path) : Option Path :=
  let (absolute, segments) := p.segments
  let kept := segments.reverse.dropWhile isVoid
  match kept with
  | _ :: kept =>
    let kept := (kept.dropWhile isVoid).reverse
    some ⟨String.ofList ((if absolute then ['/'] else []) ++ ['/'].intercalate kept)⟩
  | [] => if absolute ∨ p.text = "" then none else some ⟨""⟩

/-- The path as users see it: below the home directory from `~` on. -/
def display (p home : Path) : String :=
  match home.below? p with
  | some rest => "~/" ++ rest.text
  | none => p.text

/-- Puts the home directory in the place of a `~` that stands alone before the first slash. -/
def expand (home : Path) (text : String) : Path :=
  match text.toList with
  | ['~'] => home
  | '~' :: '/' :: rest =>
    match rest.dropWhile (· = '/') with
    | [] => home
    | rest => home.join ⟨String.ofList rest⟩
  | _ => ⟨text⟩

end Path

/-- The directories of a user. -/
structure Environment where
  home : Path
  /-- The directory of configuration files; only an absolute path counts. -/
  configHome : Option Path

namespace Environment

/-- An empty or missing home gives way to the home of the account. -/
def ofVariables (home? configHome? : Option String) (accountHome : String) : Environment where
  home := ⟨match home? with
    | none | some "" => accountHome
    | some home => home⟩
  configHome := configHome?.map Path.mk

/-- The directory of the settings file, unless another one is given. -/
def settingsDir (e : Environment) : Path :=
  let configHome :=
    match e.configHome with
    | some p => if p.isAbsolute then p else e.home.join ⟨".config"⟩
    | none => e.home.join ⟨".config"⟩
  configHome.join ⟨"fmcli"⟩

end Environment

end Generation
