import Generation.Text.Blank
import Generation.Text.Letter

/-!
The regular expressions that a filter takes as values of fields. Only whether one is well formed
counts here. It stands between braces, so no brace inside of it is ever closed.
-/
namespace Generation.Log.Pattern

/-- The modes that bear on what is well formed. -/
structure Modes where
  anyCase : Bool
  /-- Blanks between items do not count, nor does what follows a number sign on its line. -/
  spaced : Bool
  /-- Items stand for characters; without it for bytes, of which only ASCII may be asked for. -/
  unicode : Bool

namespace Modes

def initial : Modes := ⟨false, false, true⟩

/-- Letters turn modes on, and those behind a hyphen turn them off. -/
def switch (m : Modes) (letters : List Char) : Modes :=
  let next (letter : Char) (now : Bool) :=
    if letter ∈ letters.takeWhile (· ≠ '-') then true else now && letter ∉ letters
  ⟨next 'i' m.anyCase, next 'x' m.spaced, next 'u' m.unicode⟩

end Modes

/-- No mode may come twice, and some mode has to follow a hyphen. -/
def areSwitches (letters : List Char) : Bool :=
  letters.all (· ∈ "imsUuRx-".toList) && letters.Nodup && letters.getLast? ≠ some '-'

/-- Leaves out blanks and comments; the flag tells whether a comment has begun. -/
def skipSpace : Bool → List Char → List Char
  | _, [] => []
  | true, c :: cs => skipSpace (c ≠ '\n') cs
  | false, c :: cs =>
    if Text.isBlank c then skipSpace false cs
    else if c = '#' then skipSpace true cs
    else c :: cs

def Modes.skip (m : Modes) (cs : List Char) : List Char :=
  if m.spaced then skipSpace false cs else cs

/-! Characters and escapes -/

/-- What a character or an escape stands for. -/
inductive Atom where
  | literal (c : Char)
  | set
  | anchor

/-- The letters that stand for a control character. -/
def control? : Char → Option Char
  | 'a' => some '\x07'
  | 'f' => some '\x0c'
  | 'n' => some '\n'
  | 'r' => some '\r'
  | 't' => some '\t'
  | 'v' => some '\x0b'
  | _ => none

/-- How many hexadecimal digits follow a letter. -/
def hexLength? : Char → Option Nat
  | 'x' => some 2
  | 'u' => some 4
  | 'U' => some 8
  | _ => none

def hexValue? (c : Char) : Option Nat :=
  if c.isDigit then some (c.toNat - '0'.toNat)
  else if 'a' ≤ c.toLower ∧ c.toLower ≤ 'f' then some (c.toLower.toNat - 'a'.toNat + 10)
  else none

/-- So many hexadecimal digits, behind those of a first value. -/
def hexNumber? (m : Modes) : Nat → Nat → List Char → Option (Nat × List Char)
  | 0, value, cs => some (value, cs)
  | n + 1, value, cs =>
    match m.skip cs with
    | [] => none
    | c :: rest => (hexValue? c).bind fun digit => hexNumber? m n (value * 16 + digit) rest

/-- The escapes of one letter or sign. Boundaries of words are known for ASCII only. -/
def shortEscape? (m : Modes) (c : Char) : Option Atom :=
  if c ∈ ['d', 's', 'w'] ∨ (m.unicode ∧ c ∈ ['D', 'S', 'W']) then some .set
  else if c ∈ ['A', 'z'] ∨ (!m.unicode ∧ c ∈ ['b', 'B', '<', '>']) then some .anchor
  else if c.toNat < 0x80 ∧ !c.isAlphanum ∧ c ∉ ['<', '>'] then some (.literal c)
  else (control? c).map .literal

/-- The escape behind a backslash. -/
def escape? (m : Modes) : List Char → Option (Atom × List Char)
  | [] => none
  | c :: cs =>
    match hexLength? c with
    | some n =>
      match hexNumber? m n 0 cs with
      | some (value, rest) =>
        if value.isValidChar ∧ (m.unicode ∨ c ≠ 'x' ∨ value < 0x80) then
          some (.literal (.ofNat value), rest)
        else none
      | none => none
    | none =>
      if c = 'p' ∨ c = 'P' then
        match m.skip cs with
        | kind :: rest =>
          if m.unicode ∧ kind.toLower ∈ "clmnpsz".toList then some (.set, rest) else none
        | [] => none
      else (shortEscape? m c).map fun atom => (atom, cs)

def character? (m : Modes) : List Char → Option (Atom × List Char)
  | [] => none
  | '\\' :: cs => escape? m cs
  | c :: cs => some (.literal c, cs)

/-- An item outside of classes, without what repeats it. -/
def atom? (m : Modes) (cs : List Char) : Option (List Char) :=
  match character? m cs with
  | some (.literal c, rest) =>
    if m.unicode ∨ (cs.head? ≠ some '.' ∧ (!m.anyCase ∨ c.toNat < 0x80)) then some rest else none
  | some (_, rest) => some rest
  | none => none

/-! Nesting -/

/-- Parts side by side nest one deeper than the deepest of them; a single part is no nest. -/
def nested : List Nat → Nat
  | [depth] => depth
  | depths => if depths = [] then 0 else depths.foldl max 0 + 1

/-- How deep a pattern may nest. -/
def maxDepth : Nat := 250

/-! Classes -/

/-- A class that is not closed yet. -/
structure OpenClass where
  /-- How deep the part before the last operator nests. -/
  before : Option Nat
  /-- How deep each member behind the last operator nests. -/
  members : List Nat
  /-- Hyphens at the start stand for themselves. -/
  atStart : Bool

namespace OpenClass

def empty : OpenClass := ⟨none, [], true⟩

def depth (k : OpenClass) : Nat :=
  match k.before with
  | none => nested k.members
  | some before => nested [before, nested k.members]

def add (k : OpenClass) (depth : Nat) : OpenClass := { k with members := depth :: k.members }

def applyOperator (k : OpenClass) : OpenClass := ⟨some k.depth, [], false⟩

end OpenClass

def classNames : List String :=
  ["alnum", "alpha", "ascii", "blank", "cntrl", "digit", "graph", "lower", "print", "punct",
    "space", "upper", "word", "xdigit"]

/-- A caret, which takes what a class does not hold. -/
def caret : List Char → Bool × List Char
  | '^' :: cs => (true, cs)
  | cs => (false, cs)

/-- A class with a name, such as `[:alpha:]`, behind its bracket, and whether it has a caret. -/
def namedClass? : List Char → Option (Bool × List Char)
  | ':' :: cs =>
    let (negated, cs) := caret cs
    match cs.dropWhile (· ≠ ':') with
    | ':' :: ']' :: rest =>
      if String.ofList (cs.takeWhile (· ≠ ':')) ∈ classNames then some (negated, rest) else none
    | _ => none
  | _ => none

/-- A character or an escape in a class. -/
def classAtom? (m : Modes) (cs : List Char) : Option (Atom × List Char) :=
  match character? m cs with
  | some (.literal c, rest) =>
    if m.unicode ∨ c.toNat < 0x80 then some (.literal c, rest) else none
  | some (.set, rest) => some (.set, rest)
  | _ => none

/-- The character behind a hyphen. A comment that starts there is looked into. -/
def Modes.peek (m : Modes) (cs : List Char) : Option Char :=
  if m.spaced then
    match cs.dropWhile Text.isBlank with
    | '#' :: rest => (rest.dropWhile Text.isBlank).head?
    | rest => rest.head?
  else cs.head?

/-- A character, a range or a set as a member of a class. A hyphen before the end of the class or
before another hyphen makes no range. -/
def classMember? (m : Modes) (cs : List Char) : Option (List Char) :=
  match classAtom? m cs with
  | none => none
  | some (first, cs) =>
    match m.skip cs with
    | '-' :: rest =>
      if m.peek rest = some ']' ∨ m.peek rest = some '-' then some ('-' :: rest)
      else
        match first, classAtom? m (m.skip rest) with
        | .literal first, some (.literal last, rest) => if first ≤ last then some rest else none
        | _, _ => none
    | cs => some cs

/-- Reads on in a class that stands in other open ones, up to where the outermost is closed, and
tells how deep that one nests. -/
def closeClass? (m : Modes) : Nat → OpenClass → List OpenClass → List Char →
    Option (Nat × List Char)
  | 0, _, _, _ => none
  | n + 1, k, outer, cs =>
    let cs := m.skip cs
    if k.atStart ∧ cs.head? = some '-' then closeClass? m n (k.add 0) outer cs.tail
    else if k.atStart ∧ k.members = [] ∧ cs.head? = some ']' then
      closeClass? m n { k.add 0 with atStart := false } outer cs.tail
    else
      let k := { k with atStart := false }
      match cs with
      | ']' :: rest =>
        match outer with
        | [] => some (k.depth + 1, rest)
        | next :: outer => closeClass? m n (next.add (k.depth + 1)) outer rest
      | '[' :: rest =>
        match namedClass? rest with
        | some (negated, rest) =>
          if negated ∧ !m.unicode then none else closeClass? m n (k.add 0) outer rest
        | none =>
          let (negated, rest) := caret (m.skip rest)
          if negated ∧ !m.unicode then none else closeClass? m n .empty (k :: outer) rest
      | '&' :: '&' :: rest | '-' :: '-' :: rest | '~' :: '~' :: rest =>
        closeClass? m n k.applyOperator outer rest
      | cs => (classMember? m cs).bind fun rest => closeClass? m n (k.add 0) outer rest

/-- A class behind its opening bracket. -/
def class? (m : Modes) (cs : List Char) : Option (Nat × List Char) :=
  let (negated, rest) := caret (m.skip cs)
  if negated ∧ !m.unicode then none else closeClass? m (rest.length + 1) .empty [] rest

/-! Groups -/

/-- A group that is not closed yet, or the whole pattern. -/
structure OpenGroup where
  /-- The modes around the group. -/
  around : Modes
  /-- How deep each branch nests that a bar has ended. -/
  branches : List Nat
  /-- How deep each item of the last branch nests, the last first. Switches of modes, which cannot
  be repeated, have no depth. -/
  items : List (Option Nat)

namespace OpenGroup

def branch (g : OpenGroup) : Nat := nested (g.items.map (·.getD 0))

def depth (g : OpenGroup) : Nat := nested (g.branch :: g.branches)

def add (g : OpenGroup) (depth : Option Nat) : OpenGroup := { g with items := depth :: g.items }

def endBranch (g : OpenGroup) : OpenGroup := ⟨g.around, g.branch :: g.branches, []⟩

/-- Repeats the last item. -/
def repeat? (g : OpenGroup) : Option OpenGroup :=
  match g.items with
  | some depth :: items => some { g with items := some (depth + 1) :: items }
  | _ => none

end OpenGroup

/-- What an opening parenthesis starts. -/
inductive Opening where
  | group (m : Modes) (name : Option (List Char))
  | switches (m : Modes)

def isName : List Char → Bool
  | [] => false
  | c :: cs =>
    (c = '_' || Text.isLetter c) &&
      cs.all fun c => c ∈ ['_', '.', '[', ']'] || Text.isLetterOrNumeral c

/-- A name up to its closing angle bracket. -/
def named? (m : Modes) (cs : List Char) : Option (Opening × List Char) :=
  let name := cs.takeWhile (· ≠ '>')
  match cs.dropWhile (· ≠ '>') with
  | _ :: rest => if isName name then some (.group m (some name), rest) else none
  | [] => none

/-- What follows an opening parenthesis. -/
def opening? (m : Modes) : List Char → Option (Opening × List Char)
  | '?' :: 'P' :: '<' :: cs => named? m cs
  | '?' :: '<' :: cs => named? m cs
  | '?' :: cs =>
    let letters := cs.takeWhile fun c => c ≠ ':' ∧ c ≠ ')'
    if areSwitches letters then
      match cs.dropWhile fun c => c ≠ ':' ∧ c ≠ ')' with
      | ':' :: rest => some (.group (m.switch letters) none, rest)
      | _ :: rest => if letters = [] then none else some (.switches (m.switch letters), rest)
      | [] => none
    else none
  | cs => some (.group m none, cs)

/-- A question mark directly behind an operator makes it lazy. -/
def skipLazy : List Char → List Char
  | '?' :: cs => cs
  | cs => cs

/-- Reads on in a group that stands in other open ones, up to the end of the pattern, and tells how
deep that nests. No two groups have the same name. -/
def depth? : Nat → Modes → List (List Char) → OpenGroup → List OpenGroup → List Char → Option Nat
  | 0, _, _, _, _, _ => none
  | n + 1, m, names, g, outer, cs =>
    match m.skip cs with
    | [] => if outer.isEmpty then some g.depth else none
    | '(' :: rest =>
      match opening? m (m.skip rest) with
      | some (.switches next, rest) => depth? n next names (g.add none) outer rest
      | some (.group next none, rest) => depth? n next names ⟨m, [], []⟩ (g :: outer) rest
      | some (.group next (some name), rest) =>
        if name ∈ names then none
        else depth? n next (name :: names) ⟨m, [], []⟩ (g :: outer) rest
      | none => none
    | ')' :: rest =>
      match outer with
      | [] => none
      | next :: outer => depth? n g.around names (next.add (some (g.depth + 1))) outer rest
    | '|' :: rest => depth? n m names g.endBranch outer rest
    | '[' :: rest =>
      (class? m rest).bind fun (depth, rest) => depth? n m names (g.add (some depth)) outer rest
    | '\x7b' :: _ => none
    | c :: rest =>
      if c = '?' ∨ c = '*' ∨ c = '+' then
        g.repeat?.bind fun g => depth? n m names g outer (skipLazy rest)
      else (atom? m (c :: rest)).bind fun rest => depth? n m names (g.add (some 0)) outer rest

def isWellFormed (cs : List Char) : Bool :=
  (depth? (cs.length + 1) .initial [] ⟨.initial, [], []⟩ [] cs).any (· ≤ maxDepth)

end Generation.Log.Pattern
