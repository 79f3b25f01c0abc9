/-!
The number of single-character insertions, deletions and substitutions between two texts, and the
candidate nearest to a text.
-/
namespace Generation

/-- Continues a row of the table of distances. `row` holds the distances of a text to the prefixes
of `target` from some place on, and `left` the entry just before in the row of the text with `c`
added at its end. -/
def extendRow (c : Char) : Nat → List Char → List Nat → List Nat
  | left, t :: target, diagonal :: up :: row =>
    let here := min (min (up + 1) (left + 1)) (diagonal + if c = t then 0 else 1)
    here :: extendRow c here target (up :: row)
  | _, _, _ => []

/-- The row of a text with `c` added, from the row of the text. -/
def nextRow (target : List Char) (row : List Nat) (c : Char) : List Nat :=
  let first := row.headD 0 + 1
  first :: extendRow c first target row

/-- The distances of `source` to the prefixes of `target`, shortest first. -/
def prefixDistances (source target : List Char) : List Nat :=
  source.foldl (nextRow target) (List.range (target.length + 1))

def editDistance (source target : List Char) : Nat :=
  (prefixDistances source target).getLastD 0

/-- The nearer of two measured candidates, the first one on a tie. -/
def nearer (a b : Nat × String) : Nat × String :=
  if b.1 < a.1 then b else a

/-- The candidate nearest to `input` among those at most `limit` edits away, the first on a tie. -/
def closest? (input : String) (candidates : List String) (limit : Nat) : Option String :=
  let measured := candidates.map fun c => (editDistance input.toList c.toList, c)
  match measured.filter (·.1 ≤ limit) with
  | [] => none
  | first :: rest => some (rest.foldl nearer first).2

end Generation
