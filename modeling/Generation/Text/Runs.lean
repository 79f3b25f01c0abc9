/-!
Sets of characters, given by the ascending code points at which one starts or ends to hold them.
-/
namespace Generation.Text

/-- A character is in a set if an odd number of boundaries lies at or below it. -/
def inRuns (boundaries : List Nat) (c : Char) : Bool :=
  (boundaries.takeWhile (· ≤ c.toNat)).length % 2 == 1

end Generation.Text
