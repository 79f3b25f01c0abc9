/-!
Texts as bytes, in UTF-8.
-/
namespace Generation.Text

def bytes (s : String) : List UInt8 := s.toList.flatMap String.utf8EncodeChar

def decode? (bs : List UInt8) : Option String := String.fromUTF8? ⟨bs.toArray⟩

/-- The length of the longest start that is well encoded. -/
def wellEncodedLength (bs : List UInt8) : Nat :=
  ((List.range (bs.length + 1)).reverse.find? fun n => (decode? (bs.take n)).isSome).getD 0

end Generation.Text
