import Generation.Json.Reader
import Generation.Schema.Document
import Generation.Schema.MetaSchema

/-! Schemas ready for use: a tree together with its JSON Schema document. -/
namespace Generation.Schema

structure Compiled where
  root : Tree
  document : Json

namespace Compiled

def ofTree (root : Tree) : Except Error Compiled :=
  match Schema.document root with
  | .error e => .error e
  | .ok document =>
    if MetaSchema.accepts document then .ok ⟨root, document⟩ else .error .notSchema

def ofJson (v : Json) : Except Error Compiled :=
  match buildRoot v with
  | .error e => .error e
  | .ok root => ofTree root

def ofText (text : List UInt8) : Except Error Compiled :=
  match Json.parse text with
  | .error e => .error (.notJson e)
  | .ok v => ofJson v

/-- The name of the root; kinds without a name have the default one. -/
def name (c : Compiled) : String := c.root.name?.getD defaultRootName

def text (pretty : Bool) (c : Compiled) : String := c.document.write pretty

end Compiled

end Generation.Schema
