import Generation.Json.Fault
import Generation.Schema.Tree

/-!
Schema trees from JSON descriptions. What an object describes is decided by the first of `anyOf`,
`enum`, `items`, `properties` and `type` that has a fitting value.
-/
namespace Generation.Schema

inductive Error where
  | notJson (e : Json.ReadError)
  | rootNotObject
  | invalidProperty (key : String)
  | noVariants (enumeration : String)
  | notSchema

def Error.message : Error → String
  | .notJson e => s!"Invalid JSON in schema file: {e.message}"
  | .rootNotObject => "Schema root must be a JSON object"
  | .invalidProperty key => s!"Property '{key}' must be a JSON object"
  | .noVariants enumeration =>
    s!"Schema cannot be represented: enumeration '{enumeration}' has no variants"
  | .notSchema => "Schema cannot be represented: compiled document is not a valid JSON Schema"

/-- The name of a root that has none of its own. -/
def defaultRootName : String := "Root"

/-- A member that is a list of strings and nothing else. -/
def strings? (members : Json.Members) (name : String) : Option (List String) :=
  ((members.lookup name).bind Json.array?).bind fun items => items.mapM Json.string?

def variants? (members : Json.Members) : Option (List String) :=
  (strings? members "anyOf").or (strings? members "enum")

def ownName (defaultName : String) (members : Json.Members) : String :=
  ((members.lookup "name").bind Json.string?).getD defaultName

def ownDescription (members : Json.Members) : Option String :=
  (members.lookup "description").bind Json.string?

def primitive? (members : Json.Members) : Option Primitive :=
  ((members.lookup "type").bind Json.string?).bind Primitive.ofTypeName?

mutual

/-- The tree that an object describes. Elements of an array get their name from it, and properties
from their key. -/
def build (defaultName : String) : Json → Except Error Tree
  | .object members =>
    let name := ownName defaultName members
    let description := ownDescription members
    match variants? members with
    | some variants => .ok (.enumeration name description variants)
    | none =>
      match buildItems name members with
      | some element =>
        element.map fun element =>
          .array element ((members.lookup "minItems").bind Json.word?)
            ((members.lookup "maxItems").bind Json.word?)
      | none =>
        match buildProperties ((strings? members "required").getD []) members with
        | some properties => properties.map (.object name description)
        | none =>
          match primitive? members with
          | some kind => .ok (.primitive kind)
          | none => .ok (.leaf name description)
  | _ => .error .rootNotObject

/-- The tree of the member `items`, if that is an object. -/
def buildItems (name : String) : Json.Members → Option (Except Error Tree)
  | [] => none
  | (key, v) :: rest =>
    if key = "items" then
      match v with
      | .object members => some (build name (.object members))
      | _ => none
    else buildItems name rest

/-- The properties in the member `properties`, if that is an object. -/
def buildProperties (required : List String) :
    Json.Members → Option (Except Error (List (Property Tree)))
  | [] => none
  | (key, v) :: rest =>
    if key = "properties" then
      match v with
      | .object members => some (buildEach required members)
      | _ => none
    else buildProperties required rest

/-- A property is optional unless it is required by name. -/
def buildEach (required : List String) : Json.Members → Except Error (List (Property Tree))
  | [] => .ok []
  | (key, v) :: rest =>
    match v with
    | .object members =>
      match build key (.object members) with
      | .error e => .error e
      | .ok schema =>
        (buildEach required rest).map
          (⟨key, ownDescription members, !required.contains key, schema⟩ :: ·)
    | _ => .error (.invalidProperty key)

end

/-- The tree that a whole description stands for. -/
def buildRoot (v : Json) : Except Error Tree := build defaultRootName v

end Generation.Schema
