import Generation.Schema.Builder

/-! JSON Schema documents of trees. Members stand in ascending order. -/
namespace Generation.Schema

/-- A member that is there only with a value. -/
def member? (name : String) (f : α → Json) : Option α → Json.Members
  | none => []
  | some a => [(name, f a)]

def wordJson (n : UInt64) : Json := .number (.integer n.toNat)

/-- Adds a description to a node that has none. -/
def describe (description : Option String) (node : Json) : Json :=
  match description, node with
  | some d, .object members =>
    if (members.lookup "description").isSome then node
    else .object (Json.insert "description" (.string d) members)
  | _, node => node

def requiredNames (properties : List (Property Tree)) : List Json :=
  (properties.filter (!·.isOptional)).map (.string ·.name)

mutual

def document : Tree → Except Error Json
  | .object name description properties =>
    (propertyDocuments properties).map fun documents =>
      .object (("additionalProperties", .boolean false) ::
        member? "description" .string description ++
        [("properties", .object documents), ("required", .array (requiredNames properties)),
          ("title", .string name), ("type", .string "object")])
  | .array element least greatest =>
    (document element).map fun items =>
      .object (("items", items) :: member? "maxItems" wordJson greatest ++
        member? "minItems" wordJson least ++ [("type", .string "array")])
  | .enumeration name _ [] => .error (.noVariants name)
  | .enumeration name description variants =>
    .ok (.object (member? "description" .string description ++
      [("enum", .array (variants.map .string)), ("title", .string name),
        ("type", .string "string")]))
  | .primitive kind => .ok (.object [("type", .string kind.typeName)])
  | .leaf name description =>
    .ok (.object (member? "description" .string description ++ [("title", .string name)]))

def propertyDocuments : List (Property Tree) → Except Error Json.Members
  | [] => .ok []
  | ⟨name, description, _, schema⟩ :: rest =>
    match document schema with
    | .error e => .error e
    | .ok node => (propertyDocuments rest).map ((name, describe description node) :: ·)

end

end Generation.Schema
