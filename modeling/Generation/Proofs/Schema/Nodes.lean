import Generation.Proofs.Schema.Acceptance

/-! What stands in a node of a document: its heading, and the nodes below it. -/
namespace Generation.Schema

open Json (Members)

variable {name key : String} {members : Members} {d : Json} {t element : Tree}
  {description : Option String} {properties : List (Property Tree)}

@[simp] theorem lookup_member?_self {α : Type} {f : α → Json} {o : Option α} :
    (member? key f o).lookup key = o.map f := by
  cases o <;> simp [member?]

@[simp] theorem lookup_member?_of_ne {α : Type} {f : α → Json} {o : Option α} (h : key ≠ name) :
    (member? name f o).lookup key = none := by
  cases o with
  | none => rfl
  | some a => simp [member?, List.lookup_cons, beq_eq_false_iff_ne.mpr h]

theorem exists_of_mem_member? {α : Type} {f : α → Json} {o : Option α} {m : String × Json}
    (h : m ∈ member? name f o) : ∃ a, o = some a ∧ m = (name, f a) := by
  cases o with
  | none => cases h
  | some a => exact ⟨a, rfl, List.mem_singleton.mp h⟩

/-- The members of a node that say what it is called and what it is about. -/
structure HasHeading (members : Members) (title description : Option String) : Prop where
  title : members.lookup "title" = title.map .string
  description : members.lookup "description" = description.map .string

/-- The nodes that trees are rendered as, by their members. -/
inductive Rendered : Tree → Members → Prop where
  | object {name : String} {description : Option String} {properties : List (Property Tree)}
    {documents : Members} : propertyDocuments properties = .ok documents →
    Rendered (.object name description properties)
      (("additionalProperties", .boolean false) :: member? "description" .string description ++
        [("properties", .object documents), ("required", .array (requiredNames properties)),
          ("title", .string name), ("type", .string "object")])
  | array {element : Tree} {least greatest : Option UInt64} {items : Json} :
    document element = .ok items →
    Rendered (.array element least greatest)
      (("items", items) :: member? "maxItems" wordJson greatest ++
        member? "minItems" wordJson least ++ [("type", .string "array")])
  | enumeration {name : String} {description : Option String} (variant : String)
    (variants : List String) :
    Rendered (.enumeration name description (variant :: variants))
      (member? "description" .string description ++
        [("enum", .array ((variant :: variants).map .string)), ("title", .string name),
          ("type", .string "string")])
  | primitive (kind : Primitive) : Rendered (.primitive kind) [("type", .string kind.typeName)]
  | leaf {name : String} {description : Option String} :
    Rendered (.leaf name description)
      (member? "description" .string description ++ [("title", .string name)])

theorem rendered_of_document (hd : document t = .ok d) :
    ∃ members, d = .object members ∧ Rendered t members := by
  cases t with
  | object name description properties =>
    rw [document] at hd
    obtain ⟨documents, hdocuments, rfl⟩ := map_eq_ok hd
    exact ⟨_, rfl, .object hdocuments⟩
  | array element least greatest =>
    rw [document] at hd
    obtain ⟨items, hitems, rfl⟩ := map_eq_ok hd
    exact ⟨_, rfl, .array hitems⟩
  | enumeration name description variants =>
    cases variants with
    | nil => cases hd
    | cons variant variants =>
      rw [document_enumeration] at hd
      obtain rfl := Except.ok.inj hd
      exact ⟨_, rfl, .enumeration variant variants⟩
  | primitive kind =>
    rw [document] at hd
    obtain rfl := Except.ok.inj hd
    exact ⟨_, rfl, .primitive kind⟩
  | leaf name description =>
    rw [document] at hd
    obtain rfl := Except.ok.inj hd
    exact ⟨_, rfl, .leaf⟩

/-- The type that the node of a tree names. -/
def Tree.typeName? : Tree → Option String
  | .object .. => some "object"
  | .array .. => some "array"
  | .enumeration .. => some "string"
  | .primitive kind => some kind.typeName
  | .leaf .. => none

/-- The members that the node of a tree can have. -/
inductive NodeMember : Tree → String × Json → Prop where
  | closed {name : String} {description : Option String} {properties : List (Property Tree)} :
    NodeMember (.object name description properties) ("additionalProperties", .boolean false)
  | properties {name : String} {description : Option String} {properties : List (Property Tree)}
    {documents : Members} : propertyDocuments properties = .ok documents →
    NodeMember (.object name description properties) ("properties", .object documents)
  | required {name : String} {description : Option String} {properties : List (Property Tree)} :
    NodeMember (.object name description properties) ("required", .array (requiredNames properties))
  | items {element : Tree} {least greatest : Option UInt64} {items : Json} :
    document element = .ok items → NodeMember (.array element least greatest) ("items", items)
  | greatest {element : Tree} {least : Option UInt64} (n : UInt64) :
    NodeMember (.array element least (some n)) ("maxItems", wordJson n)
  | least {element : Tree} {greatest : Option UInt64} (n : UInt64) :
    NodeMember (.array element (some n) greatest) ("minItems", wordJson n)
  | variants {name : String} {description : Option String} (variants : List String) :
    NodeMember (.enumeration name description variants) ("enum", .array (variants.map .string))
  | description {t : Tree} {text : String} : t.description? = some text →
    NodeMember t ("description", .string text)
  | title {t : Tree} {name : String} : t.name? = some name → NodeMember t ("title", .string name)
  | type {t : Tree} {n : String} : t.typeName? = some n → NodeMember t ("type", .string n)

theorem Rendered.nodeMember (h : Rendered t members) {m : String × Json} (hm : m ∈ members) :
    NodeMember t m := by
  cases h with
  | object hdocuments =>
    simp only [List.mem_cons, List.mem_append, List.not_mem_nil, or_false] at hm
    rcases hm with (rfl | hm) | rfl | rfl | rfl | rfl
    · exact .closed
    · obtain ⟨text, rfl, rfl⟩ := exists_of_mem_member? hm
      exact .description rfl
    · exact .properties hdocuments
    · exact .required
    · exact .title rfl
    · exact .type rfl
  | array hitems =>
    simp only [List.mem_cons, List.mem_append, List.not_mem_nil, or_false] at hm
    rcases hm with ((rfl | hm) | hm) | rfl
    · exact .items hitems
    · obtain ⟨n, rfl, rfl⟩ := exists_of_mem_member? hm
      exact .greatest n
    · obtain ⟨n, rfl, rfl⟩ := exists_of_mem_member? hm
      exact .least n
    · exact .type rfl
  | enumeration variant variants =>
    simp only [List.mem_cons, List.mem_append, List.not_mem_nil, or_false] at hm
    rcases hm with hm | rfl | rfl | rfl
    · obtain ⟨text, rfl, rfl⟩ := exists_of_mem_member? hm
      exact .description rfl
    · exact .variants (variant :: variants)
    · exact .title rfl
    · exact .type rfl
  | primitive kind =>
    obtain rfl := List.mem_singleton.mp hm
    exact .type rfl
  | leaf =>
    simp only [List.mem_append, List.mem_singleton] at hm
    rcases hm with hm | rfl
    · obtain ⟨text, rfl, rfl⟩ := exists_of_mem_member? hm
      exact .description rfl
    · exact .title rfl

/-- A node has the name of its tree as its title, and the description of its tree. -/
theorem Rendered.hasHeading (h : Rendered t members) :
    HasHeading members t.name? t.description? := by
  constructor
  · cases h <;> simp [List.lookup_cons, List.lookup_append, Tree.name?]
  · cases h <;> simp [List.lookup_cons, List.lookup_append, Tree.description?]

/-- Nodes have no member `name`, by which descriptions name theirs. -/
theorem Rendered.lookup_name (h : Rendered t members) : members.lookup "name" = none := by
  cases h <;> simp [List.lookup_cons, List.lookup_append]

theorem lookup_items {least greatest : Option UInt64}
    (h : Rendered (.array element least greatest) members) :
    ∃ items, document element = .ok items ∧ members.lookup "items" = some items := by
  cases h with
  | array hitems => exact ⟨_, hitems, by simp⟩

theorem lookup_properties (h : Rendered (.object name description properties) members) :
    ∃ documents, propertyDocuments properties = .ok documents ∧
      members.lookup "properties" = some (.object documents) := by
  cases h with
  | object hdocuments =>
    exact ⟨_, hdocuments, by simp [List.lookup_cons, List.lookup_append]⟩

end Generation.Schema
