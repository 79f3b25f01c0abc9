import Generation.Proofs.Json.Paths
import Generation.Proofs.Schema.Recompilation

/-!
Titles and descriptions in documents. A node has a title if its kind has one: its own name, or the
name that it gets from where it stands. It has its own description if its kind has one or if it is
the value of a property. There are no other titles and descriptions.
-/
namespace Generation.Schema

open Json (Members Flat at?_append at?_cons at?_object_cons flat_boolean flat_number flat_string
  flat_strings mem_of_lookup)

/-! Nodes of descriptions -/

inductive NodeKind where
  | enumeration
  | array
  | object
  | primitive
  | leaf
  deriving DecidableEq

/-- What an object describes is decided by the first keyword that has a fitting value. -/
def nodeKind (members : Members) : NodeKind :=
  if (variants? members).isSome then .enumeration
  else if (items? members).isSome then .array
  else if (properties? members).isSome then .object
  else if (primitive? members).isSome then .primitive
  else .leaf

/-- The kinds whose nodes have titles. -/
def NodeKind.isTitled : NodeKind → Bool
  | enumeration | object | leaf => true
  | array | primitive => false

/-- Where a node stands: it is the root, an element of an array, or a property of an object. -/
inductive Place where
  | root
  | element (array : Members) (place : Place)
  | property (key : String) (place : Place)

namespace Place

/-- The name that a place gives to a node without a name of its own. Arrays hand theirs on to their
elements, down to the next property. -/
def name : Place → String
  | root => defaultRootName
  | element array place => ownName place.name array
  | property key _ => key

def isProperty : Place → Bool
  | property .. => true
  | _ => false

/-- The way to the node in the document. -/
def path : Place → List Json.Step
  | root => []
  | element _ place => place.path ++ [.member "items"]
  | property key place => place.path ++ [.member "properties", .member key]

end Place

/-- The nodes of a description, each with its place. -/
inductive Reached (root : Members) : Place → Members → Prop where
  | root : Reached root .root root
  | element {place : Place} {array element : Members} : Reached root place array →
    nodeKind array = .array → items? array = some element →
    Reached root (.element array place) element
  | property {place : Place} {object properties sub : Members} {key : String} :
    Reached root place object → nodeKind object = .object →
    properties? object = some properties → properties.lookup key = some (.object sub) →
    Reached root (.property key place) sub

/-- The title of a node. -/
def title? (place : Place) (members : Members) : Option String :=
  if (nodeKind members).isTitled then some (ownName place.name members) else none

/-- The description of a node, as far as it is shown. -/
def description? (place : Place) (members : Members) : Option String :=
  if (nodeKind members).isTitled || place.isProperty then ownDescription members else none

/-- An object that is found in the document is a node, or it holds the properties of one under
their keys, which are no keywords. -/
def IsAccounted (root : Members) (path : List Json.Step) (found : Members) : Prop :=
  (∃ place members, Reached root place members ∧ place.path = path) ∨
    ∃ place members properties, Reached root place members ∧ nodeKind members = .object ∧
      properties? members = some properties ∧ place.path ++ [.member "properties"] = path ∧
      found.map Prod.fst = properties.map Prod.fst

/-- What it means that the nodes of a document, and nothing else in it, have headings. -/
structure Headed (root : Members) (document : Json) : Prop where
  /-- Every node of the description has one in the document, with its title and description. -/
  nodes : ∀ place members, Reached root place members →
    ∃ node, document.at? place.path = some (.object node) ∧
      HasHeading node (title? place members) (description? place members)
  /-- There are no objects in the document but these nodes and what holds their properties. -/
  others : ∀ path found, document.at? path = some (.object found) → IsAccounted root path found

variable {root members node documents entries : Members} {name key : String} {path : List Json.Step}
  {v w : Json} {t : Tree} {c : Compiled} {description : Option String} {names : List String}
  {properties : List (Property Tree)} {place : Place}

/-! Trees -/

/-- The ways in which a tree is built. -/
inductive BuildStep (name : String) (members : Members) : Tree → Prop where
  | enumeration (variants : List String) : nodeKind members = .enumeration →
    BuildStep name members
      (.enumeration (ownName name members) (ownDescription members) variants)
  | array {inner : Members} {element : Tree} (least greatest : Option UInt64) :
    nodeKind members = .array → items? members = some inner →
    build (ownName name members) (.object inner) = .ok element →
    BuildStep name members (.array element least greatest)
  | object {entries : Members} {properties : List (Property Tree)} :
    nodeKind members = .object → properties? members = some entries →
    buildEach (required members) entries = .ok properties →
    BuildStep name members (.object (ownName name members) (ownDescription members) properties)
  | primitive (kind : Primitive) : nodeKind members = .primitive →
    BuildStep name members (.primitive kind)
  | leaf : nodeKind members = .leaf →
    BuildStep name members (.leaf (ownName name members) (ownDescription members))

theorem buildStep_of_build (h : build name (.object members) = .ok t) :
    BuildStep name members t := by
  match hv : variants? members, hi : items? members, hp : properties? members with
  | some variants, _, _ =>
    rw [build_enumeration hv] at h
    obtain rfl := Except.ok.inj h
    exact .enumeration variants (by simp [nodeKind, hv])
  | none, some inner, _ =>
    rw [build_items hv hi] at h
    obtain ⟨element, helement, rfl⟩ := map_eq_ok h
    exact .array _ _ (by simp [nodeKind, hv, hi]) hi helement
  | none, none, some entries =>
    rw [build_properties hv hi hp] at h
    obtain ⟨properties, hproperties, rfl⟩ := map_eq_ok h
    exact .object (by simp [nodeKind, hv, hi, hp]) hp hproperties
  | none, none, none =>
    rw [build_other hv hi hp] at h
    obtain rfl := Except.ok.inj h
    cases hkind : primitive? members with
    | some kind => exact .primitive kind (by simp [nodeKind, hv, hi, hp, hkind])
    | none => exact .leaf (by simp [nodeKind, hv, hi, hp, hkind])

/-- A tree has the name and the description of its node, if its kind has them. -/
theorem heading_of_build (h : build name (.object members) = .ok t) :
    t.name? = (if (nodeKind members).isTitled then some (ownName name members) else none) ∧
      t.description? = if (nodeKind members).isTitled then ownDescription members else none := by
  cases buildStep_of_build h with
  | enumeration variants hkind => simp [hkind, NodeKind.isTitled, Tree.name?, Tree.description?]
  | array least greatest hkind => simp [hkind, NodeKind.isTitled, Tree.name?, Tree.description?]
  | object hkind => simp [hkind, NodeKind.isTitled, Tree.name?, Tree.description?]
  | primitive kind hkind => simp [hkind, NodeKind.isTitled, Tree.name?, Tree.description?]
  | leaf hkind => simp [hkind, NodeKind.isTitled, Tree.name?, Tree.description?]

/-- The entry under a key and the node under this key in the document belong together. -/
theorem lookup_documents (hbuild : buildEach names entries = .ok properties)
    (hd : propertyDocuments properties = .ok documents) (key : String) :
    (entries.lookup key = none ∧ documents.lookup key = none) ∨
      ∃ sub schema node, entries.lookup key = some (.object sub) ∧
        build key (.object sub) = .ok schema ∧ document schema = .ok node ∧
        documents.lookup key = some (describe (ownDescription sub) node) := by
  induction entries generalizing properties documents with
  | nil =>
    rw [buildEach] at hbuild
    obtain rfl := Except.ok.inj hbuild
    rw [propertyDocuments] at hd
    obtain rfl := Except.ok.inj hd
    exact Or.inl ⟨rfl, rfl⟩
  | cons m rest ih =>
    obtain ⟨name, v⟩ := m
    obtain ⟨sub, schema, others, rfl, hschema, hothers, rfl⟩ := buildEach_cons_eq_ok hbuild
    obtain ⟨node, nodes, hnode, hnodes, rfl⟩ := propertyDocuments_cons_eq_ok hd
    rw [List.lookup_cons, List.lookup_cons]
    by_cases hname : key = name
    · subst hname
      right
      exact ⟨sub, schema, node, by simp, hschema, hnode, by simp⟩
    · rw [beq_eq_false_iff_ne.mpr hname]
      exact ih hothers hnodes

/-! Nodes of documents -/

/-- The description that a node gets on top of its own. -/
def addedDescription (place : Place) (members : Members) : Option String :=
  if place.isProperty then ownDescription members else none

/-- A node of the description and the node in the document that it is compiled to. -/
structure CompiledTo (d : Json) (place : Place) (members : Members) (t : Tree) (node : Members) :
    Prop where
  built : build place.name (.object members) = .ok t
  rendered : Rendered t node
  found : d.at? place.path =
    some (.object (described (addedDescription place members) node))

variable {d : Json}

theorem CompiledTo.hasHeading (h : CompiledTo d place members t node) :
    HasHeading (described (addedDescription place members) node) (title? place members)
      (description? place members) := by
  obtain ⟨hname, hdescription⟩ := heading_of_build h.built
  have hheading := h.rendered.hasHeading
  rw [hname, hdescription] at hheading
  constructor
  · rw [lookup_described_of_ne (by decide)]
    exact hheading.title
  · have hnode := hheading.description
    cases hplace : place.isProperty with
    | false =>
      have hadded : addedDescription place members = none := by simp [addedDescription, hplace]
      rw [hadded, description?, hplace, Bool.or_false]
      exact hnode
    | true =>
      have hadded : addedDescription place members = ownDescription members := by
        simp [addedDescription, hplace]
      rw [hadded, description?, hplace, Bool.or_true, if_pos rfl]
      apply lookup_described
      cases htitled : (nodeKind members).isTitled with
      | false =>
        left
        simpa [htitled] using hnode
      | true =>
        right
        simpa [htitled] using hnode

theorem compiledTo_element {array inner : Members} {element : Tree} {least greatest : Option UInt64}
    (h : CompiledTo d place array (.array element least greatest) node)
    (hbuild : build (ownName place.name array) (.object inner) = .ok element) :
    ∃ items, CompiledTo d (.element array place) inner element items := by
  obtain ⟨w, hw, hlookup⟩ := lookup_items h.rendered
  obtain ⟨items, rfl, hrendered⟩ := rendered_of_document hw
  refine ⟨items, hbuild, hrendered, ?_⟩
  rw [Place.path, at?_append, h.found, Option.bind_some, at?_cons, Json.child?,
    lookup_described_of_ne (by decide), hlookup]
  rfl

theorem compiledTo_property {object sub : Members}
    (h : CompiledTo d place object (.object name description properties) node)
    (hbuild : buildEach names entries = .ok properties)
    (hsub : entries.lookup key = some (.object sub)) :
    ∃ schema inner, CompiledTo d (.property key place) sub schema inner := by
  obtain ⟨documents, hdocuments, hlookup⟩ := lookup_properties h.rendered
  rcases lookup_documents hbuild hdocuments key with ⟨hnone, -⟩ | ⟨sub', schema, w, hsome, hschema,
    hw, hkey⟩
  · rw [hnone] at hsub
    cases hsub
  · rw [hsome] at hsub
    cases hsub
    obtain ⟨inner, rfl, hrendered⟩ := rendered_of_document hw
    refine ⟨schema, inner, hschema, hrendered, ?_⟩
    rw [describe_object] at hkey
    rw [Place.path, at?_append, h.found, Option.bind_some, at?_cons, Json.child?,
      lookup_described_of_ne (by decide), hlookup, Option.bind_some, at?_cons, Json.child?, hkey]
    rfl

theorem compiledTo_of_reached (hroot : CompiledTo d .root root t node)
    (h : Reached root place members) : ∃ t node, CompiledTo d place members t node := by
  induction h with
  | root => exact ⟨t, node, hroot⟩
  | element _ hkind hitems ih =>
    obtain ⟨t, node, hcompiled⟩ := ih
    -- the tree of the array was built in the way of its kind
    cases buildStep_of_build hcompiled.built with
    | array least greatest _ hinner hbuild =>
      obtain rfl := Option.some.inj (hitems.symm.trans hinner)
      obtain ⟨items, helement⟩ := compiledTo_element hcompiled hbuild
      exact ⟨_, items, helement⟩
    | enumeration _ hother | object hother | primitive _ hother | leaf hother =>
      rw [hkind] at hother
      cases hother
  | property _ hkind hproperties hsub ih =>
    obtain ⟨t, node, hcompiled⟩ := ih
    cases buildStep_of_build hcompiled.built with
    | object _ hentries hbuild =>
      obtain rfl := Option.some.inj (hproperties.symm.trans hentries)
      exact compiledTo_property hcompiled hbuild hsub
    | enumeration _ hother | array _ _ hother | primitive _ hother | leaf hother =>
      rw [hkind] at hother
      cases hother

/-! What else stands in documents -/

/-- In a node only `items` and `properties` have objects in them. -/
theorem flat_of_mem (h : Rendered t node) (hm : (key, v) ∈ node) :
    Flat v ∨
      (∃ element least greatest, t = .array element least greatest ∧ key = "items") ∨
      ∃ name description properties, t = .object name description properties ∧
        key = "properties" := by
  cases h.nodeMember hm with
  | items => exact Or.inr (Or.inl ⟨_, _, _, rfl, rfl⟩)
  | properties => exact Or.inr (Or.inr ⟨_, _, _, rfl, rfl⟩)
  | closed => exact Or.inl (flat_boolean false)
  | required => exact Or.inl (flat_strings Property.name _)
  | variants variants => exact Or.inl (flat_strings id variants)
  | greatest | least => exact Or.inl (flat_number _)
  | description | title | type => exact Or.inl (flat_string _)

variable {found : Members} {step : Json.Step} {rest : List Json.Step}

/-- What is found behind a node is found through `items` in an array, and through `properties` in
an object. -/
theorem found_behind (hrendered : Rendered t node)
    (h : (Json.object (described description node)).at? (step :: rest) = some (.object found)) :
    (∃ element least greatest, t = .array element least greatest ∧ step = .member "items") ∨
      ∃ name description properties, t = .object name description properties ∧
        step = .member "properties" := by
  obtain ⟨key, w, rfl, hw, hrest⟩ := at?_object_cons h
  have hflat : Flat w ∨
      (∃ element least greatest, t = .array element least greatest ∧ key = "items") ∨
      ∃ name description properties, t = .object name description properties ∧
        key = "properties" := by
    rcases mem_described (mem_of_lookup hw) with ⟨text, heq⟩ | hm
    · cases heq
      exact Or.inl (flat_string text)
    · exact flat_of_mem hrendered hm
  rcases hflat with hflat | ⟨element, least, greatest, ht, rfl⟩ | ⟨name, description, properties,
    ht, rfl⟩
  · exact absurd hrest (hflat rest found)
  · exact Or.inl ⟨element, least, greatest, ht, rfl⟩
  · exact Or.inr ⟨name, description, properties, ht, rfl⟩

/-- The way from one node to another below it. -/
theorem CompiledTo.at?_behind {place' : Place} {sub inner : Members} {u : Tree}
    (h : CompiledTo d place members t node) (h' : CompiledTo d place' sub u inner)
    (hpath : place'.path = place.path ++ path) :
    (Json.object (described (addedDescription place members) node)).at? path =
      some (.object (described (addedDescription place' sub) inner)) := by
  have hat := h'.found
  rwa [hpath, at?_append, h.found] at hat

theorem found_behind_items {array inner : Members} {element : Tree} {least greatest : Option UInt64}
    (h : CompiledTo d place array (.array element least greatest) node)
    (hbuild : build (ownName place.name array) (.object inner) = .ok element)
    (hfound : (Json.object (described (addedDescription place array) node)).at?
      (.member "items" :: rest) = some (.object found)) :
    ∃ items, CompiledTo d (.element array place) inner element items ∧
      (Json.object (described (addedDescription (.element array place) inner) items)).at? rest =
        some (.object found) := by
  obtain ⟨items, hitems⟩ := compiledTo_element h hbuild
  refine ⟨items, hitems, ?_⟩
  rwa [← List.singleton_append, at?_append, h.at?_behind hitems rfl] at hfound

theorem found_behind_properties {object : Members}
    (h : CompiledTo d place object (.object name description properties) node)
    (hbuild : buildEach names entries = .ok properties)
    (hfound : (Json.object (described (addedDescription place object) node)).at?
      (.member "properties" :: step :: rest) = some (.object found)) :
    ∃ key sub schema inner, step = .member key ∧ entries.lookup key = some (.object sub) ∧
      CompiledTo d (.property key place) sub schema inner ∧
      (Json.object (described (addedDescription (.property key place) sub) inner)).at? rest =
        some (.object found) := by
  obtain ⟨documents, hdocuments, hlookup⟩ := lookup_properties h.rendered
  have hbehind := hfound
  rw [at?_cons, Json.child?, lookup_described_of_ne (by decide), hlookup,
    Option.bind_some] at hbehind
  obtain ⟨key, w, rfl, hw, -⟩ := at?_object_cons hbehind
  rcases lookup_documents hbuild hdocuments key with ⟨-, hnone⟩ | ⟨sub, -, -, hsub, -⟩
  · rw [hnone] at hw
    cases hw
  · obtain ⟨schema, inner, hproperty⟩ := compiledTo_property h hbuild hsub
    refine ⟨key, sub, schema, inner, rfl, hsub, hproperty, ?_⟩
    change Json.at? _ ([.member "properties", .member key] ++ rest) = _ at hfound
    rwa [at?_append, h.at?_behind hproperty rfl] at hfound

theorem names_behind_properties {object : Members}
    (h : CompiledTo d place object (.object name description properties) node)
    (hbuild : buildEach names entries = .ok properties)
    (hfound : (Json.object (described (addedDescription place object) node)).at?
      [.member "properties"] = some (.object found)) :
    found.map Prod.fst = entries.map Prod.fst := by
  obtain ⟨documents, hdocuments, hlookup⟩ := lookup_properties h.rendered
  rw [at?_cons, Json.child?, lookup_described_of_ne (by decide), hlookup] at hfound
  obtain rfl := Json.object.inj (Option.some.inj hfound)
  rw [names_of_propertyDocuments hdocuments, names_of_buildEach hbuild]

/-- Every object at or behind a node is a node, or holds the properties of one. -/
theorem isAccounted {place : Place} {members node : Members} {t : Tree}
    (hreached : Reached root place members) (h : CompiledTo d place members t node)
    (rest : List Json.Step)
    (hfound : (Json.object (described (addedDescription place members) node)).at? rest =
      some (.object found)) : IsAccounted root (place.path ++ rest) found := by
  -- the way gets shorter at every node, and the next node is reached as this one was
  match rest with
  | [] => exact Or.inl ⟨place, members, hreached, (List.append_nil _).symm⟩
  | step :: rest =>
    have hbuild := buildStep_of_build h.built
    rcases found_behind h.rendered hfound with ⟨element, least, greatest, rfl, rfl⟩ |
      ⟨name, description, properties, rfl, rfl⟩
    · cases hbuild with
      | array _ _ hkind hitems hinner =>
        obtain ⟨items, hcompiled, hbehind⟩ := found_behind_items h hinner hfound
        have hrest := isAccounted (hreached.element hkind hitems) hcompiled rest hbehind
        simpa only [Place.path, List.append_assoc, List.singleton_append] using hrest
    · cases hbuild with
      | object hkind hproperties heach =>
        cases rest with
        | nil =>
          exact Or.inr ⟨place, members, _, hreached, hkind, hproperties, rfl,
            names_behind_properties h heach hfound⟩
        | cons step rest =>
          obtain ⟨key, sub, schema, inner, rfl, hsub, hcompiled, hbehind⟩ :=
            found_behind_properties h heach hfound
          have hrest := isAccounted (hreached.property hkind hproperties hsub) hcompiled rest hbehind
          simpa only [Place.path, List.append_assoc, List.cons_append, List.nil_append] using hrest
termination_by rest.length

theorem compiledTo_root (h : Compiled.ofJson v = .ok c) :
    ∃ root node, v = .object root ∧ CompiledTo c.document .root root c.root node := by
  obtain ⟨hbuild, hdocument⟩ := ofJson_eq_ok h
  obtain ⟨root, rfl, hroot⟩ := object_of_buildRoot hbuild
  obtain ⟨node, hnode, hrendered⟩ := rendered_of_document hdocument
  exact ⟨root, node, rfl, hroot, hrendered, congrArg some hnode⟩

/-- Titles and descriptions stand where they belong in the document of a description. -/
theorem headed_of_ofJson (h : Compiled.ofJson v = .ok c) :
    ∃ root, v = .object root ∧ Headed root c.document := by
  obtain ⟨root, node, rfl, hroot⟩ := compiledTo_root h
  refine ⟨root, rfl, ⟨fun place members hreached => ?_, fun path found hfound => ?_⟩⟩
  · obtain ⟨t, own, hcompiled⟩ := compiledTo_of_reached hroot hreached
    exact ⟨_, hcompiled.found, hcompiled.hasHeading⟩
  · have hbehind : (Json.object (described (addedDescription .root root) node)).at? path =
        some (.object found) := by
      rw [← Option.some.inj hroot.found]
      exact hfound
    exact isAccounted .root hroot path hbehind

/-- Through two arrays the innermost node is named by the key, and a key that is the name of a
keyword is a key. -/
theorem headed_of_ofJson_nested_arrays :
    let sub : Members := [("description", .string "words"),
      ("items", .object [("items", .object [])])]
    let root : Members := [("properties", .object [("description", .object sub)])]
    let t := Tree.object "Root" none
      [⟨"description", some "words", true, .array (.array (.leaf "description" none) none none)
        none none⟩]
    let inner := Json.object [("items", .object [("title", .string "description")]),
      ("type", .string "array")]
    let d := Json.object [("additionalProperties", .boolean false),
      ("properties", .object [("description", .object [("description", .string "words"),
        ("items", inner), ("type", .string "array")])]),
      ("required", .array []), ("title", .string "Root"), ("type", .string "object")]
    Compiled.ofJson (.object root) = .ok ⟨t, d⟩ ∧ Headed root d := by
  intro sub root t inner d
  have hc : Compiled.ofJson (.object root) = .ok ⟨t, d⟩ := rfl
  obtain ⟨root', heq, hheaded⟩ := headed_of_ofJson hc
  obtain rfl := Json.object.inj heq
  exact ⟨hc, hheaded⟩

end Generation.Schema
