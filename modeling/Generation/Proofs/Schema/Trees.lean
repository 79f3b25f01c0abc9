import Generation.Proofs.Json.Order
import Generation.Proofs.Schema.Acceptance
import Generation.Schema.MetaSchema

/-! What is true of every tree that is built, and of its document. -/
namespace Generation.Schema

open Json (Members)

variable {name key : String} {members entries documents : Members} {d : Json} {t : Tree}
  {description : Option String} {properties : List (Property Tree)}

/-- A description is the one of the node itself, if the node is of a kind that has one. -/
def Agrees (description : Option String) : Tree → Prop
  | .object _ d _ | .enumeration _ d _ | .leaf _ d => description = d
  | .array .. | .primitive _ => True

/-- The names of properties ascend, and every property has the description of its schema. -/
inductive Built : Tree → Prop where
  | object {name : String} {description : Option String} {properties : List (Property Tree)} :
    properties.Pairwise (fun p q => p.name < q.name) →
    (∀ p ∈ properties, Agrees p.description p.schema) →
    (∀ p ∈ properties, Built p.schema) → Built (.object name description properties)
  | array {element : Tree} (least greatest : Option UInt64) :
    Built element → Built (.array element least greatest)
  | enumeration (name : String) (description : Option String) (variants : List String) :
    Built (.enumeration name description variants)
  | primitive (kind : Primitive) : Built (.primitive kind)
  | leaf (name : String) (description : Option String) : Built (.leaf name description)

/-- The trees directly below another one. -/
inductive Below : Tree → Tree → Prop where
  | property {name : String} {description : Option String} {properties : List (Property Tree)}
    {p : Property Tree} : p ∈ properties → Below p.schema (.object name description properties)
  | element {element : Tree} {least greatest : Option UInt64} :
    Below element (.array element least greatest)

/-- What passes from the trees below a tree to the tree itself holds of every tree that is built. -/
theorem Built.below_induction {P : Tree → Prop}
    (h : ∀ t, Built t → (∀ u, Below u t → P u) → P t) (hb : Built t) : P t := by
  induction hb with
  | object hnames hagrees hbuilt ih =>
    refine h _ (.object hnames hagrees hbuilt) fun u hu => ?_
    cases hu with
    | property hp => exact ih _ hp
  | array least greatest hbuilt ih =>
    refine h _ (.array least greatest hbuilt) fun u hu => ?_
    cases hu with
    | element => exact ih
  | enumeration name description variants =>
    exact h _ (.enumeration name description variants) fun u hu => by cases hu
  | primitive kind => exact h _ (.primitive kind) fun u hu => by cases hu
  | leaf name description => exact h _ (.leaf name description) fun u hu => by cases hu

theorem mem_of_buildEach {required : List String} (h : buildEach required entries = .ok properties)
    {p : Property Tree} (hp : p ∈ properties) :
    ∃ sub, (p.name, .object sub) ∈ entries ∧ build p.name (.object sub) = .ok p.schema ∧
      p.description = ownDescription sub := by
  induction entries generalizing properties with
  | nil =>
    rw [buildEach] at h
    obtain rfl := Except.ok.inj h
    cases hp
  | cons m rest ih =>
    obtain ⟨key, v⟩ := m
    obtain ⟨sub, schema, others, rfl, hschema, hothers, rfl⟩ := buildEach_cons_eq_ok h
    rcases List.mem_cons.mp hp with rfl | hp
    · exact ⟨sub, by simp, hschema, rfl⟩
    · obtain ⟨sub', hmem, hrest⟩ := ih hothers hp
      exact ⟨sub', List.mem_cons_of_mem _ hmem, hrest⟩

theorem names_of_buildEach {required : List String}
    (h : buildEach required entries = .ok properties) :
    properties.map Property.name = entries.map Prod.fst := by
  induction entries generalizing properties with
  | nil =>
    rw [buildEach] at h
    obtain rfl := Except.ok.inj h
    rfl
  | cons m rest ih =>
    obtain ⟨key, v⟩ := m
    obtain ⟨sub, schema, others, rfl, -, hothers, rfl⟩ := buildEach_cons_eq_ok h
    rw [List.map_cons, ih hothers, List.map_cons]

theorem ascending_of_buildEach {required : List String} (hascending : Json.Ascending entries)
    (h : buildEach required entries = .ok properties) :
    properties.Pairwise fun p q => p.name < q.name := by
  rw [Json.Ascending, ← List.pairwise_map (R := (· < ·)), ← names_of_buildEach h] at hascending
  exact List.pairwise_map.mp hascending

theorem agrees_of_build (h : build name (.object members) = .ok t) :
    Agrees (ownDescription members) t := by
  match hv : variants? members, hi : items? members, hp : properties? members with
  | some variants, _, _ =>
    rw [build_enumeration hv] at h
    obtain rfl := Except.ok.inj h
    rfl
  | none, some element, _ =>
    rw [build_items hv hi] at h
    obtain ⟨element, -, rfl⟩ := map_eq_ok h
    trivial
  | none, none, some entries =>
    rw [build_properties hv hi hp] at h
    obtain ⟨properties, -, rfl⟩ := map_eq_ok h
    rfl
  | none, none, none =>
    rw [build_other hv hi hp] at h
    obtain rfl := Except.ok.inj h
    cases primitive? members with
    | some kind => trivial
    | none => rfl

theorem built_of_build (name : String) (members : Members) :
    Json.Sorted (.object members) → ∀ t, build name (.object members) = .ok t → Built t := by
  induction name, members using reach_induction with
  | enumeration name members variants hv =>
    intro _ t ht
    rw [build_enumeration hv] at ht
    obtain rfl := Except.ok.inj ht
    exact .enumeration _ _ _
  | items name members element hv hi ih =>
    intro hsorted t ht
    rw [build_items hv hi] at ht
    obtain ⟨element, helement, rfl⟩ := map_eq_ok ht
    exact .array _ _ (ih (sorted_of_lookup_object hsorted hi) element helement)
  | properties name members entries hv hi hp ih =>
    intro hsorted t ht
    rw [build_properties hv hi hp] at ht
    obtain ⟨properties, hproperties, rfl⟩ := map_eq_ok ht
    have hsub := sorted_of_lookup_object hsorted hp
    refine .object (ascending_of_buildEach hsub.ascending hproperties) (fun p hp => ?_)
      fun p hp => ?_
    · obtain ⟨sub, -, hschema, hdescription⟩ := mem_of_buildEach hproperties hp
      rw [hdescription]
      exact agrees_of_build hschema
    · obtain ⟨sub, hmem, hschema, -⟩ := mem_of_buildEach hproperties hp
      exact ih p.name sub hmem (hsub.member hmem) p.schema hschema
  | other name members hv hi hp =>
    intro _ t ht
    rw [build_other hv hi hp] at ht
    obtain rfl := Except.ok.inj ht
    cases primitive? members with
    | some kind => exact .primitive _
    | none => exact .leaf _ _

theorem mem_of_propertyDocuments (h : propertyDocuments properties = .ok documents)
    {m : String × Json} (hm : m ∈ documents) :
    ∃ p ∈ properties, ∃ node, document p.schema = .ok node ∧
      m = (p.name, describe p.description node) := by
  induction properties generalizing documents with
  | nil =>
    rw [propertyDocuments] at h
    obtain rfl := Except.ok.inj h
    cases hm
  | cons p rest ih =>
    obtain ⟨node, others, hnode, hothers, rfl⟩ := propertyDocuments_cons_eq_ok h
    rcases List.mem_cons.mp hm with rfl | hm
    · exact ⟨p, by simp, node, hnode, rfl⟩
    · obtain ⟨q, hq, hrest⟩ := ih hothers hm
      exact ⟨q, List.mem_cons_of_mem _ hq, hrest⟩

theorem names_of_propertyDocuments (h : propertyDocuments properties = .ok documents) :
    documents.map Prod.fst = properties.map Property.name := by
  induction properties generalizing documents with
  | nil =>
    rw [propertyDocuments] at h
    obtain rfl := Except.ok.inj h
    rfl
  | cons p rest ih =>
    obtain ⟨node, others, -, hothers, rfl⟩ := propertyDocuments_cons_eq_ok h
    rw [List.map_cons, ih hothers, List.map_cons]

end Generation.Schema
