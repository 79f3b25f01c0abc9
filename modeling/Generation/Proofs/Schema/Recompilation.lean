import Generation.Proofs.Schema.Conformance
import Mathlib.Data.List.Nodup

/-!
Documents are descriptions of the schemas that they belong to: building one again gives the same
tree under the names that its keys give, and from then on nothing changes.
-/
namespace Generation.Schema

open Json (Members)

variable {name key : String} {members documents : Members} {d v : Json} {t : Tree}
  {description : Option String} {properties : List (Property Tree)}

mutual

/-- The tree with every node named by the nearest key around it, or by the given name where there
is none. -/
def Tree.renamed (name : String) : Tree → Tree
  | .object _ description properties => .object name description (renamedEach properties)
  | .array element least greatest => .array (element.renamed name) least greatest
  | .enumeration _ description variants => .enumeration name description variants
  | .primitive kind => .primitive kind
  | .leaf _ description => .leaf name description

def renamedEach : List (Property Tree) → List (Property Tree)
  | [] => []
  | ⟨name, description, isOptional, schema⟩ :: rest =>
    ⟨name, description, isOptional, schema.renamed name⟩ :: renamedEach rest

end

/-- The members of a node that has its description. -/
def described (description : Option String) (members : Members) : Members :=
  match description with
  | some text =>
    if (members.lookup "description").isSome then members
    else Json.insert "description" (.string text) members
  | none => members

theorem describe_object (description : Option String) (members : Members) :
    describe description (.object members) = .object (described description members) := by
  cases description with
  | none => rfl
  | some text =>
    rw [describe, described]
    split <;> rfl

theorem mem_described {m : String × Json} (h : m ∈ described description members) :
    (∃ text, m = ("description", .string text)) ∨ m ∈ members := by
  cases description with
  | none => exact Or.inr h
  | some text =>
    rw [described] at h
    split at h
    · exact Or.inr h
    · exact (Json.mem_insert h).imp_left fun he => ⟨text, he⟩

theorem ascending_described (h : Json.Ascending members) :
    Json.Ascending (described description members) := by
  cases description with
  | none => exact h
  | some text =>
    rw [described]
    split
    · exact h
    · exact Json.ascending_insert h

@[simp] theorem lookup_described_of_ne (h : key ≠ "description") :
    (described description members).lookup key = members.lookup key := by
  cases description with
  | none => rfl
  | some text =>
    rw [described]
    split
    · rfl
    · exact Json.lookup_insert_of_ne h

/-- A node without a description gets one, and a node that has it already keeps it. -/
theorem lookup_described (h : members.lookup "description" = none ∨
    members.lookup "description" = description.map .string) :
    (described description members).lookup "description" = description.map .string := by
  cases description with
  | none => simpa [described] using h
  | some text =>
    rw [described]
    split
    case isTrue hsome => simpa [Option.isSome_iff_ne_none.mp hsome] using h
    case isFalse => exact Json.lookup_insert_self

/-- A node has the description that it is given, if its tree has none or the same. -/
theorem Rendered.lookup_described (h : Rendered t members) (ha : Agrees description t) :
    (described description members).lookup "description" = description.map .string := by
  apply Schema.lookup_described
  rw [h.hasHeading.description]
  cases t with
  | array | primitive => exact Or.inl rfl
  | object | enumeration | leaf =>
    obtain rfl := ha
    exact Or.inr rfl

theorem Rendered.ownName_described (h : Rendered t members) (name : String)
    (description : Option String) : ownName name (described description members) = name := by
  rw [ownName, lookup_described_of_ne (by decide), h.lookup_name]
  rfl

theorem described_of_lookup (h : members.lookup "description" = description.map .string) :
    described description members = members := by
  cases description with
  | none => rfl
  | some text => simp [described, h]

theorem word?_wordJson (n : UInt64) : (wordJson n).word? = some n := by
  have hlow : (0 : Int) ≤ n.toNat := by omega
  have hhigh : (n.toNat : Int) < 2 ^ 64 := by exact_mod_cast n.toNat_lt
  rw [wordJson, Json.word?, if_pos ⟨hlow, hhigh⟩, Int.toNat_natCast, UInt64.ofNat_toNat]

theorem bind_word?_map (o : Option UInt64) : (o.map wordJson).bind Json.word? = o := by
  cases o with
  | none => rfl
  | some n => rw [Option.map_some, Option.bind_some, word?_wordJson]

/-- A property is required by a list of names exactly if it is not optional. -/
def Requires (names : List String) (properties : List (Property Tree)) : Prop :=
  ∀ p ∈ properties, (!names.contains p.name) = p.isOptional

theorem requires_own (h : properties.Pairwise fun p q => p.name < q.name) :
    Requires ((properties.filter (!·.isOptional)).map Property.name) properties := by
  intro p hp
  cases hopt : p.isOptional with
  | false => simpa using ⟨p, ⟨hp, hopt⟩, rfl⟩
  | true =>
    simp only [Bool.not_eq_true', List.contains_eq_mem, decide_eq_false_iff_not, List.mem_map,
      List.mem_filter, not_exists, not_and, and_imp]
    intro q hq hreq he
    have hnodup : (properties.map Property.name).Nodup :=
      List.pairwise_map.mpr (h.imp fun hlt => String.ne_of_lt hlt)
    have hqp := List.inj_on_of_nodup_map hnodup hq hp he
    rw [hqp, hopt] at hreq
    cases hreq

theorem ownDescription_of_lookup
    (h : members.lookup "description" = description.map .string) :
    ownDescription members = description := by
  rw [ownDescription, h]
  cases description <;> rfl

/-- A document, with a description for it, is built to the tree under its new names, and the
description is found on it. -/
def Recompiles (name : String) (description : Option String) (d : Json) (t : Tree) : Prop :=
  ∃ members, describe description d = .object members ∧
    members.lookup "description" = description.map .string ∧
    build name (.object members) = .ok (t.renamed name)

theorem recompiles_each {names : List String} (hreq : Requires names properties)
    (hdocuments : propertyDocuments properties = .ok documents)
    (h : ∀ p ∈ properties, ∀ node, document p.schema = .ok node →
      Recompiles p.name p.description node p.schema) :
    buildEach names documents = .ok (renamedEach properties) := by
  induction properties generalizing documents with
  | nil =>
    rw [propertyDocuments] at hdocuments
    obtain rfl := Except.ok.inj hdocuments
    rw [buildEach, renamedEach]
  | cons p rest ih =>
    obtain ⟨node, others, hnode, hothers, rfl⟩ := propertyDocuments_cons_eq_ok hdocuments
    obtain ⟨members, hmembers, hdescription, hbuild⟩ := h p (by simp) node hnode
    have hrest := ih (fun q hq => hreq q (List.mem_cons_of_mem _ hq)) hothers
      fun q hq => h q (List.mem_cons_of_mem _ hq)
    rw [hmembers, buildEach_cons, hbuild, hrest, ownDescription_of_lookup hdescription,
      hreq p (by simp), renamedEach]
    rfl

/-! What is built from the node of a tree -/

theorem rebuild_object {oldName : String} (hnames : properties.Pairwise fun p q => p.name < q.name)
    (hr : Rendered (.object oldName description properties) members)
    (h : ∀ p ∈ properties, ∀ node, document p.schema = .ok node →
      Recompiles p.name p.description node p.schema) :
    build name (.object (described description members)) =
      .ok (.object name description (renamedEach properties)) := by
  have hown := hr.lookup_described rfl
  have hname := hr.ownName_described name description
  cases hr with
  | @object _ _ _ documents hdocuments =>
    set members : Members := _ :: _ ++ _ with hmembers
    have hrequired : required (described description members) =
        (properties.filter (!·.isOptional)).map Property.name := by
      have hlookup : (described description members).lookup "required" =
          some (.array (((properties.filter (!·.isOptional)).map Property.name).map .string)) := by
        simp [hmembers, List.lookup_cons, List.lookup_append, requiredNames]
      rw [required, strings?, hlookup]
      exact congrArg (Option.getD · []) (mapM_string? _)
    have hproperties : properties? (described description members) = some documents := by
      simp [hmembers, properties?, List.lookup_cons, List.lookup_append, Json.object?]
    rw [build_properties _ _ hproperties, hname, hrequired, ownDescription_of_lookup hown,
      recompiles_each (requires_own hnames) hdocuments h]
    · rfl
    all_goals
      simp [hmembers, variants?, strings?, items?, List.lookup_cons, List.lookup_append]

theorem rebuild_array {element : Tree} {least greatest : Option UInt64} {items : Members}
    (hr : Rendered (.array element least greatest) members)
    (hitems : document element = .ok (.object items))
    (h : build name (.object items) = .ok (element.renamed name)) :
    build name (.object (described description members)) =
      .ok (.array (element.renamed name) least greatest) := by
  have hname := hr.ownName_described name description
  cases hr with
  | array hdocument =>
    obtain rfl := Except.ok.inj (hdocument.symm.trans hitems)
    set members : Members := _ :: _ ++ _ ++ _ with hmembers
    have hleast : ((described description members).lookup "minItems").bind Json.word? = least := by
      have hlookup : (described description members).lookup "minItems" = least.map wordJson := by
        simp [hmembers, List.lookup_cons, List.lookup_append]
      rw [hlookup, bind_word?_map]
    have hgreatest :
        ((described description members).lookup "maxItems").bind Json.word? = greatest := by
      have hlookup : (described description members).lookup "maxItems" = greatest.map wordJson := by
        simp [hmembers, List.lookup_cons, List.lookup_append]
      rw [hlookup, bind_word?_map]
    have hitems : items? (described description members) = some items := by
      simp [hmembers, items?, Json.object?]
    rw [build_items _ hitems, hname, h, hleast, hgreatest]
    · rfl
    simp [hmembers, variants?, strings?, List.lookup_cons, List.lookup_append]

theorem rebuild_enumeration {oldName : String} {variants : List String}
    (hr : Rendered (.enumeration oldName description variants) members) :
    build name (.object (described description members)) =
      .ok (.enumeration name description variants) := by
  have hown := hr.lookup_described rfl
  have hname := hr.ownName_described name description
  cases hr with
  | enumeration variant variants =>
    set members : Members := _ ++ _ with hmembers
    have hvariants : variants? (described description members) = some (variant :: variants) := by
      have hanyOf : (described description members).lookup "anyOf" = none := by
        simp [hmembers, List.lookup_cons, List.lookup_append]
      have henum : (described description members).lookup "enum" =
          some (.array ((variant :: variants).map .string)) := by
        simp [hmembers, List.lookup_append]
      rw [variants?, strings?, strings?, hanyOf, henum]
      exact mapM_string? _
    rw [build_enumeration hvariants, hname, ownDescription_of_lookup hown]

theorem rebuild_primitive {kind : Primitive} (hr : Rendered (.primitive kind) members) :
    build name (.object (described description members)) = .ok (.primitive kind) := by
  cases hr
  rw [build_other]
  · cases kind <;> simp [primitive?, Json.string?, Primitive.ofTypeName?, Primitive.typeName]
  all_goals
    simp [variants?, strings?, items?, properties?, List.lookup_cons]

theorem rebuild_leaf {oldName : String} (hr : Rendered (.leaf oldName description) members) :
    build name (.object (described description members)) = .ok (.leaf name description) := by
  have hown := hr.lookup_described rfl
  have hname := hr.ownName_described name description
  cases hr with
  | leaf =>
    set members : Members := _ ++ _ with hmembers
    have hkind : primitive? (described description members) = none := by
      simp [hmembers, primitive?, List.lookup_cons, List.lookup_append]
    rw [build_other, hkind, hname, ownDescription_of_lookup hown]
    all_goals
      simp [hmembers, variants?, strings?, items?, properties?,
        List.lookup_cons, List.lookup_append]

theorem agrees_own (t : Tree) : Agrees t.description? t := by
  cases t <;> first | rfl | trivial

/-- A document has the description of its tree already. -/
theorem describe_own (hd : document t = .ok d) : describe t.description? d = d := by
  obtain ⟨members, rfl, hr⟩ := rendered_of_document hd
  rw [describe_object, described_of_lookup hr.hasHeading.description]

theorem Rendered.recompiles (hr : Rendered t members) (ha : Agrees description t)
    (h : build name (.object (described description members)) = .ok (t.renamed name)) :
    Recompiles name description (.object members) t :=
  ⟨_, describe_object _ _, hr.lookup_described ha, h⟩

theorem rebuild_rendered (hb : Built t) (hr : Rendered t members) (ha : Agrees description t) :
    build name (.object (described description members)) = .ok (t.renamed name) := by
  induction hb generalizing name members description with
  | object hnames hagrees _ ih =>
    obtain rfl := ha
    rw [Tree.renamed]
    refine rebuild_object hnames hr fun p hp node hnode => ?_
    obtain ⟨inner, rfl, hinner⟩ := rendered_of_document hnode
    exact hinner.recompiles (hagrees p hp) (ih p hp hinner (hagrees p hp))
  | array least greatest _ ih =>
    obtain ⟨node, hnode, -⟩ := lookup_items hr
    obtain ⟨inner, rfl, hinner⟩ := rendered_of_document hnode
    -- an element is not described again, so it is met with its own description
    have hown := described_of_lookup hinner.hasHeading.description
    refine rebuild_array hr hnode ?_
    rw [← hown]
    exact ih hinner (agrees_own _)
  | enumeration =>
    obtain rfl := ha
    exact rebuild_enumeration hr
  | primitive => exact rebuild_primitive hr
  | leaf =>
    obtain rfl := ha
    exact rebuild_leaf hr

theorem recompiles_document (hb : Built t) (hd : document t = .ok d) (ha : Agrees description t) :
    Recompiles name description d t := by
  obtain ⟨members, rfl, hr⟩ := rendered_of_document hd
  exact hr.recompiles ha (rebuild_rendered hb hr ha)

end Generation.Schema
