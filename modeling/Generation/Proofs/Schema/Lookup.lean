import Generation.Proofs.Schema.Headings
import Generation.Proofs.Text.Order

/-!
Looking up properties. In every object of a tree the names of the properties ascend, so that the
search by halving finds what a search from the front finds.
-/
namespace Generation.Schema

open Json (Members at?_cons)

variable {name key : String} {names : List String} {members entries : Members} {v : Json}
  {path : List Json.Step} {t node : Tree}

namespace Property

variable {τ : Type} {p : Property τ} {properties before after : List (Property τ)}

/-- The names of the properties ascend. -/
def Ascending (properties : List (Property τ)) : Prop :=
  properties.Pairwise fun p q => p.name < q.name

theorem find?_append_of_lt (h : ∀ q ∈ before, q.name < name) :
    (before ++ after).find? (·.name == name) = after.find? (·.name == name) := by
  have hnone : before.find? (·.name == name) = none := by
    refine List.find?_eq_none.mpr fun q hq hname => ?_
    exact String.ne_of_lt (h q hq) (eq_of_beq hname)
  rw [List.find?_append, hnone, Option.none_or]

theorem find?_append_of_gt (h : ∀ q ∈ after, name < q.name) :
    (before ++ after).find? (·.name == name) = before.find? (·.name == name) := by
  have hnone : after.find? (·.name == name) = none := by
    refine List.find?_eq_none.mpr fun q hq hname => ?_
    exact String.ne_of_lt (h q hq) (eq_of_beq hname).symm
  rw [List.find?_append, hnone, Option.or_none]

/-- What a search by halving goes by: all names before the middle are smaller, all behind it are
greater. -/
theorem Ascending.split (h : Ascending properties)
    (hdrop : properties.drop (properties.length / 2) = p :: after) :
    properties = properties.take (properties.length / 2) ++ p :: after ∧
      Ascending (properties.take (properties.length / 2)) ∧ Ascending after ∧
      (∀ q ∈ properties.take (properties.length / 2), q.name < p.name) ∧
      ∀ q ∈ after, p.name < q.name := by
  have hsplit : properties = properties.take (properties.length / 2) ++ p :: after := by
    rw [← hdrop, List.take_append_drop]
  generalize properties.take (properties.length / 2) = before at hsplit ⊢
  subst hsplit
  obtain ⟨hbefore, hrest, hcross⟩ := List.pairwise_append.mp h
  obtain ⟨hlater, hafter⟩ := List.pairwise_cons.mp hrest
  exact ⟨rfl, hbefore, hafter, fun q hq => hcross q hq p (by simp), hlater⟩

/-- Halving finds what a search from the front finds. -/
theorem find?_eq_scan (h : Ascending properties) :
    find? name properties = properties.find? (·.name == name) := by
  fun_induction find? name properties with
  | case1 properties hdrop =>
    have hlength := congrArg List.length hdrop
    rw [List.length_drop, List.length_nil] at hlength
    obtain rfl : properties = [] := List.eq_nil_of_length_eq_zero (by omega)
    rfl
  | case2 properties p after hdrop hname =>
    subst hname
    obtain ⟨hsplit, -, -, hbefore, -⟩ := h.split hdrop
    rw [hsplit, find?_append_of_lt hbefore, List.find?_cons, beq_self_eq_true]
  | case3 properties p after hdrop hname hlt ih =>
    obtain ⟨hsplit, hascending, -, -, hafter⟩ := h.split hdrop
    have hlater : ∀ q ∈ p :: after, name < q.name := by
      refine List.forall_mem_cons.mpr ⟨hlt, fun q hq => ?_⟩
      exact String.lt_trans hlt (hafter q hq)
    rw [ih hascending, hsplit, find?_append_of_gt hlater, ← hsplit]
  | case4 properties p after hdrop hname hlt ih =>
    obtain ⟨hsplit, -, hascending, hbefore, -⟩ := h.split hdrop
    have hgt : p.name < name :=
      Classical.byContradiction fun hge => hname (Json.eq_of_not_lt hge hlt)
    have hearlier : ∀ q ∈ properties.take (properties.length / 2), q.name < name :=
      fun q hq => String.lt_trans (hbefore q hq) hgt
    rw [ih hascending, hsplit, find?_append_of_lt hearlier, List.find?_cons,
      beq_eq_false_iff_ne.mpr hname]

/-- The property of a name is found if there is one. -/
theorem find?_eq_some_iff (h : Ascending properties) :
    find? name properties = some p ↔ p ∈ properties ∧ p.name = name := by
  rw [find?_eq_scan h]
  constructor
  · intro hfind
    have hname := List.find?_some hfind
    exact ⟨List.mem_of_find?_eq_some hfind, eq_of_beq hname⟩
  · rintro ⟨hp, rfl⟩
    obtain ⟨before, after, rfl⟩ := List.append_of_mem hp
    have hcross := (List.pairwise_append.mp h).2.2
    rw [find?_append_of_lt fun q hq => hcross q hq p (by simp), List.find?_cons, beq_self_eq_true]

end Property

/-! Nodes of trees -/

/-- A tree and all trees in it, each with the way to what it is built from. -/
inductive Tree.HasNode : Tree → List Json.Step → Tree → Prop where
  | here (t : Tree) : HasNode t [] t
  | element {element node : Tree} {path : List Json.Step} (least greatest : Option UInt64) :
    HasNode element path node →
    HasNode (.array element least greatest) (.member "items" :: path) node
  | property {properties : List (Property Tree)} {p : Property Tree} {node : Tree}
    {path : List Json.Step} (name : String) (description : Option String) : p ∈ properties →
    HasNode p.schema path node →
    HasNode (.object name description properties)
      (.member "properties" :: .member p.name :: path) node

/-- Every node of a tree is built from what stands at the end of its path. -/
theorem built_of_hasNode (hnode : t.HasNode path node) : ∀ name members,
    Json.Sorted (.object members) → build name (.object members) = .ok t →
      ∃ name' members', (Json.object members).at? path = some (.object members') ∧
        Json.Sorted (.object members') ∧ build name' (.object members') = .ok node := by
  induction hnode with
  | here t => exact fun name members hsorted h => ⟨name, members, rfl, hsorted, h⟩
  | element least greatest _ ih =>
    intro name members hsorted h
    cases buildStep_of_build h with
    | array _ _ _ hitems hinner =>
      obtain ⟨name', members', hat, hbuilt⟩ :=
        ih _ _ (sorted_of_lookup_object hsorted hitems) hinner
      refine ⟨name', members', ?_, hbuilt⟩
      rw [at?_cons, Json.child?, lookup_of_object hitems]
      exact hat
  | property name description hp _ ih =>
    intro name members hsorted h
    cases buildStep_of_build h with
    | object _ hentries heach =>
      have hsub := sorted_of_lookup_object hsorted hentries
      obtain ⟨sub, hmem, hschema, -⟩ := mem_of_buildEach heach hp
      obtain ⟨name', members', hat, hbuilt⟩ := ih _ _ (hsub.member hmem) hschema
      refine ⟨name', members', ?_, hbuilt⟩
      rw [at?_cons, Json.child?, lookup_of_object hentries, Option.bind_some, at?_cons,
        Json.child?, Json.lookup_of_mem hsub.ascending hmem]
      exact hat

theorem isOptional_of_buildEach {properties : List (Property Tree)}
    (h : buildEach names entries = .ok properties) :
    ∀ p ∈ properties, p.isOptional = !names.contains p.name := by
  induction entries generalizing properties with
  | nil =>
    rw [buildEach] at h
    obtain rfl := Except.ok.inj h
    simp
  | cons m rest ih =>
    obtain ⟨key, v⟩ := m
    obtain ⟨sub, schema, others, rfl, -, hothers, rfl⟩ := buildEach_cons_eq_ok h
    exact List.forall_mem_cons.mpr ⟨rfl, ih hothers⟩

/-- What it means that properties are those of the entries of an object, and can all be found. -/
structure Complete (members entries : Members) (properties : List (Property Tree)) : Prop where
  /-- The names ascend in the order of their bytes. -/
  ascending : properties.Pairwise fun p q => Text.bytes p.name < Text.bytes q.name
  names : properties.map Property.name = entries.map Prod.fst
  /-- A property must be given exactly if a list of strings under `required` names it. -/
  given : ∀ p ∈ properties, p.isOptional = false ↔
    ∃ names, strings? members "required" = some names ∧ p.name ∈ names
  /-- The search finds the property of a name if there is one. -/
  found : ∀ name p, Property.find? name properties = some p ↔ p ∈ properties ∧ p.name = name
  /-- It agrees with a search from the front. -/
  scanned : ∀ name, Property.find? name properties = properties.find? (·.name == name)

theorem complete_of_buildEach {properties : List (Property Tree)}
    (hascending : Json.Ascending entries)
    (h : buildEach (required members) entries = .ok properties) :
    Complete members entries properties := by
  have hnames : Property.Ascending properties := ascending_of_buildEach hascending h
  constructor
  · exact hnames.imp Text.bytes_lt
  · exact names_of_buildEach h
  · intro p hp
    rw [isOptional_of_buildEach h p hp, Bool.not_eq_false', List.contains_iff_mem, required]
    cases strings? members "required" <;> simp
  · exact fun name p => Property.find?_eq_some_iff hnames
  · exact fun name => Property.find?_eq_scan hnames

/-- In every object of a tree, the properties are those of the object that it is built from, and the
search finds them. -/
theorem complete_of_hasNode (hsorted : Json.Sorted v) (h : buildRoot v = .ok t)
    {description : Option String} {properties : List (Property Tree)}
    (hnode : t.HasNode path (.object name description properties)) :
    ∃ members entries, v.at? path = some (.object members) ∧
      properties? members = some entries ∧ Complete members entries properties := by
  obtain ⟨root, rfl, hroot⟩ := object_of_buildRoot h
  obtain ⟨_, members, hat, hmembers, hbuild⟩ := built_of_hasNode hnode _ root hsorted hroot
  cases buildStep_of_build hbuild with
  | @object entries _ _ hentries heach =>
    have hascending := (sorted_of_lookup_object hmembers hentries).ascending
    exact ⟨members, entries, hat, hentries, complete_of_buildEach hascending heach⟩

/-- Below an array, with an empty key, a key beyond ASCII, and one of them required. -/
theorem complete_of_hasNode_below_array :
    let entries : Members := [("", .object []), ("ab", .object []), ("é", .object [])]
    let inner : Members := [("properties", .object entries), ("required", .array [.string "é"])]
    let root := Json.object
      [("properties", .object [("a", .object [("items", .object inner)])])]
    let properties : List (Property Tree) := [⟨"", none, true, .leaf "" none⟩,
      ⟨"ab", none, true, .leaf "ab" none⟩, ⟨"é", none, false, .leaf "é" none⟩]
    let node := Tree.object "a" none properties
    let t := Tree.object "Root" none [⟨"a", none, true, .array node none none⟩]
    let path : List Json.Step := [.member "properties", .member "a", .member "items"]
    Json.Sorted root ∧ buildRoot root = .ok t ∧ t.HasNode path node ∧
      root.at? path = some (.object inner) ∧ properties? inner = some entries ∧
      Complete inner entries properties := by
  intro entries inner root properties node t path
  have hentries : Json.Sorted (.object entries) :=
    .object (Json.ascending_of_names (by decide)) (by simp [entries, Json.Sorted.none])
  have hinner : Json.Sorted (.object inner) := by
    refine .object (Json.ascending_of_names (by decide)) ?_
    simp only [inner, List.forall_mem_cons]
    exact ⟨hentries, .array fun v hv => List.mem_singleton.mp hv ▸ .string "é", by simp⟩
  have hsorted : Json.Sorted root := hinner.single.single.single
  have hbuild : buildRoot root = .ok t := rfl
  have hnode : t.HasNode path node :=
    .property (p := ⟨"a", none, true, .array node none none⟩) "Root" none (by simp)
      (.element none none (.here node))
  obtain ⟨members, entries', hat, hproperties, hcomplete⟩ :=
    complete_of_hasNode hsorted hbuild hnode
  have hat' : root.at? path = some (.object inner) := rfl
  obtain rfl := Json.object.inj (Option.some.inj (hat'.symm.trans hat))
  have hproperties' : properties? inner = some entries := rfl
  obtain rfl := Option.some.inj (hproperties'.symm.trans hproperties)
  exact ⟨hsorted, hbuild, hnode, hat', hproperties', hcomplete⟩

end Generation.Schema
