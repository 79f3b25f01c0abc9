import Generation.Proofs.Schema.Nodes
import Generation.Proofs.Schema.Trees
import Generation.Schema.Compiled

/-! Documents of trees that are built are schemas, so only a fault keeps a description from one. -/
namespace Generation.Schema

open Json (Members)

variable {name key : String} {members documents : Members} {d v : Json} {t : Tree}
  {description : Option String} {properties : List (Property Tree)}

theorem mapM_string? (names : List String) :
    (names.map Json.string).mapM Json.string? = some names := by
  induction names with
  | nil => rfl
  | cons n rest ih =>
    rw [List.map_cons, List.mapM_cons, ih]
    rfl

namespace MetaSchema

theorem acceptsKeywords_cons (m : String × Json) (rest : Members) :
    acceptsKeywords (m :: rest) = (acceptsKeywords [m] && acceptsKeywords rest) := by
  obtain ⟨keyword, v⟩ := m
  conv_lhs => unfold acceptsKeywords
  conv_rhs => lhs; unfold acceptsKeywords
  rw [acceptsKeywords.eq_1, Bool.and_true]

/-- The keywords of a schema are looked at one by one. -/
theorem acceptsKeywords_iff :
    acceptsKeywords members = true ↔ ∀ m ∈ members, acceptsKeywords [m] = true := by
  induction members with
  | nil => exact ⟨fun _ m hm => (List.not_mem_nil hm).elim, fun _ => acceptsKeywords.eq_1⟩
  | cons m rest ih => rw [acceptsKeywords_cons, Bool.and_eq_true, ih, List.forall_mem_cons]

theorem acceptsValues_iff :
    acceptsValues members = true ↔ ∀ m ∈ members, accepts m.2 = true := by
  induction members with
  | nil => simp [acceptsValues]
  | cons m rest ih =>
    obtain ⟨key, v⟩ := m
    rw [acceptsValues, Bool.and_eq_true, ih, List.forall_mem_cons]

theorem isStrings_strings {names : List String} (h : names.Nodup) :
    isStrings (.array (names.map .string)) = true := by
  have hdups : names.eraseDups = names := by
    induction names with
    | nil => rfl
    | cons n rest ih =>
      obtain ⟨hn, hrest⟩ := List.nodup_cons.mp h
      rw [List.eraseDups_cons, List.filter_eq_self.mpr, ih hrest]
      intro m hm
      have hne : m ≠ n := fun he => hn (he ▸ hm)
      simpa using hne
  rw [isStrings, mapM_string?]
  simp only [hdups, BEq.rfl]

theorem acceptsKeywords_description (text : String) :
    acceptsKeywords [("description", .string text)] = true := by
  simp [acceptsKeywords, shape, Shape.accepts]

theorem isTypeName_of_typeName? {n : String} (h : t.typeName? = some n) : isTypeName n = true := by
  cases t with
  | primitive kind =>
    obtain rfl := Option.some.inj h
    cases kind <;> decide
  | leaf => cases h
  | object | array | enumeration =>
    obtain rfl := Option.some.inj h
    decide

end MetaSchema

open MetaSchema

theorem accepts_describe (h : accepts d = true) : accepts (describe description d) = true := by
  cases description with
  | none => exact h
  | some text =>
    cases d with
    | object members =>
      rw [describe]
      split
      · exact h
      · rw [accepts, acceptsKeywords_iff] at h ⊢
        intro m hm
        rcases Json.mem_insert hm with rfl | hm
        · exact acceptsKeywords_description text
        · exact h m hm
    | _ => exact h

theorem nodup_required (h : properties.Pairwise fun p q => p.name < q.name) :
    ((properties.filter (!·.isOptional)).map Property.name).Nodup := by
  refine List.pairwise_map.mpr ((h.filter _).imp fun hlt he => ?_)
  rw [he] at hlt
  exact String.lt_irrefl _ hlt

/-- Each member of a node is fit for a schema, if the nodes below are schemas. -/
theorem acceptsKeywords_of_nodeMember {m : String × Json} (hb : Built t) (h : NodeMember t m)
    (hbelow : ∀ u, Below u t → ∀ d, document u = .ok d → accepts d = true) :
    acceptsKeywords [m] = true := by
  cases h with
  | closed => simp [acceptsKeywords, shape, accepts]
  | @properties _ _ properties documents hdocuments =>
    have hvalues : acceptsValues documents = true := by
      refine acceptsValues_iff.mpr fun m hm => ?_
      obtain ⟨p, hp, node, hnode, rfl⟩ := mem_of_propertyDocuments hdocuments hm
      exact accepts_describe (hbelow _ (.property hp) node hnode)
    simpa [acceptsKeywords, shape] using hvalues
  | @required _ _ properties =>
    have hrequired : isStrings (.array (requiredNames properties)) = true := by
      cases hb with
      | object hnames =>
        have hstrings := isStrings_strings (nodup_required hnames)
        rwa [List.map_map] at hstrings
    simpa [acceptsKeywords, shape, Shape.accepts] using hrequired
  | items hitems => simpa [acceptsKeywords, shape] using hbelow _ .element _ hitems
  | greatest n | least n => simp [acceptsKeywords, shape, Shape.accepts, wordJson, isCount]
  | variants variants => simp [acceptsKeywords, shape, Shape.accepts]
  | description => exact acceptsKeywords_description _
  | title => simp [acceptsKeywords, shape, Shape.accepts]
  | type htype =>
    simp [acceptsKeywords, shape, Shape.accepts, isTypeNames, isTypeName_of_typeName? htype]

/-- The document of a tree that is built is a schema. -/
theorem accepts_document (hb : Built t) (h : document t = .ok d) : accepts d = true := by
  refine hb.below_induction (P := fun t => ∀ d, document t = .ok d → accepts d = true) ?_ d h
  intro t hb hbelow d hd
  obtain ⟨members, rfl, hr⟩ := rendered_of_document hd
  rw [accepts, acceptsKeywords_iff]
  exact fun m hm => acceptsKeywords_of_nodeMember hb (hr.nodeMember hm) hbelow

theorem ofTree_of_built (hb : Built t) :
    Compiled.ofTree t = (document t).map fun d => ⟨t, d⟩ := by
  rw [Compiled.ofTree]
  cases hd : document t with
  | error e => rfl
  | ok d =>
    dsimp only
    rw [if_pos (accepts_document hb hd)]
    rfl

theorem built_of_buildRoot (hs : v.Sorted) (h : buildRoot v = .ok t) : Built t := by
  obtain ⟨members, rfl, hbuild⟩ := object_of_buildRoot h
  exact built_of_build _ members hs t hbuild

theorem ofJson_eq_ok {c : Compiled} (h : Compiled.ofJson v = .ok c) :
    buildRoot v = .ok c.root ∧ document c.root = .ok c.document := by
  rw [Compiled.ofJson] at h
  split at h
  · cases h
  · rename_i t ht
    rw [Compiled.ofTree] at h
    split at h
    · cases h
    · rename_i d hd
      split at h
      · cases h
        exact ⟨ht, hd⟩
      · cases h

/-- A description has a schema exactly if it has no fault, and otherwise its fault is what is
answered. The document of a tree that is built is always a schema. -/
theorem compiled_decided (hs : v.Sorted) :
    Decides (fault? v) (Compiled.ofJson v) ∧
      ∀ t d, buildRoot v = .ok t → document t = .ok d → accepts d = true := by
  refine ⟨?_, fun t d ht hd => accepts_document (built_of_buildRoot hs ht) hd⟩
  cases v with
  | object members =>
    have hcompiled : Compiled.ofJson (.object members) =
        build defaultRootName (.object members) >>= Compiled.ofTree := by
      rw [Compiled.ofJson, buildRoot]
      cases build defaultRootName (.object members) <;> rfl
    rw [fault?, hcompiled]
    refine (decides_build defaultRootName members).bind fun t ht => ?_
    rw [ofTree_of_built (built_of_build _ _ hs t ht)]
    exact (decides_document defaultRootName members t ht).map _
  | _ => simp [fault?, Decides, Compiled.ofJson, buildRoot, build]

/-- A bad entry comes before an enumeration that is reached earlier. -/
theorem compiled_decided_badProperty :
    let v := Json.object [("properties", .object [("a", .object [("enum", .array [])]),
      ("b", .null)])]
    v.Sorted ∧ Compiled.ofJson v = .error (.invalidProperty "b") := by
  intro v
  have hs : v.Sorted := by
    refine .object (List.pairwise_singleton _ _) fun m hm => ?_
    obtain rfl := List.mem_singleton.mp hm
    refine .object (Json.ascending_of_names (show ["a", "b"].Pairwise (· < ·) by decide))
      fun m hm => ?_
    simp only [List.mem_cons, List.not_mem_nil, or_false] at hm
    rcases hm with rfl | rfl
    · refine .object (List.pairwise_singleton _ _) fun m hm => ?_
      obtain rfl := List.mem_singleton.mp hm
      exact .array (by simp)
    · exact .null
  refine ⟨hs, ?_⟩
  have hempty : visits "a" (.object [("enum", .array [])]) = [.enumeration "a" []] :=
    visits_enumeration rfl
  have hvisits : visits defaultRootName v = [.entry "a" (.object [("enum", .array [])]),
      .enumeration "a" [], .entry "b" .null] := by
    rw [visits_properties rfl rfl rfl, List.flatMap_cons, hempty, List.flatMap_cons,
      visits_of_object?_eq_none (v := .null) rfl]
    rfl
  have hfault : fault? v = some (.invalidProperty "b") := by
    rw [fault?, hvisits]
    rfl
  have h := (compiled_decided hs).1
  rwa [hfault] at h

end Generation.Schema
