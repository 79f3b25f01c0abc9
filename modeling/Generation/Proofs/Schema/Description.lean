import Generation.Proofs.Except
import Generation.Proofs.Json.Order
import Generation.Schema.Builder

/-!
What a description reaches: the objects that make up a schema, in the order in which a walk from
the root comes upon them, and the building of trees said in those terms.
-/
namespace Generation.Schema

open Json (Members)

variable {name key : String} {members element properties rest : Members} {v : Json}

/-- The member `items`, if that is an object. -/
def items? (members : Members) : Option Members := (members.lookup "items").bind Json.object?

/-- The member `properties`, if that is an object. -/
def properties? (members : Members) : Option Members :=
  (members.lookup "properties").bind Json.object?

theorem sizeOf_lt_of_mem (h : (key, v) ∈ members) : sizeOf v < sizeOf members := by
  have hlt := List.sizeOf_lt_of_mem h
  simp only [Prod.mk.sizeOf_spec] at hlt
  omega

theorem eq_object_of_object? (h : v.object? = some members) : v = .object members := by
  cases v with
  | object => exact congrArg Json.object (Option.some.inj h)
  | _ => cases h

theorem lookup_of_object (h : (members.lookup key).bind Json.object? = some element) :
    members.lookup key = some (.object element) := by
  obtain ⟨v, hv, hobject⟩ := Option.bind_eq_some_iff.mp h
  rw [hv, eq_object_of_object? hobject]

theorem mem_of_lookup_object (h : (members.lookup key).bind Json.object? = some element) :
    (key, .object element) ∈ members :=
  Json.mem_of_lookup (lookup_of_object h)

theorem sorted_of_lookup_object (hsorted : Json.Sorted (.object members))
    (h : (members.lookup key).bind Json.object? = some element) :
    Json.Sorted (.object element) :=
  hsorted.member (mem_of_lookup_object h)

theorem sizeOf_lookup_lt (h : (members.lookup key).bind Json.object? = some element) :
    sizeOf element < sizeOf members := by
  have hlt := sizeOf_lt_of_mem (mem_of_lookup_object h)
  simp only [Json.object.sizeOf_spec] at hlt
  omega

/-- What a walk through a description comes upon. -/
inductive Visit where
  | entry (key : String) (v : Json)
  | enumeration (name : String) (variants : List String)

/-- The walk through a value, depth first, with properties in the order of their keys. It enters
objects only, and not the members that a stronger keyword hides. -/
def visits (defaultName : String) : Json → List Visit
  | .object members =>
    match variants? members with
    | some variants => [.enumeration (ownName defaultName members) variants]
    | none =>
      match _h : items? members with
      | some element => visits (ownName defaultName members) (.object element)
      | none =>
        match _h : properties? members with
        | some properties =>
          properties.attach.flatMap fun m => .entry m.1.1 m.1.2 :: visits m.1.1 m.1.2
        | none => []
  | _ => []
termination_by v => sizeOf v
decreasing_by
  · simp only [Json.object.sizeOf_spec]
    have hlt := sizeOf_lookup_lt _h
    omega
  · have hlt : sizeOf m.1.2 < sizeOf properties := sizeOf_lt_of_mem m.2
    have hproperties := sizeOf_lookup_lt _h
    simp only [Json.object.sizeOf_spec]
    omega

theorem visits_enumeration {variants : List String} (h : variants? members = some variants) :
    visits name (.object members) = [.enumeration (ownName name members) variants] := by
  rw [visits, h]

theorem visits_items (hv : variants? members = none) (h : items? members = some element) :
    visits name (.object members) = visits (ownName name members) (.object element) := by
  rw [visits, hv]
  dsimp only
  split
  case h_1 heq =>
    obtain rfl := Option.some.inj (h.symm.trans heq)
    rfl
  case h_2 heq => exact absurd (h.symm.trans heq) (by simp)

theorem visits_properties (hv : variants? members = none) (hi : items? members = none)
    (h : properties? members = some properties) :
    visits name (.object members) =
      properties.flatMap fun m => .entry m.1 m.2 :: visits m.1 m.2 := by
  rw [visits, hv]
  dsimp only
  split
  case h_1 heq => exact absurd (hi.symm.trans heq) (by simp)
  split
  case h_1 heq =>
    obtain rfl := Option.some.inj (h.symm.trans heq)
    rw [List.flatMap_subtype (g := fun m => .entry m.1 m.2 :: visits m.1 m.2) fun _ _ => rfl,
      List.unattach_attach]
  case h_2 heq => exact absurd (h.symm.trans heq) (by simp)

theorem visits_other (hv : variants? members = none) (hi : items? members = none)
    (hp : properties? members = none) : visits name (.object members) = [] := by
  rw [visits, hv]
  dsimp only
  split
  case h_1 heq => exact absurd (hi.symm.trans heq) (by simp)
  split
  case h_1 heq => exact absurd (hp.symm.trans heq) (by simp)
  rfl

theorem visits_of_object?_eq_none (h : v.object? = none) : visits name v = [] := by
  cases v with
  | object members => cases h
  | _ => exact visits.eq_2 _ _ (by simp)

theorem buildItems_eq (members : Members) :
    buildItems name members = (items? members).map fun element => build name (.object element) := by
  induction members with
  | nil => simp [buildItems, items?]
  | cons m rest ih =>
    obtain ⟨n, w⟩ := m
    by_cases h : n = "items"
    · subst h
      cases w <;> simp [buildItems, items?, Json.object?]
    · have hskip : buildItems name ((n, w) :: rest) = buildItems name rest := by
        cases w <;> simp [buildItems, h]
      rw [hskip, ih, items?, items?, List.lookup_cons, beq_eq_false_iff_ne.mpr (Ne.symm h)]

theorem buildProperties_eq (required : List String) (members : Members) :
    buildProperties required members = (properties? members).map (buildEach required) := by
  induction members with
  | nil => simp [buildProperties, properties?]
  | cons m rest ih =>
    obtain ⟨n, w⟩ := m
    by_cases h : n = "properties"
    · subst h
      cases w <;> simp [buildProperties, properties?, Json.object?]
    · have hskip : buildProperties required ((n, w) :: rest) = buildProperties required rest := by
        cases w <;> simp [buildProperties, h]
      rw [hskip, ih, properties?, properties?, List.lookup_cons, beq_eq_false_iff_ne.mpr (Ne.symm h)]

theorem buildEach_cons (required : List String) (key : String) (sub rest : Members) :
    buildEach required ((key, .object sub) :: rest) =
      build key (.object sub) >>= fun schema => (buildEach required rest).map
        (⟨key, ownDescription sub, !required.contains key, schema⟩ :: ·) := by
  rw [buildEach]
  cases build key (.object sub) <;> rfl

theorem buildEach_cons_of_object?_eq_none (required : List String) (rest : Members)
    (h : v.object? = none) :
    buildEach required ((key, v) :: rest) = .error (.invalidProperty key) := by
  cases v with
  | object members => cases h
  | _ => simp [buildEach]

/-- Entries that are built are objects, and are built one by one. -/
theorem buildEach_cons_eq_ok {required : List String} {properties : List (Property Tree)}
    (h : buildEach required ((key, v) :: rest) = .ok properties) :
    ∃ sub schema others, v = .object sub ∧ build key (.object sub) = .ok schema ∧
      buildEach required rest = .ok others ∧
      properties = ⟨key, ownDescription sub, !required.contains key, schema⟩ :: others := by
  cases v with
  | object sub =>
    rw [buildEach_cons] at h
    obtain ⟨schema, hschema, h⟩ := bind_eq_ok h
    obtain ⟨others, hothers, rfl⟩ := map_eq_ok h
    exact ⟨sub, schema, others, rfl, hschema, hothers, rfl⟩
  | _ =>
    rw [buildEach_cons_of_object?_eq_none _ _ rfl] at h
    cases h

/-- The names that an object requires of its properties. -/
def required (members : Members) : List String := (strings? members "required").getD []

theorem build_of_object?_eq_none (h : v.object? = none) : build name v = .error .rootNotObject := by
  cases v with
  | object members => cases h
  | _ => simp [build]

/-- Nothing but an object is a description. -/
theorem object_of_buildRoot {t : Tree} (h : buildRoot v = .ok t) :
    ∃ members, v = .object members ∧ build defaultRootName (.object members) = .ok t := by
  cases v with
  | object members => exact ⟨members, rfl, h⟩
  | _ => simp [buildRoot, build] at h

theorem build_enumeration {variants : List String} (h : variants? members = some variants) :
    build name (.object members) =
      .ok (.enumeration (ownName name members) (ownDescription members) variants) := by
  rw [build, h]

theorem build_items (hv : variants? members = none) (h : items? members = some element) :
    build name (.object members) =
      (build (ownName name members) (.object element)).map fun element =>
        .array element ((members.lookup "minItems").bind Json.word?)
          ((members.lookup "maxItems").bind Json.word?) := by
  rw [build, hv, buildItems_eq, h]
  rfl

theorem build_properties (hv : variants? members = none) (hi : items? members = none)
    (h : properties? members = some properties) :
    build name (.object members) = (buildEach (required members) properties).map
      (.object (ownName name members) (ownDescription members)) := by
  rw [build, hv, buildItems_eq, hi, buildProperties_eq, h]
  rfl

theorem build_other (hv : variants? members = none) (hi : items? members = none)
    (hp : properties? members = none) :
    build name (.object members) = .ok (match primitive? members with
      | some kind => .primitive kind
      | none => .leaf (ownName name members) (ownDescription members)) := by
  rw [build, hv, buildItems_eq, hi, buildProperties_eq, hp]
  cases primitive? members <;> rfl

/-- Induction along the walk through an object. -/
theorem reach_induction {motive : String → Members → Prop}
    (enumeration : ∀ name members variants, variants? members = some variants →
      motive name members)
    (items : ∀ name members element, variants? members = none → items? members = some element →
      motive (ownName name members) element → motive name members)
    (properties : ∀ name members properties, variants? members = none → items? members = none →
      properties? members = some properties →
      (∀ key sub, (key, .object sub) ∈ properties → motive key sub) → motive name members)
    (other : ∀ name members, variants? members = none → items? members = none →
      properties? members = none → motive name members)
    (name : String) (members : Members) : motive name members := by
  match hv : variants? members, hi : items? members, hp : properties? members with
  | some variants, _, _ => exact enumeration name members variants hv
  | none, some element, _ =>
    exact items name members element hv hi
      (reach_induction enumeration items properties other _ element)
  | none, none, some entries =>
    exact properties name members entries hv hi hp fun key sub _ =>
      reach_induction enumeration items properties other key sub
  | none, none, none => exact other name members hv hi hp
termination_by sizeOf members
decreasing_by
  · exact sizeOf_lookup_lt hi
  · rename_i hm
    have hlt := sizeOf_lt_of_mem hm
    have hproperties := sizeOf_lookup_lt hp
    simp only [Json.object.sizeOf_spec] at hlt
    omega

end Generation.Schema
