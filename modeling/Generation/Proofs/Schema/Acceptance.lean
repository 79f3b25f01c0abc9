import Generation.Proofs.Schema.Description
import Generation.Schema.Document

/-! Which descriptions have a schema, and which fault is found in the others. -/
namespace Generation.Schema

open Json (Members)

variable {α β : Type} {name key : String} {members entries : Members} {v : Json}
  {fault fault' : Option Error} {r : Except Error α}

/-- The key of an entry that is no object. -/
def Visit.badKey? : Visit → Option String
  | .entry key v => if v.object?.isSome then none else some key
  | .enumeration .. => none

/-- The name of an enumeration without variants. -/
def Visit.emptyName? : Visit → Option String
  | .enumeration name [] => some name
  | _ => none

/-- The first entry on a walk that is no object. -/
def badProperty? (walk : List Visit) : Option Error :=
  (walk.findSome? Visit.badKey?).map .invalidProperty

/-- The first enumeration on a walk that has no variants. -/
def emptyEnumeration? (walk : List Visit) : Option Error :=
  (walk.findSome? Visit.emptyName?).map .noVariants

/-- The fault of a description. An entry that is no object comes before every enumeration without
variants, also before one that is reached earlier. -/
def fault? (v : Json) : Option Error :=
  match v with
  | .object _ =>
    (badProperty? (visits defaultRootName v)).or (emptyEnumeration? (visits defaultRootName v))
  | _ => some .rootNotObject

/-- A result is the error of the fault, if there is one, and no error otherwise. -/
def Decides (fault : Option Error) (r : Except Error α) : Prop :=
  match fault with
  | some e => r = .error e
  | none => ∃ a, r = .ok a

theorem Decides.map (h : Decides fault r) (f : α → β) : Decides fault (r.map f) := by
  cases fault with
  | some e =>
    obtain rfl : r = .error e := h
    rfl
  | none =>
    obtain ⟨a, rfl⟩ := h
    exact ⟨f a, rfl⟩

/-- Of two steps, the fault of the first comes first. -/
theorem Decides.bind {f : α → Except Error β} (h : Decides fault r)
    (hf : ∀ a, r = .ok a → Decides fault' (f a)) : Decides (fault.or fault') (r >>= f) := by
  cases fault with
  | some e =>
    obtain rfl : r = .error e := h
    rfl
  | none =>
    obtain ⟨a, rfl⟩ := h
    rw [Option.none_or]
    exact hf a rfl

theorem badProperty?_append (a b : List Visit) :
    badProperty? (a ++ b) = (badProperty? a).or (badProperty? b) := by
  simp [badProperty?, List.findSome?_append, Option.map_or]

theorem emptyEnumeration?_append (a b : List Visit) :
    emptyEnumeration? (a ++ b) = (emptyEnumeration? a).or (emptyEnumeration? b) := by
  simp [emptyEnumeration?, List.findSome?_append, Option.map_or]

/-- The walk through the entries of an object. -/
def visitsEach (entries : Members) : List Visit :=
  entries.flatMap fun m => .entry m.1 m.2 :: visits m.1 m.2

theorem visitsEach_cons (m : String × Json) (rest : Members) :
    visitsEach (m :: rest) = [.entry m.1 m.2] ++ (visits m.1 m.2 ++ visitsEach rest) := by
  simp [visitsEach]

theorem propertyDocuments_cons (p : Property Tree) (rest : List (Property Tree)) :
    propertyDocuments (p :: rest) = document p.schema >>= fun node =>
      (propertyDocuments rest).map ((p.name, describe p.description node) :: ·) := by
  rw [propertyDocuments]
  cases document p.schema <;> rfl

theorem propertyDocuments_cons_eq_ok {p : Property Tree} {rest : List (Property Tree)}
    {documents : Members} (h : propertyDocuments (p :: rest) = .ok documents) :
    ∃ node others, document p.schema = .ok node ∧ propertyDocuments rest = .ok others ∧
      documents = (p.name, describe p.description node) :: others := by
  rw [propertyDocuments_cons] at h
  obtain ⟨node, hnode, h⟩ := bind_eq_ok h
  obtain ⟨others, hothers, rfl⟩ := map_eq_ok h
  exact ⟨node, others, hnode, hothers, rfl⟩

theorem document_enumeration (name : String) (description : Option String) (variant : String)
    (variants : List String) : document (.enumeration name description (variant :: variants)) =
      .ok (.object (member? "description" .string description ++
        [("enum", .array ((variant :: variants).map .string)), ("title", .string name),
          ("type", .string "string")])) :=
  document.eq_4 _ _ _ (by simp)

theorem decides_buildEach {required : List String}
    (h : ∀ key sub, (key, .object sub) ∈ entries →
      Decides (badProperty? (visits key (.object sub))) (build key (.object sub))) :
    Decides (badProperty? (visitsEach entries)) (buildEach required entries) := by
  induction entries with
  | nil => exact ⟨[], by rw [buildEach]⟩
  | cons m rest ih =>
    obtain ⟨key, v⟩ := m
    rw [visitsEach_cons, badProperty?_append, badProperty?_append]
    cases hv : v.object? with
    | none =>
      rw [buildEach_cons_of_object?_eq_none _ _ hv]
      simp [badProperty?, Visit.badKey?, hv, Decides]
    | some sub =>
      obtain rfl := eq_object_of_object? hv
      have hentry : badProperty? [.entry key (.object sub)] = none := by
        simp [badProperty?, Visit.badKey?, Json.object?]
      rw [buildEach_cons, hentry, Option.none_or]
      refine (h key sub (by simp)).bind fun schema _ => ?_
      exact (ih fun key sub hm => h key sub (List.mem_cons_of_mem _ hm)).map _

theorem decides_build (name : String) (members : Members) :
    Decides (badProperty? (visits name (.object members))) (build name (.object members)) := by
  induction name, members using reach_induction with
  | enumeration name members variants hv =>
    rw [visits_enumeration hv, build_enumeration hv]
    exact ⟨_, rfl⟩
  | items name members element hv hi ih =>
    rw [visits_items hv hi, build_items hv hi]
    exact ih.map _
  | properties name members properties hv hi hp ih =>
    rw [visits_properties hv hi hp, build_properties hv hi hp]
    exact (decides_buildEach ih).map _
  | other name members hv hi hp =>
    rw [visits_other hv hi hp, build_other hv hi hp]
    exact ⟨_, rfl⟩

theorem decides_propertyDocuments {required : List String} {properties : List (Property Tree)}
    (hbuild : buildEach required entries = .ok properties)
    (h : ∀ key sub, (key, .object sub) ∈ entries → ∀ t, build key (.object sub) = .ok t →
      Decides (emptyEnumeration? (visits key (.object sub))) (document t)) :
    Decides (emptyEnumeration? (visitsEach entries)) (propertyDocuments properties) := by
  induction entries generalizing properties with
  | nil =>
    rw [buildEach] at hbuild
    obtain rfl := Except.ok.inj hbuild
    exact ⟨[], by rw [propertyDocuments]⟩
  | cons m rest ih =>
    obtain ⟨key, v⟩ := m
    obtain ⟨sub, schema, others, rfl, hschema, hothers, rfl⟩ := buildEach_cons_eq_ok hbuild
    rw [visitsEach_cons, emptyEnumeration?_append, emptyEnumeration?_append,
      propertyDocuments_cons]
    refine (h key sub (by simp) schema hschema).bind fun node _ => ?_
    exact (ih hothers fun key sub hm => h key sub (List.mem_cons_of_mem _ hm)).map _

theorem decides_document (name : String) (members : Members) :
    ∀ t, build name (.object members) = .ok t →
      Decides (emptyEnumeration? (visits name (.object members))) (document t) := by
  induction name, members using reach_induction with
  | enumeration name members variants hv =>
    intro t ht
    rw [build_enumeration hv] at ht
    obtain rfl := Except.ok.inj ht
    rw [visits_enumeration hv]
    cases variants with
    | nil => exact document.eq_3 _ _
    | cons variant variants => exact ⟨_, document_enumeration ..⟩
  | items name members element hv hi ih =>
    intro t ht
    rw [build_items hv hi] at ht
    obtain ⟨element, helement, rfl⟩ := map_eq_ok ht
    rw [visits_items hv hi, document]
    exact (ih element helement).map _
  | properties name members properties hv hi hp ih =>
    intro t ht
    rw [build_properties hv hi hp] at ht
    obtain ⟨properties, hproperties, rfl⟩ := map_eq_ok ht
    rw [visits_properties hv hi hp, document]
    exact (decides_propertyDocuments hproperties ih).map _
  | other name members hv hi hp =>
    intro t ht
    rw [build_other hv hi hp] at ht
    obtain rfl := Except.ok.inj ht
    rw [visits_other hv hi hp]
    cases primitive? members with
    | some kind => exact ⟨_, by rw [document]⟩
    | none => exact ⟨_, by rw [document]⟩

end Generation.Schema
