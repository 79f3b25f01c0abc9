import Generation.Json.Basic

/-! Ways into JSON values, what stands at the end of them, and changes there. -/
namespace Generation.Json

/-- A step into a value: to the member of a name, or to an item by its number. -/
inductive Step where
  | member (name : String)
  | item (n : Nat)

def child? : Json → Step → Option Json
  | .object members, .member name => members.lookup name
  | .array items, .item n => items[n]?
  | _, _ => none

/-- What stands at the end of a path. -/
def at? : Json → List Step → Option Json
  | v, [] => some v
  | v, step :: path => (v.child? step).bind fun w => w.at? path

variable {v : Json} {members : Members} {step : Step} {path : List Step}

theorem at?_cons (v : Json) (step : Step) (path : List Step) :
    v.at? (step :: path) = (v.child? step).bind fun w => w.at? path := rfl

theorem at?_append (v : Json) (path rest : List Step) :
    v.at? (path ++ rest) = (v.at? path).bind fun w => w.at? rest := by
  induction path generalizing v with
  | nil => rfl
  | cons step path ih =>
    rw [List.cons_append, at?_cons, at?_cons]
    cases v.child? step with
    | none => rfl
    | some w => exact ih w

/-- What is found behind the brace of an object is found under one of its names. -/
theorem at?_object_cons (h : (Json.object members).at? (step :: path) = some v) :
    ∃ name w, step = .member name ∧ members.lookup name = some w ∧ w.at? path = some v := by
  obtain ⟨w, hw, hv⟩ := Option.bind_eq_some_iff.mp h
  cases step with
  | member name => exact ⟨name, w, rfl, hw, hv⟩
  | item n => cases hw

/-- No object stands in the value. -/
def Flat (v : Json) : Prop := ∀ path members, v.at? path ≠ some (.object members)

theorem flat_of_childless (hv : v.object? = none) (h : ∀ step, v.child? step = none) : Flat v := by
  intro path members hfound
  cases path with
  | nil =>
    obtain rfl := Option.some.inj hfound
    cases hv
  | cons step path =>
    rw [at?_cons, h step] at hfound
    cases hfound

theorem flat_boolean (b : Bool) : Flat (.boolean b) := flat_of_childless rfl fun _ => rfl

theorem flat_number (n : Number) : Flat (.number n) := flat_of_childless rfl fun _ => rfl

theorem flat_string (s : String) : Flat (.string s) := flat_of_childless rfl fun _ => rfl

theorem flat_array {items : List Json} (h : ∀ v ∈ items, Flat v) : Flat (.array items) := by
  intro path members hfound
  cases path with
  | nil => cases hfound
  | cons step path =>
    obtain ⟨w, hw, hbehind⟩ := Option.bind_eq_some_iff.mp hfound
    cases step with
    | member name => cases hw
    | item n => exact h w (List.mem_of_getElem? hw) path members hbehind

theorem flat_strings {α : Type} (f : α → String) (as : List α) :
    Flat (.array (as.map fun a => .string (f a))) := by
  refine flat_array fun v hv => ?_
  obtain ⟨a, -, rfl⟩ := List.mem_map.mp hv
  exact flat_string (f a)

theorem at?_ne_null_of_childless (hv : v ≠ .null) (h : ∀ step, v.child? step = none) :
    v.at? path ≠ some .null := by
  intro hnull
  cases path with
  | nil => exact hv (Option.some.inj hnull)
  | cons step path =>
    rw [at?_cons, h step] at hnull
    cases hnull

/-- Does something to the first member of a name. -/
def modifyMember (name : String) (f : Json → Json) : Members → Members
  | [] => []
  | (n, v) :: rest => if n = name then (n, f v) :: rest else (n, v) :: modifyMember name f rest

def modifyChild (f : Json → Json) : Json → Step → Json
  | .object members, .member name => .object (modifyMember name f members)
  | .array items, .item n => .array (items.modify n f)
  | v, _ => v

/-- Does something to what stands at the end of a path. -/
def modifyAt (f : Json → Json) : Json → List Step → Json
  | v, [] => f v
  | v, step :: path => v.modifyChild (fun w => modifyAt f w path) step

variable {name key : String} {f : Json → Json}

theorem lookup_modifyMember_self :
    (modifyMember name f members).lookup name = (members.lookup name).map f := by
  induction members with
  | nil => rfl
  | cons m rest ih =>
    obtain ⟨n, w⟩ := m
    rw [modifyMember]
    split
    case isTrue h =>
      subst h
      simp
    case isFalse h =>
      have hne : (name == n) = false := beq_eq_false_iff_ne.mpr (Ne.symm h)
      rw [List.lookup_cons, List.lookup_cons, hne, ih]

theorem lookup_modifyMember_of_ne (h : key ≠ name) :
    (modifyMember name f members).lookup key = members.lookup key := by
  induction members with
  | nil => rfl
  | cons m rest ih =>
    obtain ⟨n, w⟩ := m
    rw [modifyMember]
    split
    case isTrue hn =>
      subst hn
      have hne : (key == n) = false := beq_eq_false_iff_ne.mpr h
      rw [List.lookup_cons, List.lookup_cons, hne]
    case isFalse => rw [List.lookup_cons, List.lookup_cons, ih]

theorem modifyAt_append (f : Json → Json) (v : Json) (path rest : List Step) :
    v.modifyAt f (path ++ rest) = v.modifyAt (fun w => w.modifyAt f rest) path := by
  induction path generalizing v with
  | nil => rfl
  | cons step path ih => simp only [List.cons_append, modifyAt, ih]

end Generation.Json
