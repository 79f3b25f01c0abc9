import Generation.Proofs.Schema.Headings

/-!
Members that do not count. A member that a stronger keyword hides may hold anything or be left out,
and so may every member that is no keyword: what is built is the same tree, or the same error.
-/
namespace Generation.Schema

open Json (Members change lookup_foldl_change lookup_modifyMember_of_ne lookup_modifyMember_self
  mem_of_lookup modifyAt_append modifyMember)

/-- The names that are looked up in descriptions. -/
def keywords : List String :=
  ["anyOf", "description", "enum", "items", "maxItems", "minItems", "name", "properties",
    "required", "type"]

/-- The keywords that are hidden by what an object describes. Strings under `anyOf` hide `enum`,
while those under `enum` may only be taken where `anyOf` does not count. -/
def hiddenKeywords (members : Members) : List String :=
  match nodeKind members with
  | .enumeration =>
    (if (strings? members "anyOf").isSome then ["enum"] else []) ++
      ["items", "maxItems", "minItems", "properties", "required", "type"]
  | .array => ["properties", "required", "type"]
  | .object => ["maxItems", "minItems", "type"]
  | .primitive | .leaf => []

def IsHidden (members : Members) (name : String) : Prop :=
  name ∈ hiddenKeywords members ∨ name ∉ keywords

variable {root members members' entries : Members} {name key : String} {names : List String}
  {place : Place} {e : Error}

/-! Objects that agree in what is read of them -/

/-- Two objects have the same members, apart from those that do not count in the first. -/
def Agree (members members' : Members) : Prop :=
  ∀ key, ¬ IsHidden members key → members'.lookup key = members.lookup key

theorem lookup_of_agree (h : Agree members members') (key : String) (hkey : key ∈ keywords)
    (hshown : key ∉ hiddenKeywords members) : members'.lookup key = members.lookup key :=
  h key fun hhidden => hhidden.elim hshown fun hother => hother hkey

/-- What is read first is never hidden. -/
theorem not_mem_hiddenKeywords (h : key ∈ ["anyOf", "description", "name"]) :
    key ∉ hiddenKeywords members := by
  unfold hiddenKeywords
  revert key
  split
  · split
    · decide
    · decide
  all_goals decide

theorem ownName_of_agree (h : Agree members members') (name : String) :
    ownName name members' = ownName name members := by
  rw [ownName, ownName, lookup_of_agree h _ (by decide) (not_mem_hiddenKeywords (by decide))]

theorem ownDescription_of_agree (h : Agree members members') :
    ownDescription members' = ownDescription members := by
  rw [ownDescription, ownDescription,
    lookup_of_agree h _ (by decide) (not_mem_hiddenKeywords (by decide))]

theorem strings?_congr (h : members'.lookup key = members.lookup key) :
    strings? members' key = strings? members key := by
  rw [strings?, strings?, h]

theorem variants?_congr (hany : members'.lookup "anyOf" = members.lookup "anyOf")
    (henum : members'.lookup "enum" = members.lookup "enum") :
    variants? members' = variants? members := by
  rw [variants?, variants?, strings?_congr hany, strings?_congr henum]

theorem variants?_of_agree (h : Agree members members') :
    variants? members' = variants? members := by
  have hany := lookup_of_agree h "anyOf" (by decide) (not_mem_hiddenKeywords (by decide))
  cases hstrings : strings? members "anyOf" with
  | some variants =>
    -- `enum` is hidden, and is not looked at
    have hstrings' := (strings?_congr hany).trans hstrings
    rw [variants?, variants?, hstrings, hstrings', Option.some_or, Option.some_or]
  | none =>
    refine variants?_congr hany (lookup_of_agree h _ (by decide) ?_)
    unfold hiddenKeywords
    rw [hstrings]
    split <;> decide

theorem build_of_agree (h : Agree members members') (name : String) :
    build name (.object members') = build name (.object members) := by
  have hv' := variants?_of_agree h
  match hv : variants? members, hi : items? members, hp : properties? members with
  | some variants, _, _ =>
    rw [build_enumeration hv, build_enumeration (hv'.trans hv), ownName_of_agree h,
      ownDescription_of_agree h]
  | none, some element, _ =>
    have hhidden : hiddenKeywords members = ["properties", "required", "type"] := by
      simp [hiddenKeywords, nodeKind, hv, hi]
    have hitems := lookup_of_agree h "items" (by decide) (by rw [hhidden]; decide)
    have hleast := lookup_of_agree h "minItems" (by decide) (by rw [hhidden]; decide)
    have hgreatest := lookup_of_agree h "maxItems" (by decide) (by rw [hhidden]; decide)
    have hi' : items? members' = some element := by rw [items?, hitems, ← items?, hi]
    rw [build_items hv hi, build_items (hv'.trans hv) hi', ownName_of_agree h, hleast, hgreatest]
  | none, none, some entries =>
    have hhidden : hiddenKeywords members = ["maxItems", "minItems", "type"] := by
      simp [hiddenKeywords, nodeKind, hv, hi, hp]
    have hitems := lookup_of_agree h "items" (by decide) (by rw [hhidden]; decide)
    have hproperties :=
      lookup_of_agree h "properties" (by decide) (by rw [hhidden]; decide)
    have hrequired := lookup_of_agree h "required" (by decide) (by rw [hhidden]; decide)
    have hi' : items? members' = none := by rw [items?, hitems, ← items?, hi]
    have hp' : properties? members' = some entries := by
      rw [properties?, hproperties, ← properties?, hp]
    rw [build_properties hv hi hp, build_properties (hv'.trans hv) hi' hp', ownName_of_agree h,
      ownDescription_of_agree h, required, strings?_congr hrequired, ← required]
  | none, none, none =>
    have hhidden : hiddenKeywords members = [] := by
      unfold hiddenKeywords
      simp only [nodeKind, hv, hi, hp]
      cases primitive? members <;> rfl
    have hall (key : String) (hkey : key ∈ keywords) : members'.lookup key = members.lookup key :=
      lookup_of_agree h key hkey (by simp [hhidden])
    have hi' : items? members' = none := by rw [items?, hall _ (by decide), ← items?, hi]
    have hp' : properties? members' = none := by
      rw [properties?, hall _ (by decide), ← properties?, hp]
    have hprimitive : primitive? members' = primitive? members := by
      rw [primitive?, primitive?, hall _ (by decide)]
    rw [build_other hv hi hp, build_other (hv'.trans hv) hi' hp', ownName_of_agree h,
      ownDescription_of_agree h, hprimitive]

/-! Changes somewhere in a description -/

/-- Objects that are built and described as the same. -/
structure SameBuild (members members' : Members) : Prop where
  built : ∀ name, build name (.object members') = build name (.object members)
  description : ownDescription members' = ownDescription members

theorem sameBuild_of_agree (h : Agree members members') : SameBuild members members' :=
  ⟨build_of_agree h, ownDescription_of_agree h⟩

theorem variants?_of_nodeKind (h : nodeKind members ≠ .enumeration) : variants? members = none := by
  cases hv : variants? members with
  | none => rfl
  | some variants => exact absurd (by simp [nodeKind, hv]) h

theorem items?_of_nodeKind (h : nodeKind members = .object) : items? members = none := by
  cases hi : items? members with
  | none => rfl
  | some element =>
    have hv : variants? members = none := variants?_of_nodeKind (by simp [h])
    simp [nodeKind, hv, hi] at h

variable {f : Json → Json} {element element' sub sub' : Members}

theorem lookup_modifyMember_object (h : (members.lookup key).bind Json.object? = some element)
    (hf : f (.object element) = .object element') :
    ((modifyMember key f members).lookup key).bind Json.object? = some element' := by
  rw [lookup_modifyMember_self, lookup_of_object h, Option.map_some, hf]
  rfl

theorem sameBuild_items (hkind : nodeKind members = .array) (hitems : items? members = some element)
    (hf : f (.object element) = .object element') (h : SameBuild element element') :
    SameBuild members (modifyMember "items" f members) := by
  have hrest (key : String) (hne : key ≠ "items") :
      (modifyMember "items" f members).lookup key = members.lookup key :=
    lookup_modifyMember_of_ne hne
  have hv : variants? members = none := variants?_of_nodeKind (by simp [hkind])
  have hv' : variants? (modifyMember "items" f members) = none := by
    rw [variants?_congr (hrest _ (by decide)) (hrest _ (by decide)), hv]
  have hitems' := lookup_modifyMember_object hitems hf
  refine ⟨fun name => ?_, ?_⟩
  · rw [build_items hv hitems, build_items hv' hitems', h.built, ownName, ownName,
      hrest _ (by decide), hrest _ (by decide), hrest _ (by decide)]
  · rw [ownDescription, ownDescription, hrest _ (by decide)]

theorem buildEach_modifyMember (hkey : entries.lookup key = some (.object sub))
    (hf : f (.object sub) = .object sub') (h : SameBuild sub sub') :
    buildEach names (modifyMember key f entries) = buildEach names entries := by
  induction entries with
  | nil => cases hkey
  | cons m rest ih =>
    obtain ⟨n, v⟩ := m
    rw [modifyMember]
    split
    case isTrue hn =>
      subst hn
      obtain rfl : v = .object sub := by simpa using hkey
      rw [hf, buildEach_cons, buildEach_cons, h.built, h.description]
    case isFalse hn =>
      have hne : (key == n) = false := beq_eq_false_iff_ne.mpr (Ne.symm hn)
      rw [List.lookup_cons, hne] at hkey
      cases hv : v.object? with
      | none =>
        rw [buildEach_cons_of_object?_eq_none _ _ hv, buildEach_cons_of_object?_eq_none _ _ hv]
      | some ms =>
        obtain rfl := eq_object_of_object? hv
        rw [buildEach_cons, buildEach_cons, ih hkey]

theorem sameBuild_property (hkind : nodeKind members = .object)
    (hproperties : properties? members = some entries)
    (hkey : entries.lookup key = some (.object sub)) (hf : f (.object sub) = .object sub')
    (h : SameBuild sub sub') :
    SameBuild members
      (modifyMember "properties" (fun w => w.modifyChild f (.member key)) members) := by
  generalize hg : (fun w : Json => w.modifyChild f (.member key)) = g
  have hentries : g (.object entries) = .object (modifyMember key f entries) := by rw [← hg]; rfl
  have hrest (key : String) (hne : key ≠ "properties") :
      (modifyMember "properties" g members).lookup key = members.lookup key :=
    lookup_modifyMember_of_ne hne
  have hv : variants? members = none := variants?_of_nodeKind (by simp [hkind])
  have hv' : variants? (modifyMember "properties" g members) = none := by
    rw [variants?_congr (hrest _ (by decide)) (hrest _ (by decide)), hv]
  have hi := items?_of_nodeKind hkind
  have hi' : items? (modifyMember "properties" g members) = none := by
    rw [items?, hrest _ (by decide), ← items?, hi]
  have hproperties' := lookup_modifyMember_object hproperties hentries
  refine ⟨fun name => ?_, ?_⟩
  · rw [build_properties hv hi hproperties, build_properties hv' hi' hproperties', required,
      strings?_congr (hrest "required" (by decide)), ← required, buildEach_modifyMember hkey hf h,
      ownName, ownName, hrest _ (by decide), ownDescription, ownDescription, hrest _ (by decide)]
  · rw [ownDescription, ownDescription, hrest _ (by decide)]

/-- Where an object is reached that is built to the same as another, it may be replaced by it. -/
theorem buildRoot_modifyAt (hreached : Reached root place members) :
    ∀ f members', f (.object members) = .object members' → SameBuild members members' →
      buildRoot ((Json.object root).modifyAt f place.path) = buildRoot (.object root) := by
  -- from the object outwards: each object around it is built to the same again
  induction hreached with
  | root =>
    intro f members' hf h
    change buildRoot (f (.object root)) = _
    rw [hf]
    exact h.built defaultRootName
  | element _ hkind hitems ih =>
    intro f members' hf h
    rw [Place.path, modifyAt_append]
    exact ih _ _ rfl (sameBuild_items hkind hitems hf h)
  | property _ hkind hproperties hsub ih =>
    intro f members' hf h
    rw [Place.path, modifyAt_append]
    exact ih _ _ rfl (sameBuild_property hkind hproperties hsub hf h)

/-! Faults -/

theorem sorted_of_reached (hsorted : Json.Sorted (.object root)) (h : Reached root place members) :
    Json.Sorted (.object members) := by
  induction h with
  | root => exact hsorted
  | element _ _ hitems ih => exact sorted_of_lookup_object ih hitems
  | property _ _ hproperties hsub ih =>
    exact (sorted_of_lookup_object ih hproperties).member (mem_of_lookup hsub)

theorem buildEach_eq_error (h : buildEach names entries = .error e) :
    (∃ key v, (key, v) ∈ entries ∧ v.object? = none ∧ e = .invalidProperty key) ∨
      ∃ key sub, (key, .object sub) ∈ entries ∧ build key (.object sub) = .error e := by
  induction entries with
  | nil =>
    rw [buildEach] at h
    cases h
  | cons m rest ih =>
    obtain ⟨key, v⟩ := m
    cases hv : v.object? with
    | none =>
      rw [buildEach_cons_of_object?_eq_none _ _ hv] at h
      exact Or.inl ⟨key, v, by simp, hv, (Except.error.inj h).symm⟩
    | some sub =>
      obtain rfl := eq_object_of_object? hv
      rw [buildEach_cons] at h
      cases hsub : build key (.object sub) with
      | error d =>
        rw [hsub] at h
        cases h
        exact Or.inr ⟨key, sub, by simp, hsub⟩
      | ok schema =>
        rw [hsub] at h
        rcases ih (map_eq_error h) with ⟨k, w, hw, hobject, he⟩ | ⟨k, ms, hms, he⟩
        · exact Or.inl ⟨k, w, List.mem_cons_of_mem _ hw, hobject, he⟩
        · exact Or.inr ⟨k, ms, List.mem_cons_of_mem _ hms, he⟩

/-- An error is that of an entry which is no object, in an object whose properties count. -/
def IsVisible (root : Members) (e : Error) : Prop :=
  ∃ place members entries key v, Reached root place members ∧ nodeKind members = .object ∧
    properties? members = some entries ∧ entries.lookup key = some v ∧ v.object? = none ∧
    e = .invalidProperty key

theorem isVisible_of_build (hsorted : Json.Sorted (.object root)) (name : String)
    (members : Members) : ∀ place, place.name = name → Reached root place members →
      build name (.object members) = .error e → IsVisible root e := by
  induction name, members using reach_induction with
  | enumeration name members variants hv =>
    intro place _ _ h
    rw [build_enumeration hv] at h
    cases h
  | items name members element hv hi ih =>
    rintro place rfl hreached h
    rw [build_items hv hi] at h
    have hkind : nodeKind members = .array := by simp [nodeKind, hv, hi]
    exact ih (.element members place) rfl (hreached.element hkind hi) (map_eq_error h)
  | properties name members entries hv hi hp ih =>
    rintro place rfl hreached h
    rw [build_properties hv hi hp] at h
    have hkind : nodeKind members = .object := by simp [nodeKind, hv, hi, hp]
    have hascending : Json.Ascending entries :=
      (sorted_of_lookup_object (sorted_of_reached hsorted hreached) hp).ascending
    have hlookup {key : String} {v : Json} (hm : (key, v) ∈ entries) :
        entries.lookup key = some v := Json.lookup_of_mem hascending hm
    rcases buildEach_eq_error (map_eq_error h) with ⟨key, v, hm, hv, he⟩ | ⟨key, sub, hm, hsub⟩
    · exact ⟨place, members, entries, key, v, hreached, hkind, hp, hlookup hm, hv, he⟩
    · exact ih key sub hm (.property key place) rfl (hreached.property hkind hp (hlookup hm)) hsub
  | other name members hv hi hp =>
    intro place _ _ h
    rw [build_other hv hi hp] at h
    cases h

/-- What it means that members which do not count do not matter. -/
structure HiddenUnread (root : Members) : Prop where
  /-- In an object that is reached they may be given any values, or taken out. -/
  unchanged : ∀ place members (changes : List (String × Option Json)),
    Reached root place members → (∀ c ∈ changes, IsHidden members c.1) →
      buildRoot ((Json.object root).modifyAt (fun _ => .object (changes.foldl change members))
        place.path) = buildRoot (.object root)
  /-- Nothing that is wrong with hidden properties is an error. -/
  faults : ∀ e, buildRoot (.object root) = .error e → IsVisible root e

theorem hiddenUnread (hsorted : Json.Sorted (.object root)) : HiddenUnread root := by
  constructor
  · intro place members changes hreached hhidden
    have hagree : Agree members (changes.foldl change members) := by
      intro key hkey
      refine lookup_foldl_change fun c hc heq => hkey ?_
      rw [heq]
      exact hhidden c hc
    exact buildRoot_modifyAt hreached _ _ rfl (sameBuild_of_agree hagree)
  · intro e h
    exact isVisible_of_build hsorted _ root .root rfl .root h

/-- Two levels down, an enumeration hides properties with a fault in them. -/
theorem hiddenUnread_faulty_properties :
    let inner : Members := [("enum", .array [.string "x"]), ("properties", .object [("a", .null)])]
    let array : Members := [("items", .object inner)]
    let root : Members := [("properties", .object [("list", .object array)])]
    let place : Place := .element array (.property "list" .root)
    let changes : List (String × Option Json) :=
      [("color", some .null), ("properties", none), ("type", some (.array []))]
    let changed : Members :=
      [("color", .null), ("enum", .array [.string "x"]), ("type", .array [])]
    let t := Tree.object "Root" none
      [⟨"list", none, true, .array (.enumeration "list" none ["x"]) none none⟩]
    Json.Sorted (.object root) ∧ HiddenUnread root ∧ Reached root place inner ∧
      (∀ c ∈ changes, IsHidden inner c.1) ∧ buildRoot (.object root) = .ok t ∧
      buildRoot (.object [("properties", .object [("list", .object [("items", .object changed)])])]) =
        .ok t := by
  intro inner array root place changes changed t
  have hinner : Json.Sorted (.object inner) := by
    refine .object (Json.ascending_of_names (by decide)) ?_
    simp only [inner, List.forall_mem_cons]
    exact ⟨.array fun v hv => List.mem_singleton.mp hv ▸ .string "x", Json.Sorted.null.single,
      by simp⟩
  have hsorted : Json.Sorted (.object root) := hinner.single.single.single
  have hreached : Reached root place inner :=
    .element (.property .root rfl rfl rfl) rfl rfl
  have hhidden : ∀ c ∈ changes, IsHidden inner c.1 := by
    intro c hc
    simp only [changes, List.mem_cons, List.not_mem_nil, or_false] at hc
    rcases hc with rfl | rfl | rfl
    · exact Or.inr (by decide)
    · exact Or.inl (by decide)
    · exact Or.inl (by decide)
  have hbuild : buildRoot (.object root) = .ok t := rfl
  have hunread := hiddenUnread hsorted
  exact ⟨hsorted, hunread, hreached, hhidden, hbuild,
    (hunread.unchanged place inner changes hreached hhidden).trans hbuild⟩

end Generation.Schema
