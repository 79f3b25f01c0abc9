import Generation.Proofs.Json.Rewriting
import Generation.Proofs.Schema.Conformance

/-!
Descriptions that are written down in different ways are compiled to the same. Nothing that decides
about a schema depends on how it is written, and the names that are required are a set.
-/
namespace Generation.Schema

open Json (Members Alike AlikeMembers lookup_alike object_alike string?_alike word?_alike)
open Json.Grammar (IsBlank IsUnit IsValue Item Member Rewritten Spells Twins arrayText
  isString_of_plain isString_of_spells objectText spells_of_plain)

variable {name key : String} {members members' entries entries' : Members} {v w : Json}
  {names names' : List String}

/-- What is seen of a member is the same if the same is seen of values alike. -/
theorem lookup_bind_alike {α : Type} {f : Json → Option α}
    (h : AlikeMembers "required" members members')
    (hf : ∀ v w, Alike "required" (some key) v w → f v = f w) :
    (members.lookup key).bind f = (members'.lookup key).bind f := by
  rcases lookup_alike h key with ⟨hv, hw⟩ | ⟨v, w, hv, hw, halike⟩
  · rw [hv, hw]
  · rw [hv, hw]
    exact hf v w halike

theorem ownName_alike (h : AlikeMembers "required" members members') (name : String) :
    ownName name members = ownName name members' := by
  rw [ownName, ownName, lookup_bind_alike h fun _ _ => string?_alike]

theorem ownDescription_alike (h : AlikeMembers "required" members members') :
    ownDescription members = ownDescription members' :=
  lookup_bind_alike h fun _ _ => string?_alike

theorem primitive?_alike (h : AlikeMembers "required" members members') :
    primitive? members = primitive? members' := by
  rw [primitive?, primitive?, lookup_bind_alike h fun _ _ => string?_alike]

theorem mapM_string?_alike {items items' : List Json}
    (h : items.Forall₂ (Alike "required" none) items') :
    items.mapM Json.string? = items'.mapM Json.string? := by
  induction h with
  | nil => rfl
  | cons hv _ ih => rw [List.mapM_cons, List.mapM_cons, string?_alike hv, ih]

theorem strings?_alike (h : AlikeMembers "required" members members') (hkey : key ≠ "required") :
    strings? members key = strings? members' key := by
  rw [strings?, strings?, Option.bind_assoc, Option.bind_assoc]
  refine lookup_bind_alike h fun v w halike => ?_
  cases halike with
  | same => rfl
  | array hitems => exact mapM_string?_alike hitems
  | object => rfl
  | set => exact absurd rfl hkey

theorem variants?_alike (h : AlikeMembers "required" members members') :
    variants? members = variants? members' := by
  rw [variants?, variants?, strings?_alike h (by decide), strings?_alike h (by decide)]

/-- The same names are required, in whatever order and number they stand there. -/
theorem required_alike (h : AlikeMembers "required" members members') (s : String) :
    (required members).contains s = (required members').contains s := by
  rw [required, required, strings?, strings?]
  rcases lookup_alike h "required" with ⟨hv, hw⟩ | ⟨v, w, hv, hw, halike⟩
  · rw [hv, hw]
  · rw [hv, hw]
    cases halike with
    | same => rfl
    | array hitems =>
      simp only [Option.bind_some, Json.array?, mapM_string?_alike hitems]
    | object => rfl
    | set hsame =>
      simp only [Option.bind_some, Json.array?, mapM_string?, Option.getD_some,
        List.contains_eq_mem, hsame]

theorem lookup_object_alike {inner : Members} (h : AlikeMembers "required" members members')
    (hinner : (members.lookup key).bind Json.object? = some inner) :
    ∃ inner', (members'.lookup key).bind Json.object? = some inner' ∧
      AlikeMembers "required" inner inner' := by
  rcases lookup_alike h key with ⟨hv, -⟩ | ⟨v, w, hv, hw, halike⟩
  · rw [hv] at hinner
    cases hinner
  · rw [hv] at hinner
    rw [hw]
    rcases object_alike halike with ⟨hnone, -⟩ | ⟨sub, sub', rfl, rfl, hsub⟩
    · cases hnone.symm.trans hinner
    · cases hinner
      exact ⟨sub', rfl, hsub⟩

theorem lookup_object_alike_none (h : AlikeMembers "required" members members')
    (hnone : (members.lookup key).bind Json.object? = none) :
    (members'.lookup key).bind Json.object? = none := by
  rcases lookup_alike h key with ⟨-, hw⟩ | ⟨v, w, hv, hw, halike⟩
  · rw [hw]
    rfl
  · rw [hv] at hnone
    rw [hw]
    rcases object_alike halike with ⟨-, hnone'⟩ | ⟨sub, sub', rfl, rfl, -⟩
    · exact hnone'
    · cases hnone

theorem buildEach_alike (hnames : ∀ s, names.contains s = names'.contains s)
    (h : AlikeMembers "required" entries entries')
    (hbuild : ∀ key sub, (key, .object sub) ∈ entries → ∀ sub',
      AlikeMembers "required" sub sub' → build key (.object sub) = build key (.object sub')) :
    buildEach names entries = buildEach names' entries' := by
  induction entries generalizing entries' with
  | nil =>
    cases h
    rw [buildEach, buildEach]
  | cons m rest ih =>
    cases h with
    | @cons key v w _ _ hm hrest =>
      rcases object_alike hm with ⟨hv, hw⟩ | ⟨sub, sub', rfl, rfl, hsub⟩
      · rw [buildEach_cons_of_object?_eq_none _ _ hv, buildEach_cons_of_object?_eq_none _ _ hw]
      · rw [buildEach_cons, buildEach_cons, hbuild key sub (by simp) sub' hsub,
          ih hrest fun key sub hmem => hbuild key sub (List.mem_cons_of_mem _ hmem),
          hnames, ownDescription_alike hsub]

/-- Objects alike are built to the same tree, or have the same fault. -/
theorem build_alike (name : String) (members : Members) : ∀ members',
    AlikeMembers "required" members members' →
      build name (.object members) = build name (.object members') := by
  -- along the walk through the first object; the second is looked up in at every step
  induction name, members using reach_induction with
  | enumeration name members variants hv =>
    intro members' h
    have hv' : variants? members' = some variants := (variants?_alike h).symm.trans hv
    rw [build_enumeration hv, build_enumeration hv', ownName_alike h, ownDescription_alike h]
  | items name members element hv hi ih =>
    intro members' h
    have hv' : variants? members' = none := (variants?_alike h).symm.trans hv
    obtain ⟨element', hi', helement⟩ := lookup_object_alike h hi
    rw [build_items hv hi, build_items hv' hi', ih element' helement, ownName_alike h,
      lookup_bind_alike h fun _ _ => word?_alike, lookup_bind_alike h fun _ _ => word?_alike]
  | properties name members entries hv hi hp ih =>
    intro members' h
    have hv' : variants? members' = none := (variants?_alike h).symm.trans hv
    have hi' : items? members' = none := lookup_object_alike_none h hi
    obtain ⟨entries', hp', hentries⟩ := lookup_object_alike h hp
    rw [build_properties hv hi hp, build_properties hv' hi' hp',
      buildEach_alike (required_alike h) hentries ih, ownName_alike h, ownDescription_alike h]
  | other name members hv hi hp =>
    intro members' h
    have hv' : variants? members' = none := (variants?_alike h).symm.trans hv
    have hi' : items? members' = none := lookup_object_alike_none h hi
    have hp' : properties? members' = none := lookup_object_alike_none h hp
    rw [build_other hv hi hp, build_other hv' hi' hp', primitive?_alike h, ownName_alike h,
      ownDescription_alike h]

theorem ofJson_alike (h : Alike "required" none v w) :
    Compiled.ofJson v = Compiled.ofJson w := by
  have hroot : buildRoot v = buildRoot w := by
    rcases object_alike h with ⟨hv, hw⟩ | ⟨ms, ns, rfl, rfl, hms⟩
    · rw [buildRoot, buildRoot, build_of_object?_eq_none hv, build_of_object?_eq_none hw]
    · exact build_alike defaultRootName ms ns hms
  rw [Compiled.ofJson, Compiled.ofJson, hroot]

/-- Two texts of one description: they differ in blanks and escapes, in the order of members, and in
the order and number of the strings in lists of required names. -/
def Rewrites (text text' : List UInt8) : Prop :=
  ∃ x y : Item, text = Text.encode x.text ∧ text' = Text.encode y.text ∧ x.Spaced ∧ y.Spaced ∧
    Rewritten "required" none x.value y.value

/-- It does not matter how a description is written down: what comes of it is the same tree and the
same document, or the same error. -/
theorem ofText_eq_of_rewrites {text text' : List UInt8} (h : Rewrites text text')
    (hv : Json.parse text = .ok v) (hw : Json.parse text' = .ok w) :
    Compiled.ofText text = Compiled.ofText text' := by
  obtain ⟨x, y, rfl, rfl, hx, hy, hrewritten⟩ := h
  obtain ⟨hvalue, hvalue'⟩ := Json.Grammar.isValue_of_rewritten hrewritten
  have hread := Json.Read.readBy_of_parse hx hvalue hv
  have hread' := Json.Read.readBy_of_parse hy hvalue' hw
  have halike := Json.alike_of_rewritten hrewritten hread hread'
  rw [Compiled.ofText, Compiled.ofText, hv, hw]
  exact ofJson_alike halike

/-! A description with one required property, which is named again with an escape -/

/-- The name `a`, as a string. -/
def plainName : Item := ⟨[], "\"a\"".toList, []⟩

def escapedName : Item := ⟨" ".toList, "\"\\u0061\"".toList, []⟩

def propertiesMember : Member :=
  ⟨⟨[], "properties".toList, [], []⟩,
    objectText [⟨⟨[], "a".toList, [], []⟩, objectText [] [], []⟩] [], []⟩

def requiredMember (names : List Item) : Member :=
  ⟨⟨[], "required".toList, [], []⟩, arrayText names [], []⟩

/-- An object with the property `a`, which is required. -/
def requiredOnce : Item :=
  ⟨[], objectText [propertiesMember, requiredMember [plainName]] [], []⟩

/-- The same with the members in the other order. -/
def requiredTwice : Item :=
  ⟨"\n".toList, objectText [requiredMember [escapedName, plainName], propertiesMember] [], []⟩

def requiredTwins : List Twins :=
  [⟨"properties".toList, propertiesMember, propertiesMember⟩,
    ⟨"required".toList, requiredMember [plainName], requiredMember [escapedName, plainName]⟩]

theorem spelling_plainName : plainName.Spelling ['a'] :=
  ⟨⟨by simp [plainName, IsBlank], by simp [plainName, IsBlank]⟩, ['a'], rfl,
    spells_of_plain (by simp; decide)⟩

theorem spelling_escapedName : escapedName.Spelling ['a'] := by
  have hunit : IsUnit ['0', '0', '6', '1'] (((0 * 16 + 0) * 16 + 6) * 16 + 1) :=
    .mk rfl rfl rfl rfl
  have hspells : Spells ('\\' :: 'u' :: (['0', '0', '6', '1'] ++ [])) ['a'] :=
    .unit hunit (by decide) (by decide) .nil
  exact ⟨⟨by simp [escapedName, IsBlank], by simp [escapedName, IsBlank]⟩, _, rfl, hspells⟩

theorem isValue_propertiesMember : IsValue propertiesMember.value := by
  have hblank : IsBlank [] := by simp [IsBlank]
  have hempty : IsValue (objectText [] []) := .object (by simp) (by simp) hblank
  refine .object (fun m hm => ?_) (fun m hm => ?_) hblank
  · obtain rfl := List.mem_singleton.mp hm
    exact ⟨⟨hblank, isString_of_plain (by simp; decide), hblank, hblank⟩, hblank⟩
  · obtain rfl := List.mem_singleton.mp hm
    exact hempty

theorem rewrites_requiredTwice :
    Rewrites (Text.encode requiredOnce.text) (Text.encode requiredTwice.text) := by
  have hblank : IsBlank [] := by simp [IsBlank]
  have hline : IsBlank "\n".toList := by simp [IsBlank]
  have hproperties : Spells "properties".toList "properties".toList :=
    spells_of_plain (by simp; decide)
  have hrequired : Spells "required".toList "required".toList := spells_of_plain (by simp; decide)
  have hwell : ∀ t ∈ requiredTwins, t.WellFormed := by
    intro t ht
    simp only [requiredTwins, List.mem_cons, List.not_mem_nil, or_false] at ht
    rcases ht with rfl | rfl
    · have hmember : propertiesMember.WellFormed :=
        ⟨⟨hblank, isString_of_spells hproperties, hblank, hblank⟩, hblank⟩
      exact ⟨hmember, hmember, hproperties, hproperties⟩
    · have hmember (names : List Item) : (requiredMember names).WellFormed :=
        ⟨⟨hblank, isString_of_spells hrequired, hblank, hblank⟩, hblank⟩
      exact ⟨hmember _, hmember _, hrequired, hrequired⟩
  have hset : Rewritten "required" (some "required") (requiredMember [plainName]).value
      (requiredMember [escapedName, plainName]).value :=
    .set (.cons spelling_plainName .nil)
      (.cons spelling_escapedName (.cons spelling_plainName .nil)) (by simp) hblank hblank
  have hvalues : ∀ t ∈ requiredTwins,
      Rewritten "required" (some (String.ofList t.name)) t.left.value t.right.value := by
    intro t ht
    simp only [requiredTwins, List.mem_cons, List.not_mem_nil, or_false] at ht
    rcases ht with rfl | rfl
    · exact .same isValue_propertiesMember
    · exact hset
  have hrewritten : Rewritten "required" none requiredOnce.value requiredTwice.value :=
    .object hwell (by decide) hvalues (List.Perm.swap _ _ _) hblank hblank
  exact ⟨requiredOnce, requiredTwice, rfl, rfl, ⟨hblank, hblank⟩, ⟨hline, hblank⟩, hrewritten⟩

theorem ofText_eq_of_rewrites_requiredTwice :
    let text := Text.encode requiredOnce.text
    let text' := Text.encode requiredTwice.text
    Rewrites text text' ∧ (∃ v, Json.parse text = .ok v) ∧ (∃ w, Json.parse text' = .ok w) ∧
      Compiled.ofText text = Compiled.ofText text' := by
  intro text text'
  have hv : ∃ v, Json.parse text = .ok v := exists_of_isOk (by decide +kernel)
  have hw : ∃ w, Json.parse text' = .ok w := exists_of_isOk (by decide +kernel)
  obtain ⟨v, hv⟩ := hv
  obtain ⟨w, hw⟩ := hw
  exact ⟨rewrites_requiredTwice, ⟨v, hv⟩, ⟨w, hw⟩,
    ofText_eq_of_rewrites rewrites_requiredTwice hv hw⟩

end Generation.Schema
