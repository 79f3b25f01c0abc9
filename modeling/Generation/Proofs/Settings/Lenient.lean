import Generation.Proofs.Json.Order
import Generation.Proofs.Settings.Changes
import Generation.Proofs.Settings.Codec
import Generation.Settings.Document
import Mathlib.Data.List.Sort

/-!
Settings that are read member by member. Each key is decided by the last value under its name alone:
by what an object with this one member stands for, and by whether users can give that value.
-/
namespace Generation

theorem Key.names_ascending : Key.names.Pairwise (· < ·) := by decide

namespace Settings

open Json (Members Mismatch Ascending lookup_of_mem mem_of_lookup)

variable {s t : Settings} {k : Key} {members : Members}

/-- The value of a key that a JSON value stands for, if users can give it. -/
def field? (k : Key) (v : Json) : Option k.Value :=
  match empty.decodeMembers [(k.name, v)] with
  | .error _ => none
  | .ok t => (t.get k).filter k.kind.accepts

/-- What is wrong with a JSON value as the value of a key. -/
def fault? (k : Key) (v : Json) : Option MemberFault :=
  match empty.decodeMembers [(k.name, v)] with
  | .error m => some (.mismatch m)
  | .ok t =>
    match t.get k with
    | none => none
    | some x =>
      if k.kind.accepts x then none else some (.setting (.invalidValue k (k.kind.refusal x)))

/-- An object with one member stands for the settings with one value. -/
theorem decodeMembers_singleton (k : Key) (v : Json) :
    empty.decodeMembers [(k.name, v)] = (k.kind.ofJson? v).map (empty.set k) := by
  simp only [decodeMembers, Key.ofMemberName?_eq_ofName?, Key.ofName?_name]
  cases k.kind.ofJson? v <;> rfl

/-- The text of a value stores it, unless users cannot give it. -/
theorem assign_render (s : Settings) (k : Key) (x : k.Value) :
    s.assign k (k.kind.render x) =
      if k.kind.accepts x then .ok (s.set k (some x))
      else .error (.invalidValue k (k.kind.refusal x)) := by
  rw [assign, Kind.parse_render]
  by_cases h : k.kind.accepts x
  · rw [if_pos h, if_pos h]
  · rw [if_neg h, if_neg h]

theorem fault?_null (k : Key) : fault? k .null = none := by
  rw [fault?, decodeMembers_singleton]
  simp [Kind.ofJson?, Except.map]

theorem ofJson?_of_ne_null {κ : Kind} {v : Json} (h : v ≠ .null) :
    κ.ofJson? v = (κ.ofJson v).map some := by
  cases v with
  | null => exact absurd rfl h
  | _ => rfl

/-- A value other than null is either stored or faulty. -/
theorem fault?_eq_none_iff (k : Key) (v : Json) :
    fault? k v = none ↔ v = .null ∨ (field? k v).isSome := by
  by_cases hv : v = .null
  · subst hv
    exact ⟨fun _ => Or.inl rfl, fun _ => fault?_null k⟩
  · rw [fault?, field?, decodeMembers_singleton, ofJson?_of_ne_null hv]
    cases k.kind.ofJson v with
    | error m => simp [Except.map, hv]
    | ok x =>
      by_cases h : k.kind.accepts x <;> simp [Except.map, Option.filter, hv, h]

/-- A member changes at most its own key, and a faulty one changes nothing. -/
theorem store_eq (s : Settings) (k : Key) (v : Json) :
    s.store k v =
      match fault? k v with
      | some e => .error e
      | none => .ok (match field? k v with | none => s | some x => s.set k (some x)) := by
  rw [store, fault?, field?, decodeMembers_singleton]
  cases k.kind.ofJson? v with
  | error m => rfl
  | ok x =>
    cases x with
    | none => simp [Except.map, render?]
    | some x =>
      by_cases h : k.kind.accepts x <;>
        simp [Except.map, render?, assign_render, h, Option.filter]

theorem get_ofMembers_store (s : Settings) (k : Key) (v : Json) (rest : Members) :
    ∃ s' : Settings, (s.ofMembers ((k.name, v) :: rest)).1 = (s'.ofMembers rest).1 ∧
      s'.get k = (field? k v).or (s.get k) ∧ ∀ j, j ≠ k → s'.get j = s.get j := by
  rw [ofMembers]
  simp only [Key.ofName?_name, store_eq]
  cases hfault : fault? k v with
  | some e =>
    have hfield : field? k v = none := by
      by_contra h
      have := (fault?_eq_none_iff k v).mpr (Or.inr (Option.isSome_iff_ne_none.mpr h))
      simp [hfault] at this
    exact ⟨s, rfl, by simp [hfield], fun _ _ => rfl⟩
  | none =>
    cases hfield : field? k v with
    | none => exact ⟨s, rfl, rfl, fun _ _ => rfl⟩
    | some x => exact ⟨s.set k (some x), rfl, by simp, fun j hj => get_set_of_ne hj⟩

/-- Each key is decided by its own member, whatever the others are. -/
theorem get_ofMembers (s : Settings) (h : Ascending members) (k : Key) :
    (s.ofMembers members).1.get k = ((members.lookup k.name).bind (field? k)).or (s.get k) := by
  induction members generalizing s with
  | nil => rfl
  | cons m rest ih =>
    obtain ⟨name, v⟩ := m
    obtain ⟨hlow, hrest⟩ := List.pairwise_cons.mp h
    cases hname : Key.ofName? name with
    | none =>
      have hne : k.name ≠ name := by
        rintro rfl
        simp at hname
      rw [ofMembers, List.lookup_cons, beq_eq_false_iff_ne.mpr hne]
      simp only [hname]
      exact ih s hrest
    | some j =>
      obtain rfl := Key.name_of_ofName? hname
      obtain ⟨s', hs', hown, hother⟩ := get_ofMembers_store s j v rest
      rw [hs', ih s' hrest, List.lookup_cons]
      by_cases hjk : k = j
      · subst hjk
        have hgone : rest.lookup k.name = none := by
          rw [List.lookup_eq_none_iff]
          intro m hm
          have hlt : k.name < m.1 := hlow m hm
          exact bne_iff_ne.mpr fun he => String.lt_irrefl m.1 (he ▸ hlt)
        simp [hgone, hown]
      · have hne : k.name ≠ j.name := fun he => hjk (Key.name_injective he)
        rw [beq_eq_false_iff_ne.mpr hne, hother k hjk]

/-- Which members are faulty does not depend on the settings before. -/
theorem faults_ofMembers (s : Settings) (members : Members) :
    (s.ofMembers members).2 = members.filterMap fun m =>
      (Key.ofName? m.1).bind fun k => (fault? k m.2).map (k, ·) := by
  induction members generalizing s with
  | nil => rfl
  | cons m rest ih =>
    obtain ⟨name, v⟩ := m
    rw [ofMembers]
    cases hname : Key.ofName? name with
    | none => simp [hname, ih]
    | some k =>
      cases hfault : fault? k v with
      | none => simp [hname, store_eq, hfault, ih]
      | some e => simp [hname, store_eq, hfault, ih]

theorem faultOfMember_eq_some_iff {m : String × Json} {e : MemberFault} :
    ((Key.ofName? m.1).bind fun k => (fault? k m.2).map (k, ·)) = some (k, e) ↔
      m.1 = k.name ∧ fault? k m.2 = some e := by
  constructor
  · intro hm
    obtain ⟨j, hj, hm⟩ := Option.bind_eq_some_iff.mp hm
    obtain ⟨e', he, heq⟩ := Option.map_eq_some_iff.mp hm
    obtain ⟨rfl, rfl⟩ := Prod.mk.inj heq
    exact ⟨(Key.name_of_ofName? hj).symm, he⟩
  · rintro ⟨hname, he⟩
    simp [hname, he]

theorem faultOfKey_eq_some_iff (h : Ascending members) {j : Key} {e : MemberFault} :
    ((members.lookup j.name).bind (fault? j)).map (j, ·) = some (k, e) ↔
      j = k ∧ ∃ v, (k.name, v) ∈ members ∧ fault? k v = some e := by
  constructor
  · intro hj
    obtain ⟨e', he, heq⟩ := Option.map_eq_some_iff.mp hj
    obtain ⟨rfl, rfl⟩ := Prod.mk.inj heq
    obtain ⟨v, hv, he⟩ := Option.bind_eq_some_iff.mp he
    exact ⟨rfl, v, mem_of_lookup hv, he⟩
  · rintro ⟨rfl, v, hv, he⟩
    simp [lookup_of_mem h hv, he]

/-- The faults in ascending order of the keys. -/
theorem faults_by_key (s : Settings) (h : Ascending members) :
    (s.ofMembers members).2 = Key.all.filterMap fun k =>
      ((members.lookup k.name).bind (fault? k)).map (k, ·) := by
  let before (a b : Key × MemberFault) : Prop := a.1.name < b.1.name
  have : Std.Irrefl before := ⟨fun a => String.lt_irrefl a.1.name⟩
  have : Std.Antisymm before :=
    ⟨fun a b hab hba => absurd (String.lt_trans hab hba) (String.lt_irrefl _)⟩
  rw [faults_ofMembers]
  apply List.Pairwise.eq_of_mem_iff (r := before)
  · refine List.pairwise_filterMap.mpr (h.imp fun {m n} hmn => ?_)
    rintro ⟨j, d⟩ hj ⟨k, e⟩ hk
    obtain ⟨hj, -⟩ := faultOfMember_eq_some_iff.mp hj
    obtain ⟨hk, -⟩ := faultOfMember_eq_some_iff.mp hk
    show j.name < k.name
    rwa [← hj, ← hk]
  · refine List.pairwise_filterMap.mpr
      ((List.pairwise_map.mp Key.names_ascending).imp fun {m n} hmn => ?_)
    rintro ⟨j, d⟩ hj ⟨k, e⟩ hk
    obtain ⟨rfl, -⟩ := (faultOfKey_eq_some_iff h).mp hj
    obtain ⟨rfl, -⟩ := (faultOfKey_eq_some_iff h).mp hk
    exact hmn
  · rintro ⟨k, e⟩
    simp only [List.mem_filterMap, faultOfMember_eq_some_iff, faultOfKey_eq_some_iff h]
    constructor
    · rintro ⟨⟨-, v⟩, hm, rfl, he⟩
      exact ⟨k, Key.mem_all k, rfl, v, hm, he⟩
    · rintro ⟨j, -, rfl, v, hm, he⟩
      exact ⟨(j.name, v), hm, rfl, he⟩

end Settings

end Generation
