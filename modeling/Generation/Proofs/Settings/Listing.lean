import Generation.Proofs.Settings.Edits
import Generation.Proofs.Settings.Validity

/-!
The list of all values says everything about settings that are valid: each pair is accepted, and the
pairs make the same settings again, in whatever order they are given.
-/
namespace Generation

variable {s t : Settings} {k : Key} {name raw : String} {pairs : List (String × String)}

namespace Binary64

theorem inRange_of_between {j : Nat} (hj : j ≤ 1) {x : Binary64} (h : x.Between 0 (2 ^ j)) :
    inRange 0 (2 ^ j) x = true := by
  cases x with
  | nan => cases h
  | infinite negative => cases h
  | finite negative units hfits =>
    obtain ⟨hlow, hhigh⟩ := h
    apply (inRange_iff hj).mpr
    generalize 2 ^ j * unitsPerOne = high at hhigh ⊢
    refine ⟨negative, units, hfits, rfl, ?_⟩
    cases negative with
    | true =>
      change _ ≤ -(units : Int) at hlow
      constructor
      · intro _
        omega
      · omega
    | false =>
      change (units : Int) ≤ _ at hhigh
      constructor
      · intro h
        cases h
      · omega

end Binary64

/-- The change that a listed pair asks for. -/
def Edit.ofPair (pair : String × String) : Edit := .assign pair.1 pair.2

namespace Settings

theorem accepted_of_valid (h : s.Valid) : s.Accepted := by
  intro k v hv
  cases k with
  | temperature => exact Binary64.inRange_of_between (Nat.le_refl 1) (h.temperature v hv)
  | samplingThreshold =>
    exact Binary64.inRange_of_between (Nat.zero_le 1) (h.samplingThreshold v hv)
  | tools =>
    have hne : v ≠ [] := by
      rintro rfl
      exact h.tools hv
    simpa [Kind.accepts] using hne
  | _ => rfl

theorem mem_allValues : (name, raw) ∈ s.allValues ↔
    ∃ k : Key, k.name = name ∧ ∃ v, s.get k = some v ∧ k.kind.render v = raw := by
  rw [allValues, List.mem_filterMap]
  constructor
  · rintro ⟨k, -, h⟩
    obtain ⟨text, htext, heq⟩ := Option.map_eq_some_iff.mp h
    obtain ⟨v, hv, rfl⟩ := Option.map_eq_some_iff.mp htext
    cases heq
    exact ⟨k, rfl, v, hv, rfl⟩
  · rintro ⟨k, rfl, v, hv, rfl⟩
    refine ⟨k, Key.mem_all k, ?_⟩
    rw [render?, hv]
    rfl

theorem value?_eq_some_iff : s.value? name = some raw ↔ (name, raw) ∈ s.allValues := by
  rw [mem_allValues, value?, Option.bind_eq_some_iff]
  constructor
  · rintro ⟨k, hk, h⟩
    obtain ⟨v, hv, rfl⟩ := Option.map_eq_some_iff.mp h
    exact ⟨k, Key.name_of_ofName? hk, v, hv, rfl⟩
  · rintro ⟨k, rfl, v, hv, rfl⟩
    refine ⟨k, Key.ofName?_name k, ?_⟩
    rw [render?, hv]
    rfl

theorem allValues_ascending (s : Settings) : (s.allValues.map Prod.fst).Pairwise (· < ·) := by
  apply List.pairwise_map.mpr
  apply List.pairwise_filterMap.mpr
  refine (List.pairwise_map.mp Key.names_ascending).imp ?_
  intro j k hjk p hp q hq
  obtain ⟨_, -, rfl⟩ := Option.map_eq_some_iff.mp hp
  obtain ⟨_, -, rfl⟩ := Option.map_eq_some_iff.mp hq
  exact hjk

/-- What a listed pair makes of each key: the value that is stored for its own key. -/
theorem written?_ofPair (hs : s.Accepted) {pair : String × String} (h : pair ∈ s.allValues)
    (k : Key) : (Edit.ofPair pair).written? k = if pair.1 = k.name then some (s.get k) else none := by
  obtain ⟨name, raw⟩ := pair
  obtain ⟨j, rfl, v, hv, rfl⟩ := mem_allValues.mp h
  by_cases hname : j.name = k.name
  · obtain rfl := Key.name_injective hname
    have hparse : j.kind.parse (j.kind.render v) = .ok v := by
      rw [Kind.parse_render, if_pos (hs j v hv)]
    rw [if_pos rfl, hv, Edit.ofPair, Edit.written?_assign, hparse]
    rfl
  · have hother : (Edit.ofPair (j.name, j.kind.render v)).name ≠ k.name := hname
    rw [if_neg hname, Edit.written?_of_ne hother]

theorem outcome_ofPair (hs : s.Accepted) {pair : String × String} (h : pair ∈ s.allValues) :
    (Edit.ofPair pair).outcome = .ok () := by
  obtain ⟨k, hk, -⟩ := mem_allValues.mp h
  have hwritten := written?_ofPair hs h k
  rw [if_pos hk.symm] at hwritten
  exact (Edit.isSome_written?_iff.mp (by rw [hwritten]; rfl)).2

/-- Listed pairs bring every key back, as long as none of them is left out. -/
theorem get_makeAll_ofPair (hs : s.Accepted) (hpairs : ∀ p, p ∈ pairs ↔ p ∈ s.allValues)
    (k : Key) : (Edit.makeAll (pairs.map Edit.ofPair) empty).2.get k = s.get k := by
  rw [Edit.get_makeAll, get_empty]
  cases hfound : (pairs.map Edit.ofPair).reverse.findSome? (Edit.written? k) with
  | some x =>
    obtain ⟨e, he, hx⟩ := List.exists_of_findSome?_eq_some hfound
    obtain ⟨pair, hpair, rfl⟩ := List.mem_map.mp (List.mem_reverse.mp he)
    rw [written?_ofPair hs ((hpairs pair).mp hpair) k] at hx
    split at hx
    · exact (Option.some.inj hx).symm
    · cases hx
  | none =>
    cases hv : s.get k with
    | none => rfl
    | some v =>
      -- the pair of the key itself is among them
      have hlisted : (k.name, k.kind.render v) ∈ s.allValues :=
        mem_allValues.mpr ⟨k, rfl, v, hv, rfl⟩
      have hnone := List.findSome?_eq_none_iff.mp hfound (Edit.ofPair (k.name, k.kind.render v))
        (List.mem_reverse.mpr (List.mem_map_of_mem ((hpairs _).mpr hlisted)))
      rw [written?_ofPair hs hlisted, if_pos rfl] at hnone
      cases hnone

/-- What it means that the list of all values stands for the settings. -/
structure Exported (s : Settings) : Prop where
  /-- The keys that are set are listed with their values, and nothing else is. -/
  listed : ∀ name raw, (name, raw) ∈ s.allValues ↔
    ∃ k : Key, k.name = name ∧ ∃ v, s.get k = some v ∧ k.kind.render v = raw
  /-- No key is listed twice, and the names ascend. -/
  ascending : (s.allValues.map Prod.fst).Pairwise (· < ·)
  /-- Each pair is accepted, whatever the settings are that it is given to. -/
  accepted : ∀ pair ∈ s.allValues, ∀ t, ((Edit.ofPair pair).make t).1 = .ok ()
  /-- Given to no settings, in any order, the pairs make these settings. -/
  replayed : ∀ order : List (String × String), order.Perm s.allValues →
    (Edit.makeAll (order.map Edit.ofPair) empty).2 = s
  /-- No other valid settings have the same list. -/
  determined : ∀ t, t.Valid → t.allValues = s.allValues → t = s
  /-- A value that is shown is accepted for its key, and changes nothing. -/
  own : ∀ name raw, s.value? name = some raw → (Edit.assign name raw).make s = (.ok (), s)

theorem accepted_of_exported (h : s.Exported) : s.Accepted := by
  intro k v hv
  have hlisted : (k.name, k.kind.render v) ∈ s.allValues :=
    mem_allValues.mpr ⟨k, rfl, v, hv, rfl⟩
  have hmake := h.accepted _ hlisted empty
  rw [Edit.make_fst] at hmake
  have hwritten := (Edit.isSome_written?_iff (k := k)).mpr ⟨rfl, hmake⟩
  rw [Edit.ofPair, Edit.written?_assign, Kind.parse_render] at hwritten
  by_contra hrefused
  rw [if_neg hrefused] at hwritten
  cases hwritten

theorem make_own (hs : s.Accepted) (h : s.value? name = some raw) :
    (Edit.assign name raw).make s = (.ok (), s) := by
  have hlisted := value?_eq_some_iff.mp h
  have houtcome : ((Edit.assign name raw).make s).1 = .ok () := by
    rw [Edit.make_fst]
    exact outcome_ofPair hs hlisted
  have hkept : ((Edit.assign name raw).make s).2 = s := by
    ext1
    funext k
    have hwritten : (Edit.assign name raw).written? k = _ := written?_ofPair hs hlisted k
    rw [Edit.get_make, hwritten]
    split
    · rfl
    · rfl
  exact Prod.ext houtcome hkept

theorem makeAll_ofPair (hs : s.Accepted) {order : List (String × String)}
    (h : order.Perm s.allValues) : (Edit.makeAll (order.map Edit.ofPair) empty).2 = s := by
  ext1
  funext k
  exact get_makeAll_ofPair hs (fun p => h.mem_iff) k

/-- The list of all values stands for the settings exactly if they are valid. -/
theorem exported_iff_valid : s.Exported ↔ s.Valid := by
  constructor
  · intro h
    exact valid_of_accepted (accepted_of_exported h)
  · intro hvalid
    have hs := accepted_of_valid hvalid
    constructor
    · exact fun name raw => mem_allValues
    · exact allValues_ascending s
    · intro pair hpair t
      rw [Edit.make_fst]
      exact outcome_ofPair hs hpair
    · exact fun order h => makeAll_ofPair hs h
    · intro t ht heq
      rw [← makeAll_ofPair (accepted_of_valid ht) (.refl _), heq, makeAll_ofPair hs (.refl _)]
    · exact fun name raw h => make_own hs h

end Settings

end Generation
