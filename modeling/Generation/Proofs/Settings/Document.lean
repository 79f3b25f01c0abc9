import Generation.Proofs.Json.Reals
import Generation.Proofs.Settings.Lenient
import Generation.Proofs.Settings.Reachable
import Generation.Settings.Store

/-!
Settings as they are written to a file. The text is read as a document with a member for each key
that is set; each value is read as it was, but for numbers that are read from their digits.
-/
namespace Generation

open Json (Members ascending_of_names lookup_of_mem mem_of_lookup)
open Json.Read

variable {κ : Kind} {s : Settings} {k : Key}

namespace Kind

/-- What a value becomes on its way through a file. -/
def reread : (κ : Kind) → κ.Value → κ.Value
  | .real _ _, x => x.reread
  | _, v => v

/-- Ranges start at zero, and end at one or two. -/
def Narrow : Kind → Prop
  | .real low high => low = 0 ∧ ∃ j ≤ 1, high = 2 ^ j
  | _ => True

theorem choiceOfJson_choiceJson {α : Type} [Choice α] (a : α) :
    choiceOfJson (choiceJson a) = .ok a := by
  rw [choiceJson, choiceOfJson, variant, Choice.ofToken?_token]

theorem ofJson_toJson (κ : Kind) (v : κ.Value) : κ.ofJson (κ.toJson v) = .ok v := by
  cases κ with
  | text => rfl
  | boolean => rfl
  | integer => rw [toJson, ofJson, Json.Number.toInt64, int64?_toInt]
  | unsigned =>
    have hword : (if (v.toNat : Int) < 0 then none else uint64? (v.toNat : Int).toNat) = some v := by
      rw [if_neg (by omega), Int.toNat_natCast, uint64?_toNat]
    rw [toJson, ofJson, Json.Number.toUInt64, hword]
  | real low high => rfl
  | choice α => exact choiceOfJson_choiceJson v
  | tools =>
    rw [toJson, ofJson]
    induction v with
    | nil => rfl
    | cons t ts ih =>
      rw [List.map_cons, List.mapM_cons, ih, choiceOfJson_choiceJson]
      rfl

theorem toJson_ne_null (κ : Kind) (v : κ.Value) : κ.toJson v ≠ .null := by
  cases κ <;> exact nofun

theorem ofJson?_toJson (κ : Kind) (v : κ.Value) : κ.ofJson? (κ.toJson v) = .ok (some v) := by
  rw [Settings.ofJson?_of_ne_null (toJson_ne_null κ v), ofJson_toJson]
  rfl

end Kind

namespace Binary64

variable {j : Nat} {x : Binary64}

theorem ofNat_zero : ∃ h, ofNat 0 = .finite false 0 h := by
  refine ⟨fits_zero, ?_⟩
  decide +kernel

theorem ofNat_two_pow (hj : j ≤ 1) : ∃ h, ofNat (2 ^ j) = .finite false (2 ^ j * unitsPerOne) h := by
  have hfits : Fits (2 ^ j * unitsPerOne) := fits_two_pow (by omega)
  exact ⟨hfits, ofRatio_eq (nearest_whole hfits.1) hfits⟩

theorem le_finite {s t : Bool} {u v : Nat} {hu : Fits u} {hv : Fits v} :
    le (.finite s u hu) (.finite t v hv) = true ↔ signedUnits s u ≤ signedUnits t v :=
  decide_eq_true_iff

/-- The numbers from zero to one or two; both zeros are among them. -/
theorem inRange_iff (hj : j ≤ 1) : inRange 0 (2 ^ j) x = true ↔
    ∃ negative u h, x = .finite negative u h ∧ (negative = true → u = 0) ∧
      u ≤ 2 ^ j * unitsPerOne := by
  obtain ⟨hz, hzero⟩ := ofNat_zero
  obtain ⟨hp, hpower⟩ := ofNat_two_pow hj
  rw [inRange, hzero, hpower, Bool.and_eq_true]
  generalize 2 ^ j * unitsPerOne = high at hp ⊢
  constructor
  · rintro ⟨hlow, hhigh⟩
    cases x with
    | nan => cases hlow
    | infinite negative =>
      cases negative with
      | true => cases hlow
      | false => cases hhigh
    | finite negative u h =>
      have hlow := le_finite.mp hlow
      have hhigh := le_finite.mp hhigh
      refine ⟨negative, u, h, rfl, ?_⟩
      cases negative with
      | true =>
        change (0 : Int) ≤ -(u : Int) at hlow
        exact ⟨fun _ => by omega, by omega⟩
      | false =>
        change (u : Int) ≤ (high : Int) at hhigh
        exact ⟨nofun, by omega⟩
  · intro h
    obtain ⟨negative, u, hu, rfl, hsign, hle⟩ := h
    rw [le_finite, le_finite]
    cases negative with
    | true =>
      obtain rfl := hsign rfl
      change (0 : Int) ≤ -((0 : Nat) : Int) ∧ -((0 : Nat) : Int) ≤ (high : Int)
      omega
    | false =>
      change (0 : Int) ≤ (u : Int) ∧ (u : Int) ≤ (high : Int)
      omega

end Binary64

theorem Key.narrow (k : Key) : k.kind.Narrow := by
  cases k with
  | samplingThreshold => exact ⟨rfl, 0, by decide, rfl⟩
  | temperature => exact ⟨rfl, 1, by decide, rfl⟩
  | _ => exact trivial

namespace Kind

open Binary64

/-- What a value becomes is still a value that users can give. -/
theorem accepts_reread {v : κ.Value} (hκ : κ.Narrow) (h : κ.accepts v = true) :
    κ.accepts (κ.reread v) = true := by
  cases κ with
  | real low high =>
    obtain ⟨rfl, j, hj, rfl⟩ := hκ
    obtain ⟨negative, u, hu, rfl, hsign, hle⟩ := (inRange_iff hj).mp h
    obtain ⟨w, hw, heq, hbound⟩ := exists_reread negative hu hj hle
    refine (inRange_iff hj).mpr ⟨negative, w, hw, heq, fun hnegative => ?_, hbound⟩
    obtain rfl := hsign hnegative
    rw [reread_zero] at heq
    exact (Binary64.finite.inj heq).2.symm
  | _ => exact h

/-- The text of a value is read as the value, unless a number is read as another one. -/
theorem readBy_toJson_self {v : κ.Value} {n depth : Nat} {pretty : Bool}
    (h : ∀ x, κ.toJson v = .number (.real x) →
      NumberReadBy (Json.Number.text (.real x)) (.real x)) :
    ReadBy (value (n + 1)) (Json.chars pretty depth (κ.toJson v)) (κ.toJson v) := by
  cases κ with
  | text =>
    rw [toJson, Json.chars]
    exact readBy_string v
  | boolean => exact readBy_boolean v
  | integer =>
    have hlow := v.le_toInt
    have hhigh := v.toInt_lt
    rw [toJson, Json.chars]
    exact (numberReadBy_integerText hlow (by omega)).readBy _
  | unsigned =>
    have hhigh := v.toNat_lt
    rw [toJson, Json.chars]
    exact (numberReadBy_integerText (by omega) (by omega)).readBy _
  | real low high =>
    rw [toJson, Json.chars]
    exact (h v rfl).readBy _
  | choice α =>
    rw [toJson, choiceJson, Json.chars]
    exact readBy_string _
  | tools =>
    have hitems : ∀ item ∈ v.map choiceJson,
        ReadBy (value n) (Json.chars pretty (depth + 1) item) (id item) := by
      intro item hm
      obtain ⟨t, -, rfl⟩ := List.mem_map.mp hm
      rw [choiceJson, Json.chars]
      exact readBy_string _
    have harray : ReadBy (value (n + 1)) (Json.chars pretty depth (.array (v.map choiceJson)))
        (.array ((v.map choiceJson).map id)) := readBy_array hitems
    rwa [List.map_id] at harray

/-- The text of a value is read as what the value becomes. -/
theorem readBy_toJson {v : κ.Value} {n depth : Nat} {pretty : Bool} (hκ : κ.Narrow)
    (h : κ.accepts v = true) :
    ReadBy (value (n + 1)) (Json.chars pretty depth (κ.toJson v)) (κ.toJson (κ.reread v)) := by
  cases κ with
  | real low high =>
    obtain ⟨rfl, j, hj, rfl⟩ := hκ
    obtain ⟨negative, u, hu, rfl, -, hle⟩ := (inRange_iff hj).mp h
    have hfour : u < 2 ^ 2 * unitsPerOne :=
      hle.trans_lt (Nat.mul_lt_mul_of_pos_right (Nat.pow_lt_pow_right (by omega) (by omega))
        unitsPerOne_pos)
    rw [toJson, Json.chars]
    exact (numberReadBy_reread hu hfour negative).readBy _
  | _ =>
    refine readBy_toJson_self fun x hx => ?_
    cases hx

end Kind

namespace Settings

/-- What settings become on their way through a file. -/
def reread (s : Settings) : Settings := ⟨fun k => (s.get k).map k.kind.reread⟩

/-- The members of a settings file. -/
def members (s : Settings) : Members :=
  Key.all.filterMap fun k => (s.get k).map fun v => (k.name, k.kind.toJson v)

theorem toJson_eq (s : Settings) : s.toJson = .object s.members := by
  simp only [toJson, members, Key.all_eq_fields, Key.memberName_eq_name]

theorem mem_members {name : String} {v : Json} : (name, v) ∈ s.members ↔
    ∃ k x, s.get k = some x ∧ name = k.name ∧ v = k.kind.toJson x := by
  simp only [members, List.mem_filterMap, Option.map_eq_some_iff, Prod.mk.injEq]
  constructor
  · rintro ⟨k, -, x, hx, rfl, rfl⟩
    exact ⟨k, x, hx, rfl, rfl⟩
  · rintro ⟨k, x, hx, rfl, rfl⟩
    exact ⟨k, Key.mem_all k, x, hx, rfl, rfl⟩

theorem ascending_members (s : Settings) : Json.Ascending s.members := by
  refine List.pairwise_filterMap.mpr
    ((List.pairwise_map.mp Key.names_ascending).imp fun {j k} hjk => ?_)
  intro m hm n hn
  obtain ⟨x, -, rfl⟩ := Option.map_eq_some_iff.mp hm
  obtain ⟨y, -, rfl⟩ := Option.map_eq_some_iff.mp hn
  exact hjk

theorem lookup_members (s : Settings) (k : Key) :
    s.members.lookup k.name = (s.get k).map k.kind.toJson := by
  cases hget : s.get k with
  | some x => exact lookup_of_mem (ascending_members s) (mem_members.mpr ⟨k, x, hget, rfl, rfl⟩)
  | none =>
    rw [Option.map_none, List.lookup_eq_none_iff]
    rintro ⟨name, v⟩ hm
    obtain ⟨j, x, hx, rfl, -⟩ := mem_members.mp hm
    refine bne_iff_ne.mpr fun hname => ?_
    obtain rfl := Key.name_injective hname
    rw [hget] at hx
    cases hx

theorem field?_toJson {x : k.Value} (h : k.kind.accepts x = true) :
    field? k (k.kind.toJson x) = some x := by
  rw [field?, decodeMembers_singleton, Kind.ofJson?_toJson]
  simp [Except.map, Option.filter, h]

theorem fault?_toJson {x : k.Value} (h : k.kind.accepts x = true) :
    fault? k (k.kind.toJson x) = none := by
  refine (fault?_eq_none_iff k _).mpr (Or.inr ?_)
  rw [field?_toJson h]
  rfl

/-- The members of accepted settings stand for these settings, and none of them is faulty. -/
theorem ofMembers_members (h : s.Accepted) : empty.ofMembers s.members = (s, []) := by
  refine Prod.ext ?_ ?_
  · ext1
    funext k
    rw [get_ofMembers _ (ascending_members s), lookup_members, get_empty, Option.or_none]
    cases hget : s.get k with
    | none => rfl
    | some x => exact field?_toJson (h k x hget)
  · rw [faults_by_key _ (ascending_members s), List.filterMap_eq_nil_iff]
    intro k _
    rw [lookup_members]
    cases hget : s.get k with
    | none => rfl
    | some x => exact Option.map_eq_none_iff.mpr (fault?_toJson (h k x hget))

theorem get_reread (s : Settings) (k : Key) : s.reread.get k = (s.get k).map k.kind.reread := rfl

theorem accepted_reread (h : s.Accepted) : s.reread.Accepted := by
  intro k y hy
  rw [get_reread] at hy
  obtain ⟨x, hx, rfl⟩ := Option.map_eq_some_iff.mp hy
  exact Kind.accepts_reread k.narrow (h k x hx)

theorem map_members (s : Settings) {f : String × Json → Json}
    (hf : ∀ k x, s.get k = some x →
      f (k.name, k.kind.toJson x) = k.kind.toJson (k.kind.reread x)) :
    (s.members.map fun m => (m.1, f m)) = s.reread.members := by
  rw [members, members, List.map_filterMap]
  refine List.filterMap_congr fun k _ => ?_
  rw [get_reread]
  cases hget : s.get k with
  | none => rfl
  | some x => simp [hf k x hget]

/-- The text of a settings file is read as a document of what the settings become. -/
theorem parse_fileText (h : s.Accepted) :
    Json.parse (Text.bytes s.fileText) = .ok s.reread.toJson := by
  let f (m : String × Json) : Json := (s.reread.members.lookup m.1).getD .null
  have hf (k : Key) (x : k.Value) (hx : s.get k = some x) :
      f (k.name, k.kind.toJson x) = k.kind.toJson (k.kind.reread x) := by
    show (s.reread.members.lookup k.name).getD .null = _
    rw [lookup_members, get_reread, hx]
    rfl
  have hmembers : ∀ m ∈ s.members, ReadBy (value 126) (Json.chars true 1 m.2) (f m) := by
    rintro ⟨name, v⟩ hm
    obtain ⟨k, x, hx, rfl, rfl⟩ := mem_members.mp hm
    rw [hf k x hx]
    exact Kind.readBy_toJson k.narrow (h k x hx)
  have hdocument : ReadBy (value maxDepth) (Json.chars true 0 s.toJson) s.reread.toJson := by
    have hobject : ReadBy (value maxDepth) (Json.chars true 0 (.object s.members))
        (.object (Json.ofMembers (s.members.map fun m => (m.1, f m)))) := readBy_object hmembers
    rwa [map_members s hf, Json.ofMembers_of_ascending (ascending_members _)] at hobject
  have hparse := Json.parse_of_readBy hdocument blank_lineBreak
  rw [← Text.encode_append] at hparse
  rw [Text.bytes_eq_encode, fileText, String.toList_append, Json.write, String.toList_ofList]
  exact hparse

end Settings

end Generation
