import Generation.Proofs.Json.Frames
import Generation.Proofs.Settings.Held

/-!
Settings files that differ in the value of one member. As long as both values can be read, all keys
but the one of this member are loaded as the same; a value that cannot be read costs every key.
-/
namespace Generation

open Json (Frame Members Readable)
open Json.Grammar (IsBlank IsExponent IsNumber IsString IsValue Spells isString_of_plain)
open Text (encode)

variable {store : Store} {f : Frame} {w w' : Machine} {cs ds : List Char}

namespace Store

theorem held_of_read {contents : List UInt8}
    (h : w.tree.read w.workingDir store.path = .ok contents) :
    store.held w = (decode store.shownPath contents).1 := by
  rw [held, load_of_read h]

/-- The last member under the name of a key decides what is loaded for it. -/
theorem get_held_of_parse {written : Members}
    (hread : w.tree.read w.workingDir store.path = .ok (encode cs))
    (hparse : Json.parse (encode cs) = .ok (.object (Json.ofMembers written))) (k : Key) :
    (store.held w).get k = (written.reverse.lookup k.name).bind (Settings.field? k) := by
  rw [← Text.bytes_ofList] at hread hparse
  rw [held_of_read hread, decode_object _ hparse,
    Settings.get_ofMembers _ (Json.ascending_ofMembers written), Json.lookup_ofMembers]
  simp

theorem held_of_parse_error {e : Json.ReadError}
    (hread : w.tree.read w.workingDir store.path = .ok (encode cs))
    (hparse : Json.parse (encode cs) = .error e) : store.held w = .empty := by
  rw [held_of_read hread, decode, Text.decode?_encode, hparse]
  rfl

/-- A member under another name does not matter for what is found under a name. -/
theorem lookup_reverse_of_ne {before after : Members} {key name : String} {v : Json}
    (h : key ≠ name) : (before ++ (name, v) :: after).reverse.lookup key =
      (before ++ after).reverse.lookup key := by
  have hname : (key == name) = false := beq_eq_false_iff_ne.mpr h
  simp [List.lookup_append, List.lookup_cons, hname]

/-- How far a value in a settings file matters for the keys of other names. -/
structure Isolates (store : Store) (f : Frame) (w w' : Machine) (cs ds : List Char) : Prop where
  /-- Between two values that can be read it makes no difference which one is there. -/
  kept : Readable cs → Readable ds → ∀ k : Key, ¬ Spells f.heading.name k.name.toList →
    (store.held w).get k = (store.held w').get k
  /-- A value that cannot be read is beyond a limit of the reader, and no key is loaded. -/
  lost : ¬ Readable cs → store.held w = .empty ∧
    ∃ e, Json.parse (encode (f.text cs)) = .error e ∧ e.cause.IsLimit

/-! A text with an unknown member -/

/-- An object with the members `color` and `stream`, of which the first is left open. -/
def colorFrame : Frame where
  before := []
  earlier := []
  heading := ⟨[], "color".toList, [], []⟩
  after := []
  later := [⟨⟨[], "stream".toList, [], []⟩, "true".toList, []⟩]
  inner := []
  last := []

theorem wellFormed_colorFrame : colorFrame.WellFormed := by
  have hblank : IsBlank [] := by simp [IsBlank]
  have hcolor : IsString "color".toList := isString_of_plain (by simp; decide)
  have hstream : IsString "stream".toList := isString_of_plain (by simp; decide)
  refine ⟨hblank, ⟨hblank, hcolor, hblank, hblank⟩, hblank, ?_, ?_, hblank, hblank⟩
  · intro m hm
    obtain rfl := List.mem_singleton.mp hm
    exact ⟨⟨hblank, hstream, hblank, hblank⟩, hblank⟩
  · intro m hm
    obtain rfl := List.mem_singleton.mp hm
    exact .true

theorem isValue_one : IsValue "1".toList := by
  have hnumber : IsNumber ('1' :: ([] ++ ([] ++ []))) := .mk (by simp) (by decide) .none .none
  exact .positive hnumber

theorem isValue_hugeNumber : IsValue "1e400".toList := by
  have hexponent : IsExponent ('e' :: ([] ++ ['4', '0', '0'])) :=
    .mark (Or.inl rfl) (Or.inl rfl) ⟨by decide, by simp⟩
  have hnumber : IsNumber ('1' :: ([] ++ ([] ++ ('e' :: ([] ++ ['4', '0', '0']))))) :=
    .mk (by simp) (by decide) .none hexponent
  exact .positive hnumber

/-! Isolation -/

theorem isolates_of_wellFormed (hf : f.WellFormed) (hcs : IsValue cs) (hds : IsValue ds)
    (hw : w.tree.read w.workingDir store.path = .ok (encode (f.text cs)))
    (hw' : w'.tree.read w'.workingDir store.path = .ok (encode (f.text ds))) :
    store.Isolates f w w' cs ds := by
  constructor
  · intro hc hd k hname
    rcases Json.parse_of_readable hf hcs hds hc hd with
      ⟨r, v, v', hparse, hparse'⟩ | ⟨⟨e, he⟩, e', he'⟩
    · have hne : k.name ≠ String.ofList r.name := by
        intro heq
        apply hname
        rw [heq, String.toList_ofList]
        exact r.spells
      rw [get_held_of_parse hw hparse, get_held_of_parse hw' hparse', Frame.Reading.members,
        Frame.Reading.members, lookup_reverse_of_ne hne, lookup_reverse_of_ne hne]
    · rw [held_of_parse_error hw he, held_of_parse_error hw' he']
  · intro hc
    obtain ⟨e, he, hlimit⟩ := Json.parse_of_not_readable hf hcs hc
    exact ⟨held_of_parse_error hw he, e, he, hlimit⟩

theorem isolates_of_wellFormed_one_null :
    let store := Store.here ⟨"/home"⟩
    let w := Machine.withFile Settings.fileName (encode (colorFrame.text "1".toList))
    let w' := Machine.withFile Settings.fileName (encode (colorFrame.text "null".toList))
    Readable "1".toList ∧ Readable "null".toList ∧
      store.Isolates colorFrame w w' "1".toList "null".toList := by
  intro store w w'
  have hone : Readable "1".toList := ⟨.number (.integer 1), by rfl⟩
  have hnull : Readable "null".toList := ⟨.null, by rfl⟩
  exact ⟨hone, hnull, isolates_of_wellFormed wellFormed_colorFrame isValue_one .null
    (read_withFile _ _) (read_withFile _ _)⟩

/-- A number under an unknown name that is too large to be read costs a key of another name. -/
theorem get_stream_ne_of_hugeNumber :
    let store := Store.here ⟨"/home"⟩
    let cs := "1".toList
    let ds := "1e400".toList
    let w := Machine.withFile Settings.fileName (encode (colorFrame.text cs))
    let w' := Machine.withFile Settings.fileName (encode (colorFrame.text ds))
    colorFrame.WellFormed ∧ IsValue cs ∧ IsValue ds ∧
      ((colorFrame.members cs).map fun m => m.heading.name).Nodup ∧
      w.tree.read w.workingDir store.path = .ok (encode (colorFrame.text cs)) ∧
      w'.tree.read w'.workingDir store.path = .ok (encode (colorFrame.text ds)) ∧
      ¬ Spells colorFrame.heading.name Key.stream.name.toList ∧
      (store.held w).get .stream = some true ∧ (store.held w').get .stream = none := by
  intro store cs ds w w'
  have hread := read_withFile ⟨"/home"⟩ (encode (colorFrame.text cs))
  have hread' := read_withFile ⟨"/home"⟩ (encode (colorFrame.text ds))
  refine ⟨wellFormed_colorFrame, isValue_one, isValue_hugeNumber, by decide, hread, hread',
    ?_, ?_, ?_⟩
  · intro h
    cases h
  · rw [held_of_read hread]
    decide +kernel
  · rw [held_of_read hread']
    decide +kernel

end Store

end Generation
