import Generation.Proofs.Disk.Removal
import Generation.Proofs.Settings.Persistence

/-!
The settings that a store holds: what is loaded from it. Loading leaves them, saving puts other
settings in their place, and a reset leaves none.
-/
namespace Generation

variable {store : Store} {s : Settings} {w w' : Machine}

/-- Whether a number is read back from its own text. -/
def Binary64.ReadBack (x : Binary64) : Prop :=
  Json.parse (Text.bytes ((Json.number (.real x)).write false)) = .ok (.number (.real x))

/-- Whether both numbers with a fraction are read back from their own texts. -/
structure Settings.ReadBack (s : Settings) : Prop where
  temperature : ∀ x, s.get .temperature = some x → Binary64.ReadBack x
  samplingThreshold : ∀ x, s.get .samplingThreshold = some x → Binary64.ReadBack x

namespace Kind

/-- The text of a number alone is read as what the number becomes in a file. -/
theorem parse_write_real {j : Nat} (hj : j ≤ 1) {x : Binary64}
    (h : inRange 0 (2 ^ j) x = true) :
    Json.parse (Text.bytes ((Json.number (.real x)).write false)) =
      .ok (.number (.real x.reread)) := by
  have hread : Json.Read.ReadBy (Json.Read.value Json.Read.maxDepth)
      (Json.chars false 0 ((Kind.real 0 (2 ^ j)).toJson x))
      ((Kind.real 0 (2 ^ j)).toJson ((Kind.real 0 (2 ^ j)).reread x)) :=
    readBy_toJson ⟨rfl, j, hj, rfl⟩ h
  have hblank : Json.Read.Blank [] := by simp [Json.Read.Blank]
  have hparse := Json.parse_of_readBy hread hblank
  rw [List.append_nil, ← Text.bytes_ofList] at hparse
  exact hparse

theorem readBack_iff {j : Nat} (hj : j ≤ 1) {x : Binary64} (h : inRange 0 (2 ^ j) x = true) :
    x.ReadBack ↔ x.reread = x := by
  unfold Binary64.ReadBack
  rw [parse_write_real hj h]
  simp

end Kind

/-- Settings whose numbers are read back come through a file unchanged. -/
theorem Settings.reread_of_readBack (hs : s.Accepted) (h : s.ReadBack) : s.reread = s := by
  apply reread_eq_iff.mpr
  constructor
  · intro x hx
    exact (Kind.readBack_iff (Nat.le_refl 1) (hs .temperature x hx)).mp (h.temperature x hx)
  · intro x hx
    exact (Kind.readBack_iff (Nat.zero_le 1) (hs .samplingThreshold x hx)).mp
      (h.samplingThreshold x hx)

namespace Store

/-- The settings that are loaded. -/
def held (store : Store) (w : Machine) : Settings := ((store.load : StateM Machine Settings) w).1

theorem accepted_held (store : Store) (w : Machine) : (store.held w).Accepted :=
  Settings.accepted_load store w

/-- Loading adds to what is reported, and changes nothing else. -/
theorem exists_load (store : Store) (w : Machine) : ∃ events,
    (store.load : StateM Machine Settings) w =
      (store.held w, { w with events := w.events ++ events }) := by
  unfold held
  cases hread : w.tree.read w.workingDir store.path with
  | ok contents =>
    rw [load_of_read hread]
    exact ⟨_, rfl⟩
  | error e =>
    obtain ⟨events, hload⟩ := load_of_read_error hread
    rw [hload]
    exact ⟨events, rfl⟩

theorem held_of_read_error {e : IoError} (h : w.tree.read w.workingDir store.path = .error e) :
    store.held w = .empty := by
  obtain ⟨events, hload⟩ := load_of_read_error h
  rw [held, hload]

/-- What is reported does not matter for what is loaded. -/
@[simp] theorem held_events (store : Store) (w : Machine) (events : List Log.Event) :
    store.held { w with events } = store.held w := by
  cases hread : w.tree.read w.workingDir store.path with
  | ok contents =>
    rw [held, held, load_of_read hread, load_of_read (w := { w with events }) hread]
  | error e =>
    rw [held_of_read_error hread, held_of_read_error (w := { w with events }) hread]

theorem held_of_save (hs : s.Accepted) (hback : s.ReadBack)
    (h : (store.save s : StateM Machine (Except StoreError Unit)) w = (.ok (), w')) :
    store.held w' = s := by
  rw [held, load_of_fileText hs (read_of_save h)]
  exact Settings.reread_of_readBack hs hback

theorem held_of_reset
    (h : (store.reset : StateM Machine (Except StoreError Unit)) w = (.ok (), w')) :
    store.held w' = .empty := by
  unfold reset at h
  obtain ⟨removed, u, hremove, h⟩ := Machine.bind_eq h
  cases removed with
  | ok _ =>
    obtain ⟨_, v, hlog, h⟩ := Machine.bind_eq h
    obtain ⟨-, rfl⟩ := Prod.mk.inj hlog
    obtain ⟨-, rfl⟩ := Prod.mk.inj h
    obtain ⟨t, ht, rfl⟩ := Machine.update_eq_ok hremove
    rw [held_events]
    exact held_of_read_error (FileTree.read_of_remove ht)
  | error e =>
    cases e with
    | notFound =>
      obtain ⟨-, rfl⟩ := Prod.mk.inj h
      obtain ⟨hmissing, rfl⟩ := Machine.update_eq_error hremove
      exact held_of_read_error (FileTree.read_of_remove_notFound hmissing)
    | _ => cases h

end Store

end Generation
