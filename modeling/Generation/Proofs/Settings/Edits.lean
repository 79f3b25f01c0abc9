import Generation.Proofs.Settings.Changes
import Generation.Settings.Edit

/-!
Any number of changes, one after the other. Each is accepted or refused for what it asks, whatever
the settings are, and each key ends with what the last accepted change of it says.
-/
namespace Generation

variable {s : Settings} {k : Key} {name raw : String} {e c d : Edit}
  {edits before after : List Edit}

namespace Edit

/-- What is said to a change, whatever settings it is for. -/
def outcome : Edit → Except SettingError Unit
  | assign name raw =>
    match Key.require name with
    | .error r => .error r
    | .ok k =>
      match k.kind.parse raw with
      | .error r => .error (.invalidValue k r)
      | .ok _ => .ok ()
  | unset name => (Key.require name).map fun _ => ()

/-- What a change makes of a key: the value that it gives, or no value. There is nothing that a
refused change makes of any key, and nothing that a change of another key makes of this one. -/
def written? (k : Key) : Edit → Option (Option k.Value)
  | assign name raw => if name = k.name then (k.kind.parse raw).toOption.map some else none
  | unset name => if name = k.name then some none else none

theorem written?_of_ne (h : e.name ≠ k.name) : e.written? k = none := by
  cases e <;> exact if_neg h

theorem written?_unset : (unset k.name).written? k = some none := if_pos rfl

theorem written?_assign : (assign k.name raw).written? k = (k.kind.parse raw).toOption.map some :=
  if_pos rfl

/-- A change is refused, and makes nothing of any key, or it stores something under its own key. -/
theorem apply_cases (e : Edit) (s : Settings) :
    (∃ r, e.outcome = .error r ∧ e.apply s = .error r ∧ ∀ k, e.written? k = none) ∨
      ∃ j v, e.outcome = .ok () ∧ e.apply s = .ok (s.set j v) ∧ e.name = j.name ∧
        e.written? j = some v := by
  cases hname : Key.require e.name with
  | error r =>
    have hnone (k : Key) : e.written? k = none := by
      refine written?_of_ne fun hk => ?_
      rw [hk, Key.require_name] at hname
      cases hname
    left
    cases e with
    | assign name raw =>
      change Key.require name = .error r at hname
      exact ⟨r, by rw [outcome, hname], by rw [apply, Settings.withValue, hname], hnone⟩
    | unset name =>
      change Key.require name = .error r at hname
      exact ⟨r, by rw [outcome, hname]; rfl, by rw [apply, Settings.withoutValue, hname], hnone⟩
  | ok j =>
    have hj := Key.eq_name_of_require hname
    cases e with
    | unset name =>
      obtain rfl : name = j.name := hj
      exact Or.inr ⟨j, none, by rw [outcome, Key.require_name]; rfl,
        Settings.withoutValue_name s j, rfl, written?_unset⟩
    | assign name raw =>
      obtain rfl : name = j.name := hj
      have happly : (assign j.name raw).apply s = s.assign j raw := Settings.withValue_name s j raw
      simp only [happly, Settings.assign, outcome, Key.require_name]
      cases hparse : j.kind.parse raw with
      | ok v => exact Or.inr ⟨j, some v, rfl, rfl, rfl, by rw [written?_assign, hparse]; rfl⟩
      | error r =>
        refine Or.inl ⟨_, rfl, rfl, fun k => ?_⟩
        by_cases hk : k = j
        · subst hk
          rw [written?_assign, hparse]
          rfl
        · exact written?_of_ne fun h => hk (Key.name_injective h).symm

/-- Changing in place and changing a copy come to the same. -/
theorem make_eq (e : Edit) (s : Settings) : e.make s =
    match e.apply s with
    | .error r => (.error r, s)
    | .ok t => (.ok (), t) := by
  change (match e.apply s with
    | .error r => (pure (Except.error r) : StateM Settings (Except SettingError Unit))
    | .ok t => set t >>= fun _ => pure (Except.ok ())) s = _
  cases e.apply s <;> rfl

/-- A text that is a value of a key is stored under it. -/
theorem make_assign_of_ok {v : k.Value} (h : k.kind.parse raw = .ok v) (s : Settings) :
    (assign k.name raw).make s = (.ok (), s.set k (some v)) := by
  rw [make_eq, apply, Settings.withValue_name, Settings.assign, h]

/-- A text that is none is refused. -/
theorem make_assign_of_error {r : Rejection} (h : k.kind.parse raw = .error r) (s : Settings) :
    (assign k.name raw).make s = (.error (.invalidValue k r), s) := by
  rw [make_eq, apply, Settings.withValue_name, Settings.assign, h]

theorem make_fst (e : Edit) (s : Settings) : (e.make s).1 = e.outcome := by
  rw [make_eq]
  rcases e.apply_cases s with ⟨r, houtcome, happly, -⟩ | ⟨j, v, houtcome, happly, -⟩
  · rw [happly, houtcome]
  · rw [happly, houtcome]

/-- One change decides its own key and leaves all others. -/
theorem get_make (e : Edit) (s : Settings) (k : Key) :
    (e.make s).2.get k = (e.written? k).getD (s.get k) := by
  rw [make_eq]
  rcases e.apply_cases s with ⟨r, -, happly, hnone⟩ | ⟨j, v, -, happly, hname, hown⟩
  · rw [happly, hnone k]
    rfl
  · rw [happly]
    by_cases hk : k = j
    · subst hk
      rw [hown]
      exact Settings.get_set_self
    · rw [written?_of_ne fun h => hk (Key.name_injective (h.symm.trans hname))]
      exact Settings.get_set_of_ne hk

theorem makeAll_cons (e : Edit) (edits : List Edit) (s : Settings) : makeAll (e :: edits) s =
    ((e.make s).1 :: (makeAll edits (e.make s).2).1, (makeAll edits (e.make s).2).2) := by
  rw [makeAll, List.mapM_cons]
  rfl

theorem makeAll_fst (edits : List Edit) (s : Settings) :
    (makeAll edits s).1 = edits.map outcome := by
  induction edits generalizing s with
  | nil => rfl
  | cons e edits ih => rw [makeAll_cons, List.map_cons, ih, make_fst]

/-- The last change that makes something of a key decides it. -/
theorem get_makeAll (edits : List Edit) (s : Settings) (k : Key) :
    (makeAll edits s).2.get k = (edits.reverse.findSome? (written? k)).getD (s.get k) := by
  induction edits generalizing s with
  | nil => rfl
  | cons e edits ih =>
    rw [makeAll_cons, ih, get_make, List.reverse_cons, List.findSome?_append]
    cases edits.reverse.findSome? (written? k) with
    | none => simp
    | some v => rfl

/-- Of two changes of different keys, at most one makes something of a given key. -/
theorem findSome?_swap (h : c.name ≠ d.name) (k : Key) :
    [d, c].findSome? (written? k) = [c, d].findSome? (written? k) := by
  simp only [List.findSome?_cons, List.findSome?_nil]
  by_cases hc : c.name = k.name
  · rw [written?_of_ne fun hd => h (hc.trans hd.symm)]
  · rw [written?_of_ne hc]

theorem makeAll_swap (h : c.name ≠ d.name) (before after : List Edit) (s : Settings) :
    (makeAll (before ++ d :: c :: after) s).2 = (makeAll (before ++ c :: d :: after) s).2 := by
  have hreverse (c d : Edit) : (before ++ c :: d :: after).reverse =
      after.reverse ++ ([d, c] ++ before.reverse) := by simp
  ext k
  rw [get_makeAll, get_makeAll, hreverse, hreverse]
  simp only [List.findSome?_append, findSome?_swap h]

theorem isSome_written?_iff :
    (e.written? k).isSome ↔ e.name = k.name ∧ e.outcome = .ok () := by
  rcases e.apply_cases .empty with ⟨r, houtcome, -, hnone⟩ | ⟨j, v, houtcome, -, hname, hown⟩
  · simp [hnone, houtcome]
  · by_cases hk : k = j
    · subst hk
      simp [hown, houtcome, hname]
    · have hne : e.name ≠ k.name := fun h => hk (Key.name_injective (h.symm.trans hname))
      simp [written?_of_ne hne, hne]

theorem copy_eq (e : Edit) (s : Settings) : e.copy s =
    (match e.make s with
      | (.error r, _) => .error r
      | (.ok (), t) => .ok t, s) := by
  rw [make_eq]
  change (e.apply s, s) = _
  cases e.apply s <;> rfl

/-- What it means that changes act key by key. -/
structure KeyByKey (edits : List Edit) : Prop where
  /-- Whether each change is accepted, and why it is refused, does not depend on the settings. -/
  outcomes : ∀ s, (makeAll edits s).1 = edits.map outcome
  /-- A change that is refused changes nothing. -/
  refused : ∀ e ∈ edits, ∀ s r, e.outcome = .error r → e.make s = (.error r, s)
  /-- What makes something of a key are the accepted changes of it. -/
  accepted : ∀ e ∈ edits, ∀ k : Key, (e.written? k).isSome ↔ e.name = k.name ∧ e.outcome = .ok ()
  /-- The last accepted change of a key decides it. Without one it stays what it was. -/
  decided : ∀ s (k : Key),
    (makeAll edits s).2.get k = (edits.reverse.findSome? (written? k)).getD (s.get k)
  /-- Neighbours that change different keys may change places. -/
  commute : ∀ before c d after, edits = before ++ c :: d :: after → c.name ≠ d.name →
    ∀ s, (makeAll (before ++ d :: c :: after) s).2 = (makeAll edits s).2
  /-- A changed copy is what the settings would become, and leaves them as they are. -/
  copied : ∀ e ∈ edits, ∀ s, e.copy s =
    (match e.make s with
      | (.error r, _) => .error r
      | (.ok (), t) => .ok t, s)

/-- Changes act key by key. -/
theorem keyByKey (edits : List Edit) : KeyByKey edits := by
  constructor
  · exact makeAll_fst edits
  · intro e _ s r houtcome
    rcases e.apply_cases s with ⟨r', houtcome', happly, -⟩ | ⟨j, v, houtcome', -⟩
    · rw [houtcome] at houtcome'
      cases houtcome'
      rw [make_eq, happly]
    · rw [houtcome] at houtcome'
      cases houtcome'
  · exact fun e _ k => isSome_written?_iff
  · exact get_makeAll edits
  · rintro before c d after rfl hne s
    exact makeAll_swap hne before after s
  · exact fun e _ s => copy_eq e s

end Edit

end Generation
