import Generation.Preset
import Generation.Proofs.Settings.Listing

/-!
Presets are lists of assignments that are made in order. Whether they can all be made, and which is
the first that cannot, does not depend on the settings that they are made to.
-/
namespace Generation

namespace Preset

/-- The settings after assignments that are made in place, one after the other. -/
def made (s : Settings) (assignments : List (String × String)) : Settings :=
  (Edit.makeAll (assignments.map Edit.ofPair) s).2

/-- What is told of assignments: each comes with what its key held just before it was made. -/
def told (s : Settings) (assignments : List (String × String)) : List Change :=
  assignments.mapIdx fun i a => ⟨a.1, (made s (assignments.take i)).value? a.1, a.2⟩

/-- The assignment in place `i` is the first one to be rejected, for the key and the reason. -/
structure Rejects (assignments : List (String × String)) (s : Settings) (i : Nat) (key : String)
    (reason : SettingError) : Prop where
  earlier : ∀ j a, j < i → assignments[j]? = some a →
    ((Edit.ofPair a).make (made s (assignments.take j))).1 = .ok ()
  rejected : ∃ value, assignments[i]? = some (key, value) ∧
    ((Edit.assign key value).make (made s (assignments.take i))).1 = .error reason

variable {s t : Settings} {k : Key} {preset key value : String} {a : String × String}
  {assignments before after : List (String × String)} {done : Application} {r : SettingError}
  {i : Nat}

theorem made_cons (s : Settings) (a : String × String) (assignments : List (String × String)) :
    made s (a :: assignments) = made ((Edit.ofPair a).make s).2 assignments := by
  rw [made, List.map_cons, Edit.makeAll_cons]
  rfl

theorem told_cons (s : Settings) (a : String × String) (assignments : List (String × String)) :
    told s (a :: assignments) =
      ⟨a.1, s.value? a.1, a.2⟩ :: told ((Edit.ofPair a).make s).2 assignments := by
  rw [told, List.mapIdx_cons, told]
  congr 1
  simp only [List.take_succ_cons, made_cons]

/-- One assignment is made as a change in place, or ends the run. -/
theorem run_cons (preset : String) (done : Application) (a : String × String)
    (assignments : List (String × String)) : run preset done (a :: assignments) =
      match ((Edit.ofPair a).make done.settings).1 with
      | .error r => .error (.rejected preset a.1 r, done)
      | .ok () => run preset ⟨((Edit.ofPair a).make done.settings).2,
          done.changes ++ [⟨a.1, done.settings.value? a.1, a.2⟩]⟩ assignments := by
  obtain ⟨key, value⟩ := a
  rw [run, Edit.make_eq, Edit.ofPair, Edit.apply]
  cases done.settings.withValue key value <;> rfl

/-- Accepted assignments are all made, before whatever comes behind them. -/
theorem run_append (preset : String) (done : Application) (after : List (String × String))
    (h : ∀ a ∈ before, (Edit.ofPair a).outcome = .ok ()) :
    run preset done (before ++ after) =
      run preset ⟨made done.settings before, done.changes ++ told done.settings before⟩ after := by
  induction before generalizing done with
  | nil => rw [told, List.mapIdx_nil, List.append_nil]; rfl
  | cons a before ih =>
    rw [List.cons_append, run_cons, Edit.make_fst, h a (by simp),
      ih _ fun b hb => h b (List.mem_cons_of_mem _ hb), made_cons, told_cons]
    simp only [List.append_assoc, List.singleton_append]

theorem Rejects.split (h : Rejects assignments s i key r) :
    ∃ value, assignments = assignments.take i ++ (key, value) :: assignments.drop (i + 1) ∧
      (∀ a ∈ assignments.take i, (Edit.ofPair a).outcome = .ok ()) ∧
      (Edit.assign key value).outcome = .error r := by
  obtain ⟨value, hi, hr⟩ := h.rejected
  obtain ⟨hlt, hget⟩ := List.getElem?_eq_some_iff.mp hi
  refine ⟨value, ?_, fun a ha => ?_, ?_⟩
  · rw [← hget, ← List.drop_eq_getElem_cons hlt, List.take_append_drop]
  · obtain ⟨j, hj, rfl⟩ := List.mem_take_iff_getElem.mp ha
    rw [← Edit.make_fst]
    exact h.earlier j _ (by omega) (List.getElem?_eq_getElem _)
  · rwa [Edit.make_fst] at hr

theorem rejects_of_split (h : ∀ a ∈ before, (Edit.ofPair a).outcome = .ok ())
    (hr : (Edit.assign key value).outcome = .error r) (after : List (String × String))
    (s : Settings) :
    Rejects (before ++ (key, value) :: after) s before.length key r := by
  constructor
  · intro j a hj ha
    rw [List.getElem?_append_left hj] at ha
    rw [Edit.make_fst]
    exact h a (List.mem_of_getElem? ha)
  · refine ⟨value, by simp, ?_⟩
    rw [Edit.make_fst, hr]

/-- All assignments are accepted, or one of them is the first to be rejected. -/
theorem accepted_or_split (assignments : List (String × String)) :
    (∀ a ∈ assignments, (Edit.ofPair a).outcome = .ok ()) ∨
      ∃ before key value after r, assignments = before ++ (key, value) :: after ∧
        (∀ a ∈ before, (Edit.ofPair a).outcome = .ok ()) ∧
        (Edit.assign key value).outcome = .error r := by
  induction assignments with
  | nil => exact Or.inl (by simp)
  | cons a assignments ih =>
    obtain ⟨key, value⟩ := a
    cases hfirst : (Edit.ofPair (key, value)).outcome with
    | error r => exact Or.inr ⟨[], key, value, assignments, r, rfl, by simp, hfirst⟩
    | ok u =>
      rcases ih with hall | ⟨before, k, v, after, r, rfl, hbefore, hr⟩
      · exact Or.inl (List.forall_mem_cons.mpr ⟨hfirst, hall⟩)
      · exact Or.inr ⟨(key, value) :: before, k, v, after, r, rfl,
          List.forall_mem_cons.mpr ⟨hfirst, hbefore⟩, hr⟩

theorem accepted_of_not_rejects (h : ∀ i key r, ¬ Rejects assignments s i key r) :
    ∀ a ∈ assignments, (Edit.ofPair a).outcome = .ok () := by
  rcases accepted_or_split assignments with hall | ⟨before, key, value, after, r, rfl, hbefore, hr⟩
  · exact hall
  · exact absurd (rejects_of_split hbefore hr after s) (h before.length key r)

theorem run_of_accepted (h : ∀ a ∈ assignments, (Edit.ofPair a).outcome = .ok ()) :
    run preset ⟨s, []⟩ assignments = .ok ⟨made s assignments, told s assignments⟩ := by
  have hrun := run_append preset ⟨s, []⟩ [] h
  rwa [List.append_nil] at hrun

theorem run_of_rejects (h : Rejects assignments s i key r) :
    run preset ⟨s, []⟩ assignments =
      .error (.rejected preset key r,
        ⟨made s (assignments.take i), told s (assignments.take i)⟩) := by
  obtain ⟨value, hsplit, hbefore, hr⟩ := h.split
  have hrun := run_append preset ⟨s, []⟩ ((key, value) :: assignments.drop (i + 1)) hbefore
  have hmake : ((Edit.ofPair (key, value)).make (made s (assignments.take i))).1 = .error r :=
    (Edit.make_fst _ _).trans hr
  rw [run_cons, hmake, ← hsplit] at hrun
  exact hrun

theorem rejects_independent (h : Rejects assignments s i key r) (t : Settings) :
    Rejects assignments t i key r := by
  obtain ⟨value, hsplit, hbefore, hr⟩ := h.split
  obtain ⟨_, hi, -⟩ := h.rejected
  have hlt := (List.getElem?_eq_some_iff.mp hi).1
  have ht := rejects_of_split hbefore hr (assignments.drop (i + 1)) t
  rwa [← hsplit, List.length_take_of_le (Nat.le_of_lt hlt)] at ht

theorem accepted_of_run (h : run preset ⟨s, []⟩ assignments = .ok done) :
    (∀ a ∈ assignments, (Edit.ofPair a).outcome = .ok ()) ∧
      done = ⟨made s assignments, told s assignments⟩ := by
  have hall : ∀ a ∈ assignments, (Edit.ofPair a).outcome = .ok () := by
    refine accepted_of_not_rejects (s := s) fun i key r hrejects => ?_
    rw [run_of_rejects hrejects] at h
    cases h
  rw [run_of_accepted hall] at h
  exact ⟨hall, (Except.ok.inj h).symm⟩

/-! What becomes of a key -/

theorem get_made (s : Settings) (assignments : List (String × String)) (k : Key) :
    (made s assignments).get k =
      ((assignments.map Edit.ofPair).reverse.findSome? (Edit.written? k)).getD (s.get k) :=
  Edit.get_makeAll _ s k

/-- Assignments that are made once more change nothing. -/
theorem made_made (s : Settings) (assignments : List (String × String)) :
    made (made s assignments) assignments = made s assignments := by
  ext1
  funext k
  rw [get_made (made s assignments), get_made s]
  cases (assignments.map Edit.ofPair).reverse.findSome? (Edit.written? k) <;> rfl

theorem findSome?_written?_eq_none (h : ∀ a ∈ assignments, a.1 ≠ k.name) :
    (assignments.map Edit.ofPair).reverse.findSome? (Edit.written? k) = none := by
  refine List.findSome?_eq_none_iff.mpr fun e he => ?_
  obtain ⟨a, ha, rfl⟩ := List.mem_map.mp (List.mem_reverse.mp he)
  exact Edit.written?_of_ne (h a ha)

theorem get_made_of_unassigned (h : ∀ a ∈ assignments, a.1 ≠ k.name) (s : Settings) :
    (made s assignments).get k = s.get k := by
  rw [get_made, findSome?_written?_eq_none h]
  rfl

theorem parse_of_outcome {raw : String} (h : (Edit.assign k.name raw).outcome = .ok ()) :
    ∃ v, k.kind.parse raw = .ok v := by
  simp only [Edit.outcome, Key.require_name] at h
  cases hparse : k.kind.parse raw with
  | ok v => exact ⟨v, rfl⟩
  | error r =>
    rw [hparse] at h
    cases h

/-- A key that is assigned ends with the value that it is given last. -/
theorem get_made_of_last {raw : String} {v : k.Value} (hparse : k.kind.parse raw = .ok v)
    (h : ∀ a ∈ after, a.1 ≠ k.name) (s : Settings) :
    (made s (before ++ (k.name, raw) :: after)).get k = some v := by
  have hreverse : ((before ++ (k.name, raw) :: after).map Edit.ofPair).reverse =
      (after.map Edit.ofPair).reverse ++ Edit.assign k.name raw ::
        (before.map Edit.ofPair).reverse := by simp [Edit.ofPair]
  rw [get_made, hreverse, List.findSome?_append, findSome?_written?_eq_none h, Option.none_or,
    List.findSome?_cons, Edit.written?_assign, hparse]
  rfl

end Preset

namespace Catalog

open Preset

/-- What it means that a preset is an update of settings, and the same one wherever it starts. -/
structure AppliesInOrder (c : Catalog) (name : String) (p : Preset) : Prop where
  /-- Which assignment is the first to be rejected, and why, does not depend on the settings. -/
  independent : ∀ s t i key r, Rejects p.assignments s i key r → Rejects p.assignments t i key r
  /-- If none is rejected, all are made in order, and told of in order. -/
  accepted : ∀ s, (∀ i key r, ¬ Rejects p.assignments s i key r) →
    c.apply name s = .ok ⟨made s p.assignments, told s p.assignments⟩
  /-- A key that is assigned ends with the value that it is given last. -/
  assigned : ∀ s done, c.apply name s = .ok done → ∀ (k : Key) before raw after,
    p.assignments = before ++ (k.name, raw) :: after → (∀ a ∈ after, a.1 ≠ k.name) →
      ∃ v, k.kind.parse raw = .ok v ∧ done.settings.get k = some v
  /-- A key that is not assigned stays what it was. -/
  unassigned : ∀ s done, c.apply name s = .ok done → ∀ k : Key,
    (∀ a ∈ p.assignments, a.1 ≠ k.name) → done.settings.get k = s.get k
  /-- Applying the preset again leaves the settings as they are. -/
  repeated : ∀ s done, c.apply name s = .ok done →
    ∃ changes, c.apply name done.settings = .ok ⟨done.settings, changes⟩
  /-- If one is rejected, those before it have been made and told of, and nothing else. -/
  rejected : ∀ s i key r, Rejects p.assignments s i key r →
    c.apply name s = .error (.rejected p.name key r,
      ⟨made s (p.assignments.take i), told s (p.assignments.take i)⟩)
  /-- The settings that a preset starts from stay as they are, whatever comes of it. -/
  untouched : ∀ s, c.applyCopy name s = (c.apply name s, s)

variable {c : Catalog} {name : String} {p : Preset}

theorem apply_eq_run (h : c.find? name = some p) (s : Settings) :
    c.apply name s = run p.name ⟨s, []⟩ p.assignments := by
  rw [apply, h]

theorem appliesInOrder (h : c.find? name = some p) : AppliesInOrder c name p := by
  constructor
  · exact fun s t i key r hrejects => rejects_independent hrejects t
  · intro s hnone
    rw [apply_eq_run h, run_of_accepted (accepted_of_not_rejects hnone)]
  · intro s done hdone k before raw after hsplit hlast
    rw [apply_eq_run h] at hdone
    obtain ⟨hall, rfl⟩ := accepted_of_run hdone
    have hlisted : (k.name, raw) ∈ p.assignments := by simp [hsplit]
    obtain ⟨v, hv⟩ := parse_of_outcome (hall _ hlisted)
    exact ⟨v, hv, by rw [hsplit]; exact get_made_of_last hv hlast s⟩
  · intro s done hdone k hother
    rw [apply_eq_run h] at hdone
    obtain ⟨-, rfl⟩ := accepted_of_run hdone
    exact get_made_of_unassigned hother s
  · intro s done hdone
    rw [apply_eq_run h] at hdone
    obtain ⟨hall, rfl⟩ := accepted_of_run hdone
    refine ⟨told (made s p.assignments) p.assignments, ?_⟩
    rw [apply_eq_run h, run_of_accepted hall, made_made]
  · intro s i key r hrejects
    rw [apply_eq_run h, run_of_rejects hrejects]
  · exact fun s => rfl

theorem find?_of_mem_builtin {q : Preset} (hq : q ∈ builtin) : builtin.find? q.name = some q := by
  simp only [builtin, List.mem_cons, List.not_mem_nil, or_false] at hq
  rcases hq with rfl | rfl | rfl | rfl | rfl <;> rfl

theorem isOk_outcome_of_mem_builtin :
    ∀ q ∈ builtin, ∀ a ∈ q.assignments, (Edit.ofPair a).outcome.isOk = true := by
  decide +kernel

/-- Presets are updates in order, in every catalog, and those that every installation has can be
applied to all settings. -/
theorem presets_applied :
    (∀ (c : Catalog) name p, c.find? name = some p → AppliesInOrder c name p) ∧
      ∀ q ∈ builtin, ∀ s, ∃ done, builtin.apply q.name s = .ok done := by
  refine ⟨fun c name p h => appliesInOrder h, fun q hq s => ?_⟩
  have hall : ∀ a ∈ q.assignments, (Edit.ofPair a).outcome = .ok () := by
    intro a ha
    obtain ⟨u, hu⟩ := exists_of_isOk (isOk_outcome_of_mem_builtin q hq a ha)
    exact hu
  exact ⟨_, (apply_eq_run (find?_of_mem_builtin hq) s).trans (run_of_accepted hall)⟩

/-- A key is assigned twice before a temperature that is too high. -/
theorem presets_applied_high_temperature :
    let p : Preset := ⟨"broken", "", [("maxTokens", "1"), ("maxTokens", "256"), ("temperature", "9"),
      ("stream", "true")]⟩
    let c : Catalog := [p, ⟨"broken", "hidden by the first", []⟩]
    let reason := SettingError.invalidValue .temperature (.outOfRange "9" 0 2)
    c.find? "broken" = some p ∧ Rejects p.assignments .empty 2 "temperature" reason ∧
      ∃ done, c.apply "broken" .empty = .error (.rejected "broken" "temperature" reason, done) ∧
        done.settings.get .maxTokens = some 256 ∧ done.settings.get .stream = none ∧
        done.changes = [⟨"maxTokens", none, "1"⟩, ⟨"maxTokens", some "1", "256"⟩] := by
  intro p c reason
  have hfind : c.find? "broken" = some p := rfl
  have hsplit : p.assignments = [("maxTokens", "1"), ("maxTokens", "256")] ++
      ("temperature", "9") :: [("stream", "true")] := rfl
  have hrejects : Rejects p.assignments .empty 2 "temperature" reason := by
    rw [hsplit]
    exact rejects_of_split (by decide +kernel) (by decide +kernel) _ .empty
  have hstream : ∀ a ∈ p.assignments.take 2, a.1 ≠ Key.stream.name := by decide
  have happly := (presets_applied.1 c "broken" p hfind).rejected .empty 2 "temperature" reason
    hrejects
  exact ⟨hfind, hrejects, _, happly, by decide +kernel, get_made_of_unassigned hstream .empty, rfl⟩

end Catalog

end Generation
