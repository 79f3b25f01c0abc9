import Generation.Preset
import Generation.Proofs.Settings.Loading

/-! Settings that a program can come to hold: they never hold a value that users cannot give. -/
namespace Generation

variable {κ : Kind} {s t : Settings} {k : Key} {name raw : String}

namespace Kind

theorem accepts_of_parseTools {ts : List Tool} (h : parseTools raw = .ok ts) : ts ≠ [] := by
  unfold parseTools at h
  split at h
  · cases h
  · rename_i hne
    obtain ⟨p, ps, hpieces⟩ := List.exists_cons_of_ne_nil hne
    rw [hpieces, List.mapM_cons] at h
    obtain ⟨a, -, h⟩ := bind_eq_ok h
    obtain ⟨as, -, h⟩ := bind_eq_ok h
    cases h
    exact List.cons_ne_nil _ _

/-- What is read from a text that users type is a value that they can give. -/
theorem accepts_of_parse {v : κ.Value} (h : κ.parse raw = .ok v) : κ.accepts v = true := by
  cases κ with
  | real low high =>
    change parseReal low high raw = _ at h
    unfold parseReal at h
    split at h
    · cases h
    · split at h
      · cases h
        assumption
      · cases h
  | tools =>
    have hne := accepts_of_parseTools h
    simpa [accepts] using hne
  | _ => rfl

end Kind

namespace Settings

/-- Every value is one that users can give. -/
def Accepted (s : Settings) : Prop := ∀ k v, s.get k = some v → k.kind.accepts v = true

theorem accepted_empty : Accepted empty := by
  intro k v h
  cases h

theorem accepted_set {x : Option k.Value} (hs : s.Accepted)
    (hx : ∀ v, x = some v → k.kind.accepts v = true) : (s.set k x).Accepted := by
  intro j v h
  by_cases hj : j = k
  · subst hj
    rw [get_set_self] at h
    exact hx v h
  · rw [get_set_of_ne hj] at h
    exact hs j v h

theorem accepted_of_assign (hs : s.Accepted) (h : s.assign k raw = .ok t) : t.Accepted := by
  unfold assign at h
  split at h
  · rename_i v hv
    cases h
    exact accepted_set hs fun w hw => Option.some.inj hw ▸ Kind.accepts_of_parse hv
  · cases h

theorem accepted_of_withValue (hs : s.Accepted) (h : s.withValue name raw = .ok t) :
    t.Accepted := by
  unfold withValue at h
  split at h
  · exact accepted_of_assign hs h
  · cases h

theorem accepted_of_withoutValue (hs : s.Accepted) (h : s.withoutValue name = .ok t) :
    t.Accepted := by
  unfold withoutValue at h
  split at h
  · cases h
    exact accepted_set hs fun v hv => by cases hv
  · cases h

theorem accepted_of_run {preset : String} {done last : Preset.Application}
    {assignments : List (String × String)} (hs : done.settings.Accepted)
    (h : Preset.run preset done assignments = .ok last) : last.settings.Accepted := by
  induction assignments generalizing done with
  | nil =>
    cases h
    exact hs
  | cons assignment rest ih =>
    obtain ⟨key, value⟩ := assignment
    rw [Preset.run] at h
    split at h
    · cases h
    · rename_i t ht
      exact ih (accepted_of_withValue hs ht) h

theorem accepted_of_apply {c : Catalog} {last : Preset.Application} (hs : s.Accepted)
    (h : c.apply name s = .ok last) : last.settings.Accepted := by
  unfold Catalog.apply at h
  split at h
  · cases h
  · exact accepted_of_run hs h

theorem accepts_of_field? {v : Json} {x : k.Value} (h : field? k v = some x) :
    k.kind.accepts x = true := by
  unfold field? at h
  split at h
  · cases h
  · exact (Option.filter_eq_some_iff.mp h).2

/-- Whatever a file holds, what is loaded from it is accepted. -/
theorem accepted_decode (shown : String) (contents : List UInt8) :
    (Store.decode shown contents).1.Accepted := by
  unfold Store.decode
  split
  · exact accepted_empty
  · split
    · exact accepted_empty
    · rename_i members hparse
      intro k x h
      dsimp only at h
      cases (Json.sorted_within_of_parse hparse).1 with
      | object hascending =>
        rw [get_ofMembers _ hascending, get_empty, Option.or_none] at h
        obtain ⟨v, -, hv⟩ := Option.bind_eq_some_iff.mp h
        exact accepts_of_field? hv
    · exact accepted_empty

/-- Whatever is on the machine, what is loaded is accepted. -/
theorem accepted_load (store : Store) (w : Machine) :
    ((store.load : StateM Machine Settings) w).1.Accepted := by
  cases hread : w.tree.read w.workingDir store.path with
  | ok contents =>
    rw [Store.load_of_read hread]
    exact accepted_decode _ _
  | error e =>
    obtain ⟨events, hload⟩ := Store.load_of_read_error hread
    rw [hload]
    exact accepted_empty

/-- The settings that a program can come to hold: none, those of a file, and what becomes of them
when values are given and taken away and presets are applied. -/
inductive Reachable : Settings → Prop where
  | empty : Reachable empty
  | load (store : Store) (w : Machine) : Reachable ((store.load : StateM Machine Settings) w).1
  | withValue {s t : Settings} {name raw : String} :
    Reachable s → s.withValue name raw = .ok t → Reachable t
  | withoutValue {s t : Settings} {name : String} :
    Reachable s → s.withoutValue name = .ok t → Reachable t
  | preset {s : Settings} {c : Catalog} {name : String} {last : Preset.Application} :
    Reachable s → c.apply name s = .ok last → Reachable last.settings

theorem Reachable.accepted (h : Reachable s) : s.Accepted := by
  induction h with
  | empty => exact accepted_empty
  | load store w => exact accepted_load store w
  | withValue _ h ih => exact accepted_of_withValue ih h
  | withoutValue _ h ih => exact accepted_of_withoutValue ih h
  | preset _ h ih => exact accepted_of_apply ih h

end Settings

end Generation
