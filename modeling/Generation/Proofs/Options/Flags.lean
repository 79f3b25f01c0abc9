import Generation.Options
import Generation.Proofs.Except
import Generation.Proofs.Settings.Changes
import Generation.Proofs.Settings.Reachable

/-!
Flags beside stored settings: for the run that it is given to, a flag does what its value would do
if it were stored.
-/
namespace Generation

variable {f : Flags} {s : Settings} {k j : Key} {keys : List Key}

namespace Settings

/-- Makes changes one after the other, up to the first that is rejected. -/
def withValues (s : Settings) (changes : List (String × String)) : Except SettingError Settings :=
  changes.foldlM (fun s change => s.withValue change.1 change.2) s

end Settings

/-- Options depend on the value in effect for each key, and on the instructions in effect. -/
theorem Options.resolve_congr {o o' : Overrides} {s s' : Settings}
    (hvalues : ∀ k, k ≠ .language → effective? o s k = effective? o' s' k)
    (hinstructions : s.effectiveInstructions (o.given .instructions) o.language =
      s'.effectiveInstructions (o'.given .instructions) o'.language) :
    resolve o s = resolve o' s' := by
  have hgeneration : generationOf o s = generationOf o' s' := by
    unfold generationOf
    rw [hvalues .maxTokens (by decide), hvalues .temperature (by decide),
      hvalues .sampling (by decide), hvalues .samplingThreshold (by decide),
      hvalues .samplingTop (by decide), hvalues .samplingSeed (by decide)]
  have hmodel : modelOf o s = modelOf o' s' := by
    unfold modelOf
    rw [hvalues .guardrails (by decide), hvalues .adapter (by decide)]
  have htools : toolsOf o s = toolsOf o' s' := by
    unfold toolsOf
    rw [hvalues .tools (by decide), hvalues .toolApproval (by decide)]
  have houtput : outputOf o s = outputOf o' s' := by
    unfold outputOf
    rw [hvalues .format (by decide), hvalues .stream (by decide), hvalues .rawJson (by decide),
      hvalues .logEnabled (by decide), hinstructions]
  unfold resolve
  rw [hgeneration, hmodel, htools, houtput]

/-- No values are given. -/
def Overrides.none : Overrides := ⟨.empty, Option.none⟩

namespace Flags

/-- The value that a flag gives to a key. -/
def value? (f : Flags) (k : Key) : Option k.Value :=
  (f.raw k).bind fun raw => (k.kind.parse raw).toOption

/-- What is wrong with the text that is given for a key. -/
def fault? (f : Flags) (k : Key) : Option SettingError :=
  match f.raw k with
  | none => none
  | some raw =>
    match k.kind.parse raw with
    | .ok _ => none
    | .error r => some (.invalidValue k r)

/-- Stores the value that a flag gives, if it gives one. -/
def put (f : Flags) (s : Settings) (k : Key) : Settings :=
  match f.value? k with
  | none => s
  | some v => s.set k (some v)

/-- The changes of settings that flags stand for, in ascending order of the names. -/
def changes (f : Flags) : List (String × String) :=
  checkedKeys.filterMap fun k => (f.raw k).map (k.name, ·)

/-- The language that a token names; a token that names none leaves no language. -/
def putLanguage (f : Flags) (s : Settings) : Settings :=
  match f.raw .language with
  | none => s
  | some token => s.set .language (Choice.ofToken? token)

/-- Stored settings, changed as the flags say. -/
def store (f : Flags) (s : Settings) : Except SettingError Settings :=
  (s.withValues f.changes).map f.putLanguage

theorem assignGiven_eq (f : Flags) (s : Settings) (k : Key) :
    f.assignGiven s k =
      match f.fault? k with
      | some e => .error e
      | none => .ok (f.put s k) := by
  unfold assignGiven fault? put value?
  cases f.raw k with
  | none => rfl
  | some raw =>
    dsimp only [Settings.assign, Option.bind_some]
    cases k.kind.parse raw <;> rfl

/-- Whether flags are accepted does not depend on the settings that they change. -/
theorem foldlM_assignGiven (f : Flags) (s : Settings) (keys : List Key) :
    keys.foldlM f.assignGiven s =
      match keys.findSome? f.fault? with
      | some e => .error e
      | none => .ok (keys.foldl f.put s) := by
  induction keys generalizing s with
  | nil => rfl
  | cons k keys ih =>
    rw [List.foldlM_cons, assignGiven_eq, List.findSome?_cons]
    cases f.fault? k with
    | some e => rfl
    | none => exact ih (f.put s k)

theorem get_put_self : (f.put s k).get k = (f.value? k).or (s.get k) := by
  unfold put
  cases f.value? k with
  | none => rfl
  | some v => exact Settings.get_set_self

theorem get_put_of_ne (h : j ≠ k) : (f.put s k).get j = s.get j := by
  unfold put
  cases f.value? k with
  | none => rfl
  | some v => exact Settings.get_set_of_ne h

/-- Each key is decided by its own flag. -/
theorem get_foldl_put (f : Flags) (s : Settings) (keys : List Key) (j : Key) :
    (keys.foldl f.put s).get j = if j ∈ keys then (f.value? j).or (s.get j) else s.get j := by
  induction keys generalizing s with
  | nil => rfl
  | cons k keys ih =>
    rw [List.foldl_cons, ih]
    by_cases hj : j = k
    · subst hj
      rw [get_put_self, if_pos List.mem_cons_self]
      split
      · cases f.value? j <;> rfl
      · rfl
    · simp [get_put_of_ne hj, hj]

/-- The changes are made key by key. -/
theorem withValues_filterMap (f : Flags) (s : Settings) (keys : List Key) :
    s.withValues (keys.filterMap fun k => (f.raw k).map (k.name, ·)) =
      keys.foldlM f.assignGiven s := by
  unfold Settings.withValues
  induction keys generalizing s with
  | nil => rfl
  | cons k keys ih =>
    rw [List.foldlM_cons, List.filterMap_cons, assignGiven]
    cases f.raw k with
    | none => exact ih s
    | some raw =>
      simp only [Option.map_some, List.foldlM_cons, Settings.withValue_name]
      cases s.assign k raw with
      | error e => rfl
      | ok t => exact ih t

theorem withValues_changes (f : Flags) (s : Settings) : s.withValues f.changes =
    match checkedKeys.findSome? f.fault? with
    | some e => .error e
    | none => .ok (checkedKeys.foldl f.put s) := by
  rw [changes, withValues_filterMap, foldlM_assignGiven]

theorem overrides_eq (f : Flags) : f.overrides =
    match checkedKeys.findSome? f.fault? with
    | some e => .error e
    | none => .ok ⟨checkedKeys.foldl f.put .empty, f.raw .language⟩ := by
  rw [overrides, foldlM_assignGiven]
  cases checkedKeys.findSome? f.fault? <;> rfl

theorem mem_checkedKeys : k ∈ checkedKeys ↔ k ≠ .language := by
  simp [checkedKeys, Key.mem_all]

theorem fault?_eq_none_iff :
    f.fault? k = none ↔ ∀ raw, f.raw k = some raw → ∃ v, k.kind.parse raw = .ok v := by
  unfold fault?
  cases f.raw k with
  | none => simp
  | some raw =>
    dsimp only
    cases hparse : k.kind.parse raw with
    | ok v => simp [hparse]
    | error r => simp [hparse]

/-- Flags are accepted if the text of each that is checked can be read. -/
theorem exists_overrides_iff : (∃ o, f.overrides = .ok o) ↔
    ∀ k, k ≠ .language → ∀ raw, f.raw k = some raw → ∃ v, k.kind.parse raw = .ok v := by
  have hnone : checkedKeys.findSome? f.fault? = none ↔ ∀ k, k ≠ .language → f.fault? k = none := by
    simp only [List.findSome?_eq_none_iff, mem_checkedKeys]
  simp only [← fault?_eq_none_iff]
  rw [← hnone, overrides_eq]
  cases checkedKeys.findSome? f.fault? with
  | some e => simp
  | none => simp

theorem mem_changes {name raw : String} :
    (name, raw) ∈ f.changes ↔ ∃ k, k ≠ .language ∧ name = k.name ∧ f.raw k = some raw := by
  simp only [changes, List.mem_filterMap, Option.map_eq_some_iff, Prod.mk.injEq, mem_checkedKeys]
  constructor
  · rintro ⟨k, hk, raw', hraw, rfl, rfl⟩
    exact ⟨k, hk, rfl, hraw⟩
  · rintro ⟨k, hk, rfl, hraw⟩
    exact ⟨k, hk, raw, hraw, rfl, rfl⟩

theorem ascending_changes (f : Flags) : f.changes.Pairwise fun c d => c.1 < d.1 := by
  have hkeys : checkedKeys.Pairwise fun j k => j.name < k.name := by decide
  refine List.pairwise_filterMap.mpr (hkeys.imp fun {j k} hjk => ?_)
  intro c hc d hd
  obtain ⟨raw, -, rfl⟩ := Option.map_eq_some_iff.mp hc
  obtain ⟨raw', -, rfl⟩ := Option.map_eq_some_iff.mp hd
  exact hjk

theorem value?_tools_ne : f.value? .tools ≠ some [] := by
  intro h
  obtain ⟨raw, -, hparse⟩ := Option.bind_eq_some_iff.mp h
  have hok : Key.tools.kind.parse raw = .ok [] := by
    cases hresult : Key.tools.kind.parse raw with
    | error r =>
      rw [hresult] at hparse
      cases hparse
    | ok v =>
      rw [hresult] at hparse
      exact congrArg Except.ok (Option.some.inj hparse)
  exact Kind.accepts_of_parseTools hok rfl

/-! Options with flags, and without flags from settings that were changed as the flags say -/

theorem get_putLanguage_of_ne (h : k ≠ .language) : (f.putLanguage s).get k = s.get k := by
  unfold putLanguage
  split
  · rfl
  · exact Settings.get_set_of_ne h

theorem get_putLanguage : (f.putLanguage s).get .language =
    match f.raw .language with
    | none => s.get .language
    | some token => Choice.ofToken? token := by
  unfold putLanguage
  split
  · rfl
  · exact Settings.get_set_self

/-- What flags give, they give whether it is stored or not. -/
theorem given_foldl_put (f : Flags) (l : Option String) (hk : k ≠ .language) :
    Overrides.given ⟨checkedKeys.foldl f.put .empty, l⟩ k = f.value? k := by
  have hget : (checkedKeys.foldl f.put .empty).get k = f.value? k := by
    rw [get_foldl_put, if_pos (mem_checkedKeys.mpr hk), Settings.get_empty, Option.or_none]
  unfold Overrides.given
  split
  · dsimp only
    split
    · rename_i hnil
      rw [hget] at hnil
      exact absurd hnil value?_tools_ne
    · exact hget
  · exact hget

theorem given_none (k : Key) : Overrides.none.given k = none := by
  cases k <;> rfl

theorem effective?_putLanguage (f : Flags) (s : Settings) (hk : k ≠ .language) :
    Options.effective? ⟨checkedKeys.foldl f.put .empty, f.raw .language⟩ s k =
      Options.effective? .none (f.putLanguage (checkedKeys.foldl f.put s)) k := by
  rw [Options.effective?, Options.effective?, given_foldl_put f _ hk, given_none, Option.none_or,
    get_putLanguage_of_ne hk, get_foldl_put, if_pos (mem_checkedKeys.mpr hk)]

/-- The language that a flag gives stands for the stored one, also where it names none. -/
theorem effectiveInstructions_putLanguage (f : Flags) (s : Settings) :
    s.effectiveInstructions (f.value? .instructions) (f.raw .language) =
      (f.putLanguage (checkedKeys.foldl f.put s)).effectiveInstructions none none := by
  have hlanguage : (checkedKeys.foldl f.put s).get .language = s.get .language := by
    rw [get_foldl_put, if_neg (mem_checkedKeys.not.mpr (not_not.mpr rfl))]
  have hinstructions : (f.putLanguage (checkedKeys.foldl f.put s)).get .instructions =
      (f.value? .instructions).or (s.get .instructions) := by
    rw [get_putLanguage_of_ne (by decide), get_foldl_put,
      if_pos (mem_checkedKeys.mpr (by decide))]
  unfold Settings.effectiveInstructions
  rw [get_putLanguage, hlanguage, hinstructions, Option.none_or]
  cases f.raw .language <;> rfl

theorem resolve_putLanguage (f : Flags) (s : Settings) :
    Options.resolve ⟨checkedKeys.foldl f.put .empty, f.raw .language⟩ s =
      Options.resolve .none (f.putLanguage (checkedKeys.foldl f.put s)) := by
  apply Options.resolve_congr
  · intro k hk
    exact effective?_putLanguage f s hk
  · rw [given_foldl_put f _ (by decide), given_none]
    exact effectiveInstructions_putLanguage f s

/-- What it means that flags act like stored settings. -/
structure ActsAsStored (f : Flags) (s : Settings) : Prop where
  /-- The changes that flags stand for: one for each key that is checked and given. -/
  given : ∀ name raw, (name, raw) ∈ f.changes ↔
    ∃ k, k ≠ .language ∧ name = k.name ∧ f.raw k = some raw
  ascending : f.changes.Pairwise fun c d => c.1 < d.1
  /-- Flags are accepted exactly if all these changes are. -/
  accepted : (∃ o, f.overrides = .ok o) ↔ ∃ t, s.withValues f.changes = .ok t
  /-- Flags are refused for the first change that is rejected. -/
  refused : ∀ e, f.overrides = .error e ↔ ∃ before change after t,
    f.changes = before ++ change :: after ∧ s.withValues before = .ok t ∧
      t.withValue change.1 change.2 = .error e
  /-- The options are those of the settings that the changes lead to. -/
  resolved : ∀ o, f.overrides = .ok o → ∃ t, f.store s = .ok t ∧
    Options.resolve o s = Options.resolve .none t

/-- Flags act like settings that are stored for one run. -/
theorem actsAsStored (f : Flags) (s : Settings) : f.ActsAsStored s := by
  have hoverrides := overrides_eq f
  have hchanges := withValues_changes f s
  constructor
  · intro name raw
    exact mem_changes
  · exact ascending_changes f
  · rw [hoverrides, hchanges]
    cases checkedKeys.findSome? f.fault? with
    | some e => simp
    | none => simp
  · intro e
    have hfault : f.overrides = .error e ↔ s.withValues f.changes = .error e := by
      rw [hoverrides, hchanges]
      cases checkedKeys.findSome? f.fault? with
      | some e => simp
      | none => simp
    exact hfault.trans foldlM_eq_error_iff
  · intro o ho
    rw [hoverrides] at ho
    unfold store
    rw [hchanges]
    cases hfault : checkedKeys.findSome? f.fault? with
    | some e =>
      rw [hfault] at ho
      cases ho
    | none =>
      rw [hfault] at ho
      cases ho
      exact ⟨_, rfl, resolve_putLanguage f s⟩

end Flags

end Generation
