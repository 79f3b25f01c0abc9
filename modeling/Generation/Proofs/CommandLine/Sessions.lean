import Generation.CommandLine.Handlers
import Generation.Proofs.Settings.Changes
import Generation.Proofs.Settings.Held

/-!
Commands about settings, one after the other. Each of them loads the settings and saves what it
changes; as long as no file operation fails they answer what they would answer if the settings were
held in memory all the time.
-/
namespace Generation.CommandLine

/-- The lines to print, or why a command fails. -/
abbrev Answer := Except Failure (List String)

/-- A command about settings. Presets may be taken from any catalog. -/
inductive SettingsCommand where
  | config (c : ConfigCommand)
  | preset (catalog : Catalog) (name : String)
  | options (flags : Flags)

variable {α : Type} {store : Store} {s t : Settings} {v w w' : Machine} {answer : Answer}
  {home : Path} {key value name : String} {c : SettingsCommand} {cs : List SettingsCommand}

/-! Settings in memory -/

def setLine (s : Settings) (key value : String) : String :=
  match s.value? key with
  | some previous => s!"Set {key} = {value} (was: {previous})"
  | none => s!"Set {key} = {value}"

def presetLines (catalog : Catalog) (name : String) (changes : List Preset.Change) : List String :=
  let description := ((catalog.find? name).map Preset.description).getD ""
  s!"Applied preset '{name}': {description}" :: changes.map fun c => "  " ++ c.text

def setInMemory (s : Settings) (key value : String) : Answer × Settings :=
  match s.withValue key value with
  | .error e => (.error (.setting e), s)
  | .ok t => (.ok [setLine s key value], t)

def resetInMemory (s : Settings) : Option String → Answer × Settings
  | none => (.ok ["Reset all settings"], .empty)
  | some key =>
    match s.withoutValue key with
    | .error e => (.error (.setting e), s)
    | .ok t => (.ok [s!"Reset {key}"], t)

def presetInMemory (s : Settings) (catalog : Catalog) (name : String) : Answer × Settings :=
  match catalog.apply name s with
  | .error (e, _) => (.error (.preset e), s)
  | .ok done => (.ok (presetLines catalog name done.changes), done.settings)

def optionsInMemory (s : Settings) (flags : Flags) : Answer :=
  match flags.overrides with
  | .error e => .error (.setting e)
  | .ok overrides => .ok [(Options.resolve overrides s).toJson.write true]

namespace SettingsCommand

/-- What a command answers on settings in memory, and the settings after it. -/
def inMemory (s : Settings) : SettingsCommand → Answer × Settings
  | config (.list all) => (.ok (if all then s.fullListing else s.listing), s)
  | config (.get key) => ((s.valueLines key).mapError .setting, s)
  | config (.set key value) => setInMemory s key value
  | config (.reset key) => resetInMemory s key
  | config (.describe key) => ((s.description key).mapError .setting, s)
  | config (.preset (some name)) => presetInMemory s .builtin name
  | config (.preset none) => (.ok Catalog.builtin.listing, s)
  | preset catalog name => presetInMemory s catalog name
  | options flags => (optionsInMemory s flags, s)

/-- Runs a command on a machine. -/
def perform (store : Store) : SettingsCommand → StateM Machine Answer
  | config c => runConfig store c
  | preset catalog name => applyPreset store catalog name
  | options flags => showOptions store flags

end SettingsCommand

/-! One command -/

/-- What follows the loading of settings runs where the same settings are still to be loaded. -/
theorem of_load {f : Settings → StateM Machine α} {a : α}
    (h : ((store.load : StateM Machine Settings) >>= f) w = (a, w')) :
    ∃ v, store.held v = store.held w ∧ f (store.held w) v = (a, w') := by
  obtain ⟨s, v, hload, h⟩ := Machine.bind_eq h
  obtain ⟨events, hloaded⟩ := store.exists_load w
  rw [hloaded] at hload
  obtain ⟨rfl, rfl⟩ := Prod.mk.inj hload
  exact ⟨_, store.held_events w _, h⟩

/-- What follows the saving of settings runs where these are to be loaded. -/
theorem of_save {f : Except StoreError Unit → StateM Machine Answer} (ht : t.Accepted)
    (hback : t.ReadBack) (hio : ∀ e, answer ≠ .error (.store e))
    (hfail : ∀ e w, f (.error e) w = (.error (.store e), w))
    (h : ((store.save t : StateM Machine (Except StoreError Unit)) >>= f) w = (answer, w')) :
    ∃ v, store.held v = t ∧ f (.ok ()) v = (answer, w') := by
  obtain ⟨saved, v, hsave, h⟩ := Machine.bind_eq h
  cases saved with
  | error e =>
    rw [hfail] at h
    obtain ⟨rfl, -⟩ := Prod.mk.inj h
    exact absurd rfl (hio e)
  | ok _ => exact ⟨v, Store.held_of_save ht hback hsave, h⟩

theorem held_of_log (store : Store) {e : Log.Event} {f : StateM Machine α} {a : α}
    (h : ((Host.log e : StateM Machine Unit) >>= fun _ => f) w = (a, w')) :
    ∃ v, store.held v = store.held w ∧ f v = (a, w') :=
  ⟨{ w with events := w.events ++ [e] }, store.held_events w _, h⟩

theorem setSetting_eq (hback : (setInMemory (store.held w) key value).2.ReadBack)
    (hio : ∀ e, answer ≠ .error (.store e))
    (h : (setSetting store key value : StateM Machine Answer) w = (answer, w')) :
    setInMemory (store.held w) key value = (answer, store.held w') := by
  unfold setSetting at h
  obtain ⟨v, hload, h⟩ := of_load h
  unfold setInMemory at hback ⊢
  cases hvalue : (store.held w).withValue key value with
  | error e =>
    rw [hvalue] at h
    obtain ⟨rfl, rfl⟩ := Prod.mk.inj h
    rw [hload]
  | ok t =>
    rw [hvalue] at h hback
    have ht := Settings.accepted_of_withValue (store.accepted_held w) hvalue
    obtain ⟨u, hsave, h⟩ := of_save ht hback hio (fun _ _ => rfl) h
    obtain ⟨x, hlog, h⟩ := held_of_log store h
    obtain ⟨rfl, rfl⟩ := Prod.mk.inj h
    rw [hlog, hsave]
    rfl

theorem resetSettings_eq {key : Option String}
    (hback : (resetInMemory (store.held w) key).2.ReadBack)
    (hio : ∀ e, answer ≠ .error (.store e))
    (h : (resetSettings store key : StateM Machine Answer) w = (answer, w')) :
    resetInMemory (store.held w) key = (answer, store.held w') := by
  cases key with
  | none =>
    obtain ⟨removed, v, hreset, h⟩ := Machine.bind_eq h
    cases removed with
    | error e =>
      obtain ⟨rfl, -⟩ := Prod.mk.inj h
      exact absurd rfl (hio e)
    | ok _ =>
      obtain ⟨rfl, rfl⟩ := Prod.mk.inj h
      rw [Store.held_of_reset hreset]
      rfl
  | some key =>
    obtain ⟨v, hload, h⟩ := of_load h
    rw [resetInMemory] at hback ⊢
    cases hvalue : (store.held w).withoutValue key with
    | error e =>
      rw [hvalue] at h
      obtain ⟨rfl, rfl⟩ := Prod.mk.inj h
      rw [hload]
    | ok t =>
      rw [hvalue] at h hback
      have ht := Settings.accepted_of_withoutValue (store.accepted_held w) hvalue
      obtain ⟨u, hsave, h⟩ := of_save ht hback hio (fun _ _ => rfl) h
      obtain ⟨rfl, rfl⟩ := Prod.mk.inj h
      rw [hsave]

theorem held_of_forM (store : Store) {e? : Option Log.Event} {f : StateM Machine α} {a : α}
    (h : ((e?.forM Host.log : StateM Machine PUnit) >>= fun _ => f) w = (a, w')) :
    ∃ v, store.held v = store.held w ∧ f v = (a, w') := by
  cases e? with
  | none => exact ⟨w, rfl, h⟩
  | some e => exact held_of_log store h

theorem applyPreset_eq {catalog : Catalog}
    (hback : (presetInMemory (store.held w) catalog name).2.ReadBack)
    (hio : ∀ e, answer ≠ .error (.store e))
    (h : (applyPreset store catalog name : StateM Machine Answer) w = (answer, w')) :
    presetInMemory (store.held w) catalog name = (answer, store.held w') := by
  unfold applyPreset at h
  obtain ⟨v, hload, h⟩ := of_load h
  obtain ⟨u, hlog, h⟩ := held_of_forM store h
  unfold presetInMemory at hback ⊢
  cases happly : catalog.apply name (store.held w) with
  | error e =>
    rw [happly] at h
    obtain ⟨rfl, rfl⟩ := Prod.mk.inj h
    rw [hlog, hload]
  | ok done =>
    rw [happly] at h hback
    have hdone := Settings.accepted_of_apply (store.accepted_held w) happly
    obtain ⟨x, hsave, h⟩ := of_save hdone hback hio (fun _ _ => rfl) h
    obtain ⟨rfl, rfl⟩ := Prod.mk.inj h
    rw [hsave]
    rfl

theorem showOptions_eq {flags : Flags}
    (h : (showOptions store flags : StateM Machine Answer) w = (answer, w')) :
    optionsInMemory (store.held w) flags = answer ∧ store.held w' = store.held w := by
  unfold showOptions at h
  unfold optionsInMemory
  cases hflags : flags.overrides with
  | error e =>
    rw [hflags] at h
    obtain ⟨rfl, rfl⟩ := Prod.mk.inj h
    exact ⟨rfl, rfl⟩
  | ok overrides =>
    rw [hflags] at h
    obtain ⟨v, hload, h⟩ := of_load h
    obtain ⟨rfl, rfl⟩ := Prod.mk.inj h
    exact ⟨rfl, hload⟩

/-- A command that only looks at the settings leaves them. -/
theorem report_eq {f : Settings → Answer}
    (h : ((store.load : StateM Machine Settings) >>= fun s => pure (f s)) w = (answer, w')) :
    (f (store.held w), store.held w) = (answer, store.held w') := by
  obtain ⟨v, hload, h⟩ := of_load h
  obtain ⟨rfl, rfl⟩ := Prod.mk.inj h
  rw [hload]

/-- One command on a store does what it does in memory. -/
theorem perform_eq (hback : (c.inMemory (store.held w)).2.ReadBack)
    (hio : ∀ e, answer ≠ .error (.store e)) (h : c.perform store w = (answer, w')) :
    c.inMemory (store.held w) = (answer, store.held w') := by
  cases c with
  | config command =>
    cases command with
    | list all => exact report_eq h
    | get key => exact report_eq h
    | set key value => exact setSetting_eq hback hio h
    | reset key => exact resetSettings_eq hback hio h
    | describe key => exact report_eq h
    | preset name? =>
      cases name? with
      | none =>
        obtain ⟨rfl, rfl⟩ := Prod.mk.inj h
        rfl
      | some name => exact applyPreset_eq hback hio h
  | preset catalog name => exact applyPreset_eq hback hio h
  | options flags =>
    obtain ⟨hanswer, hheld⟩ := showOptions_eq h
    rw [← hheld, ← hanswer, hheld]
    rfl

/-! Any number of commands -/

/-- The answers to commands on a store, each with the settings that are loaded after it. -/
def transcript (store : Store) (w : Machine) : List SettingsCommand → List (Answer × Settings)
  | [] => []
  | c :: cs =>
    let (answer, w') := c.perform store w
    (answer, store.held w') :: transcript store w' cs

/-- The answers to commands on settings in memory, each with the settings after it. -/
def memoryTranscript (s : Settings) : List SettingsCommand → List (Answer × Settings)
  | [] => []
  | c :: cs => c.inMemory s :: memoryTranscript (c.inMemory s).2 cs

/-! Machines with nothing but settings -/

/-- Where there is nothing but settings no file operation fails, and there still is nothing else
afterwards. -/
def Unhindered (x : StateM Machine Answer) : Prop :=
  ∀ w, w.OnlySettings → (∀ e, (x w).1 ≠ .error (.store e)) ∧ (x w).2.OnlySettings

theorem unhindered_pure (h : ∀ e, answer ≠ .error (.store e)) : Unhindered (pure answer) :=
  fun _ hw => ⟨h, hw⟩

theorem unhindered_log {e : Log.Event} {x : StateM Machine Answer} (h : Unhindered x) :
    Unhindered ((Host.log e : StateM Machine Unit) >>= fun _ => x) :=
  fun w hw => h { w with events := w.events ++ [e] } ⟨hw.workingDir, hw.tree⟩

theorem unhindered_forM {e? : Option Log.Event} {x : StateM Machine Answer} (h : Unhindered x) :
    Unhindered ((e?.forM Host.log : StateM Machine PUnit) >>= fun _ => x) := by
  cases e? with
  | none => exact h
  | some e => exact unhindered_log h

theorem unhindered_load {f : Settings → StateM Machine Answer} (h : ∀ s, Unhindered (f s)) :
    Unhindered ((store.load : StateM Machine Settings) >>= f) := by
  intro w hw
  obtain ⟨events, hload⟩ := store.exists_load w
  have hnext := h (store.held w) { w with events := w.events ++ events } ⟨hw.workingDir, hw.tree⟩
  simp only [bind, StateT.bind, hload]
  exact hnext

theorem unhindered_save {f : Except StoreError Unit → StateM Machine Answer}
    (h : Unhindered (f (.ok ()))) :
    Unhindered (((Store.here home).save s : StateM Machine (Except StoreError Unit)) >>= f) := by
  intro w hw
  obtain ⟨w', hsave, hw'⟩ := Store.exists_save hw home s
  simp only [bind, StateT.bind, hsave]
  exact h w' hw'

theorem unhindered_setSetting (key value : String) :
    Unhindered (setSetting (.here home) key value) := by
  refine unhindered_load fun s => ?_
  cases s.withValue key value with
  | error e => exact unhindered_pure (by simp)
  | ok t => exact unhindered_save (unhindered_log (unhindered_pure (by simp)))

theorem unhindered_resetSettings (key : Option String) :
    Unhindered (resetSettings (.here home) key) := by
  cases key with
  | none =>
    intro w hw
    obtain ⟨w', hreset, hw'⟩ := Store.exists_reset hw home
    simp only [resetSettings, bind, StateT.bind, hreset]
    exact unhindered_pure (by simp) w' hw'
  | some key =>
    refine unhindered_load fun s => ?_
    cases s.withoutValue key with
    | error e => exact unhindered_pure (by simp)
    | ok t => exact unhindered_save (unhindered_pure (by simp))

theorem unhindered_applyPreset (catalog : Catalog) (name : String) :
    Unhindered (applyPreset (.here home) catalog name) := by
  refine unhindered_load fun s => unhindered_forM ?_
  cases catalog.apply name s with
  | error e => exact unhindered_pure (by simp)
  | ok done => exact unhindered_save (unhindered_pure (by simp))

theorem unhindered_showOptions (flags : Flags) : Unhindered (showOptions store flags) := by
  unfold showOptions
  cases flags.overrides with
  | error e => exact unhindered_pure (by simp)
  | ok overrides => exact unhindered_load fun s => unhindered_pure (by simp)

theorem mapError_ne_store {x : Except SettingError (List String)} (e : StoreError) :
    x.mapError Failure.setting ≠ .error (.store e) := by
  cases x <;> simp [Except.mapError]

theorem unhindered_perform (c : SettingsCommand) : Unhindered (c.perform (.here home)) := by
  cases c with
  | config command =>
    cases command with
    | list all => exact unhindered_load fun s => unhindered_pure (by simp)
    | get key => exact unhindered_load fun s => unhindered_pure mapError_ne_store
    | set key value => exact unhindered_setSetting key value
    | reset key => exact unhindered_resetSettings key
    | describe key => exact unhindered_load fun s => unhindered_pure mapError_ne_store
    | preset name? =>
      cases name? with
      | none => exact unhindered_pure (by simp)
      | some name => exact unhindered_applyPreset .builtin name
  | preset catalog name => exact unhindered_applyPreset catalog name
  | options flags => exact unhindered_showOptions flags

/-- Where there is nothing but settings, no command of a session fails for a file. -/
theorem transcript_unhindered (hw : w.OnlySettings) :
    ∀ step ∈ transcript (.here home) w cs, ∀ e, step.1 ≠ .error (.store e) := by
  induction cs generalizing w with
  | nil => simp [transcript]
  | cons c cs ih =>
    obtain ⟨hanswer, hw'⟩ := unhindered_perform c w hw
    exact List.forall_mem_cons.mpr ⟨hanswer, ih hw'⟩

/-! Sessions in memory and on a store -/

/-- As long as no file operation fails and every number is read back from its text, commands on a
store cannot be told from commands on the settings that were loaded at first. -/
theorem transcript_eq (hback : ∀ step ∈ memoryTranscript (store.held w) cs, step.2.ReadBack)
    (hio : ∀ step ∈ transcript store w cs, ∀ e, step.1 ≠ .error (.store e)) :
    transcript store w cs = memoryTranscript (store.held w) cs := by
  induction cs generalizing w with
  | nil => rfl
  | cons c cs ih =>
    rcases hperform : c.perform store w with ⟨answer, w'⟩
    simp only [transcript, memoryTranscript, hperform, List.forall_mem_cons] at hback hio ⊢
    have hstep := perform_eq hback.1 hio.1 hperform
    rw [hstep] at hback ⊢
    rw [ih hback.2 hio.2]

/-- A value that is stored, one that is refused, and all that is forgotten. -/
theorem transcript_eq_set_reset :
    let store := Store.here ⟨"/home"⟩
    let w : Machine := ⟨⟨[]⟩, [], []⟩
    let s := Settings.empty.set .temperature (some (.ofDecimal false 7 (-1)))
    let cs : List SettingsCommand := [.config (.set "temperature" "0.7"),
      .config (.set "temperature" "9"), .config (.get "temperature"), .config (.reset none)]
    memoryTranscript (store.held w) cs = [(.ok ["Set temperature = 0.7"], s),
        (.error (.setting (.invalidValue .temperature (.outOfRange "9" 0 2))), s),
        (.ok ["0.7"], s), (.ok ["Reset all settings"], .empty)] ∧
      transcript store w cs = memoryTranscript (store.held w) cs := by
  intro store w s cs
  have hheld : store.held w = .empty := by
    have hread : w.tree.read w.workingDir store.path = .error .notFound := by
      rw [Store.path_here, FileTree.read, FileTree.entryAt, FileTree.locate_fileName]
      rfl
    exact Store.held_of_read_error hread
  have hset : Settings.empty.withValue "temperature" "0.7" = .ok s :=
    Settings.withValue_temperature (by decide +kernel) (by decide +kernel)
  have hrefused : s.withValue "temperature" "9" =
      .error (.invalidValue .temperature (.outOfRange "9" 0 2)) :=
    Settings.withValue_temperature_outOfRange (x := .ofDecimal false 9 0) (by decide +kernel)
      (by decide +kernel)
  have hshown : s.valueLines "temperature" = .ok ["0.7"] := by
    have hrender : s.render? .temperature = some "0.7" := by decide +kernel
    change Except.ok (s.render? .temperature).toList = _
    rw [hrender]
    rfl
  have hmemory : memoryTranscript (store.held w) cs = [(.ok ["Set temperature = 0.7"], s),
      (.error (.setting (.invalidValue .temperature (.outOfRange "9" 0 2))), s),
      (.ok ["0.7"], s), (.ok ["Reset all settings"], .empty)] := by
    rw [hheld]
    simp only [cs, memoryTranscript, SettingsCommand.inMemory, setInMemory, hset, hrefused, hshown]
    rfl
  have hback : s.ReadBack := by
    constructor
    · intro x hx
      obtain rfl := Option.some.inj (Settings.get_set_self.symm.trans hx)
      exact (Kind.readBack_iff (Nat.le_refl 1) (by decide +kernel)).mpr (by decide +kernel)
    · intro x hx
      cases hx
  have hnone : Settings.empty.ReadBack := ⟨by simp, by simp⟩
  refine ⟨hmemory, transcript_eq ?_ (transcript_unhindered Machine.onlySettings_blank)⟩
  rw [hmemory]
  simp [hback, hnone]

end Generation.CommandLine
