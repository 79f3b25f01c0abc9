import Generation.Proofs.CommandLine.Sessions
import Generation.Proofs.Settings.Sparing

/-!
Commands and the files, whatever the surroundings refuse. A command that fails leaves every file as
it was, and nothing beside them that can be removed; one that only tells something leaves the whole
disk as it was; and one that changes settings changes no file but the one that holds them.
-/
namespace Generation.CommandLine

/-- A command as a user gives it, or a preset of any catalog. -/
inductive Task where
  | command (c : Command)
  | preset (catalog : Catalog) (name : String)

namespace Task

/-- The store of a user, who may name a directory for it. -/
def store (e : Environment) (configDir : Option String) : Store := .ofDir e (configDir.map Path.mk)

def perform {m : Type → Type} [Monad m] [Host m] (e : Environment) (configDir : Option String) :
    Task → m Answer
  | command c => run e ⟨c, configDir, false⟩
  | preset catalog name => applyPreset (store e configDir) catalog name

/-- Whether a task only tells something. -/
def Tells : Task → Prop
  | command (.config (.set _ _)) | command (.config (.reset _))
  | command (.config (.preset (some _))) | preset _ _ => False
  | _ => True

end Task

/-! Commands that tell something -/

theorem looks_report {store : Store} {f : Settings → Answer} :
    Looks ((store.load : Guarded Settings) >>= fun s => pure (f s)) :=
  store.looks_load.bind fun _ => looks_pure _

theorem looks_showOptions (store : Store) (flags : Flags) :
    Looks (showOptions store flags : Guarded Answer) := by
  unfold showOptions
  cases flags.overrides with
  | error e => exact looks_pure _
  | ok overrides => exact looks_report

theorem looks_compileSchema (home : Path) (file : String) (pretty : Bool) :
    Looks (compileSchema home file pretty : Guarded Answer) := by
  refine Looks.bind ((looks_read _).bind fun contents => ?_) fun _ => looks_pure _
  cases contents with
  | error e => exact looks_pure _
  | ok contents =>
    dsimp only
    cases Schema.Compiled.ofText contents with
    | error e => exact looks_pure _
    | ok compiled => exact (looks_log _).bind fun _ => looks_pure _

/-! Commands that change settings save them last: what follows only reports it. -/

theorem spares_setSetting (store : Store) (key value : String) :
    Spares store (setSetting store key value : Guarded Answer) := by
  refine store.looks_load.keepsFiles.bind_spares fun s => ?_
  cases s.withValue key value with
  | error e => exact spares_pure _ _
  | ok t =>
    refine (store.spares_save t).bind (fun saved => ?_) fun saved g w => ?_
    · cases saved with
      | error e => exact looks_pure _
      | ok _ => exact (looks_log _).bind fun _ => looks_pure _
    · cases saved <;> rfl

theorem spares_resetSettings (store : Store) (key : Option String) :
    Spares store (resetSettings store key : Guarded Answer) := by
  cases key with
  | none =>
    refine store.spares_reset.bind (fun removed => ?_) fun removed g w => ?_
    · cases removed <;> exact looks_pure _
    · cases removed <;> rfl
  | some key =>
    refine store.looks_load.keepsFiles.bind_spares fun s => ?_
    cases s.withoutValue key with
    | error e => exact spares_pure _ _
    | ok t =>
      refine (store.spares_save t).bind (fun saved => ?_) fun saved g w => ?_
      · cases saved <;> exact looks_pure _
      · cases saved <;> rfl

/-- Nothing is saved before all assignments are made. -/
theorem spares_applyPreset (store : Store) (catalog : Catalog) (name : String) :
    Spares store (applyPreset store catalog name : Guarded Answer) := by
  refine store.looks_load.keepsFiles.bind_spares fun s => ?_
  refine (looks_logAny _).keepsFiles.bind_spares fun _ => ?_
  cases catalog.apply name s with
  | error e => exact spares_pure _ _
  | ok done =>
    refine (store.spares_save done.settings).bind (fun saved => ?_) fun saved g w => ?_
    · cases saved <;> exact looks_pure _
    · cases saved <;> rfl

/-! All commands -/

theorem looks_of_tells (e : Environment) (configDir : Option String) {task : Task}
    (h : task.Tells) : Looks (task.perform e configDir : Guarded Answer) := by
  cases task with
  | preset catalog name => exact h.elim
  | command c =>
    cases c with
    | compile file pretty => exact looks_compileSchema _ _ _
    | options flags => exact looks_showOptions _ _
    | config c =>
      cases c with
      | list all => exact looks_report
      | get key => exact looks_report
      | set key value => exact h.elim
      | reset key => exact h.elim
      | describe key => exact looks_report
      | preset name? =>
        cases name? with
        | none => exact looks_pure _
        | some name => exact h.elim

theorem spares_perform (e : Environment) (configDir : Option String) (task : Task) :
    Spares (Task.store e configDir) (task.perform e configDir : Guarded Answer) := by
  by_cases htells : task.Tells
  · exact (looks_of_tells e configDir htells).keepsFiles.spares _
  cases task with
  | preset catalog name => exact spares_applyPreset _ _ _
  | command c =>
    cases c with
    | compile file pretty => exact absurd trivial htells
    | options flags => exact absurd trivial htells
    | config c =>
      cases c with
      | set key value => exact spares_setSetting _ _ _
      | reset key => exact spares_resetSettings _ _
      | preset name? =>
        cases name? with
        | none => exact absurd trivial htells
        | some name => exact spares_applyPreset _ _ _
      | _ => exact absurd trivial htells

/-- Whatever is refused, a task that fails leaves all files as they were, and no other ones if files
that were created can be removed again. A task that only tells something leaves the disk as it was,
and one that succeeds leaves all files but the settings file as they were. -/
theorem files_spared (e : Environment) (configDir : Option String) (task : Task) (g : Guard)
    (w : Attended) :
    let store := Task.store e configDir
    let done := (task.perform e configDir : Guarded Answer) g w
    ((∃ failure, done.1 = .error failure) →
        w.tree.Keeps done.2.tree ∧ (g.Releases store.dir → w.tree.SameFiles done.2.tree)) ∧
      (task.Tells → done.2.tree = w.tree) ∧
        ((∃ lines, done.1 = .ok lines) →
          FileTree.SameFilesBut w.workingDir store.path w.tree done.2.tree) := by
  have hspared := spares_perform e configDir task g w
  refine ⟨?_, fun htells => (looks_of_tells e configDir htells g w).2, ?_⟩
  · rintro ⟨failure, hfailure⟩
    obtain ⟨hkeeps, hsame⟩ := hspared.failed failure hfailure
    exact ⟨hkeeps, hsame⟩
  · rintro ⟨lines, hlines⟩
    exact hspared.done lines hlines

/-- A disk with room for three more bytes. -/
def fullDisk : Guard
  | _, .write _ => some ⟨.other "No space left on device (os error 28)", 3⟩
  | _, _ => none

/-- What was written of the new file goes away again. -/
theorem files_spared_fullDisk :
    let w : Attended := ⟨Machine.withFile Settings.fileName (Text.bytes "{}"), 0⟩
    let task : Task := .command (.config (.set "stream" "true"))
    let done := (task.perform ⟨⟨"/home"⟩, none⟩ (some "") : Guarded Answer) fullDisk w
    done.1.isOk = false ∧ fullDisk.Releases ⟨""⟩ ∧ w.tree.SameFiles done.2.tree := by
  intro w task
  have hspared := files_spared ⟨⟨"/home"⟩, none⟩ (some "") task fullDisk w
  have hanswer : ((task.perform ⟨⟨"/home"⟩, none⟩ (some "") : Guarded Answer) fullDisk w).1.isOk =
      false := by decide +kernel
  have hreleases : fullDisk.Releases ⟨""⟩ := fun _ _ _ _ _ _ => rfl
  -- only the answer is computed, so that nothing else unfolds the run
  generalize (task.perform ⟨⟨"/home"⟩, none⟩ (some "") : Guarded Answer) fullDisk w = done
    at hspared hanswer ⊢
  obtain ⟨-, hsame⟩ := hspared.1 (exists_of_isOk_eq_false hanswer)
  exact ⟨hanswer, hreleases, hsame hreleases⟩

/-- A directory where files can be created, but neither moved nor removed. -/
def growingDirectory : Guard
  | _, .rename _ _ | _, .remove _ => some ⟨.other "Operation not permitted (os error 1)", 0⟩
  | _, _ => none

-- where the new file cannot be removed it is left behind
example :
    let w : Attended := ⟨Machine.withFile Settings.fileName (Text.bytes "{}"), 0⟩
    let task : Task := .command (.config (.reset (some "stream")))
    let done := (task.perform ⟨⟨"/home"⟩, none⟩ (some "") : Guarded Answer) growingDirectory w
    done.1.isOk = false ∧ done.2.tree.fileAt? [".tmp0"] = some (Text.bytes "{}\n") := by
  decide +kernel

end Generation.CommandLine
