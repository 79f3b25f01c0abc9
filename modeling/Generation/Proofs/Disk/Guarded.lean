import Generation.Disk.Guard
import Generation.Proofs.Disk.Files
import Generation.Proofs.Disk.Machine

/-!
Runs behind a guard: what is asked for is refused or done, and what only looks on or makes new
directories leaves the files as they are.
-/
namespace Generation

variable {α β : Type} {g : Guard} {w w' : Attended} {o : Operation}

namespace Guarded

theorem bind_eq {x : Guarded α} {f : α → Guarded β} {b : β} (h : (x >>= f) g w = (b, w')) :
    ∃ a u, x g w = (a, u) ∧ f a g u = (b, w') :=
  ⟨(x g w).1, (x g w).2, rfl, h⟩

theorem ask_of_none {x : StateM Machine α} {refused : Refusal → StateM Machine α}
    (h : g w.asked o = none) :
    ask o x refused g w = ((x w.toMachine).1, ⟨(x w.toMachine).2, w.asked + 1⟩) := by
  rw [ask, h]
  rfl

theorem ask_of_some {x : StateM Machine α} {refused : Refusal → StateM Machine α} {r : Refusal}
    (h : g w.asked o = some r) :
    ask o x refused g w =
      ((refused r w.toMachine).1, ⟨(refused r w.toMachine).2, w.asked + 1⟩) := by
  rw [ask, h]
  rfl

/-- What is asked for is refused, or it is done on the machine. -/
theorem attempt_cases {x : StateM Machine (Except IoError α)} {result : Except IoError α}
    (h : attempt o x g w = (result, w')) :
    (∃ r, g w.asked o = some r ∧ result = .error r.cause ∧ w'.toMachine = w.toMachine) ∨
      (g w.asked o = none ∧ x w.toMachine = (result, w'.toMachine)) := by
  cases hguard : g w.asked o with
  | none =>
    obtain ⟨rfl, rfl⟩ := Prod.mk.inj ((ask_of_none hguard).symm.trans h)
    exact Or.inr ⟨rfl, rfl⟩
  | some r =>
    obtain ⟨rfl, rfl⟩ := Prod.mk.inj ((ask_of_some hguard).symm.trans h)
    exact Or.inl ⟨r, rfl, rfl, rfl⟩

theorem change_eq_error {f : FileTree → Location → Except IoError (FileTree × α)} {e : IoError}
    (h : attempt o (Machine.change f) g w = (.error e, w')) : w'.toMachine = w.toMachine := by
  obtain ⟨-, -, -, hkept⟩ | ⟨-, hdone⟩ := attempt_cases h
  · exact hkept
  · exact (Machine.change_eq_error hdone).2

theorem change_eq_ok {f : FileTree → Location → Except IoError (FileTree × α)} {a : α}
    (h : attempt o (Machine.change f) g w = (.ok a, w')) :
    ∃ tree, f w.tree w.workingDir = .ok (tree, a) ∧ w'.toMachine = { w.toMachine with tree } := by
  obtain ⟨r, -, hrefused, -⟩ | ⟨-, hdone⟩ := attempt_cases h
  · cases hrefused
  · exact Machine.change_eq_ok hdone

theorem update_eq_error {f : FileTree → Location → Except IoError FileTree} {e : IoError}
    (h : attempt o (Machine.update f) g w = (.error e, w')) : w'.toMachine = w.toMachine :=
  change_eq_error h

theorem update_eq_ok {f : FileTree → Location → Except IoError FileTree} {r : Unit}
    (h : attempt o (Machine.update f) g w = (.ok r, w')) :
    ∃ tree, f w.tree w.workingDir = .ok tree ∧ w'.toMachine = { w.toMachine with tree } := by
  obtain ⟨r, -, hrefused, -⟩ | ⟨-, hdone⟩ := attempt_cases h
  · cases hrefused
  · exact Machine.update_eq_ok hdone

end Guarded

/-! Looking on -/

/-- A computation that looks at the disk and leaves it as it is. What it reports may be new. -/
def Looks (x : Guarded α) : Prop :=
  ∀ g w, (x g w).2.workingDir = w.workingDir ∧ (x g w).2.tree = w.tree

theorem looks_pure (a : α) : Looks (pure a) := fun _ _ => ⟨rfl, rfl⟩

theorem Looks.bind {x : Guarded α} {f : α → Guarded β} (hx : Looks x) (hf : ∀ a, Looks (f a)) :
    Looks (x >>= f) := by
  intro g w
  obtain ⟨hdir, htree⟩ := hx g w
  obtain ⟨hdir', htree'⟩ := hf (x g w).1 g (x g w).2
  exact ⟨hdir'.trans hdir, htree'.trans htree⟩

theorem looks_log (e : Log.Event) : Looks (Host.log e : Guarded Unit) := fun _ _ => ⟨rfl, rfl⟩

theorem looks_logAll (events : List Log.Event) :
    Looks (events.forM Host.log : Guarded PUnit) := by
  induction events with
  | nil => exact looks_pure _
  | cons e events ih => exact (looks_log e).bind fun _ => ih

theorem looks_logAny (event? : Option Log.Event) :
    Looks (event?.forM Host.log : Guarded PUnit) := by
  cases event? with
  | none => exact looks_pure _
  | some event => exact looks_log event

theorem looks_ask {x : StateM Machine α} {refused : Refusal → StateM Machine α}
    (hx : ∀ w, (x w).2 = w) (hrefused : ∀ r w, (refused r w).2 = w) :
    Looks (Guarded.ask o x refused) := by
  intro g w
  cases hguard : g w.asked o with
  | none => simp [Guarded.ask_of_none hguard, hx]
  | some r => simp [Guarded.ask_of_some hguard, hrefused]

theorem looks_read (p : Path) : Looks (Host.read p : Guarded (Except IoError (List UInt8))) :=
  looks_ask (fun _ => rfl) fun _ _ => rfl

theorem looks_isDirectory (p : Path) : Looks (Host.isDirectory p : Guarded Bool) :=
  looks_ask (fun _ => rfl) fun _ _ => rfl

theorem looks_sync (p : Path) : Looks (Host.sync p : Guarded (Except IoError Unit)) :=
  looks_ask (fun _ => rfl) fun _ _ => rfl

/-! New directories -/

/-- A computation from which all files come out as they went in. Directories may be new. -/
def KeepsFiles (x : Guarded α) : Prop :=
  ∀ g w, (x g w).2.workingDir = w.workingDir ∧ w.tree.SameFiles (x g w).2.tree

theorem Looks.keepsFiles {x : Guarded α} (hx : Looks x) : KeepsFiles x := by
  intro g w
  obtain ⟨hdir, htree⟩ := hx g w
  refine ⟨hdir, ?_⟩
  rw [htree]
  exact .refl _

theorem KeepsFiles.bind {x : Guarded α} {f : α → Guarded β} (hx : KeepsFiles x)
    (hf : ∀ a, KeepsFiles (f a)) : KeepsFiles (x >>= f) := by
  intro g w
  obtain ⟨hdir, hfiles⟩ := hx g w
  obtain ⟨hdir', hfiles'⟩ := hf (x g w).1 g (x g w).2
  exact ⟨hdir'.trans hdir, hfiles.trans hfiles'⟩

theorem keepsFiles_createDir (p : Path) :
    KeepsFiles (Host.createDir p : Guarded (Except IoError Unit)) := by
  intro g w
  rcases hcreate : (Host.createDir p : Guarded (Except IoError Unit)) g w with ⟨result, w'⟩
  cases result with
  | error e =>
    have hkept := Guarded.update_eq_error hcreate
    simp [hkept, FileTree.SameFiles.refl]
  | ok _ =>
    obtain ⟨t, ht, hdone⟩ := Guarded.update_eq_ok hcreate
    simp [hdone, FileTree.sameFiles_createDir ht]

theorem keepsFiles_createDirOrFind (p : Path) :
    KeepsFiles (Host.createDirOrFind p : Guarded (Except IoError Unit)) := by
  refine (keepsFiles_createDir p).bind fun result => ?_
  cases result with
  | ok _ => exact (looks_pure _).keepsFiles
  | error e => exact ((looks_isDirectory p).bind fun _ => looks_pure _).keepsFiles

/-- Directories that were created stay, but they are all that is new. -/
theorem keepsFiles_createDirsWithin (depth : Nat) (p : Path) :
    KeepsFiles (Host.createDirsWithin depth p : Guarded (Except IoError Unit)) := by
  induction depth generalizing p with
  | zero => exact (looks_pure _).keepsFiles
  | succ depth ih =>
    rw [Host.createDirsWithin]
    split
    · exact (looks_pure _).keepsFiles
    refine (keepsFiles_createDir p).bind fun result => ?_
    split
    · exact (looks_pure _).keepsFiles
    · split
      · exact (looks_pure _).keepsFiles
      · refine (ih _).bind fun result => ?_
        cases result with
        | error e => exact (looks_pure _).keepsFiles
        | ok _ => exact keepsFiles_createDirOrFind p
    · exact ((looks_isDirectory p).bind fun _ => looks_pure _).keepsFiles

end Generation
