import Generation.Proofs.Disk.Guarded
import Generation.Settings.Store

/-!
Loading and storing settings spares the files, whatever is refused on the way: none is lost, changed
or left behind but the settings file itself, and that one only changes if all goes well. What may be
left behind is a new file that cannot be removed again.
-/
namespace Generation

variable {α β ε : Type} {s : Store} {g : Guard} {w w' : Attended} {t u v : FileTree}
  {l base : Location} {dir temporary : Path} {contents : List UInt8}

/-- What a failure leaves of the files: all that there were, and no other ones if new files can be
removed again. -/
structure Unharmed (g : Guard) (dir : Path) (t u : FileTree) : Prop where
  keeps : t.Keeps u
  same : g.Releases dir → t.SameFiles u

theorem FileTree.SameFiles.unharmed (h : t.SameFiles u) (g : Guard) (dir : Path) :
    Unharmed g dir t u :=
  ⟨h.keeps, fun _ => h⟩

theorem FileTree.SameFiles.trans_unharmed (htu : t.SameFiles u) (huv : Unharmed g dir u v) :
    Unharmed g dir t v :=
  ⟨htu.keeps.trans huv.keeps, fun hreleases => htu.trans (huv.same hreleases)⟩

/-- What becomes of the files in a computation that may fail: a failure does no harm, and a success
leaves nothing but a new file at the path of the store, or none there. -/
structure Spared (s : Store) (g : Guard) (w : Attended) (result : Except ε α) (w' : Attended) :
    Prop where
  workingDir : w'.workingDir = w.workingDir
  failed : ∀ e, result = .error e → Unharmed g s.dir w.tree w'.tree
  done : ∀ a, result = .ok a → FileTree.SameFilesBut w.workingDir s.path w.tree w'.tree

/-- A computation that spares the files, whatever they are and whatever is refused. -/
def Spares (s : Store) (x : Guarded (Except ε α)) : Prop :=
  ∀ g w, Spared s g w (x g w).1 (x g w).2

theorem spared_of_sameFiles {result : Except ε α} (hdir : w'.workingDir = w.workingDir)
    (hfiles : w.tree.SameFiles w'.tree) : Spared s g w result w' :=
  ⟨hdir, fun _ _ => hfiles.unharmed _ _, fun _ _ => hfiles.but _ _⟩

theorem spared_of_eq {result : Except ε α} (h : w'.toMachine = w.toMachine) :
    Spared s g w result w' := by
  refine spared_of_sameFiles ?_ ?_
  · rw [h]
  · rw [h]
    exact .refl _

theorem KeepsFiles.spares {x : Guarded (Except ε α)} (hx : KeepsFiles x) (s : Store) :
    Spares s x := by
  intro g w
  obtain ⟨hdir, hfiles⟩ := hx g w
  exact spared_of_sameFiles hdir hfiles

theorem spares_pure (s : Store) (result : Except ε α) : Spares s (pure result) :=
  (looks_pure result).keepsFiles.spares s

/-- What leaves the files alone may come first. -/
theorem KeepsFiles.bind_spares {x : Guarded β} {f : β → Guarded (Except ε α)} (hx : KeepsFiles x)
    (hf : ∀ b, Spares s (f b)) : Spares s (x >>= f) := by
  intro g w
  obtain ⟨hdir, hfiles⟩ := hx g w
  obtain ⟨hdir', hfailed, hdone⟩ := hf (x g w).1 g (x g w).2
  rw [hdir] at hdone
  exact ⟨hdir'.trans hdir, fun e he => hfiles.trans_unharmed (hfailed e he),
    fun a ha => hfiles.trans_but (hdone a ha)⟩

/-- What comes after must only look on, and must fail exactly when the first part did. -/
theorem Spares.bind {ε' : Type} {x : Guarded (Except ε' β)} {f : Except ε' β → Guarded (Except ε α)}
    (hx : Spares s x) (hlooks : ∀ result, Looks (f result))
    (hfails : ∀ result g w, (f result g w).1.isOk = result.isOk) : Spares s (x >>= f) := by
  intro g w
  obtain ⟨hdir, hfailed, hdone⟩ := hx g w
  obtain ⟨hdir', htree⟩ := hlooks (x g w).1 g (x g w).2
  have hisOk := hfails (x g w).1 g (x g w).2
  change Spared s g w (f (x g w).1 g (x g w).2).1 (f (x g w).1 g (x g w).2).2
  refine ⟨hdir'.trans hdir, ?_, ?_⟩
  · intro e he
    rw [he] at hisOk
    obtain ⟨e', hfirst⟩ := exists_of_isOk_eq_false hisOk.symm
    rw [htree]
    exact hfailed e' hfirst
  · intro a ha
    rw [ha] at hisOk
    obtain ⟨b, hfirst⟩ := exists_of_isOk hisOk.symm
    rw [htree]
    exact hdone b hfirst

/-! A new file -/

/-- A new file that is written stays the only thing that is new, however much of it was written. -/
theorem adds_of_write {old : List UInt8} {result : Except IoError Unit}
    (hnew : FileTree.Adds w.workingDir temporary old l t w.tree)
    (h : (Host.write temporary contents : Guarded (Except IoError Unit)) g w = (result, w')) :
    w'.workingDir = w.workingDir ∧
      ∃ new, FileTree.Adds w.workingDir temporary new l t w'.tree := by
  cases hguard : g w.asked (.write temporary) with
  | none =>
    obtain ⟨tree, hdone, hadds⟩ := Machine.exists_write hnew contents
    obtain ⟨-, rfl⟩ := Prod.mk.inj ((Guarded.ask_of_none hguard).symm.trans h)
    rw [hdone]
    exact ⟨rfl, contents, hadds⟩
  | some r =>
    obtain ⟨tree, hdone, hadds⟩ := Machine.exists_write hnew (contents.take r.written)
    have hcut : Guarded.cutShort temporary contents r w.toMachine =
        (.error r.cause, { w.toMachine with tree }) := by
      simp only [Guarded.cutShort, bind, StateT.bind, hdone]
      rfl
    obtain ⟨-, rfl⟩ := Prod.mk.inj ((Guarded.ask_of_some hguard).symm.trans h)
    rw [hcut]
    exact ⟨rfl, _, hadds⟩

/-- A new file is removed again unless that is refused, and then it is all that is new. -/
theorem unharmed_of_remove {result : Except IoError Unit}
    (hcreate : u.createTemporary base dir = .ok (v, temporary))
    (hnew : FileTree.Adds w.workingDir temporary contents l t w.tree)
    (h : (Host.remove temporary : Guarded (Except IoError Unit)) g w = (result, w')) :
    w'.workingDir = w.workingDir ∧ Unharmed g dir t w'.tree := by
  obtain ⟨r, hrefused, -, hkept⟩ | ⟨-, hdone⟩ := Guarded.attempt_cases h
  · rw [hkept]
    refine ⟨rfl, hnew.keeps, fun hreleases => ?_⟩
    rw [hreleases u v base temporary hcreate] at hrefused
    cases hrefused
  · obtain ⟨tree, hremove, -⟩ := hnew.remove
    obtain ⟨-, hmachine⟩ := Prod.mk.inj ((Machine.update_of_ok hremove).symm.trans hdone)
    rw [← hmachine]
    exact ⟨rfl, (hnew.sameFiles_of_remove hremove).unharmed _ _⟩

namespace Store

/-- A new file that is not moved is still the only thing that is new. -/
theorem fill_cases {result : Except IoError Unit}
    (hnew : FileTree.Adds w.workingDir temporary [] l t w.tree)
    (h : (s.fill temporary contents : Guarded (Except IoError Unit)) g w = (result, w')) :
    w'.workingDir = w.workingDir ∧
      ((∃ e new, result = .error e ∧ FileTree.Adds w.workingDir temporary new l t w'.tree) ∨
        (result = .ok () ∧ FileTree.SameFilesBut w.workingDir s.path t w'.tree)) := by
  unfold fill at h
  obtain ⟨written, w₁, hwrite, h⟩ := Guarded.bind_eq h
  obtain ⟨hdir₁, new, hwritten⟩ := adds_of_write hnew hwrite
  cases written with
  | error e =>
    obtain ⟨rfl, rfl⟩ := Prod.mk.inj h
    exact ⟨hdir₁, Or.inl ⟨e, new, rfl, hwritten⟩⟩
  | ok _ =>
    obtain ⟨synced, w₂, hsync, h⟩ := Guarded.bind_eq h
    obtain ⟨hdir₂, htree₂⟩ := looks_sync temporary g w₁
    rw [hsync] at hdir₂ htree₂
    replace hdir₂ : w₂.workingDir = w.workingDir := hdir₂.trans hdir₁
    replace hwritten : FileTree.Adds w.workingDir temporary new l t w₂.tree := htree₂ ▸ hwritten
    cases synced with
    | error e =>
      obtain ⟨rfl, rfl⟩ := Prod.mk.inj h
      exact ⟨hdir₂, Or.inl ⟨e, new, rfl, hwritten⟩⟩
    | ok _ =>
      cases result with
      | error e =>
        rw [Guarded.update_eq_error h]
        exact ⟨hdir₂, Or.inl ⟨e, new, rfl, hwritten⟩⟩
      | ok _ =>
        obtain ⟨tree, hmove, hdone⟩ := Guarded.update_eq_ok h
        rw [hdir₂] at hmove
        rw [hdone]
        exact ⟨hdir₂, Or.inr ⟨rfl, hwritten.sameFilesBut_of_rename hmove⟩⟩

/-- Where the new file cannot be filled or moved it goes away, if it can. -/
theorem spares_replace (s : Store) (contents : List UInt8) :
    Spares s (s.replace contents : Guarded (Except IoError Unit)) := by
  intro g w
  rcases hreplace : (s.replace contents : Guarded (Except IoError Unit)) g w with ⟨result, w'⟩
  unfold replace at hreplace
  obtain ⟨created, w₁, hcreate, h⟩ := Guarded.bind_eq hreplace
  cases created with
  | error e =>
    obtain ⟨rfl, rfl⟩ := Prod.mk.inj h
    exact spared_of_eq (Guarded.change_eq_error hcreate)
  | ok temporary =>
    obtain ⟨tree, hcreated, hmachine⟩ := Guarded.change_eq_ok hcreate
    obtain ⟨l, hnew⟩ := FileTree.adds_of_createTemporary hcreated
    have hdir₁ : w₁.workingDir = w.workingDir := by rw [hmachine]
    have hnew₁ : FileTree.Adds w₁.workingDir temporary [] l w.tree w₁.tree := by
      rw [hmachine]
      exact hnew
    obtain ⟨filled, w₂, hfill, h⟩ := Guarded.bind_eq h
    obtain ⟨hdir₂, ⟨e', new, he, hleft⟩ | ⟨rfl, hdone⟩⟩ := fill_cases hnew₁ hfill
    · subst he
      obtain ⟨removed, w₃, hremove, h⟩ := Guarded.bind_eq h
      obtain ⟨rfl, rfl⟩ := Prod.mk.inj h
      rw [← hdir₂] at hleft
      obtain ⟨hdir₃, hunharmed⟩ := unharmed_of_remove hcreated hleft hremove
      exact ⟨hdir₃.trans (hdir₂.trans hdir₁), fun _ _ => hunharmed, by simp⟩
    · obtain ⟨rfl, rfl⟩ := Prod.mk.inj h
      rw [hdir₁] at hdone
      exact ⟨hdir₂.trans hdir₁, by simp, fun _ _ => hdone⟩

theorem spares_save (s : Store) (settings : Settings) :
    Spares s (s.save settings : Guarded (Except StoreError Unit)) := by
  refine (keepsFiles_createDirsWithin _ _).bind_spares fun created => ?_
  cases created with
  | error e => exact spares_pure _ _
  | ok _ =>
    refine (s.spares_replace _).bind (fun replaced => ?_) fun replaced g w => ?_
    · cases replaced with
      | error e => exact looks_pure _
      | ok _ => exact (looks_log _).bind fun _ => looks_pure _
    · cases replaced <;> rfl

/-- A settings file that cannot be removed stays, and no other one goes. -/
theorem spares_reset (s : Store) : Spares s (s.reset : Guarded (Except StoreError Unit)) := by
  intro g w
  rcases hreset : (s.reset : Guarded (Except StoreError Unit)) g w with ⟨result, w'⟩
  unfold reset at hreset
  obtain ⟨removed, w₁, hremove, h⟩ := Guarded.bind_eq hreset
  cases removed with
  | ok _ =>
    obtain ⟨rfl, rfl⟩ := Prod.mk.inj h
    obtain ⟨tree, ht, hmachine⟩ := Guarded.update_eq_ok hremove
    have hdone := FileTree.sameFilesBut_of_remove ht
    refine ⟨by simp [hmachine], by simp, fun _ _ => ?_⟩
    simpa [hmachine] using hdone
  | error e =>
    obtain rfl : w₁ = w' := by cases e <;> exact (Prod.mk.inj h).2
    exact spared_of_eq (Guarded.update_eq_error hremove)

theorem looks_load (s : Store) : Looks (s.load : Guarded Settings) := by
  refine (looks_read _).bind fun contents => ?_
  cases contents with
  | ok contents => exact (looks_logAll _).bind fun _ => looks_pure _
  | error e =>
    cases e with
    | notFound => exact looks_pure _
    | _ => exact (looks_log _).bind fun _ => looks_pure _

end Store

end Generation
