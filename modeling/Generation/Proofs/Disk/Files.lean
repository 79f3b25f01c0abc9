import Generation.Proofs.Disk.Replacement

/-!
Which files there are: what operations leave of them. A new file takes no other one's place, and
moving it to a path costs no file but the one behind that path.
-/
namespace Generation.FileTree

variable {t u v : FileTree} {l base : Location} {path target : Path} {contents : List UInt8}

/-- The contents of the file at a location. -/
def fileAt? (t : FileTree) (l : Location) : Option (List UInt8) :=
  match t.lookup l with
  | some (.file contents) => some contents
  | _ => none

/-- The files of the earlier tree are in the later one with the same contents, maybe beside others. -/
def Keeps (t u : FileTree) : Prop :=
  ∀ l contents, t.fileAt? l = some contents → u.fileAt? l = some contents

/-- There are the same files with the same contents in both trees. -/
def SameFiles (t u : FileTree) : Prop := ∀ l, u.fileAt? l = t.fileAt? l

/-- The files are the same but for the one that a path leads to in the later tree. -/
def SameFilesBut (base : Location) (path : Path) (t u : FileTree) : Prop :=
  ∀ l, u.locate base path ≠ .ok l → u.fileAt? l = t.fileAt? l

theorem fileAt?_congr (h : u.lookup l = t.lookup l) : u.fileAt? l = t.fileAt? l := by
  rw [fileAt?, fileAt?, h]

theorem fileAt?_of_none (h : t.lookup l = none) : t.fileAt? l = none := by
  rw [fileAt?, h]

theorem SameFiles.refl (t : FileTree) : t.SameFiles t := fun _ => rfl

theorem SameFiles.trans (htu : t.SameFiles u) (huv : u.SameFiles v) : t.SameFiles v :=
  fun l => (huv l).trans (htu l)

theorem SameFiles.keeps (h : t.SameFiles u) : t.Keeps u := by
  intro l contents hfile
  rw [h l, hfile]

theorem Keeps.trans (htu : t.Keeps u) (huv : u.Keeps v) : t.Keeps v :=
  fun l contents h => huv l contents (htu l contents h)

theorem SameFiles.but (h : t.SameFiles u) (base : Location) (path : Path) :
    SameFilesBut base path t u :=
  fun l _ => h l

theorem SameFiles.trans_but (htu : t.SameFiles u) (huv : SameFilesBut base path u v) :
    SameFilesBut base path t v :=
  fun l hl => (huv l hl).trans (htu l)

/-- A directory is only created where nothing is. -/
theorem sameFiles_createDir (h : t.createDir base path = .ok u) : t.SameFiles u := by
  unfold createDir at h
  split at h
  · cases h
  dsimp only at h
  split at h
  · cases h
  rename_i l hl
  split at h
  · cases h
  rename_i hfree
  obtain rfl := Except.ok.inj h
  have hnone : t.lookup l = none := by simpa using hfree
  have hne : l ≠ [] := by
    rintro rfl
    cases hnone
  intro p
  by_cases hp : p = l
  · subst hp
    rw [fileAt?_of_none hnone, fileAt?, lookup_put_self hne]
  · exact fileAt?_congr (lookup_put_of_ne hp)

/-- While a new file is there all others are too. -/
theorem Adds.keeps (h : Adds base path contents l t u) : t.Keeps u := by
  intro p old hold
  have hp : p ≠ l := by
    rintro rfl
    simp [fileAt?_of_none h.free] at hold
  rw [fileAt?_congr (h.others p hp), hold]

theorem Adds.sameFiles_of_remove (h : Adds base path contents l t u)
    (hremove : u.remove base path = .ok v) : t.SameFiles v := by
  obtain ⟨v', hv, hlookup⟩ := h.remove
  obtain rfl : v' = v := Except.ok.inj (hv.symm.trans hremove)
  exact fun p => fileAt?_congr (hlookup p)

/-- A new file that is moved to a path takes the place of no other file. -/
theorem Adds.sameFilesBut_of_rename (h : Adds base path contents l t u)
    (hrename : u.rename base path target = .ok v) : SameFilesBut base target t v := by
  obtain ⟨m, hplace, -, hothers⟩ := h.rename hrename
  intro p hp
  refine fileAt?_congr (hothers p ?_)
  rintro rfl
  exact hp hplace

theorem sameFilesBut_of_remove (h : t.remove base path = .ok u) : SameFilesBut base path t u := by
  obtain ⟨l, rfl, -, hplace⟩ := locate_of_remove h
  intro p hp
  refine fileAt?_congr (lookup_erase_of_ne ?_)
  rintro rfl
  exact hp hplace

end Generation.FileTree
