import Generation.Proofs.Disk.Places

/-! A file that is removed is found no more: behind its path there is nothing. -/
namespace Generation.FileTree

variable {t u : FileTree} {l base : Location} {path : Path}

theorem remove_eq_ok (h : t.remove base path = .ok u) :
    ∃ l contents, t.entryAt base path = .ok (l, .file contents) ∧ u = t.erase l := by
  unfold remove at h
  split at h
  · cases h
  · cases h
  · rename_i l contents hentry
    exact ⟨l, contents, hentry, (Except.ok.inj h).symm⟩

/-- The way to a file does not lead through the file, so it is still there after the removal. -/
theorem locate_of_remove (h : t.remove base path = .ok u) :
    ∃ l, u = t.erase l ∧ l ≠ [] ∧ u.locate base path = .ok l := by
  obtain ⟨l, contents, hentry, rfl⟩ := remove_eq_ok h
  obtain ⟨hlocate, hfile⟩ := entryAt_eq_ok.mp hentry
  have hne : l ≠ [] := by
    rintro rfl
    cases hfile
  have hplace : (t.erase l).locate base path = .ok l :=
    locate_of_others (by simp [hfile]) (fun p hp => lookup_erase_of_ne hp) hlocate
  exact ⟨l, rfl, hne, hplace⟩

theorem read_of_remove (h : t.remove base path = .ok u) : u.read base path = .error .notFound := by
  obtain ⟨l, rfl, hne, hplace⟩ := locate_of_remove h
  rw [read, entryAt, hplace]
  simp only [lookup_erase_self hne]

/-- What cannot be found to be removed cannot be found to be read. -/
theorem read_of_remove_notFound (h : t.remove base path = .error .notFound) :
    t.read base path = .error .notFound := by
  unfold remove at h
  unfold read
  split at h
  · exact congrArg Except.error (Except.error.inj h)
  · cases h
  · cases h

end Generation.FileTree
