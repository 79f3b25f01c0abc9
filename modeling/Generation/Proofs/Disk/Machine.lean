import Generation.Disk.Host
import Generation.Proofs.Disk.Replacement

/-! What operations make of a machine: a change that fails changes nothing. -/
namespace Generation.Machine

variable {α β : Type} {w w' : Machine}

theorem bind_eq {x : StateM Machine α} {f : α → StateM Machine β} {b : β}
    (h : (x >>= f) w = (b, w')) : ∃ a u, x w = (a, u) ∧ f a u = (b, w') :=
  ⟨(x w).1, (x w).2, rfl, h⟩

/-- A change that succeeds changes the tree alone. -/
theorem change_eq_ok {f : FileTree → Location → Except IoError (FileTree × α)} {a : α}
    (h : change f w = (.ok a, w')) :
    ∃ tree, f w.tree w.workingDir = .ok (tree, a) ∧ w' = { w with tree } := by
  unfold change at h
  split at h
  · cases h
  · rename_i tree b hf
    obtain ⟨hb, rfl⟩ := Prod.mk.inj h
    obtain rfl := Except.ok.inj hb
    exact ⟨tree, hf, rfl⟩

/-- A change that fails changes nothing. -/
theorem change_eq_error {f : FileTree → Location → Except IoError (FileTree × α)} {e : IoError}
    (h : change f w = (.error e, w')) : f w.tree w.workingDir = .error e ∧ w' = w := by
  unfold change at h
  split at h
  · rename_i d hf
    obtain ⟨hd, rfl⟩ := Prod.mk.inj h
    obtain rfl := Except.error.inj hd
    exact ⟨hf, rfl⟩
  · cases h

theorem update_eq_ok {f : FileTree → Location → Except IoError FileTree} {r : Unit}
    (h : update f w = (.ok r, w')) :
    ∃ tree, f w.tree w.workingDir = .ok tree ∧ w' = { w with tree } := by
  obtain ⟨tree, hchange, rfl⟩ := change_eq_ok h
  obtain ⟨t, ht, he⟩ := map_eq_ok hchange
  obtain rfl := (Prod.mk.inj he).1
  exact ⟨t, ht, rfl⟩

theorem update_eq_error {f : FileTree → Location → Except IoError FileTree} {e : IoError}
    (h : update f w = (.error e, w')) :
    f w.tree w.workingDir = .error e ∧ w' = w := by
  obtain ⟨hchange, rfl⟩ := change_eq_error h
  exact ⟨map_eq_error hchange, rfl⟩

theorem update_of_ok {f : FileTree → Location → Except IoError FileTree} {tree : FileTree}
    (h : f w.tree w.workingDir = .ok tree) : update f w = (.ok (), { w with tree }) := by
  simp [update, change, h, Except.map]

theorem update_of_error {f : FileTree → Location → Except IoError FileTree} {e : IoError}
    (h : f w.tree w.workingDir = .error e) : update f w = (.error e, w) := by
  simp [update, change, h, Except.map]

/-- A new file is written, whatever is in it. -/
theorem exists_write {t : FileTree} {l : Location} {temporary : Path} {old : List UInt8}
    (hnew : FileTree.Adds w.workingDir temporary old l t w.tree) (contents : List UInt8) :
    ∃ tree, (Host.write temporary contents : StateM Machine (Except IoError Unit)) w =
        (.ok (), { w with tree }) ∧
      FileTree.Adds w.workingDir temporary contents l t tree := by
  obtain ⟨tree, hwrite, hadds⟩ := hnew.write contents
  exact ⟨tree, update_of_ok hwrite, hadds⟩

end Generation.Machine
