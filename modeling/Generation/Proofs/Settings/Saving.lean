import Generation.Proofs.Disk.Machine
import Generation.Settings.Store

/-! What a settings file holds after settings were saved. -/
namespace Generation

variable {s : Store} {settings : Settings} {w w' : Machine}
  {contents : List UInt8}

namespace Store

theorem isName_fileName : Path.IsName Settings.fileName := by
  constructor <;> decide

/-- A new file that is filled is read behind the path of the settings file. -/
theorem read_of_fill {t : FileTree} {temporary : Path} {l : Location}
    (hnew : FileTree.Adds w.workingDir temporary [] l t w.tree)
    (h : (s.fill temporary contents : StateM Machine (Except IoError Unit)) w = (.ok (), w')) :
    w'.tree.read w'.workingDir s.path = .ok contents := by
  unfold fill at h
  obtain ⟨written, u, hwrite, h⟩ := Machine.bind_eq h
  obtain ⟨tree, hdone, hadds⟩ := Machine.exists_write hnew contents
  obtain ⟨rfl, rfl⟩ := Prod.mk.inj (hdone.symm.trans hwrite)
  obtain ⟨_, v, hsync, h⟩ := Machine.bind_eq h
  obtain ⟨rfl, rfl⟩ := Prod.mk.inj hsync
  obtain ⟨t', hmove, rfl⟩ := Machine.update_eq_ok h
  exact hadds.read_of_rename hmove

/-- Once the new file is in the place of the old one, its contents are read. -/
theorem read_of_replace
    (h : (s.replace contents : StateM Machine (Except IoError Unit)) w = (.ok (), w')) :
    w'.tree.read w'.workingDir s.path = .ok contents := by
  unfold replace at h
  obtain ⟨created, u, hcreate, h⟩ := Machine.bind_eq h
  cases created with
  | error e => cases h
  | ok temporary =>
    obtain ⟨filled, v, hfill, h⟩ := Machine.bind_eq h
    cases filled with
    | error e =>
      obtain ⟨removed, x, -, h⟩ := Machine.bind_eq h
      cases h
    | ok _ =>
      obtain ⟨-, rfl⟩ := Prod.mk.inj h
      obtain ⟨t, hcreated, rfl⟩ := Machine.change_eq_ok hcreate
      obtain ⟨l, hnew⟩ := FileTree.adds_of_createTemporary hcreated
      exact read_of_fill hnew hfill

theorem read_of_save
    (h : (s.save settings : StateM Machine (Except StoreError Unit)) w = (.ok (), w')) :
    w'.tree.read w'.workingDir s.path = .ok (Text.bytes settings.fileText) := by
  unfold save at h
  obtain ⟨created, u, -, h⟩ := Machine.bind_eq h
  cases created with
  | error e => cases h
  | ok _ =>
    obtain ⟨replaced, v, hreplace, h⟩ := Machine.bind_eq h
    cases replaced with
    | error e => cases h
    | ok _ =>
      obtain ⟨_, x, hlog, h⟩ := Machine.bind_eq h
      obtain ⟨-, rfl⟩ := Prod.mk.inj h
      obtain ⟨-, rfl⟩ := Prod.mk.inj hlog
      have hread := read_of_replace hreplace
      exact hread

end Store

/-! Machines with nothing but settings -/

/-- A machine with one file in the directory that one is in. -/
def Machine.withFile (name : String) (contents : List UInt8) : Machine :=
  ⟨⟨[([name], .file contents)]⟩, [], []⟩

namespace FileTree

variable {t : FileTree} {l : Location} {e : Entry}

/-- There is nothing but a settings file, and maybe not even that. -/
def OnlySettings (t : FileTree) : Prop :=
  ∀ x ∈ t.entries, ∃ contents, x = ([Settings.fileName], .file contents)

theorem onlySettings_nil : OnlySettings ⟨[]⟩ := by
  intro x hx
  cases hx

theorem OnlySettings.erase (h : t.OnlySettings) (l : Location) : (t.erase l).OnlySettings :=
  fun x hx => h x (List.mem_filter.mp hx).1

theorem OnlySettings.put (h : t.OnlySettings) (contents : List UInt8) :
    (t.put [Settings.fileName] (.file contents)).OnlySettings := by
  intro x hx
  rcases List.mem_cons.mp hx with rfl | hx
  · exact ⟨contents, rfl⟩
  · exact h.erase _ x hx

/-- What is put beside the settings and taken away again leaves nothing. -/
theorem OnlySettings.erase_put (h : t.OnlySettings) (l : Location) (e : Entry) :
    ((t.put l e).erase l).OnlySettings := by
  intro x hx
  obtain ⟨hx, hne⟩ := List.mem_filter.mp hx
  rcases List.mem_cons.mp hx with rfl | hx
  · exact absurd rfl (of_decide_eq_true hne)
  · exact h.erase l x hx

theorem OnlySettings.lookup_ne_directory (h : t.OnlySettings) (hl : l ≠ []) :
    t.lookup l ≠ some .directory := by
  obtain ⟨a, l, rfl⟩ := List.exists_cons_of_ne_nil hl
  intro hlookup
  change t.entries.lookup (a :: l) = some .directory at hlookup
  obtain ⟨before, after, hentries, -⟩ := List.lookup_eq_some_iff.mp hlookup
  obtain ⟨contents, hfile⟩ := h (a :: l, .directory) (by rw [hentries]; simp)
  cases hfile

theorem OnlySettings.freshName_eq (h : t.OnlySettings) : t.freshName [] = ".tmp0" := by
  have hfree : (t.entries.any fun x => x.1 = [] ++ [s!".tmp{0}"]) = false := by
    rw [List.any_eq_false]
    intro x hx
    obtain ⟨contents, rfl⟩ := h x hx
    have hne : [Settings.fileName] ≠ [".tmp0"] := by decide
    exact decide_eq_true_iff.not.mpr hne
  rw [freshName, List.range_succ_eq_map, List.find?_cons_of_pos (by rw [hfree]; rfl)]
  rfl

theorem isName_temporary : Path.IsName ".tmp0" := by
  constructor <;> decide

theorem OnlySettings.createTemporary_eq (h : t.OnlySettings) :
    t.createTemporary [] ⟨""⟩ = .ok (t.put [".tmp0"] (.file []), ⟨".tmp0"⟩) := by
  have hcheck : checkPath ⟨"."⟩ = .ok () := checkPath_eq_ok (by decide) (by decide) (by decide)
  have hentry : t.entryAt [] ⟨"."⟩ = .ok ([], .directory) := by
    refine entryAt_eq_ok.mpr ⟨locate_eq_ok.mpr ⟨hcheck, ?_⟩, rfl⟩
    have hsegments : Path.segments ⟨"."⟩ = (false, [['.']]) := by decide +kernel
    rw [hsegments]
    rfl
  have hjoin : Path.join ⟨""⟩ ⟨".tmp0"⟩ = ⟨".tmp0"⟩ := by decide +kernel
  have hplace : t.locate [] ⟨".tmp0"⟩ = .ok [".tmp0"] :=
    locate_name isName_temporary (by decide) (by decide) rfl
  rw [createTemporary, if_pos rfl, hentry]
  dsimp only
  rw [h.freshName_eq, hjoin, hplace]

theorem locate_fileName (t : FileTree) :
    t.locate [] ⟨Settings.fileName⟩ = .ok [Settings.fileName] :=
  locate_name Store.isName_fileName (by decide) (by decide) rfl

theorem entryAt_temporary (t : FileTree) (contents : List UInt8) :
    (t.put [".tmp0"] (.file contents)).entryAt [] ⟨".tmp0"⟩ =
      .ok ([".tmp0"], .file contents) :=
  entryAt_eq_ok.mpr ⟨locate_name isName_temporary (by decide) (by decide) rfl,
    lookup_put_self (by simp)⟩

theorem write_temporary (t : FileTree) (contents : List UInt8) :
    (t.put [".tmp0"] (.file [])).write [] ⟨".tmp0"⟩ contents =
      .ok (t.put [".tmp0"] (.file contents)) := by
  rw [write, entryAt_temporary]
  dsimp only
  rw [put_put]

theorem OnlySettings.rename_eq (h : t.OnlySettings) (contents : List UInt8) :
    ∃ u, (t.put [".tmp0"] (.file contents)).rename [] ⟨".tmp0"⟩ ⟨Settings.fileName⟩ = .ok u ∧
      u.OnlySettings := by
  refine ⟨((t.put [".tmp0"] (.file contents)).erase [".tmp0"]).put [Settings.fileName]
    (.file contents), ?_, (h.erase_put _ _).put contents⟩
  have hfree : (t.put [".tmp0"] (.file contents)).lookup [Settings.fileName] ≠
      some .directory := by
    rw [lookup_put_of_ne (by decide)]
    exact h.lookup_ne_directory (by simp)
  rw [rename, entryAt_temporary, locate_fileName]
  dsimp only
  split
  · contradiction
  · rfl

theorem OnlySettings.remove_eq (h : t.OnlySettings) :
    (∃ u, t.remove [] ⟨Settings.fileName⟩ = .ok u ∧ u.OnlySettings) ∨
      t.remove [] ⟨Settings.fileName⟩ = .error .notFound := by
  rw [remove, entryAt, locate_fileName]
  dsimp only
  cases hlookup : t.lookup [Settings.fileName] with
  | none => exact Or.inr rfl
  | some e =>
    cases e with
    | file contents => exact Or.inl ⟨_, rfl, h.erase _⟩
    | directory => exact absurd hlookup (h.lookup_ne_directory (by simp))

end FileTree

/-- A machine where one is in the root, with nothing but settings. -/
structure Machine.OnlySettings (w : Machine) : Prop where
  workingDir : w.workingDir = []
  tree : w.tree.OnlySettings

theorem Machine.onlySettings_blank : Machine.OnlySettings ⟨⟨[]⟩, [], []⟩ :=
  ⟨rfl, FileTree.onlySettings_nil⟩

namespace Store

/-- The store in the directory that one is in. -/
def here (home : Path) : Store := ⟨home, ⟨""⟩⟩

theorem path_here (home : Path) : (here home).path = ⟨Settings.fileName⟩ := by
  have hjoin : Path.join ⟨""⟩ ⟨Settings.fileName⟩ = ⟨Settings.fileName⟩ := by decide +kernel
  exact hjoin

theorem read_withFile (home : Path) (contents : List UInt8) :
    let w := Machine.withFile Settings.fileName contents
    w.tree.read w.workingDir (here home).path = .ok contents := by
  intro w
  have hentry : w.tree.entryAt w.workingDir ⟨Settings.fileName⟩ =
      .ok ([Settings.fileName], .file contents) :=
    FileTree.entryAt_eq_ok.mpr ⟨FileTree.locate_fileName _, rfl⟩
  rw [path_here, FileTree.read, hentry]

theorem exists_replace (hw : w.OnlySettings) (home : Path) (contents : List UInt8) : ∃ w',
    ((here home).replace contents : StateM Machine (Except IoError Unit)) w = (.ok (), w') ∧
      w'.OnlySettings := by
  obtain ⟨t, base, events⟩ := w
  obtain ⟨rfl, ht⟩ := hw
  change t.OnlySettings at ht
  obtain ⟨u, hu, honly⟩ := ht.rename_eq contents
  have hcreate : (Host.createTemporary ⟨""⟩ : StateM Machine (Except IoError Path))
      ⟨t, [], events⟩ = (.ok ⟨".tmp0"⟩, ⟨t.put [".tmp0"] (.file []), [], events⟩) := by
    change Machine.change _ _ = _
    rw [Machine.change, ht.createTemporary_eq]
  have hwrite : (Host.write ⟨".tmp0"⟩ contents : StateM Machine (Except IoError Unit))
      ⟨t.put [".tmp0"] (.file []), [], events⟩ =
        (.ok (), ⟨t.put [".tmp0"] (.file contents), [], events⟩) :=
    Machine.update_of_ok (FileTree.write_temporary t contents)
  have hrename : (Host.rename ⟨".tmp0"⟩ ⟨Settings.fileName⟩ : StateM Machine (Except IoError Unit))
      ⟨t.put [".tmp0"] (.file contents), [], events⟩ = (.ok (), ⟨u, [], events⟩) :=
    Machine.update_of_ok hu
  refine ⟨⟨u, [], events⟩, ?_, rfl, honly⟩
  have hfill : ((here home).fill ⟨".tmp0"⟩ contents : StateM Machine (Except IoError Unit))
      ⟨t.put [".tmp0"] (.file []), [], events⟩ = (.ok (), ⟨u, [], events⟩) := by
    simp only [fill, path_here, bind, StateT.bind, hwrite]
    exact hrename
  simp only [replace, here, bind, StateT.bind, hcreate]
  rw [← here]
  simp only [hfill]
  rfl

theorem exists_save (hw : w.OnlySettings) (home : Path) (settings : Settings) : ∃ w',
    ((here home).save settings : StateM Machine (Except StoreError Unit)) w = (.ok (), w') ∧
      w'.OnlySettings := by
  obtain ⟨u, hreplace, hu⟩ := exists_replace hw home (Text.bytes settings.fileText)
  have hdirs : (Host.createDirs ⟨""⟩ : StateM Machine (Except IoError Unit)) w = (.ok (), w) := rfl
  refine ⟨{ u with events := u.events ++ [.settingsSaved (here home).shownPath] }, ?_, hu.1, hu.2⟩
  simp only [save, here, bind, StateT.bind, hdirs]
  rw [← here]
  simp only [hreplace]
  rfl

theorem exists_reset (hw : w.OnlySettings) (home : Path) : ∃ w',
    ((here home).reset : StateM Machine (Except StoreError Unit)) w = (.ok (), w') ∧
      w'.OnlySettings := by
  obtain ⟨t, base, events⟩ := w
  obtain ⟨rfl, ht⟩ := hw
  change t.OnlySettings at ht
  rcases ht.remove_eq with ⟨u, hu, honly⟩ | hmissing
  · have hremove : (Host.remove ⟨Settings.fileName⟩ : StateM Machine (Except IoError Unit))
        ⟨t, [], events⟩ = (.ok (), ⟨u, [], events⟩) := Machine.update_of_ok hu
    refine ⟨⟨u, [], events ++ [.settingsRemoved (here home).shownPath]⟩, ?_, rfl, honly⟩
    rw [reset, path_here]
    simp only [bind, StateT.bind, hremove]
    rfl
  · have hremove : (Host.remove ⟨Settings.fileName⟩ : StateM Machine (Except IoError Unit))
        ⟨t, [], events⟩ = (.error .notFound, ⟨t, [], events⟩) :=
      Machine.update_of_error hmissing
    refine ⟨⟨t, [], events⟩, ?_, rfl, ht⟩
    rw [reset, path_here]
    simp only [bind, StateT.bind, hremove]
    rfl

/-- In an empty directory everything can be saved. -/
theorem exists_save_blank (home : Path) (settings : Settings) : ∃ w,
    ((Store.mk home ⟨""⟩).save settings : StateM Machine (Except StoreError Unit)) ⟨⟨[]⟩, [], []⟩ =
      (.ok (), w) := by
  obtain ⟨w, hsave, -⟩ := exists_save Machine.onlySettings_blank home settings
  exact ⟨w, hsave⟩

end Store

end Generation
