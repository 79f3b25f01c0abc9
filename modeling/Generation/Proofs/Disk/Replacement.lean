import Generation.Proofs.Decimal.Digits
import Generation.Proofs.Disk.Removal
import Mathlib.Data.List.Nodup
import Mathlib.Data.List.Perm.Subperm

/-!
A new file that is put in the place of another one. Under its fresh name it takes the place of
nothing; it can be written there, taken away again, or moved to a path, behind which there is
afterwards what was written.
-/
namespace Generation.FileTree

open Generation.Path (IsName)

variable {t u v : FileTree} {l base : Location} {contents : List UInt8}
  {dir path target temporary : Path}

theorem toList_temporary (n : Nat) :
    (s!".tmp{n}").toList = '.' :: 't' :: 'm' :: 'p' :: Nat.toDigits 10 n := by
  simp only [String.toList_append, Nat.toList_repr, toString]
  rfl

theorem isName_freshName (t : FileTree) (l : Location) : IsName (t.freshName l) := by
  obtain ⟨n, hn⟩ : ∃ n, (t.freshName l).toList = '.' :: 't' :: 'm' :: 'p' :: Nat.toDigits 10 n := by
    unfold freshName
    exact ⟨_, toList_temporary _⟩
  constructor
  · rw [hn]
    intro hslash
    have hdigit : '/' ∈ Nat.toDigits 10 n := by simpa using hslash
    exact absurd (Digits.isDigit_of_mem_toDigits hdigit) (by decide)
  · rw [hn]
    rfl
  · rw [hn]
    intro h
    cases h

theorem temporary_injective : Function.Injective fun n : Nat => s!".tmp{n}" := by
  intro m n h
  have hdigits : Nat.toDigits 10 m = Nat.toDigits 10 n := by
    have htext := congrArg String.toList h
    simpa only [toList_temporary, List.cons.injEq, true_and] using htext
  rw [← Nat.ofDigitChars_ten_toDigits (n := m), hdigits, Nat.ofDigitChars_ten_toDigits]

/-- Of more names than there are entries, one is free. -/
theorem exists_free (t : FileTree) (l : Location) :
    ∃ n ∈ List.range (t.entries.length + 1), ∀ e ∈ t.entries, e.1 ≠ l ++ [s!".tmp{n}"] := by
  by_contra hnone
  push Not at hnone
  let places := (List.range (t.entries.length + 1)).map fun n => l ++ [s!".tmp{n}"]
  have hnodup : places.Nodup := by
    refine List.nodup_range.map fun m n h => ?_
    exact temporary_injective (List.singleton_inj.mp (List.append_cancel_left h))
  have hsubset : places ⊆ t.entries.map Prod.fst := by
    intro p hp
    obtain ⟨n, hn, rfl⟩ := List.mem_map.mp hp
    obtain ⟨e, he, heq⟩ := hnone n hn
    exact List.mem_map.mpr ⟨e, he, heq⟩
  have hlength := (hnodup.subperm hsubset).length_le
  simp only [places, List.length_map, List.length_range] at hlength
  omega

/-- Nothing has the name of a new file. -/
theorem lookup_freshName (t : FileTree) (l : Location) :
    t.lookup (l ++ [t.freshName l]) = none := by
  obtain ⟨n, hn, hfree⟩ := t.exists_free l
  have hfound : ∀ e ∈ t.entries, e.1 ≠ l ++ [t.freshName l] := by
    have hsome : ((List.range (t.entries.length + 1)).find? fun n =>
        !(t.entries.any fun e => e.1 = l ++ [s!".tmp{n}"])).isSome := by
      rw [List.find?_isSome]
      exact ⟨n, hn, by simpa using hfree⟩
    obtain ⟨m, hm⟩ := Option.isSome_iff_exists.mp hsome
    have hname : t.freshName l = s!".tmp{m}" := by
      simp only [freshName, hm, Option.getD_some]
    rw [hname]
    simpa using List.find?_some hm
  obtain ⟨a, p, hp⟩ := List.exists_cons_of_ne_nil (List.append_ne_nil_of_right_ne_nil l
    (List.cons_ne_nil (t.freshName l) []))
  rw [hp] at hfound ⊢
  change t.entries.lookup (a :: p) = none
  rw [List.lookup_eq_none_iff]
  exact fun e he => bne_iff_ne.mpr fun h => hfound e he h.symm

/-- A new file lies in the directory under its fresh name, where its path leads. -/
theorem createTemporary_eq_ok (h : t.createTemporary base dir = .ok (u, temporary)) :
    ∃ l, temporary = dir.join ⟨t.freshName l⟩ ∧
      t.locate base temporary = .ok (l ++ [t.freshName l]) ∧
      u = t.put (l ++ [t.freshName l]) (.file []) := by
  rw [createTemporary] at h
  split at h
  · cases h
  · cases h
  rename_i l hentry
  dsimp only at h
  split at h
  · cases h
  rename_i m hm
  obtain ⟨rfl, rfl⟩ := Prod.mk.inj (Except.ok.inj h)
  obtain ⟨front, back, hdirectory, hvoid, hjoin⟩ := dir.segments_join
  have hfresh := t.isName_freshName l
  have horigin : origin base (dir.join ⟨t.freshName l⟩) = origin base dir.orHere := by
    rw [origin, hjoin _ hfresh, origin]
  -- the way to the directory and the way to the file part only at their last segments
  obtain ⟨hplace, -⟩ := entryAt_eq_ok.mp hentry
  obtain ⟨-, hwalk⟩ := locate_eq_ok.mp hplace
  change t.walk (origin base dir.orHere) dir.orHere.segments.2 = .ok l at hwalk
  rw [hdirectory, walk_append] at hwalk
  obtain ⟨d, hfront, hback⟩ := bind_eq_ok hwalk
  obtain rfl := eq_of_walk_void hvoid hback
  obtain ⟨-, hfile⟩ := locate_eq_ok.mp hm
  rw [horigin, hjoin _ hfresh] at hfile
  obtain ⟨d, hd, -, rfl⟩ := walk_join hfresh hfile
  obtain rfl : d = l := Except.ok.inj (hd.symm.trans hfront)
  exact ⟨d, rfl, hm, rfl⟩

theorem rename_eq_ok (h : u.rename base temporary path = .ok v) :
    ∃ l m e, u.locate base temporary = .ok l ∧ u.lookup l = some e ∧
      u.locate base path = .ok m ∧ u.lookup m ≠ some .directory ∧ v = (u.erase l).put m e := by
  rw [rename] at h
  split at h
  · cases h
  · cases h
  rename_i l e m hsource htarget
  obtain ⟨hsource, he⟩ := entryAt_eq_ok.mp hsource
  split at h
  · cases h
  · rename_i hfree
    exact ⟨l, m, e, hsource, he, htarget, hfree, (Except.ok.inj h).symm⟩

/-- In the later tree a path leads to a file where the earlier one has nothing, and that is all that
differs. -/
structure Adds (base : Location) (path : Path) (contents : List UInt8) (l : Location)
    (t u : FileTree) : Prop where
  place : t.locate base path = .ok l
  free : t.lookup l = none
  file : u.lookup l = some (.file contents)
  others : ∀ p, p ≠ l → u.lookup p = t.lookup p

/-- A file is created empty. -/
theorem adds_of_createTemporary (h : t.createTemporary base dir = .ok (u, temporary)) :
    ∃ l, Adds base temporary [] l t u := by
  obtain ⟨l, -, hplace, rfl⟩ := createTemporary_eq_ok h
  exact ⟨_, hplace, t.lookup_freshName l, lookup_put_self (by simp),
    fun p hp => lookup_put_of_ne hp⟩

namespace Adds

theorem ne_nil (h : Adds base path contents l t u) : l ≠ [] := by
  rintro rfl
  cases h.free

/-- The way to the new file was there before. -/
theorem entryAt (h : Adds base path contents l t u) :
    u.entryAt base path = .ok (l, .file contents) :=
  entryAt_eq_ok.mpr ⟨locate_of_others (by simp [h.free]) h.others h.place, h.file⟩

theorem write (h : Adds base path contents l t u) (new : List UInt8) :
    ∃ v, u.write base path new = .ok v ∧ Adds base path new l t v := by
  refine ⟨u.put l (.file new), ?_, h.place, h.free, lookup_put_self h.ne_nil, ?_⟩
  · simp [FileTree.write, h.entryAt]
  · intro p hp
    rw [lookup_put_of_ne hp, h.others p hp]

/-- Taking the new file away leaves what was there before. -/
theorem remove (h : Adds base path contents l t u) :
    ∃ v, u.remove base path = .ok v ∧ ∀ p, v.lookup p = t.lookup p := by
  refine ⟨u.erase l, ?_, ?_⟩
  · simp [FileTree.remove, h.entryAt]
  · intro p
    by_cases hp : p = l
    · subst hp
      rw [lookup_erase_self h.ne_nil, h.free]
    · rw [lookup_erase_of_ne hp, h.others p hp]

/-- Where the new file is moved it is the only thing that is new. -/
theorem rename (h : Adds base path contents l t u) (hrename : u.rename base path target = .ok v) :
    ∃ m, v.locate base target = .ok m ∧ v.lookup m = some (.file contents) ∧
      ∀ p, p ≠ m → v.lookup p = t.lookup p := by
  obtain ⟨l', m, e, hsource, he, htarget, hfree, rfl⟩ := rename_eq_ok hrename
  obtain ⟨hplace, hfile⟩ := entryAt_eq_ok.mp h.entryAt
  obtain rfl : l' = l := Except.ok.inj (hsource.symm.trans hplace)
  obtain rfl : e = .file contents := Option.some.inj (he.symm.trans hfile)
  have hne : m ≠ [] := by
    rintro rfl
    exact hfree rfl
  -- neither place holds a directory, so the way to the path is the same before and after
  have herased : (u.erase l').locate base target = .ok m :=
    locate_of_others (by simp [hfile]) (fun p hp => lookup_erase_of_ne hp) htarget
  have hgone : (u.erase l').lookup m ≠ some .directory := by
    by_cases hm : m = l'
    · simp [hm, lookup_erase_self h.ne_nil]
    · rwa [lookup_erase_of_ne hm]
  refine ⟨m, locate_of_others hgone (fun p hp => lookup_put_of_ne hp) herased,
    lookup_put_self hne, ?_⟩
  intro p hp
  rw [lookup_put_of_ne hp]
  by_cases hl : p = l'
  · rw [hl, lookup_erase_self h.ne_nil, h.free]
  · rw [lookup_erase_of_ne hl, h.others p hl]

/-- What is moved to a path is read behind it. -/
theorem read_of_rename (h : Adds base path contents l t u)
    (hrename : u.rename base path target = .ok v) : v.read base target = .ok contents := by
  obtain ⟨m, hplace, hfile, -⟩ := h.rename hrename
  simp [read, entryAt_eq_ok.mpr ⟨hplace, hfile⟩]

end Adds

end Generation.FileTree
