import Generation.Disk.FileTree
import Generation.Proofs.Except

/-!
Where paths lead: a path is followed segment by segment, so a name joined to a directory leads to a
place in that directory, and what becomes of files does not move any directory.
-/
namespace Generation

namespace Path

variable {dir : Path} {name : String}

/-- A name that leads from a directory to something in it. -/
structure IsName (name : String) : Prop where
  slash : '/' ∉ name.toList
  notVoid : isVoid name.toList = false
  notParent : name.toList ≠ ['.', '.']

/-- The segments of a text, and whether it starts with a slash. -/
def split : List Char → Bool × List (List Char)
  | '/' :: cs => (true, cs.splitOn '/')
  | cs => (false, cs.splitOn '/')

theorem segments_eq (p : Path) : p.segments = split p.text.toList := by
  rfl

theorem split_slash (cs : List Char) : split ('/' :: cs) = (true, cs.splitOn '/') := rfl

theorem split_of_head?_ne {cs : List Char} (h : cs.head? ≠ some '/') :
    split cs = (false, cs.splitOn '/') := by
  cases cs with
  | nil => rfl
  | cons c cs =>
    rw [split]
    rintro _ ⟨⟩
    exact h rfl

/-- Behind a slash new segments start. -/
theorem split_append {cs : List Char} (h : cs ≠ []) (ds : List Char) :
    split (cs ++ '/' :: ds) = ((split cs).1, (split cs).2 ++ ds.splitOn '/') := by
  obtain ⟨c, cs, rfl⟩ := List.exists_cons_of_ne_nil h
  by_cases hc : c = '/'
  · subst hc
    rw [List.cons_append, split_slash, split_slash, List.splitOn_append_cons_self]
  · have hfront : (c :: cs).head? ≠ some '/' := by simpa using hc
    have hwhole : (c :: cs ++ '/' :: ds).head? ≠ some '/' := by simpa using hc
    rw [split_of_head?_ne hfront, split_of_head?_ne hwhole, List.splitOn_append_cons_self]

theorem IsName.ne_nil (h : IsName name) : name.toList ≠ [] := by
  intro hnil
  have hvoid := h.notVoid
  simp [isVoid, hnil] at hvoid

theorem IsName.splitOn_eq (h : IsName name) : name.toList.splitOn '/' = [name.toList] :=
  List.splitOn_eq_singleton h.slash

theorem IsName.split_eq (h : IsName name) : split name.toList = (false, [name.toList]) := by
  rw [split_of_head?_ne, h.splitOn_eq]
  intro hhead
  exact h.slash (List.mem_of_mem_head? hhead)

theorem IsName.not_isAbsolute (h : IsName name) : ¬ isAbsolute ⟨name⟩ = true := by
  rw [isAbsolute, segments_eq, h.split_eq]
  exact Bool.false_ne_true

/-- What is joined to a directory comes behind a slash, the last one of the directory or a new
one. -/
theorem exists_join (hdir : dir.text ≠ "") : ∃ cs,
    (dir.text.toList = cs ∨ dir.text.toList = cs ++ ['/']) ∧
      ∀ p : Path, ¬ p.isAbsolute = true →
        (dir.join p).text.toList = cs ++ '/' :: p.text.toList := by
  by_cases hslash : dir.text.endsWith "/"
  · obtain ⟨cs, hcs⟩ : "/".toList <:+ dir.text.toList := by
      rwa [String.endsWith_eq_endsWith_toSlice, String.Slice.endsWith_string_iff,
        String.copy_toSlice] at hslash
    refine ⟨cs, Or.inr hcs.symm, fun p hp => ?_⟩
    rw [join, if_neg hp, if_pos (Or.inr hslash), String.toList_append, ← hcs]
    simp
  · refine ⟨dir.text.toList, Or.inl rfl, fun p hp => ?_⟩
    rw [join, if_neg hp, if_neg (by simp [hdir, hslash])]
    simp

/-- The directory of a path, where an empty text is the directory that one is in. -/
def orHere (dir : Path) : Path := if dir.text = "" then ⟨"."⟩ else dir

/-- A name joined to a directory comes behind the segments of the directory, except for segments at
its end that name nothing. -/
theorem segments_join (dir : Path) : ∃ front back, dir.orHere.segments.2 = front ++ back ∧
    (∀ s ∈ back, isVoid s = true) ∧ ∀ name, IsName name →
      (dir.join ⟨name⟩).segments = (dir.orHere.segments.1, front ++ [name.toList]) := by
  simp only [segments_eq]
  unfold orHere
  by_cases hempty : dir.text = ""
  · rw [if_pos hempty]
    have hhere : split ".".toList = (false, [['.']]) := by decide
    refine ⟨[], [['.']], by rw [hhere]; rfl, by decide, fun name h => ?_⟩
    rw [join, if_neg h.not_isAbsolute, if_pos (Or.inl hempty), hempty, hhere]
    show split ("" ++ name).toList = _
    rw [String.toList_append, String.toList_empty, List.nil_append, h.split_eq]
    rfl
  rw [if_neg hempty]
  obtain ⟨cs, hcs | hcs, hjoin⟩ := exists_join hempty
  · have hne : cs ≠ [] := by
      rw [← hcs]
      simpa using hempty
    rw [hcs]
    refine ⟨(split cs).2, [], (List.append_nil _).symm, by simp, fun name h => ?_⟩
    rw [hjoin _ h.not_isAbsolute, split_append hne, h.splitOn_eq]
  rw [hcs]
  by_cases hroot : cs = []
  · subst hroot
    refine ⟨[], [[]], rfl, by decide, fun name h => ?_⟩
    rw [hjoin _ h.not_isAbsolute, List.nil_append, split_slash, h.splitOn_eq]
    rfl
  · refine ⟨(split cs).2, [[]], ?_, by decide, fun name h => ?_⟩
    · rw [split_append hroot, List.splitOn_nil]
    · rw [hjoin _ h.not_isAbsolute, split_append hroot, split_append hroot, h.splitOn_eq]

end Path

namespace FileTree

open Generation.Path (IsName)

variable {t u : FileTree} {here l m p base : Location} {e : Entry} {name : String}
  {segments front : List (List Char)} {path : Path}

/-- An erasure leaves what is elsewhere. -/
theorem lookup_erase_of_ne (h : p ≠ l) : (t.erase l).lookup p = t.lookup p := by
  cases p with
  | nil => rfl
  | cons a p =>
    show (t.entries.filter (·.1 ≠ l)).lookup (a :: p) = t.entries.lookup (a :: p)
    induction t.entries with
    | nil => rfl
    | cons x entries ih =>
      obtain ⟨k, e⟩ := x
      by_cases hk : k = l
      · have hne : (a :: p == k) = false := beq_eq_false_iff_ne.mpr (hk ▸ h)
        rw [List.filter_cons_of_neg (by simp [hk]), List.lookup_cons, hne, ih]
      · rw [List.filter_cons_of_pos (by simp [hk]), List.lookup_cons, List.lookup_cons, ih]

theorem lookup_erase_self (h : l ≠ []) : (t.erase l).lookup l = none := by
  obtain ⟨a, l, rfl⟩ := List.exists_cons_of_ne_nil h
  change ((t.entries.filter (·.1 ≠ a :: l)).lookup (a :: l)) = none
  rw [List.lookup_eq_none_iff]
  intro x hx
  have hne := (List.mem_filter.mp hx).2
  exact bne_iff_ne.mpr fun heq => absurd heq.symm (of_decide_eq_true hne)

theorem lookup_put_self (h : l ≠ []) : (t.put l e).lookup l = some e := by
  obtain ⟨a, l, rfl⟩ := List.exists_cons_of_ne_nil h
  show List.lookup (a :: l) ((a :: l, e) :: _) = some e
  rw [List.lookup_cons_self]

theorem lookup_put_of_ne (h : p ≠ l) : (t.put l e).lookup p = t.lookup p := by
  rw [← lookup_erase_of_ne (t := t) h]
  cases p with
  | nil => rfl
  | cons a p =>
    show List.lookup (a :: p) ((l, e) :: (t.erase l).entries) = _
    rw [List.lookup_cons, beq_eq_false_iff_ne.mpr h]
    rfl

/-- Of what is put in one place the last remains. -/
theorem put_put (t : FileTree) (l : Location) (e e' : Entry) :
    (t.put l e).put l e' = t.put l e' := by
  simp [put, erase]

/-- Segments are followed one after the other. -/
theorem walk_append (front back : List (List Char)) :
    t.walk here (front ++ back) = t.walk here front >>= fun l => t.walk l back := by
  induction front generalizing here with
  | nil => rfl
  | cons segment front ih =>
    rw [List.cons_append, walk, walk]
    cases t.lookup here with
    | none => rfl
    | some e =>
      cases e with
      | file contents => rfl
      | directory =>
        dsimp only
        split
        · exact ih
        · split
          · exact ih
          · split
            · rfl
            · exact ih

/-- Segments that name nothing lead nowhere else. -/
theorem eq_of_walk_void (hvoid : ∀ s ∈ segments, Path.isVoid s = true)
    (h : t.walk here segments = .ok l) : l = here := by
  induction segments generalizing here with
  | nil => exact (Except.ok.inj h).symm
  | cons segment segments ih =>
    rw [walk] at h
    split at h
    · cases h
    · cases h
    · rw [if_pos (hvoid segment List.mem_cons_self)] at h
      exact ih (fun s hs => hvoid s (List.mem_cons_of_mem _ hs)) h

/-- A name leads from a directory to a place in it. -/
theorem walk_name (hn : IsName name) (h : t.walk here [name.toList] = .ok l) :
    t.lookup here = some .directory ∧ l = here ++ [name] := by
  rw [walk] at h
  split at h
  · cases h
  · cases h
  · rename_i hdir
    rw [if_neg (by simp [hn.notVoid]), if_neg hn.notParent, String.ofList_toList] at h
    dsimp only at h
    split at h
    · cases h
    · exact ⟨hdir, (Except.ok.inj h).symm⟩

/-- What leads somewhere in a tree leads there in every tree with the same directories. -/
theorem walk_mono (hdirs : ∀ p, t.lookup p = some .directory → u.lookup p = some .directory)
    (h : t.walk here segments = .ok l) : u.walk here segments = .ok l := by
  induction segments generalizing here with
  | nil => exact h
  | cons segment segments ih =>
    rw [walk] at h ⊢
    split at h
    · cases h
    · cases h
    · rename_i hdir
      rw [hdirs here hdir]
      dsimp only at h ⊢
      split at h
      case isTrue hvoid =>
        rw [if_pos hvoid]
        exact ih h
      case isFalse hvoid =>
        rw [if_neg hvoid]
        split at h
        case isTrue hparent =>
          rw [if_pos hparent]
          exact ih h
        case isFalse hparent =>
          rw [if_neg hparent]
          split at h
          case isTrue => cases h
          case isFalse hsize =>
            rw [if_neg hsize]
            exact ih h

/-- Where a path starts. -/
def origin (base : Location) (p : Path) : Location := if p.segments.1 then [] else base

theorem locate_eq_ok : t.locate base path = .ok l ↔
    checkPath path = .ok () ∧ t.walk (origin base path) path.segments.2 = .ok l := by
  unfold locate
  cases checkPath path with
  | error e => simp
  | ok _ => exact ⟨fun h => ⟨rfl, h⟩, fun h => h.2⟩

/-- What is located in a tree is located there in every tree with the same directories. -/
theorem locate_mono (hdirs : ∀ p, t.lookup p = some .directory → u.lookup p = some .directory)
    (h : t.locate base path = .ok l) : u.locate base path = .ok l := by
  obtain ⟨hcheck, hwalk⟩ := locate_eq_ok.mp h
  exact locate_eq_ok.mpr ⟨hcheck, walk_mono hdirs hwalk⟩

/-- The way to a place uses directories alone, so it is the same whatever becomes of a place that is
none. -/
theorem locate_of_others (hl : t.lookup l ≠ some .directory)
    (hothers : ∀ p, p ≠ l → u.lookup p = t.lookup p) (h : t.locate base path = .ok m) :
    u.locate base path = .ok m := by
  refine locate_mono ?_ h
  intro p hp
  have hpl : p ≠ l := by
    rintro rfl
    exact hl hp
  rw [hothers p hpl, hp]

theorem entryAt_eq_ok : t.entryAt base path = .ok (l, e) ↔
    t.locate base path = .ok l ∧ t.lookup l = some e := by
  unfold entryAt
  constructor
  · intro h
    split at h
    · cases h
    · rename_i m hm
      split at h
      · cases h
      · rename_i he
        cases h
        exact ⟨hm, he⟩
  · rintro ⟨hl, he⟩
    simp only [hl, he]

theorem checkPath_eq_ok (hnul : '\x00' ∉ path.text.toList) (hne : path.text ≠ "")
    (hsize : path.text.utf8ByteSize ≤ maxPathSize) : checkPath path = .ok () := by
  rw [checkPath, if_neg hnul, if_neg hne, if_neg (Nat.not_lt.mpr hsize)]

/-- A short name alone leads from a directory to the place of that name in it. -/
theorem locate_name (hn : IsName name) (hnul : '\x00' ∉ name.toList)
    (hsize : name.utf8ByteSize ≤ maxNameSize) (hdir : t.lookup base = some .directory) :
    t.locate base ⟨name⟩ = .ok (base ++ [name]) := by
  have hcheck : checkPath ⟨name⟩ = .ok () := by
    refine checkPath_eq_ok hnul ?_ (Nat.le_trans hsize (by decide))
    rintro rfl
    exact hn.ne_nil rfl
  refine locate_eq_ok.mpr ⟨hcheck, ?_⟩
  rw [origin, Path.segments_eq, hn.split_eq, if_neg Bool.false_ne_true, walk, hdir]
  dsimp only
  rw [if_neg (by simp [hn.notVoid]), if_neg hn.notParent, String.ofList_toList,
    if_neg (Nat.not_lt.mpr hsize), walk]

/-- A place in a directory is where its name leads behind the segments of the directory. -/
theorem walk_join (hn : IsName name) (h : t.walk here (front ++ [name.toList]) = .ok l) :
    ∃ d, t.walk here front = .ok d ∧ t.lookup d = some .directory ∧ l = d ++ [name] := by
  rw [walk_append] at h
  obtain ⟨d, hfront, hname⟩ := bind_eq_ok h
  obtain ⟨hdir, rfl⟩ := walk_name hn hname
  exact ⟨d, hfront, hdir, rfl⟩

end FileTree

end Generation
