import Generation.Proofs.Disk.Places
import Generation.Proofs.Text.Pieces

/-!
Paths as users see and type them. A path that is shown can be typed back, and what is typed behind a
`~` stays below the home directory.
-/
namespace Generation.Path

variable {home p q : Path} {cs : List Char} {segments front left : List (List Char)}
  {c : Component} {components : List Component}

/-- What segments name, one after the other. -/
def named (segments : List (List Char)) : List Component :=
  (segments.filter (!isVoid ·)).map componentOf

theorem named_append (front left : List (List Char)) :
    named (front ++ left) = named front ++ named left := by simp [named]

theorem named_void (h : ∀ s ∈ segments, isVoid s = true) : named segments = [] := by
  rw [named, List.filter_eq_nil_iff.mpr fun s hs => by simp [h s hs], List.map_nil]

/-- An empty segment in front names nothing. -/
theorem named_nil_cons (segments : List (List Char)) :
    named ([] :: segments) = named segments := rfl

theorem segments_ne_nil (p : Path) : p.segments.2 ≠ [] := by
  unfold segments
  split
  · exact List.splitOn_ne_nil _ _
  · exact List.splitOn_ne_nil _ _

theorem isAbsolute_iff : p.isAbsolute = true ↔ p.text.toList.head? = some '/' := by
  rw [isAbsolute, segments_eq]
  by_cases hhead : p.text.toList.head? = some '/'
  · obtain ⟨cs, hcs⟩ := List.head?_eq_some_iff.mp hhead
    simp [hcs, split_slash]
  · simp [split_of_head?_ne hhead, hhead]

theorem slash_notMem_of_mem_segments {s : List Char} (h : s ∈ p.segments.2) : '/' ∉ s := by
  unfold segments at h
  split at h
  · exact Text.notMem_of_mem_splitOn h
  · exact Text.notMem_of_mem_splitOn h

theorem components_absolute (h : p.segments = (true, segments)) :
    p.components = .root :: named segments := by
  unfold components start?
  rw [h]
  rfl

theorem components_here (h : p.segments = (false, ['.'] :: segments)) :
    p.components = .here :: named segments := by
  unfold components start?
  rw [h]
  rfl

theorem components_relative (h : p.segments = (false, segments))
    (hdot : segments.head? ≠ some ['.']) : p.components = named segments := by
  unfold components start?
  rw [h]
  cases segments with
  | nil => rfl
  | cons first more => simp_all [named]

/-- More segments name more components. -/
theorem components_append (h : q.segments = (p.segments.1, p.segments.2 ++ segments)) :
    q.components = p.components ++ named segments := by
  have hne := segments_ne_nil p
  rcases hp : p.segments with ⟨absolute, front⟩
  rw [hp] at h hne
  obtain ⟨first, more, rfl⟩ := List.exists_cons_of_ne_nil hne
  cases absolute with
  | true =>
    rw [components_absolute hp, components_absolute h, named_append]
    rfl
  | false =>
    by_cases hdot : first = ['.']
    · subst hdot
      have hq : q.segments = (false, ['.'] :: (more ++ segments)) := h
      rw [components_here hp, components_here hq, named_append]
      rfl
    · have hfirst : (first :: more).head? ≠ some ['.'] := by simpa using hdot
      rw [components_relative hp hfirst, components_relative h hfirst, named_append]

theorem components_behind_slash (hp : p.text ≠ "")
    (h : q.text.toList = p.text.toList ++ '/' :: cs) :
    q.components = p.components ++ named (cs.splitOn '/') := by
  apply components_append
  rw [segments_eq, h, split_append (by simpa using hp), segments_eq]

/-! What is typed -/

/-- A relative path comes behind the directory that it is joined to. -/
theorem components_join (hhome : home.text ≠ "") (hcs : cs.head? ≠ some '/') :
    (home.join ⟨String.ofList cs⟩).components = home.components ++ named (cs.splitOn '/') := by
  have hrelative : ¬ isAbsolute ⟨String.ofList cs⟩ = true := by
    rwa [isAbsolute_iff, String.toList_ofList]
  obtain ⟨ds, hds | hds, hjoin⟩ := exists_join hhome
  · apply components_behind_slash hhome
    rw [hjoin _ hrelative, String.toList_ofList, hds]
  have htext := hjoin _ hrelative
  rw [String.toList_ofList] at htext
  by_cases hroot : ds = []
  · -- the root, where nothing stands before the slash
    subst hroot
    have hhome : home.segments = (true, [[]]) := by
      rw [segments_eq, hds]
      rfl
    have hjoin : (home.join ⟨String.ofList cs⟩).segments = (true, cs.splitOn '/') := by
      rw [segments_eq, htext]
      rfl
    rw [components_absolute hhome, components_absolute hjoin]
    rfl
  · let front : Path := ⟨String.ofList ds⟩
    have hne : front.text ≠ "" := by simpa [front] using hroot
    have hfront : home.components = front.components ++ named ([].splitOn '/') :=
      components_behind_slash hne (by rw [String.toList_ofList, hds])
    have hjoin : (home.join ⟨String.ofList cs⟩).components =
        front.components ++ named (cs.splitOn '/') :=
      components_behind_slash hne (by rw [htext, String.toList_ofList])
    rw [hfront, hjoin, List.splitOn_nil, named_nil_cons]
    exact congrArg (· ++ _) (List.append_nil _).symm

/-- Slashes in front of a text name nothing. -/
theorem named_dropWhile_slash (cs : List Char) :
    named ((cs.dropWhile (· = '/')).splitOn '/') = named (cs.splitOn '/') := by
  induction cs with
  | nil => rfl
  | cons c cs ih =>
    by_cases hc : c = '/'
    · subst hc
      rw [List.dropWhile_cons_of_pos (by simp), ih, List.splitOn_cons_eq_if_modifyHead,
        if_pos (by simp), named_nil_cons]
    · rw [List.dropWhile_cons_of_neg (by simpa using hc)]

theorem head?_dropWhile_slash (cs : List Char) :
    (cs.dropWhile (· = '/')).head? ≠ some '/' := by
  intro h
  have hslash := List.head?_dropWhile_not (fun c => decide (c = '/')) cs
  rw [h] at hslash
  simp at hslash

theorem expand_slash (home : Path) (rest : List Char) :
    home.expand (String.ofList ('~' :: '/' :: rest)) =
      match rest.dropWhile (· = '/') with
      | [] => home
      | rest => home.join ⟨String.ofList rest⟩ := by
  unfold expand
  rw [String.toList_ofList]
  rfl

/-- What stands behind a `~` and a slash is found below the home directory. -/
theorem components_expand (hhome : home.text ≠ "") (rest : List Char) :
    (home.expand (String.ofList ('~' :: '/' :: rest))).components =
      home.components ++ named (rest.splitOn '/') := by
  have hhead := head?_dropWhile_slash rest
  rw [← named_dropWhile_slash, expand_slash]
  cases hrest : rest.dropWhile (· = '/') with
  | nil => exact (List.append_nil _).symm
  | cons c cs =>
    rw [hrest] at hhead
    exact components_join hhome hhead

/-! What is shown -/

/-- Segments that are dropped name the components that they are dropped for. -/
theorem exists_of_dropComponents (h : dropComponents components segments = some left) :
    ∃ front, segments = front ++ left ∧ named front = components := by
  induction segments generalizing components with
  | nil =>
    cases components with
    | nil =>
      obtain rfl := Option.some.inj h
      exact ⟨[], rfl, rfl⟩
    | cons c components => cases h
  | cons segment segments ih =>
    cases components with
    | nil =>
      obtain rfl := Option.some.inj h
      exact ⟨[], rfl, rfl⟩
    | cons c components =>
      rw [dropComponents] at h
      split at h
      case isTrue hvoid =>
        obtain ⟨front, rfl, hfront⟩ := ih h
        exact ⟨segment :: front, rfl, by simpa [named, hvoid] using hfront⟩
      case isFalse hvoid =>
        split at h
        case isTrue hc =>
          obtain ⟨front, rfl, rfl⟩ := ih h
          exact ⟨segment :: front, rfl, by simp [named, hvoid, hc]⟩
        case isFalse => cases h

/-- What is left of segments without the void ones at both ends. -/
theorem exists_kept (segments : List (List Char)) : ∃ before kept after,
    segments = before ++ (kept ++ after) ∧ (∀ s ∈ before ++ after, isVoid s = true) ∧
      ofSegments segments = ⟨String.ofList (['/'].intercalate kept)⟩ := by
  let started := segments.dropWhile isVoid
  refine ⟨segments.takeWhile isVoid, (started.reverse.dropWhile isVoid).reverse,
    (started.reverse.takeWhile isVoid).reverse, ?_, ?_, rfl⟩
  · rw [← List.reverse_append, List.takeWhile_append_dropWhile, List.reverse_reverse,
      List.takeWhile_append_dropWhile]
  · intro s hs
    rcases List.mem_append.mp hs with hs | hs
    · exact List.mem_takeWhile_imp hs
    · exact List.mem_takeWhile_imp (List.mem_reverse.mp hs)

/-- The path of some segments names what they name. -/
theorem named_ofSegments (h : ∀ s ∈ segments, '/' ∉ s) :
    named ((ofSegments segments).text.toList.splitOn '/') = named segments := by
  obtain ⟨before, kept, after, rfl, hvoid, hpath⟩ := exists_kept segments
  have hbefore : named before = [] := named_void fun s hs => hvoid s (List.mem_append_left _ hs)
  have hafter : named after = [] := named_void fun s hs => hvoid s (List.mem_append_right _ hs)
  have hkept : named ((['/'].intercalate kept).splitOn '/') = named kept := by
    cases kept with
    | nil => rfl
    | cons first more =>
      rw [List.splitOn_intercalate '/' (fun s hs => h s ?_) (List.cons_ne_nil _ _)]
      exact List.mem_append_right _ (List.mem_append_left _ hs)
  rw [hpath, String.toList_ofList, hkept, named_append, named_append, hbefore, hafter,
    List.nil_append, List.append_nil]

/-- Only the empty text has no components. -/
theorem components_ne_nil (h : p.text ≠ "") : p.components ≠ [] := by
  have htext : p.text.toList ≠ [] := by simpa using h
  obtain ⟨c, cs, htext⟩ := List.exists_cons_of_ne_nil htext
  by_cases hc : c = '/'
  · subst hc
    have hsegments : p.segments = (true, cs.splitOn '/') := by
      rw [segments_eq, htext, split_slash]
    rw [components_absolute hsegments]
    exact List.cons_ne_nil _ _
  · obtain ⟨ds, more, hsplit⟩ := List.exists_cons_of_ne_nil (List.splitOn_ne_nil '/' cs)
    have hsegments : p.segments = (false, (c :: ds) :: more) := by
      rw [segments_eq, htext, split_of_head?_ne (by simpa using hc),
        List.splitOn_cons_eq_if_modifyHead, if_neg (by simpa using hc), hsplit]
      rfl
    by_cases hdot : c :: ds = ['.']
    · rw [hdot] at hsegments
      rw [components_here hsegments]
      exact List.cons_ne_nil _ _
    · have hfirst : isVoid (c :: ds) = false := by simpa [isVoid] using hdot
      rw [components_relative hsegments (by simpa using hdot), named,
        List.filter_cons_of_pos (by simp [hfirst])]
      exact List.cons_ne_nil _ _

/-- The components of a path below a directory are those of the directory and of what is left. -/
theorem components_of_below? (hhome : home.text ≠ "") (habsolute : p.isAbsolute = true)
    (h : home.below? p = some q) :
    p.components = home.components ++ named (q.text.toList.splitOn '/') := by
  obtain ⟨segments, hsegments⟩ : ∃ segments, p.segments = (true, segments) :=
    ⟨p.segments.2, Prod.ext habsolute rfl⟩
  obtain ⟨c, components, hc⟩ := List.exists_cons_of_ne_nil (components_ne_nil hhome)
  rw [components_absolute hsegments, hc]
  simp only [below?, start?, hsegments, hc] at h
  split at h
  case isTrue hroot =>
    subst hroot
    obtain ⟨left, hleft, rfl⟩ := Option.map_eq_some_iff.mp h
    obtain ⟨front, rfl, rfl⟩ := exists_of_dropComponents hleft
    have hslash : ∀ s ∈ left, '/' ∉ s := by
      intro s hs
      refine slash_notMem_of_mem_segments (p := p) ?_
      rw [hsegments]
      exact List.mem_append_right _ hs
    rw [named_ofSegments hslash, named_append]
    rfl
  case isFalse => cases h

/-- A path that starts with a slash is not taken for one below the home directory. -/
theorem expand_absolute (home : Path) (h : p.isAbsolute = true) : home.expand p.text = p := by
  obtain ⟨cs, hcs⟩ := List.head?_eq_some_iff.mp (isAbsolute_iff.mp h)
  unfold expand
  rw [hcs]
  rfl

/-- A path that is shown can be typed back. -/
theorem components_expand_display (hhome : home.text ≠ "") (h : p.isAbsolute = true) :
    (home.expand (p.display home)).components = p.components := by
  unfold display
  cases hbelow : home.below? p with
  | none =>
    dsimp only
    rw [expand_absolute home h]
  | some rest =>
    have htext : "~/" ++ rest.text = String.ofList ('~' :: '/' :: rest.text.toList) :=
      String.toList_injective (by simp)
    dsimp only
    rw [htext, components_expand hhome, components_of_below? hhome h hbelow]

/-- Only a text that is not empty names a directory. What is shown of an absolute path can be typed
back, whatever the home directory is, and what is typed from `~` on stays below it. -/
theorem typed_as_shown (hhome : home.text ≠ "") :
    (∀ p : Path, p.isAbsolute = true →
      (home.expand (p.display home)).components = p.components) ∧
    ∀ s : String, s = "~" ∨ ['~', '/'] <+: s.toList →
      home.components <+: (home.expand s).components := by
  refine ⟨fun p hp => components_expand_display hhome hp, fun s hs => ?_⟩
  rcases hs with rfl | ⟨rest, hrest⟩
  · exact List.prefix_rfl
  · have htext : s = String.ofList ('~' :: '/' :: rest) := by
      rw [← String.ofList_toList (s := s), ← hrest]
      rfl
    rw [htext, components_expand hhome]
    exact List.prefix_append _ _

/-- A path that leaves the home directory again, and a remainder that looks absolute. -/
theorem typed_as_shown_dots :
    let home : Path := ⟨"/home/u/"⟩
    let p : Path := ⟨"//home/./u//../~//./v/."⟩
    home.text ≠ "" ∧ p.isAbsolute = true ∧ p.display home = "~/../~//./v" ∧
      (home.expand (p.display home)).components = p.components ∧
      home.expand "~///etc" = ⟨"/home/u/etc"⟩ ∧
      home.components <+: (home.expand "~///etc").components := by
  intro home p
  have hhome : home.text ≠ "" := by decide
  have habsolute : p.isAbsolute = true := by decide
  have htyped := typed_as_shown hhome
  exact ⟨hhome, habsolute, by decide +kernel, htyped.1 p habsolute, by decide +kernel,
    htyped.2 _ (Or.inr ⟨"//etc".toList, by decide⟩)⟩

end Generation.Path
