import Generation.Text.EditDistance
import Mathlib.Data.List.Forall2
import Mathlib.Data.List.Induction
import Mathlib.Order.Bounds.Basic
import Mathlib.Order.MinMax

/-!
The edit distance of two texts is the least number of single edits that lead from one to the other.
The table of distances is compared with alignments, which go through both texts side by side, and
alignments with edits, which are made anywhere and one after the other.
-/
namespace Generation.Text

/-- One character is inserted, deleted, or replaced by another. -/
inductive SingleEdit : List Char → List Char → Prop where
  | insert (before after : List Char) (c : Char) :
    SingleEdit (before ++ after) (before ++ c :: after)
  | delete (before after : List Char) (c : Char) :
    SingleEdit (before ++ c :: after) (before ++ after)
  | substitute (before after : List Char) (c d : Char) :
    SingleEdit (before ++ c :: after) (before ++ d :: after)

/-- Texts that so many single edits lead to. -/
inductive Edits : Nat → List Char → List Char → Prop where
  | none (source : List Char) : Edits 0 source source
  | more {n : Nat} {source between target : List Char} :
    Edits n source between → SingleEdit between target → Edits (n + 1) source target

/-- Two texts side by side, with the number of places where they differ. -/
inductive Aligned : Nat → List Char → List Char → Prop where
  | nil : Aligned 0 [] []
  | keep {n : Nat} {source target : List Char} (c : Char) :
    Aligned n source target → Aligned n (c :: source) (c :: target)
  | substitute {n : Nat} {source target : List Char} (c d : Char) :
    Aligned n source target → Aligned (n + 1) (c :: source) (d :: target)
  | insert {n : Nat} {source target : List Char} (d : Char) :
    Aligned n source target → Aligned (n + 1) source (d :: target)
  | delete {n : Nat} {source target : List Char} (c : Char) :
    Aligned n source target → Aligned (n + 1) (c :: source) target

variable {source target s t before after : List Char} {c d : Char} {m n x y z left : Nat}
  {row : List Nat}

/-! Alignments and edits -/

theorem SingleEdit.cons (h : SingleEdit s t) (c : Char) : SingleEdit (c :: s) (c :: t) := by
  cases h with
  | insert before after d => exact .insert (c :: before) after d
  | delete before after d => exact .delete (c :: before) after d
  | substitute before after d e => exact .substitute (c :: before) after d e

theorem Edits.cons (h : Edits n s t) (c : Char) : Edits n (c :: s) (c :: t) := by
  induction h with
  | none source => exact .none _
  | more _ hstep ih => exact ih.more (hstep.cons c)

theorem SingleEdit.reverse (h : SingleEdit s t) : SingleEdit s.reverse t.reverse := by
  cases h with
  | insert before after c =>
    simpa using SingleEdit.insert after.reverse before.reverse c
  | delete before after c =>
    simpa using SingleEdit.delete after.reverse before.reverse c
  | substitute before after c d =>
    simpa using SingleEdit.substitute after.reverse before.reverse c d

theorem Edits.reverse (h : Edits n s t) : Edits n s.reverse t.reverse := by
  induction h with
  | none source => exact .none _
  | more _ hstep ih => exact ih.more hstep.reverse

theorem edits_of_aligned (h : Aligned n s t) : Edits n s t := by
  induction h with
  | nil => exact .none []
  | keep c _ ih => exact ih.cons c
  | substitute c d _ ih => exact (ih.cons c).more (.substitute [] _ c d)
  | insert d _ ih => exact ih.more (.insert [] _ d)
  | delete c _ ih => exact (ih.cons c).more (.delete [] _ c)

theorem aligned_self (s : List Char) : Aligned 0 s s := by
  induction s with
  | nil => exact .nil
  | cons c s ih => exact ih.keep c

theorem Aligned.append (h : Aligned m s t) (h' : Aligned n source target) :
    Aligned (n + m) (s ++ source) (t ++ target) := by
  induction h with
  | nil => exact h'
  | keep c _ ih => exact ih.keep c
  | substitute c d _ ih => exact ih.substitute c d
  | insert d _ ih => exact ih.insert d
  | delete c _ ih => exact ih.delete c

/-- A text that is aligned with two parts has two parts itself. -/
theorem Aligned.split (h : Aligned n s (before ++ after)) :
    ∃ k m left right, s = left ++ right ∧ n = m + k ∧ Aligned k left before ∧
      Aligned m right after := by
  generalize ht : before ++ after = t at h
  induction h generalizing before with
  | nil =>
    obtain ⟨rfl, rfl⟩ := List.append_eq_nil_iff.mp ht
    exact ⟨0, 0, [], [], rfl, rfl, .nil, .nil⟩
  | @delete n source target c h ih =>
    obtain ⟨k, m, left, right, rfl, rfl, hleft, hright⟩ := ih ht
    exact ⟨k + 1, m, c :: left, right, rfl, rfl, hleft.delete c, hright⟩
  | @keep n source target c h ih =>
    rcases List.append_eq_cons_iff.mp ht with ⟨rfl, rfl⟩ | ⟨before, rfl, rfl⟩
    · exact ⟨0, n, [], c :: source, rfl, rfl, .nil, h.keep c⟩
    · obtain ⟨k, m, left, right, rfl, rfl, hleft, hright⟩ := ih rfl
      exact ⟨k, m, c :: left, right, rfl, rfl, hleft.keep c, hright⟩
  | @substitute n source target c d h ih =>
    rcases List.append_eq_cons_iff.mp ht with ⟨rfl, rfl⟩ | ⟨before, rfl, rfl⟩
    · exact ⟨0, n + 1, [], c :: source, rfl, rfl, .nil, h.substitute c d⟩
    · obtain ⟨k, m, left, right, rfl, rfl, hleft, hright⟩ := ih rfl
      exact ⟨k + 1, m, c :: left, right, rfl, rfl, hleft.substitute c d, hright⟩
  | @insert n source target d h ih =>
    rcases List.append_eq_cons_iff.mp ht with ⟨rfl, rfl⟩ | ⟨before, rfl, rfl⟩
    · exact ⟨0, n + 1, [], source, rfl, rfl, .nil, h.insert d⟩
    · obtain ⟨k, m, left, right, rfl, rfl, hleft, hright⟩ := ih rfl
      exact ⟨k + 1, m, left, right, rfl, rfl, hleft.insert d, hright⟩

/-- Without its first character, or with another one, a text is at most one place further off. -/
theorem Aligned.head_changed (h : Aligned n s (c :: t)) :
    (∃ m ≤ n + 1, Aligned m s t) ∧ ∀ d, ∃ m ≤ n + 1, Aligned m s (d :: t) := by
  generalize ht : c :: t = u at h
  induction h with
  | nil => cases ht
  | @keep n source target b h ih =>
    obtain ⟨-, rfl⟩ := List.cons.inj ht
    exact ⟨⟨n + 1, Nat.le_refl _, h.delete b⟩, fun d => ⟨n + 1, Nat.le_refl _, h.substitute b d⟩⟩
  | @substitute n source target b e h ih =>
    obtain ⟨-, rfl⟩ := List.cons.inj ht
    exact ⟨⟨n + 1, by omega, h.delete b⟩, fun d => ⟨n + 1, by omega, h.substitute b d⟩⟩
  | @insert n source target b h ih =>
    obtain ⟨-, rfl⟩ := List.cons.inj ht
    exact ⟨⟨n, by omega, h⟩, fun d => ⟨n + 1, by omega, h.insert d⟩⟩
  | @delete n source target b h ih =>
    obtain ⟨⟨m, hm, hdeleted⟩, hchanged⟩ := ih ht
    refine ⟨⟨m + 1, by omega, hdeleted.delete b⟩, fun d => ?_⟩
    obtain ⟨k, hk, hother⟩ := hchanged d
    exact ⟨k + 1, by omega, hother.delete b⟩

theorem aligned_of_singleEdit (h : Aligned n source s) (hedit : SingleEdit s t) :
    ∃ m ≤ n + 1, Aligned m source t := by
  cases hedit with
  | insert before after c =>
    obtain ⟨k, m, left, right, rfl, rfl, hleft, hright⟩ := h.split
    exact ⟨m + 1 + k, by omega, hleft.append (hright.insert c)⟩
  | delete before after c =>
    obtain ⟨k, m, left, right, rfl, rfl, hleft, hright⟩ := h.split
    obtain ⟨⟨l, hl, hdeleted⟩, -⟩ := hright.head_changed
    exact ⟨l + k, by omega, hleft.append hdeleted⟩
  | substitute before after c d =>
    obtain ⟨k, m, left, right, rfl, rfl, hleft, hright⟩ := h.split
    obtain ⟨l, hl, hchanged⟩ := hright.head_changed.2 d
    exact ⟨l + k, by omega, hleft.append hchanged⟩

theorem aligned_of_edits (h : Edits n s t) : ∃ m ≤ n, Aligned m s t := by
  induction h with
  | none source => exact ⟨0, Nat.le_refl 0, aligned_self source⟩
  | more _ hstep ih =>
    obtain ⟨m, hm, haligned⟩ := ih
    obtain ⟨k, hk, hchanged⟩ := aligned_of_singleEdit haligned hstep
    exact ⟨k, by omega, hchanged⟩

/-! The table of distances -/

/-- The least number of places where two texts differ, however they are aligned. -/
def IsDistance (s t : List Char) (n : Nat) : Prop := IsLeast {m | Aligned m s t} n

theorem isDistance_nil_left (t : List Char) : IsDistance [] t t.length := by
  induction t with
  | nil => exact ⟨.nil, fun m _ => Nat.zero_le m⟩
  | cons d t ih =>
    refine ⟨ih.1.insert d, fun m hm => ?_⟩
    cases hm with
    | insert _ h => exact Nat.succ_le_succ (ih.2 h)

theorem isDistance_nil_right (h : IsDistance s [] n) (c : Char) :
    IsDistance (c :: s) [] (n + 1) := by
  refine ⟨h.1.delete c, fun m hm => ?_⟩
  cases hm with
  | delete _ hs => exact Nat.succ_le_succ (h.2 hs)

/-- How an entry of the table follows from three others. -/
theorem isDistance_cons (hup : IsDistance s (d :: t) x) (hleft : IsDistance (c :: s) t y)
    (hdiagonal : IsDistance s t z) :
    IsDistance (c :: s) (d :: t) (min (min (x + 1) (y + 1)) (z + if c = d then 0 else 1)) := by
  constructor
  · have hlast : Aligned (z + if c = d then 0 else 1) (c :: s) (d :: t) := by
      split
      case isTrue h =>
        subst h
        exact hdiagonal.1.keep c
      case isFalse => exact hdiagonal.1.substitute c d
    rcases min_choice (min (x + 1) (y + 1)) (z + if c = d then 0 else 1) with h | h
    · rw [Set.mem_ofPred_eq, h]
      rcases min_choice (x + 1) (y + 1) with h | h
      · rw [h]
        exact hup.1.delete c
      · rw [h]
        exact hleft.1.insert d
    · rw [Set.mem_ofPred_eq, h]
      exact hlast
  · intro m hm
    cases hm with
    | keep _ h =>
      have hle := hdiagonal.2 h
      rw [if_pos rfl]
      omega
    | substitute _ _ h =>
      have hle := hdiagonal.2 h
      split <;> omega
    | insert _ h =>
      have hle := hleft.2 h
      omega
    | delete _ h =>
      have hle := hup.2 h
      omega

/-- The starts of a text that end in `target` or before it, each of them backwards. -/
def starts (read : List Char) : List Char → List (List Char)
  | [] => [read]
  | t :: target => read :: starts (t :: read) target

theorem starts_eq_cons (read target : List Char) :
    ∃ rest, starts read target = read :: rest := by
  cases target with
  | nil => exact ⟨[], rfl⟩
  | cons t target => exact ⟨_, rfl⟩

theorem forall₂_extendRow {read : List Char} (hleft : IsDistance (c :: s) read left)
    (h : List.Forall₂ (IsDistance s) (starts read target) row) :
    List.Forall₂ (IsDistance (c :: s)) (starts read target) (left :: extendRow c left target row) := by
  induction target generalizing read left row with
  | nil =>
    rw [extendRow.eq_2 _ _ _ _ (by simp)]
    exact .cons hleft .nil
  | cons t target ih =>
    obtain ⟨rest, hrest⟩ := starts_eq_cons (t :: read) target
    rw [starts] at h ⊢
    cases h with
    | @cons _ diagonal _ row hdiagonal hrow =>
      have hentries := hrow
      rw [hrest] at hentries
      cases hentries with
      | cons hup =>
        rw [extendRow]
        exact .cons hleft (ih (isDistance_cons hup hleft hdiagonal) hrow)

theorem forall₂_nextRow (h : List.Forall₂ (IsDistance s) (starts [] target) row) :
    List.Forall₂ (IsDistance (c :: s)) (starts [] target) (nextRow target row c) := by
  obtain ⟨rest, hrest⟩ := starts_eq_cons [] target
  have hentries := h
  rw [hrest] at hentries
  cases hentries with
  | cons hfirst => exact forall₂_extendRow (isDistance_nil_right hfirst c) h

theorem forall₂_foldl (source : List Char)
    (h : List.Forall₂ (IsDistance s) (starts [] target) row) :
    List.Forall₂ (IsDistance (source.reverse ++ s)) (starts [] target)
      (source.foldl (nextRow target) row) := by
  induction source generalizing s row with
  | nil => exact h
  | cons c source ih =>
    rw [List.foldl_cons, List.reverse_cons, List.append_assoc]
    exact ih (forall₂_nextRow h)

theorem forall₂_range' (read target : List Char) :
    List.Forall₂ (IsDistance []) (starts read target)
      (List.range' read.length (target.length + 1)) := by
  induction target generalizing read with
  | nil => exact .cons (isDistance_nil_left read) .nil
  | cons t target ih => exact .cons (isDistance_nil_left read) (ih (t :: read))

theorem isDistance_getLastD {read : List Char}
    (h : List.Forall₂ (IsDistance s) (starts read target) row) :
    IsDistance s (target.reverse ++ read) (row.getLastD 0) := by
  induction target generalizing read row with
  | nil =>
    cases h with
    | cons hread hnil =>
      cases hnil
      exact hread
  | cons t target ih =>
    obtain ⟨rest, hrest⟩ := starts_eq_cons (t :: read) target
    cases h with
    | @cons _ n _ row _ hrow =>
      have hne : row ≠ [] := by
        rintro rfl
        rw [hrest] at hrow
        cases hrow
      have hlast : (n :: row).getLastD 0 = row.getLastD 0 := by
        cases row with
        | nil => exact absurd rfl hne
        | cons m row => rfl
      rw [hlast, List.reverse_cons, List.append_assoc]
      exact ih hrow

theorem isDistance_editDistance (source target : List Char) :
    IsDistance source.reverse target.reverse (editDistance source target) := by
  have hrow := forall₂_foldl source (forall₂_range' [] target)
  have hlast := isDistance_getLastD hrow
  rwa [List.append_nil, List.append_nil, List.length_nil, ← List.range_eq_range'] at hlast

/-- The edit distance is the least number of single edits. -/
theorem isLeast_editDistance (source target : List Char) :
    IsLeast {n | Edits n source target} (editDistance source target) := by
  obtain ⟨haligned, hleast⟩ := isDistance_editDistance source target
  constructor
  · simpa using (edits_of_aligned haligned).reverse
  · intro n hn
    obtain ⟨m, hm, h⟩ := aligned_of_edits hn.reverse
    exact Nat.le_trans (hleast h) hm

theorem exists_edits_iff {limit : Nat} :
    (∃ n ≤ limit, Edits n source target) ↔ editDistance source target ≤ limit := by
  obtain ⟨hreached, hleast⟩ := isLeast_editDistance source target
  constructor
  · rintro ⟨n, hn, hedits⟩
    exact Nat.le_trans (hleast hedits) hn
  · exact fun h => ⟨_, h, hreached⟩

/-! The nearest candidate -/

/-- The candidate can be reached with so many edits at most. -/
def Within (limit : Nat) (input candidate : String) : Prop :=
  ∃ n ≤ limit, Edits n input.toList candidate.toList

/-- The first of the candidates that are reached with the fewest edits, which are not more than the
limit. -/
def IsNearest (input : String) (candidates : List String) (limit : Nat) (c : String) : Prop :=
  ∃ n ≤ limit, Edits n input.toList c.toList ∧
    (∀ d ∈ candidates, ∀ m, Edits m input.toList d.toList → n ≤ m) ∧
    ∃ before after, candidates = before ++ c :: after ∧
      ∀ d ∈ before, ¬ Edits n input.toList d.toList

variable {input a : String} {candidates : List String} {limit : Nat}

/-- Of measured candidates the first of the nearest is taken. -/
theorem foldl_nearer (first : Nat × String) (rest : List (Nat × String)) :
    ∃ before after, first :: rest = before ++ rest.foldl nearer first :: after ∧
      (∀ b ∈ before, (rest.foldl nearer first).1 < b.1) ∧
      ∀ b ∈ after, (rest.foldl nearer first).1 ≤ b.1 := by
  -- candidate by candidate, the one taken so far stays or is replaced by the last
  induction rest using List.reverseRecOn with
  | nil => exact ⟨[], [], rfl, by simp, by simp⟩
  | append_singleton rest x ih =>
    obtain ⟨before, after, hsplit, hbefore, hafter⟩ := ih
    rw [List.foldl_append, List.foldl_cons, List.foldl_nil, ← List.cons_append, hsplit, nearer]
    split
    case isTrue hlt =>
      refine ⟨before ++ rest.foldl nearer first :: after, [], rfl, fun b hb => ?_, by simp⟩
      rcases List.mem_append.mp hb with hb | hb
      · exact Nat.lt_trans hlt (hbefore b hb)
      · rcases List.mem_cons.mp hb with rfl | hb
        · exact hlt
        · exact Nat.lt_of_lt_of_le hlt (hafter b hb)
    case isFalse hge =>
      refine ⟨before, after ++ [x], by simp, hbefore, fun b hb => ?_⟩
      rcases List.mem_append.mp hb with hb | hb
      · exact hafter b hb
      · obtain rfl := List.mem_singleton.mp hb
        exact Nat.le_of_not_lt hge

/-- The candidates that are too far away do not matter to that. -/
theorem foldl_nearer_of_filter {measured rest : List (Nat × String)} {first : Nat × String}
    (h : measured.filter (·.1 ≤ limit) = first :: rest) :
    ∃ before after, measured = before ++ rest.foldl nearer first :: after ∧
      (rest.foldl nearer first).1 ≤ limit ∧
      (∀ b ∈ before, (rest.foldl nearer first).1 < b.1) ∧
      ∀ b ∈ after, (rest.foldl nearer first).1 ≤ b.1 := by
  obtain ⟨before, after, hsplit, hbefore, hafter⟩ := foldl_nearer first rest
  generalize rest.foldl nearer first = best at hsplit hbefore hafter ⊢
  obtain ⟨start, others, rfl, hstart, hothers⟩ := List.filter_eq_append_iff.mp (h.trans hsplit)
  obtain ⟨skipped, tail, rfl, hskipped, hbest, htail⟩ := List.filter_eq_cons_iff.mp hothers
  have hlimit : best.1 ≤ limit := of_decide_eq_true hbest
  have hfar {b : Nat × String} (hb : ¬ b.1 ≤ limit) : best.1 < b.1 := by omega
  refine ⟨start ++ skipped, tail, by simp, hlimit, fun b hb => ?_, fun b hb => ?_⟩
  · rcases List.mem_append.mp hb with hb | hb
    · by_cases hnear : b.1 ≤ limit
      · exact hbefore b (hstart ▸ List.mem_filter.mpr ⟨hb, decide_eq_true hnear⟩)
      · exact hfar hnear
    · exact hfar (by simpa using hskipped b hb)
  · by_cases hnear : b.1 ≤ limit
    · exact hafter b (htail ▸ List.mem_filter.mpr ⟨hb, decide_eq_true hnear⟩)
    · exact Nat.le_of_lt (hfar hnear)

/-- The candidate that is taken is nearer than those before it, and no farther than those behind. -/
theorem split_of_closest? (h : closest? input candidates limit = some a) :
    ∃ before after, candidates = before ++ a :: after ∧
      editDistance input.toList a.toList ≤ limit ∧
      (∀ b ∈ before, editDistance input.toList a.toList < editDistance input.toList b.toList) ∧
      ∀ b ∈ after, editDistance input.toList a.toList ≤ editDistance input.toList b.toList := by
  rw [closest?] at h
  split at h
  case h_1 => cases h
  case h_2 first rest hfilter =>
    obtain ⟨before, after, hsplit, hlimit, hbefore, hafter⟩ := foldl_nearer_of_filter hfilter
    generalize rest.foldl nearer first = best at h hsplit hlimit hbefore hafter
    cases h
    obtain ⟨start, others, rfl, rfl, hothers⟩ := List.map_eq_append_iff.mp hsplit
    obtain ⟨c, tail, rfl, rfl, rfl⟩ := List.map_eq_cons_iff.mp hothers
    refine ⟨start, tail, rfl, hlimit, fun b hb => ?_, fun b hb => ?_⟩
    · exact hbefore _ (List.mem_map_of_mem hb)
    · exact hafter _ (List.mem_map_of_mem hb)

theorem closest?_eq_none_iff : closest? input candidates limit = none ↔
    ∀ c ∈ candidates, ¬ Within limit input c := by
  have hnone : closest? input candidates limit = none ↔
      (candidates.map fun c => (editDistance input.toList c.toList, c)).filter (·.1 ≤ limit) = [] := by
    rw [closest?]
    split
    case h_1 hfilter => simp [hfilter]
    case h_2 hfilter => simp [hfilter]
  rw [hnone, List.filter_eq_nil_iff]
  simp only [List.forall_mem_map, decide_eq_true_eq, Within, exists_edits_iff]

theorem isNearest_of_closest? (h : closest? input candidates limit = some a) :
    IsNearest input candidates limit a := by
  obtain ⟨before, after, hsplit, hlimit, hbefore, hafter⟩ := split_of_closest? h
  obtain ⟨hreached, -⟩ := isLeast_editDistance input.toList a.toList
  refine ⟨_, hlimit, hreached, fun d hd m hm => ?_, before, after, hsplit, fun d hd hm => ?_⟩
  · have hle := (isLeast_editDistance input.toList d.toList).2 hm
    rw [hsplit] at hd
    rcases List.mem_append.mp hd with hd | hd
    · exact Nat.le_trans (Nat.le_of_lt (hbefore d hd)) hle
    · rcases List.mem_cons.mp hd with rfl | hd
      · exact hle
      · exact Nat.le_trans (hafter d hd) hle
  · have hle := (isLeast_editDistance input.toList d.toList).2 hm
    exact absurd hle (Nat.not_le_of_lt (hbefore d hd))

/-- There is one nearest candidate at most. -/
theorem IsNearest.unique {b : String} (ha : IsNearest input candidates limit a)
    (hb : IsNearest input candidates limit b) : a = b := by
  obtain ⟨m, -, hma, hmin, before, after, hsplit, hbefore⟩ := ha
  obtain ⟨n, -, hnb, hmin', before', after', hsplit', hbefore'⟩ := hb
  have hmem : a ∈ candidates := by simp [hsplit]
  have hmem' : b ∈ candidates := by simp [hsplit']
  obtain rfl : m = n := Nat.le_antisymm (hmin b hmem' n hnb) (hmin' a hmem m hma)
  -- neither of them stands before the other
  rcases List.append_eq_append_iff.mp (hsplit.symm.trans hsplit') with ⟨gap, rfl, hrest⟩ |
    ⟨gap, rfl, hrest⟩
  · rcases List.append_eq_cons_iff.mp hrest.symm with ⟨-, heq⟩ | ⟨gap, rfl, -⟩
    · exact (List.cons.inj heq).1.symm
    · exact absurd hma (hbefore' a (by simp))
  · rcases List.append_eq_cons_iff.mp hrest.symm with ⟨-, heq⟩ | ⟨gap, rfl, -⟩
    · exact (List.cons.inj heq).1
    · exact absurd hnb (hbefore b (by simp))

theorem closest?_eq_some_iff :
    closest? input candidates limit = some a ↔ IsNearest input candidates limit a := by
  refine ⟨isNearest_of_closest?, fun h => ?_⟩
  cases hclosest : closest? input candidates limit with
  | some b => rw [(isNearest_of_closest? hclosest).unique h]
  | none =>
    obtain ⟨n, hn, hedits, -, before, after, rfl, -⟩ := h
    exact absurd ⟨n, hn, hedits⟩ (closest?_eq_none_iff.mp hclosest a (by simp))

end Generation.Text
