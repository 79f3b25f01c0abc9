import Generation.Text.Blank
import Mathlib.Data.List.TakeWhile

/-! Texts cut at a character, and texts without the blanks around them. -/
namespace Generation.Text

variable {α : Type} [BEq α] [LawfulBEq α] {a : α} {xs piece : List α} {pieces : List (List α)}
  {cs ds : List Char}

theorem notMem_of_mem_splitOn (h : piece ∈ xs.splitOn a) : a ∉ piece := by
  induction xs generalizing piece with
  | nil =>
    rw [List.splitOn_nil, List.mem_singleton] at h
    simp [h]
  | cons x xs ih =>
    rw [List.splitOn_cons_eq_if_modifyHead] at h
    split at h
    case isTrue =>
      rcases List.mem_cons.mp h with rfl | h
      · exact List.not_mem_nil
      · exact ih h
    case isFalse hx =>
      obtain ⟨first, later, hsplit⟩ := List.exists_cons_of_ne_nil (List.splitOn_ne_nil a xs)
      rw [hsplit] at h ih
      rcases List.mem_cons.mp h with rfl | h
      · have hne : a ≠ x := by
          rintro rfl
          exact hx (BEq.refl a)
        simp [hne, ih List.mem_cons_self]
      · exact ih (List.mem_cons_of_mem _ h)

/-- There is one way to cut a text at a character. -/
theorem splitOn_eq_iff : xs.splitOn a = pieces ↔
    pieces ≠ [] ∧ xs = [a].intercalate pieces ∧ ∀ piece ∈ pieces, a ∉ piece := by
  constructor
  · rintro rfl
    exact ⟨List.splitOn_ne_nil a xs, (List.intercalate_splitOn a).symm,
      fun _ => notMem_of_mem_splitOn⟩
  · rintro ⟨hne, rfl, hpieces⟩
    exact List.splitOn_intercalate a hpieces hne

/-- A text and what is left of it without the blanks at both ends. -/
structure Trims (cs ds : List Char) : Prop where
  around : ∃ before after, cs = before ++ (ds ++ after) ∧
    ∀ c ∈ before ++ after, isBlank c = true
  starts : ∀ c ∈ ds.head?, isBlank c = false
  ends : ∀ c ∈ ds.getLast?, isBlank c = false

theorem dropWhile_of_head? (h : ∀ c ∈ ds.head?, isBlank c = false) :
    ds.dropWhile isBlank = ds := by
  cases ds with
  | nil => rfl
  | cons c ds => exact List.dropWhile_cons_of_neg (by simp [h c rfl])

theorem head?_dropWhile_isBlank (cs : List Char) :
    ∀ c ∈ (cs.dropWhile isBlank).head?, isBlank c = false := by
  intro c hc
  have hhead := List.head?_dropWhile_not isBlank cs
  rw [hc] at hhead
  exact hhead

theorem trims_trim (cs : List Char) : Trims cs (trim cs) := by
  let after := ((cs.dropWhile isBlank).reverse.takeWhile isBlank).reverse
  have hstart : trim cs ++ after = cs.dropWhile isBlank := by
    rw [trim, dropEndWhile, ← List.reverse_append, List.takeWhile_append_dropWhile,
      List.reverse_reverse]
  have hends : (trim cs).getLast? = ((cs.dropWhile isBlank).reverse.dropWhile isBlank).head? := by
    rw [trim, dropEndWhile, List.getLast?_reverse]
  constructor
  · refine ⟨cs.takeWhile isBlank, after, ?_, ?_⟩
    · rw [hstart, List.takeWhile_append_dropWhile]
    · intro c hc
      rcases List.mem_append.mp hc with hc | hc
      · exact List.mem_takeWhile_imp hc
      · exact List.mem_takeWhile_imp (List.mem_reverse.mp hc)
  · intro c hc
    refine head?_dropWhile_isBlank cs c ?_
    rw [← hstart, List.head?_append, hc]
    rfl
  · rw [hends]
    exact head?_dropWhile_isBlank _

/-- Nothing else is left of a text. -/
theorem trims_iff : Trims cs ds ↔ trim cs = ds := by
  constructor
  · rintro ⟨⟨before, after, rfl, hblank⟩, hstarts, hends⟩
    have hbefore : ∀ c ∈ before, isBlank c = true := fun c hc =>
      hblank c (List.mem_append_left _ hc)
    have hafter : ∀ c ∈ after, isBlank c = true := fun c hc =>
      hblank c (List.mem_append_right _ hc)
    have hreverse : ds.reverse.dropWhile isBlank = ds.reverse :=
      dropWhile_of_head? (by rwa [List.head?_reverse])
    have hend : dropEndWhile isBlank (ds ++ after) = ds := by
      rw [dropEndWhile, List.reverse_append, List.dropWhile_append_of_pos
        fun c hc => hafter c (List.mem_reverse.mp hc), hreverse, List.reverse_reverse]
    rw [trim, List.dropWhile_append_of_pos hbefore]
    cases ds with
    | nil =>
      rw [List.nil_append, List.dropWhile_eq_nil_iff.mpr hafter]
      rfl
    | cons d ds =>
      have hstart : (d :: ds ++ after).dropWhile isBlank = d :: ds ++ after :=
        dropWhile_of_head? hstarts
      rw [hstart, hend]
  · rintro rfl
    exact trims_trim cs

end Generation.Text
