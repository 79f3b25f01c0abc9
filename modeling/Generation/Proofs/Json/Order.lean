import Generation.Json.Basic
import Mathlib.Data.List.Induction
import Mathlib.Data.List.Nodup

/-!
Objects as maps: putting a member in its place, collecting members so that the last of a name
counts, and the values whose objects all stand in ascending order.
-/
namespace Generation.Json

variable {name key : String} {v : Json} {members : Members}

/-- No name comes twice, and the names ascend. -/
def Ascending (members : Members) : Prop := members.Pairwise fun m n => m.1 < n.1

theorem ascending_of_names (h : (members.map Prod.fst).Pairwise (· < ·)) : Ascending members :=
  List.pairwise_map.mp h

theorem mem_of_lookup (h : members.lookup key = some v) : (key, v) ∈ members := by
  obtain ⟨before, after, rfl, -⟩ := List.lookup_eq_some_iff.mp h
  simp

/-- Where no name comes twice every member is the one of its name. -/
theorem lookup_of_mem_of_nodup (h : (members.map Prod.fst).Nodup) (hm : (key, v) ∈ members) :
    members.lookup key = some v := by
  induction members with
  | nil => cases hm
  | cons head rest ih =>
    obtain ⟨hhead, hrest⟩ := List.nodup_cons.mp h
    rcases List.mem_cons.mp hm with rfl | hm
    · simp
    · have hne : key ≠ head.1 := fun he => hhead (he ▸ List.mem_map_of_mem hm)
      rw [List.lookup_cons, beq_eq_false_iff_ne.mpr hne]
      exact ih hrest hm

theorem nodup_of_ascending (h : Ascending members) : (members.map Prod.fst).Nodup :=
  List.pairwise_map.mpr (h.imp fun hlt => String.ne_of_lt hlt)

/-- In ascending members every member is the one of its name. -/
theorem lookup_of_mem (h : Ascending members) (hm : (key, v) ∈ members) :
    members.lookup key = some v :=
  lookup_of_mem_of_nodup (nodup_of_ascending h) hm

/-- Every object in a value has its members in ascending order. -/
inductive Sorted : Json → Prop where
  | null : Sorted .null
  | boolean (b : Bool) : Sorted (.boolean b)
  | number (n : Number) : Sorted (.number n)
  | string (s : String) : Sorted (.string s)
  | array {items : List Json} : (∀ v ∈ items, Sorted v) → Sorted (.array items)
  | object {members : Members} :
    Ascending members → (∀ m ∈ members, Sorted m.2) → Sorted (.object members)

theorem Sorted.ascending (h : Sorted (.object members)) : Ascending members := by
  cases h with
  | object hascending _ => exact hascending

theorem Sorted.member (h : Sorted (.object members)) (hm : (key, v) ∈ members) : Sorted v := by
  cases h with
  | object _ hmembers => exact hmembers _ hm

theorem Sorted.none : Sorted (.object []) := .object List.Pairwise.nil (by simp)

theorem Sorted.single (h : Sorted v) : Sorted (.object [(key, v)]) :=
  .object (List.pairwise_singleton _ _) fun _ hm => List.mem_singleton.mp hm ▸ h

/-- Lists and objects nest at most `n` deep in a value. -/
inductive Within : Nat → Json → Prop where
  | null (n : Nat) : Within n .null
  | boolean (n : Nat) (b : Bool) : Within n (.boolean b)
  | number (n : Nat) (x : Number) : Within n (.number x)
  | string (n : Nat) (s : String) : Within n (.string s)
  | array {n : Nat} {items : List Json} : (∀ v ∈ items, Within n v) → Within (n + 1) (.array items)
  | object {n : Nat} {members : Members} :
    (∀ m ∈ members, Within n m.2) → Within (n + 1) (.object members)

theorem eq_of_not_lt {a b : String} (h : ¬ a < b) (h' : ¬ b < a) : a = b :=
  String.le_antisymm (String.not_lt.mp h') (String.not_lt.mp h)

theorem mem_insert {m : String × Json} (h : m ∈ insert name v members) :
    m = (name, v) ∨ m ∈ members := by
  induction members with
  | nil => simpa [insert] using h
  | cons head rest ih =>
    obtain ⟨n, w⟩ := head
    rw [insert] at h
    split at h
    · simpa using h
    · split at h
      · rcases List.mem_cons.mp h with rfl | h
        · exact Or.inl rfl
        · exact Or.inr (List.mem_cons_of_mem _ h)
      · rcases List.mem_cons.mp h with rfl | h
        · exact Or.inr (by simp)
        · exact (ih h).imp_right (List.mem_cons_of_mem _)

theorem ascending_insert (h : Ascending members) : Ascending (insert name v members) := by
  induction members with
  | nil => simp [insert, Ascending]
  | cons head rest ih =>
    obtain ⟨n, w⟩ := head
    obtain ⟨hlow, hrest⟩ := List.pairwise_cons.mp h
    rw [insert]
    split
    case isTrue hlt =>
      refine List.pairwise_cons.mpr ⟨fun m hm => ?_, h⟩
      rcases List.mem_cons.mp hm with rfl | hm
      · exact hlt
      · exact String.lt_trans hlt (hlow m hm)
    case isFalse hge =>
      split
      case isTrue heq =>
        subst heq
        exact List.pairwise_cons.mpr ⟨hlow, hrest⟩
      case isFalse hne =>
        refine List.pairwise_cons.mpr ⟨fun m hm => ?_, ih hrest⟩
        rcases mem_insert hm with rfl | hm
        · exact Classical.byContradiction fun hn => hne (eq_of_not_lt hge hn)
        · exact hlow m hm

@[simp] theorem lookup_insert_self : (insert name v members).lookup name = some v := by
  induction members with
  | nil => simp [insert]
  | cons head rest ih =>
    obtain ⟨n, w⟩ := head
    rw [insert]
    split
    · simp
    · split
      case isTrue => simp
      case isFalse hne => rw [List.lookup_cons, beq_eq_false_iff_ne.mpr hne, ih]

theorem lookup_insert_of_ne (h : key ≠ name) :
    (insert name v members).lookup key = members.lookup key := by
  have hk : (key == name) = false := beq_eq_false_iff_ne.mpr h
  induction members with
  | nil => simp [insert, h]
  | cons head rest ih =>
    obtain ⟨n, w⟩ := head
    rw [insert]
    split
    · rw [List.lookup_cons, hk]
    · split
      case isTrue heq =>
        subst heq
        simp only [List.lookup_cons, hk]
      case isFalse => simp only [List.lookup_cons, ih]

/-- Gives a member a value, or takes it out. -/
def change (members : Members) : String × Option Json → Members
  | (name, some v) => insert name v members
  | (name, none) => members.filter fun m => m.1 ≠ name

theorem lookup_change_of_ne {c : String × Option Json} (h : key ≠ c.1) :
    (change members c).lookup key = members.lookup key := by
  obtain ⟨name, _ | v⟩ := c
  · induction members with
    | nil => rfl
    | cons m rest ih =>
      simp only [change] at ih ⊢
      by_cases hm : m.1 = name
      · have hne : (key == m.1) = false := beq_eq_false_iff_ne.mpr (hm ▸ h)
        rw [List.filter_cons_of_neg (by simpa using hm), List.lookup_cons, hne, ih]
      · rw [List.filter_cons_of_pos (by simpa using hm), List.lookup_cons, List.lookup_cons, ih]
  · exact lookup_insert_of_ne h

/-- Changes of other members do not matter to a member. -/
theorem lookup_foldl_change {changes : List (String × Option Json)}
    (h : ∀ c ∈ changes, key ≠ c.1) :
    (changes.foldl change members).lookup key = members.lookup key := by
  induction changes generalizing members with
  | nil => rfl
  | cons c changes ih =>
    rw [List.foldl_cons, ih fun d hd => h d (List.mem_cons_of_mem _ hd),
      lookup_change_of_ne (h c (by simp))]

/-- Behind all smaller names a member goes to the end. -/
theorem insert_eq_append (h : ∀ m ∈ members, m.1 < name) :
    insert name v members = members ++ [(name, v)] := by
  induction members with
  | nil => rfl
  | cons head rest ih =>
    obtain ⟨n, w⟩ := head
    have hn : n < name := h (n, w) (by simp)
    have hge : ¬ name < n := fun hlt => String.lt_irrefl _ (String.lt_trans hn hlt)
    have hne : name ≠ n := by
      rintro rfl
      exact String.lt_irrefl _ hn
    rw [insert, if_neg hge, if_neg hne, ih fun m hm => h m (List.mem_cons_of_mem _ hm)]
    rfl

theorem ofMembers_append (a b : Members) :
    ofMembers (a ++ b) = b.foldl (fun sorted m => insert m.1 m.2 sorted) (ofMembers a) :=
  List.foldl_append

theorem ofMembers_concat (members : Members) (m : String × Json) :
    ofMembers (members ++ [m]) = insert m.1 m.2 (ofMembers members) := by
  rw [ofMembers_append]
  rfl

theorem ascending_ofMembers (members : Members) : Ascending (ofMembers members) := by
  induction members using List.reverseRecOn with
  | nil => exact List.Pairwise.nil
  | append_singleton members m ih =>
    rw [ofMembers_concat]
    exact ascending_insert ih

theorem mem_of_mem_ofMembers {m : String × Json} (h : m ∈ ofMembers members) : m ∈ members := by
  induction members using List.reverseRecOn with
  | nil => exact h
  | append_singleton members n ih =>
    rw [ofMembers_concat] at h
    rcases mem_insert h with rfl | h
    · simp
    · exact List.mem_append_left _ (ih h)

/-- Of members with one name the last one counts. -/
theorem lookup_ofMembers (members : Members) (key : String) :
    (ofMembers members).lookup key = members.reverse.lookup key := by
  induction members using List.reverseRecOn with
  | nil => rfl
  | append_singleton members m ih =>
    obtain ⟨n, w⟩ := m
    rw [ofMembers_concat, List.reverse_append, List.reverse_singleton, List.singleton_append,
      List.lookup_cons]
    by_cases h : key = n
    · subst h
      simp
    · rw [lookup_insert_of_ne h, ih, beq_eq_false_iff_ne.mpr h]

/-- Members that ascend already stay as they are. -/
theorem ofMembers_of_ascending (h : Ascending members) : ofMembers members = members := by
  induction members using List.reverseRecOn with
  | nil => rfl
  | append_singleton members m ih =>
    obtain ⟨hinit, -, hlast⟩ := List.pairwise_append.mp h
    rw [ofMembers_concat, ih hinit]
    exact insert_eq_append fun n hn => hlast n hn m (by simp)

/-- Members whose names are all different are all kept. -/
theorem mem_ofMembers (h : (members.map Prod.fst).Nodup) {m : String × Json} :
    m ∈ ofMembers members ↔ m ∈ members := by
  refine ⟨mem_of_mem_ofMembers, fun hm => ?_⟩
  have hnodup : (members.reverse.map Prod.fst).Nodup :=
    ((List.reverse_perm members).map Prod.fst).nodup_iff.mpr h
  apply mem_of_lookup
  rw [lookup_ofMembers]
  exact lookup_of_mem_of_nodup hnodup (List.mem_reverse.mpr hm)

theorem eq_of_ascending {others : Members} (h : Ascending members) (h' : Ascending others)
    (hmem : ∀ m, m ∈ members ↔ m ∈ others) : members = others := by
  have hperm : members.Perm others :=
    (List.perm_ext_iff_of_nodup (List.Nodup.of_map _ (nodup_of_ascending h))
      (List.Nodup.of_map _ (nodup_of_ascending h'))).mpr hmem
  refine hperm.eq_of_pairwise (fun m n _ _ hlt hgt => ?_) h h'
  exact absurd (String.lt_trans hlt hgt) (String.lt_irrefl _)

/-- The order of members with different names does not matter. -/
theorem ofMembers_perm {others : Members} (h : members.Perm others)
    (hnames : (members.map Prod.fst).Nodup) : ofMembers members = ofMembers others := by
  refine eq_of_ascending (ascending_ofMembers _) (ascending_ofMembers _) fun m => ?_
  have hothers : (others.map Prod.fst).Nodup := (h.map Prod.fst).nodup_iff.mp hnames
  rw [mem_ofMembers hnames, mem_ofMembers hothers, h.mem_iff]

end Generation.Json
