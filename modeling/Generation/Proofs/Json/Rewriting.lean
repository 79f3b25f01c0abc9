import Generation.Proofs.Json.Parts
import Mathlib.Data.List.Perm.Basic

/-!
Texts of one value, written down in different ways: with other blanks and escapes, with the members
of objects in another order, and, in the members of one name, with strings in another order and
number. What is read of such texts differs as little.
-/
namespace Generation.Json

namespace Grammar

/-- An item that is a string, with the characters that it stands for. -/
structure Item.Spelling (x : Item) (ts : List Char) : Prop where
  spaced : x.Spaced
  spells : ∃ cs, x.value = '"' :: (cs ++ ['"']) ∧ Spells cs ts

/-- A member that is written in two ways. -/
structure Twins where
  name : List Char
  left : Member
  right : Member

structure Twins.WellFormed (t : Twins) : Prop where
  left : t.left.WellFormed
  right : t.right.WellFormed
  spellsLeft : Spells t.left.heading.name t.name
  spellsRight : Spells t.right.heading.name t.name

def arrayText (items : List Item) (blank : List Char) : List Char :=
  '[' :: (listed (items.map Item.text) ++ (blank ++ [']']))

def objectText (members : List Member) (blank : List Char) : List Char :=
  '\x7b' :: (listed (members.map Member.text) ++ (blank ++ ['\x7d']))

/-- Two ways to write a value, which may be that of a member. Lists of strings are sets in the
members of the given name. -/
inductive Rewritten (sets : String) : Option String → List Char → List Char → Prop where
  | same {member : Option String} {cs : List Char} : IsValue cs → Rewritten sets member cs cs
  | string {member : Option String} {cs ds ts : List Char} : Spells cs ts → Spells ds ts →
    Rewritten sets member ('"' :: (cs ++ ['"'])) ('"' :: (ds ++ ['"']))
  | array {member : Option String} {pairs : List (Item × Item)} {blank blank' : List Char} :
    (∀ p ∈ pairs, p.1.Spaced ∧ p.2.Spaced) →
    (∀ p ∈ pairs, Rewritten sets none p.1.value p.2.value) → IsBlank blank → IsBlank blank' →
    Rewritten sets member (arrayText (pairs.map Prod.fst) blank)
      (arrayText (pairs.map Prod.snd) blank')
  | object {member : Option String} {twins : List Twins} {others : List Member}
    {blank blank' : List Char} : (∀ t ∈ twins, t.WellFormed) → (twins.map Twins.name).Nodup →
    (∀ t ∈ twins, Rewritten sets (some (String.ofList t.name)) t.left.value t.right.value) →
    others.Perm (twins.map Twins.right) → IsBlank blank → IsBlank blank' →
    Rewritten sets member (objectText (twins.map Twins.left) blank) (objectText others blank')
  | set {items items' : List Item} {names names' : List (List Char)} {blank blank' : List Char} :
    items.Forall₂ Item.Spelling names → items'.Forall₂ Item.Spelling names' →
    (∀ ts, ts ∈ names ↔ ts ∈ names') → IsBlank blank → IsBlank blank' →
    Rewritten sets (some sets) (arrayText items blank) (arrayText items' blank')

theorem isValue_of_spelling {items : List Item} {names : List (List Char)}
    (h : items.Forall₂ Item.Spelling names) :
    (∀ x ∈ items, x.Spaced) ∧ ∀ x ∈ items, IsValue x.value := by
  induction h with
  | nil => exact ⟨by simp, by simp⟩
  | cons hx _ ih =>
    obtain ⟨cs, hvalue, hcs⟩ := hx.spells
    have hhead := IsValue.string (isString_of_spells hcs)
    rw [← hvalue] at hhead
    exact ⟨List.forall_mem_cons.mpr ⟨hx.spaced, ih.1⟩, List.forall_mem_cons.mpr ⟨hhead, ih.2⟩⟩

theorem isValue_of_rewritten {sets : String} {member : Option String} {cs ds : List Char}
    (h : Rewritten sets member cs ds) : IsValue cs ∧ IsValue ds := by
  induction h with
  | same h => exact ⟨h, h⟩
  | string h h' => exact ⟨.string (isString_of_spells h), .string (isString_of_spells h')⟩
  | array hspaced _ hb hb' ih =>
    exact ⟨.array (List.forall_mem_map.mpr fun p hp => (hspaced p hp).1)
        (List.forall_mem_map.mpr fun p hp => (ih p hp).1) hb,
      .array (List.forall_mem_map.mpr fun p hp => (hspaced p hp).2)
        (List.forall_mem_map.mpr fun p hp => (ih p hp).2) hb'⟩
  | object htwins _ _ hperm hb hb' ih =>
    refine ⟨.object (List.forall_mem_map.mpr fun t ht => (htwins t ht).left)
        (List.forall_mem_map.mpr fun t ht => (ih t ht).1) hb,
      .object (fun m hm => ?_) (fun m hm => ?_) hb'⟩
    · obtain ⟨t, ht, rfl⟩ := List.mem_map.mp (hperm.mem_iff.mp hm)
      exact (htwins t ht).right
    · obtain ⟨t, ht, rfl⟩ := List.mem_map.mp (hperm.mem_iff.mp hm)
      exact (ih t ht).2
  | set h h' _ hb hb' =>
    obtain ⟨hspaced, hvalues⟩ := isValue_of_spelling h
    obtain ⟨hspaced', hvalues'⟩ := isValue_of_spelling h'
    exact ⟨.array hspaced hvalues hb, .array hspaced' hvalues' hb'⟩

end Grammar

mutual

/-- Values, which may be those of a member, that differ in nothing but lists of strings that are
sets. -/
inductive Alike (sets : String) : Option String → Json → Json → Prop where
  | same {member : Option String} (v : Json) : Alike sets member v v
  | array {member : Option String} {items items' : List Json} :
    items.Forall₂ (Alike sets none) items' → Alike sets member (.array items) (.array items')
  | object {member : Option String} {members members' : Members} :
    AlikeMembers sets members members' → Alike sets member (.object members) (.object members')
  | set {names names' : List String} : (∀ s, s ∈ names ↔ s ∈ names') →
    Alike sets (some sets) (.array (names.map .string)) (.array (names'.map .string))

inductive AlikeMembers (sets : String) : Members → Members → Prop where
  | nil : AlikeMembers sets [] []
  | cons {key : String} {v w : Json} {members members' : Members} :
    Alike sets (some key) v w → AlikeMembers sets members members' →
    AlikeMembers sets ((key, v) :: members) ((key, w) :: members')

end

open Grammar

variable {sets name : String} {members members' : Members} {v w : Json}

theorem alikeMembers_insert (h : AlikeMembers sets members members')
    (hv : Alike sets (some name) v w) :
    AlikeMembers sets (insert name v members) (insert name w members') := by
  induction members generalizing members' with
  | nil =>
    cases h
    exact .cons hv .nil
  | cons m rest ih =>
    cases h with
    | @cons key _ _ _ _ hm hrest =>
      rw [insert, insert]
      by_cases hlt : name < key
      · rw [if_pos hlt, if_pos hlt]
        exact .cons hv (.cons hm hrest)
      · rw [if_neg hlt, if_neg hlt]
        by_cases heq : name = key
        · rw [if_pos heq, if_pos heq]
          exact .cons hv hrest
        · rw [if_neg heq, if_neg heq]
          exact .cons hm (ih hrest)

theorem alikeMembers_foldl {sorted sorted' : Members} (h : AlikeMembers sets members members')
    (hsorted : AlikeMembers sets sorted sorted') :
    AlikeMembers sets (members.foldl (fun sorted m => insert m.1 m.2 sorted) sorted)
      (members'.foldl (fun sorted m => insert m.1 m.2 sorted) sorted') := by
  induction members generalizing members' sorted sorted' with
  | nil =>
    cases h
    exact hsorted
  | cons m rest ih =>
    cases h with
    | cons hm hrest =>
      rw [List.foldl_cons, List.foldl_cons]
      exact ih hrest (alikeMembers_insert hsorted hm)

theorem alikeMembers_ofMembers (h : AlikeMembers sets members members') :
    AlikeMembers sets (ofMembers members) (ofMembers members') :=
  alikeMembers_foldl h .nil

theorem alikeMembers_refl (sets : String) (members : Members) :
    AlikeMembers sets members members := by
  induction members with
  | nil => exact .nil
  | cons m rest ih => exact .cons (.same m.2) ih

/-- What stands under one name is alike. -/
theorem lookup_alike (h : AlikeMembers sets members members') (key : String) :
    (members.lookup key = none ∧ members'.lookup key = none) ∨
      ∃ v w, members.lookup key = some v ∧ members'.lookup key = some w ∧
        Alike sets (some key) v w := by
  induction members generalizing members' with
  | nil =>
    cases h
    exact Or.inl ⟨rfl, rfl⟩
  | cons m rest ih =>
    cases h with
    | @cons name v w _ _ hm hrest =>
      rw [List.lookup_cons, List.lookup_cons]
      by_cases hname : key = name
      · subst hname
        exact Or.inr ⟨v, w, by simp, by simp, hm⟩
      · rw [beq_eq_false_iff_ne.mpr hname]
        exact ih hrest

variable {member : Option String}

theorem string?_alike (h : Alike sets member v w) : v.string? = w.string? := by
  cases h <;> rfl

theorem word?_alike (h : Alike sets member v w) : v.word? = w.word? := by
  cases h <;> rfl

theorem object_alike (h : Alike sets member v w) :
    (v.object? = none ∧ w.object? = none) ∨
      ∃ ms ns, v = .object ms ∧ w = .object ns ∧ AlikeMembers sets ms ns := by
  cases h with
  | same =>
    cases v with
    | object ms => exact Or.inr ⟨ms, ms, rfl, rfl, alikeMembers_refl sets ms⟩
    | _ => exact Or.inl ⟨rfl, rfl⟩
  | array | set => exact Or.inl ⟨rfl, rfl⟩
  | object h => exact Or.inr ⟨_, _, rfl, rfl, h⟩

/-! What is read of two ways to write a value -/

section

open Read

variable {read : List UInt8 → Except Fault (Json × List UInt8)} {vs ws : List Json}
  {pairs : List (Item × Item)} {twins : List Twins}

theorem forall₂_of_pairs
    (h : ∀ p ∈ pairs, ∀ v w, ReadBy read p.1.value v → ReadBy read p.2.value w →
      Alike sets none v w)
    (hvs : (pairs.map Prod.fst).Forall₂ (fun x v => ReadBy read x.value v) vs)
    (hws : (pairs.map Prod.snd).Forall₂ (fun x w => ReadBy read x.value w) ws) :
    vs.Forall₂ (Alike sets none) ws := by
  induction pairs generalizing vs ws with
  | nil =>
    cases hvs
    cases hws
    exact .nil
  | cons p rest ih =>
    cases hvs with
    | cons hv hvs =>
      cases hws with
      | cons hw hws =>
        exact .cons (h p (by simp) _ _ hv hw) (ih (fun q hq => h q (by simp [hq])) hvs hws)

theorem alikeMembers_of_twins (hwell : ∀ t ∈ twins, t.WellFormed)
    (h : ∀ t ∈ twins, ∀ v w, ReadBy read t.left.value v → ReadBy read t.right.value w →
      Alike sets (some (String.ofList t.name)) v w)
    (hleft : (twins.map Twins.left).Forall₂ (Reads read) members)
    (hright : (twins.map Twins.right).Forall₂ (Reads read) members') :
    AlikeMembers sets members members' := by
  induction twins generalizing members members' with
  | nil =>
    cases hleft
    cases hright
    exact .nil
  | cons t rest ih =>
    cases hleft with
    | @cons _ m _ ms hm hms =>
      cases hright with
      | @cons _ n _ ns hn hns =>
        obtain ⟨key, v⟩ := m
        obtain ⟨key', w⟩ := n
        have ht := hwell t (by simp)
        obtain rfl : key = _ := hm.name _ ht.spellsLeft
        obtain rfl : key' = _ := hn.name _ ht.spellsRight
        exact .cons (h t (by simp) _ _ hm.value hn.value)
          (ih (fun u hu => hwell u (by simp [hu])) (fun u hu => h u (by simp [hu])) hms hns)

theorem names_of_twins (hwell : ∀ t ∈ twins, t.WellFormed)
    (h : (twins.map Twins.right).Forall₂ (Reads read) members) :
    members.map Prod.fst = (twins.map Twins.name).map String.ofList := by
  induction twins generalizing members with
  | nil =>
    cases h
    rfl
  | cons t rest ih =>
    cases h with
    | cons hm hms =>
      rw [List.map_cons, hm.name _ (hwell t (by simp)).spellsRight,
        ih (fun u hu => hwell u (by simp [hu])) hms]
      rfl

/-- The members of an object that is written in two ways are put together to objects alike. -/
theorem alike_ofMembers {others : List Member} (hwell : ∀ t ∈ twins, t.WellFormed)
    (hnames : (twins.map Twins.name).Nodup)
    (h : ∀ t ∈ twins, ∀ v w, ReadBy read t.left.value v → ReadBy read t.right.value w →
      Alike sets (some (String.ofList t.name)) v w)
    (hperm : others.Perm (twins.map Twins.right))
    (hleft : (twins.map Twins.left).Forall₂ (Reads read) members)
    (hothers : others.Forall₂ (Reads read) members') :
    AlikeMembers sets (ofMembers members) (ofMembers members') := by
  -- the members of the second text, in the order of the first
  obtain ⟨right, hright, hsame⟩ := List.perm_comp_forall₂ hperm.symm hothers
  have hnodup : (right.map Prod.fst).Nodup := by
    rw [names_of_twins hwell hright]
    exact hnames.map fun _ _ => String.ofList_injective
  rw [← ofMembers_perm hsame hnodup]
  exact alikeMembers_ofMembers (alikeMembers_of_twins hwell h hleft hright)

theorem eq_of_spelling {n : Nat} {items : List Item} {names : List (List Char)}
    (h : items.Forall₂ Item.Spelling names)
    (hvs : items.Forall₂ (fun x v => ReadBy (value n) x.value v) vs) :
    vs = (names.map String.ofList).map .string := by
  induction h generalizing vs with
  | nil =>
    cases hvs
    rfl
  | cons hx _ ih =>
    cases hvs with
    | cons hv hvs =>
      obtain ⟨cs, hvalue, hcs⟩ := hx.spells
      rw [hvalue] at hv
      rw [hv.unique (readBy_of_spells hcs n), ih hvs]
      rfl

/-- What is read of two ways to write a value is alike. -/
theorem alike_of_rewritten {n : Nat} {member : Option String} {cs ds : List Char}
    (h : Rewritten sets member cs ds) (hv : ReadBy (value n) cs v) (hw : ReadBy (value n) ds w) :
    Alike sets member v w := by
  -- the depth is left open, since every bracket takes one off it in both texts
  induction h generalizing n v w with
  | same _ =>
    rw [hv.unique hw]
    exact .same w
  | string hcs hds =>
    rw [hv.unique (readBy_of_spells hcs n), hw.unique (readBy_of_spells hds n)]
    exact .same _
  | array hspaced hvalues hb hb' ih =>
    obtain ⟨m, vs, rfl, rfl, hvs⟩ := items_of_readBy
      (List.forall_mem_map.mpr fun p hp => (hspaced p hp).1)
      (List.forall_mem_map.mpr fun p hp => (isValue_of_rewritten (hvalues p hp)).1) hb hv
    obtain ⟨m', ws, hm, rfl, hws⟩ := items_of_readBy
      (List.forall_mem_map.mpr fun p hp => (hspaced p hp).2)
      (List.forall_mem_map.mpr fun p hp => (isValue_of_rewritten (hvalues p hp)).2) hb' hw
    obtain rfl := Nat.succ.inj hm
    exact .array (forall₂_of_pairs (fun p hp v w hv hw => ih p hp hv hw) hvs hws)
  | @object _ _ others _ _ hwell hnames hvalues hperm hb hb' ih =>
    have hright : ∀ m ∈ others, m.WellFormed ∧ IsValue m.value := fun m hm => by
      obtain ⟨t, ht, rfl⟩ := List.mem_map.mp (hperm.mem_iff.mp hm)
      exact ⟨(hwell t ht).right, (isValue_of_rewritten (hvalues t ht)).2⟩
    obtain ⟨m, ms, rfl, rfl, hms⟩ := members_of_readBy
      (List.forall_mem_map.mpr fun t ht => (hwell t ht).left)
      (List.forall_mem_map.mpr fun t ht => (isValue_of_rewritten (hvalues t ht)).1) hb hv
    obtain ⟨m', ns, hm, rfl, hns⟩ := members_of_readBy (fun m hm => (hright m hm).1)
      (fun m hm => (hright m hm).2) hb' hw
    obtain rfl := Nat.succ.inj hm
    exact .object (alike_ofMembers hwell hnames (fun t ht v w hv hw => ih t ht hv hw) hperm hms hns)
  | set h h' hsame hb hb' =>
    obtain ⟨hspaced, hvalues⟩ := isValue_of_spelling h
    obtain ⟨hspaced', hvalues'⟩ := isValue_of_spelling h'
    obtain ⟨m, vs, rfl, rfl, hvs⟩ := items_of_readBy hspaced hvalues hb hv
    obtain ⟨m', ws, hm, rfl, hws⟩ := items_of_readBy hspaced' hvalues' hb' hw
    obtain rfl := Nat.succ.inj hm
    rw [eq_of_spelling h hvs, eq_of_spelling h' hws]
    refine .set fun s => ?_
    simp only [List.mem_map, hsame]

end

end Generation.Json
