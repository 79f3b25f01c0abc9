import Generation.Proofs.Json.Limits
import Generation.Proofs.Json.Parsed

/-!
Arrays and objects of the grammar that are read. Each of their parts is read, and what is read of
the whole is put together from what is read of the parts.
-/
namespace Generation.Json.Read

open Grammar
open Text (encode)

variable {α : Type} {read : List UInt8 → Except Fault (α × List UInt8)} {n : Nat} {first : Bool}
  {cs ts gap blank : List Char} {s tail rest u r : List UInt8} {a b : α} {v : Json} {vs : List α}
  {xs : List Item} {ms : List Member} {ws : List (String × α)}

theorem ReadBy.unique (h : ReadBy read cs a) (h' : ReadBy read cs b) : a = b := by
  have hsame := (h.reads_append delimited_nil).symm.trans (h'.reads_append delimited_nil)
  cases hsame
  rfl

/-! Arrays -/

theorem readBy_of_items {x : Item} (hafter : IsBlank x.after)
    (h : Settles (Place x.value) read x.value) (htail : Delimited tail)
    (hnext : nextItem first s = .ok (true, encode x.value ++ (encode x.after ++ tail)))
    (hread : items read n first s = .ok (vs, r)) :
    ∃ m a as, vs = a :: as ∧ ReadBy read x.value a ∧
      items read m false (encode x.after ++ tail) = .ok (as, r) := by
  obtain ⟨m, -, ⟨t, hstop, -⟩ | ⟨t, u, a, as, hgo, hitem, hrest, rfl⟩⟩ := items_cases hread
  · rw [hnext] at hstop
    cases hstop
  · rw [hnext] at hgo
    cases hgo
    obtain ⟨hread, rfl⟩ :=
      h.readBy ⟨_, _, delimited_append hafter htail, h.starts.skipSpace _⟩ hitem
    exact ⟨m, a, as, rfl, hread, hrest⟩

theorem nil_of_items (hnext : nextItem first s = .ok (false, u))
    (hread : items read n first s = .ok (vs, r)) : vs = [] := by
  obtain ⟨m, -, ⟨t, -, rfl, -⟩ | ⟨t, u, a, as, hgo, -⟩⟩ := items_cases hread
  · rfl
  · rw [hnext] at hgo
    cases hgo

theorem readBy_of_itemsTail (hspaced : ∀ x ∈ xs, x.Spaced)
    (h : ∀ x ∈ xs, Settles (Place x.value) read x.value) (hgap : IsBlank gap) (hb : IsBlank blank)
    (hread : items read n false (encode gap ++ (encode (itemsTail xs blank) ++ rest)) =
      .ok (vs, r)) : xs.Forall₂ (fun x a => ReadBy read x.value a) vs := by
  induction xs generalizing gap n vs with
  | nil =>
    rw [nil_of_items (nextItem_itemsTail_nil hgap hb rest) hread]
    exact .nil
  | cons x xs ih =>
    have hx := hspaced x (by simp)
    have hsettles := h x (by simp)
    obtain ⟨m, a, as, rfl, ha, hlater⟩ := readBy_of_items hx.after hsettles
      (delimited_itemsTail hb xs rest)
      (nextItem_itemsTail_cons hgap hx hsettles.starts xs rest) hread
    exact .cons ha (ih (fun y hy => hspaced y (by simp [hy])) (fun y hy => h y (by simp [hy]))
      hx.after hlater)

theorem readBy_of_listed (hspaced : ∀ x ∈ xs, x.Spaced)
    (h : ∀ x ∈ xs, Settles (Place x.value) read x.value) (hb : IsBlank blank)
    (hread : items read n true
      (encode (listed (xs.map Item.text) ++ (blank ++ [']'])) ++ rest) = .ok (vs, r)) :
    xs.Forall₂ (fun x a => ReadBy read x.value a) vs := by
  cases xs with
  | nil =>
    rw [nil_of_items (nextItem_listed_nil hb rest) hread]
    exact .nil
  | cons x xs =>
    have hx := hspaced x (by simp)
    have hsettles := h x (by simp)
    obtain ⟨m, a, as, rfl, ha, hlater⟩ := readBy_of_items hx.after hsettles
      (delimited_itemsTail hb xs rest) (nextItem_listed_cons hx hsettles.starts xs rest) hread
    exact .cons ha (readBy_of_itemsTail (fun y hy => hspaced y (by simp [hy]))
      (fun y hy => h y (by simp [hy])) hx.after hb hlater)

/-- An array is read item by item. -/
theorem items_of_readBy (hspaced : ∀ x ∈ xs, x.Spaced) (h : ∀ x ∈ xs, IsValue x.value)
    (hb : IsBlank blank)
    (hread : ReadBy (value n) ('[' :: (listed (xs.map Item.text) ++ (blank ++ [']']))) v) :
    ∃ m vs, n = m + 1 ∧ v = .array vs ∧
      xs.Forall₂ (fun x w => ReadBy (value m) x.value w) vs := by
  have hvalue := hread.reads_append delimited_nil
  have hopen := hread.starts.skipSpace []
  cases n with
  | zero =>
    obtain ⟨e, he, -⟩ := refused_open (Or.inl hopen)
    cases hvalue.symm.trans he
  | succ m =>
    rw [value_bracket hopen] at hvalue
    obtain ⟨⟨vs, u⟩, hitems, heq⟩ := map_eq_ok hvalue
    cases heq
    exact ⟨m, vs, rfl, rfl, readBy_of_listed hspaced (fun x hx => settles_value (h x hx) m) hb hitems⟩

/-! Objects -/

/-- What is read of a member: the name that it spells, and what its value is read as. -/
structure Reads (read : List UInt8 → Except Fault (α × List UInt8)) (m : Member)
    (w : String × α) : Prop where
  name : ∀ ts, Spells m.heading.name ts → w.1 = String.ofList ts
  value : ReadBy read m.value w.2

theorem name_of_string {name : String} (hcs : IsString cs)
    (h : string (encode cs ++ '"'.toUInt8 :: s) = .ok (name, u)) :
    (∀ ts, Spells cs ts → name = String.ofList ts) ∧ u = s := by
  have hname (ts : List Char) (hts : Spells cs ts) : name = String.ofList ts ∧ u = s := by
    have hsame := (string_of_spells hts s).symm.trans h
    cases hsame
    exact ⟨rfl, rfl⟩
  refine ⟨fun ts hts => (hname ts hts).1, ?_⟩
  rcases spells_or_refused hcs with ⟨ts, hts⟩ | hrefused
  · exact (hname ts hts).2
  · obtain ⟨e, he, -⟩ := refused_string (hrefused s)
    cases h.symm.trans he

theorem reads_of_members {m : Member} (hm : m.WellFormed)
    (h : Settles (Place m.value) read m.value) (htail : Delimited tail)
    (hnext : nextMember first s = nextMember true (encode m.text ++ tail))
    (hread : members read n first s = .ok (ws, r)) :
    ∃ k w later, ws = w :: later ∧ Reads read m w ∧
      members read k false (encode m.after ++ tail) = .ok (later, r) := by
  rw [nextMember_member hm.heading.before] at hnext
  obtain ⟨k, -, ⟨t, hstop, -⟩ | ⟨t, u, x, y, name, a, as, hgo, hname, hcolon, hvalue, hrest, rfl⟩⟩ :=
    members_cases hread
  · rw [hnext] at hstop
    cases hstop
  · rw [hnext] at hgo
    cases hgo
    obtain ⟨hspelled, rfl⟩ := name_of_string hm.heading.name hname
    cases (skipColon_append hm.heading.beforeColon _).symm.trans hcolon
    have hbehind : skipSpace (encode m.heading.afterColon ++
        (encode m.value ++ (encode m.after ++ tail))) =
          encode m.value ++ (encode m.after ++ tail) := by
      rw [skipSpace_append (blank_encode hm.heading.afterColon), h.starts.skipSpace]
    obtain ⟨ha, rfl⟩ := h.readBy ⟨_, _, delimited_append hm.after htail, hbehind⟩ hvalue
    exact ⟨k, (name, a), as, rfl, ⟨hspelled, ha⟩, hrest⟩

theorem nil_of_members (hnext : nextMember first s = .ok (false, u))
    (hread : members read n first s = .ok (ws, r)) : ws = [] := by
  obtain ⟨m, -, ⟨t, -, rfl, -⟩ | ⟨t, u, x, y, name, a, as, hgo, -⟩⟩ := members_cases hread
  · rfl
  · rw [hnext] at hgo
    cases hgo

theorem reads_of_laterText (hms : ∀ m ∈ ms, m.WellFormed)
    (h : ∀ m ∈ ms, Settles (Place m.value) read m.value) (hgap : IsBlank gap) (hb : IsBlank blank)
    (hread : members read n false (encode gap ++ (encode (laterText ms) ++
      (encode blank ++ '\x7d'.toUInt8 :: rest))) = .ok (ws, r)) :
    ms.Forall₂ (Reads read) ws := by
  induction ms generalizing gap n ws with
  | nil =>
    rw [nil_of_members (nextMember_brace false hgap hb rest) hread]
    exact .nil
  | cons m ms ih =>
    rw [encode_laterText_cons] at hread
    have hm := hms m (by simp)
    obtain ⟨k, w, later, rfl, hw, hlater⟩ := reads_of_members hm (h m (by simp))
      (delimited_laterText (delimited_brace hb rest) ms)
      (nextMember_later hgap hm.heading.before _) hread
    exact .cons hw (ih (fun x hx => hms x (by simp [hx])) (fun x hx => h x (by simp [hx]))
      hm.after hlater)

theorem reads_of_listed (hms : ∀ m ∈ ms, m.WellFormed)
    (h : ∀ m ∈ ms, Settles (Place m.value) read m.value) (hb : IsBlank blank)
    (hread : members read n true
      (encode (listed (ms.map Member.text) ++ (blank ++ ['\x7d'])) ++ rest) = .ok (ws, r)) :
    ms.Forall₂ (Reads read) ws := by
  cases ms with
  | nil =>
    rw [encode_listed_nil] at hread
    rw [nil_of_members (nextMember_brace true (by simp [IsBlank]) hb rest) hread]
    exact .nil
  | cons m ms =>
    rw [encode_listed_cons] at hread
    have hm := hms m (by simp)
    obtain ⟨k, w, later, rfl, hw, hlater⟩ := reads_of_members hm (h m (by simp))
      (delimited_laterText (delimited_brace hb rest) ms) rfl hread
    exact .cons hw (reads_of_laterText (fun x hx => hms x (by simp [hx]))
      (fun x hx => h x (by simp [hx])) hm.after hb hlater)

/-- An object is read member by member. -/
theorem members_of_readBy (hms : ∀ m ∈ ms, m.WellFormed) (h : ∀ m ∈ ms, IsValue m.value)
    (hb : IsBlank blank)
    (hread : ReadBy (value n)
      ('\x7b' :: (listed (ms.map Member.text) ++ (blank ++ ['\x7d']))) v) :
    ∃ m ws, n = m + 1 ∧ v = .object (ofMembers ws) ∧ ms.Forall₂ (Reads (value m)) ws := by
  have hvalue := hread.reads_append delimited_nil
  have hopen := hread.starts.skipSpace []
  cases n with
  | zero =>
    obtain ⟨e, he, -⟩ := refused_open (Or.inr hopen)
    cases hvalue.symm.trans he
  | succ m =>
    rw [value_brace hopen] at hvalue
    obtain ⟨⟨ws, u⟩, hmembers, heq⟩ := map_eq_ok hvalue
    cases heq
    exact ⟨m, ws, rfl, rfl, reads_of_listed hms (fun x hx => settles_value (h x hx) m) hb hmembers⟩

/-! Strings and whole texts -/

theorem readBy_of_spells (h : Spells cs ts) (n : Nat) :
    ReadBy (value n) ('"' :: (cs ++ ['"'])) (.string (String.ofList ts)) := by
  refine ⟨starts_cons (by decide) (by decide) (by decide) _, fun s rest _ hs => ?_⟩
  have htext : encode ('"' :: (cs ++ ['"'])) ++ rest =
      '"'.toUInt8 :: (encode cs ++ '"'.toUInt8 :: rest) := by
    simp [Text.encode_cons, Text.encodeChar_of_lt]
  rw [htext] at hs
  rw [value, hs]
  change (string (encode cs ++ '"'.toUInt8 :: rest)).map _ = _
  rw [string_of_spells h]
  rfl

/-- The value of a text is what the text between its blanks is read as. -/
theorem readBy_of_parse {x : Item} (hx : x.Spaced) (h : IsValue x.value)
    (hparse : parse (encode x.text) = .ok v) : ReadBy (value maxDepth) x.value v := by
  obtain ⟨r, hvalue, -⟩ := value_of_parse hparse
  have hsettles : Settles (Place x.value) (value maxDepth) x.value := settles_value h maxDepth
  have hbehind : skipSpace (encode x.text) = encode x.value ++ (encode x.after ++ []) := by
    rw [Item.text, Text.encode_append, Text.encode_append, List.append_nil,
      skipSpace_append (blank_encode hx.before), hsettles.starts.skipSpace]
  exact (hsettles.readBy ⟨_, _, delimited_append hx.after delimited_nil, hbehind⟩ hvalue).1

end Generation.Json.Read
