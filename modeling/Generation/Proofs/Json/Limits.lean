import Generation.Proofs.Json.Spelling

/-!
Values of the grammar. Each of them is read as a value up to its last character, or it is refused
for a limit of the reader, whatever follows it.
-/
namespace Generation.Json.Read

open Grammar
open Text (encode)

variable {ι α γ δ : Type} {rest : ι → List UInt8} {cs gap blank : List Char} {s t : List UInt8}

/-! Blanks -/

theorem blank_encode (h : IsBlank cs) : Blank (encode cs) := by
  have hlt : ∀ c ∈ cs, c.toNat < 128 := by
    intro c hc
    rcases h c hc with rfl | rfl | rfl | rfl <;> decide
  rw [Text.encode_of_lt hlt]
  intro b hb
  obtain ⟨c, hc, rfl⟩ := List.mem_map.mp hb
  rcases h c hc with rfl | rfl | rfl | rfl <;> decide

theorem delimited_append (h : IsBlank gap) (hs : Delimited s) : Delimited (encode gap ++ s) := by
  have hb := blank_encode h
  cases hgap : encode gap with
  | nil => exact hs
  | cons b bs => exact delimited_of_isSpace (hb b (by simp [hgap])) _

/-! Lists -/

/-- A reader takes a text behind blanks, or refuses it, whatever follows. -/
structure Settles (ι : Type) (read : List UInt8 → Except Fault (α × List UInt8))
    (cs : List Char) : Prop where
  starts : Starts (encode cs)
  takes : ∀ s rest : ι → List UInt8, (∀ i, Delimited (rest i)) →
    (∀ i, skipSpace (s i) = encode cs ++ rest i) → Takes (fun i => read (s i)) rest

variable {read : List UInt8 → Except Fault (α × List UInt8)} {n : Nat} {first : Bool}
  {xs : List Item} {ms : List Member}

theorem items_step (h : nextItem first s = .ok (true, t)) :
    items read (n + 1) first s =
      read t >>= fun r => items read n false r.2 >>= fun q => .ok (r.1 :: q.1, q.2) := by
  rw [items, h]
  rfl

theorem items_stop (h : nextItem first s = .ok (false, t)) :
    items read (n + 1) first s = .ok ([], t.tail) := by
  rw [items, h]
  rfl

theorem nextItem_append (h : IsBlank gap) (first : Bool) (s : List UInt8) :
    nextItem first (encode gap ++ s) = nextItem first s := by
  rw [nextItem, nextItem, skipSpace_append (blank_encode h)]

/-- Items that each have a comma before them, and the end of the list. -/
def itemsTail (xs : List Item) (blank : List Char) : List Char :=
  (xs.flatMap fun x => ',' :: x.text) ++ (blank ++ [']'])

theorem encode_itemsTail_cons (x : Item) (xs : List Item) (s : List UInt8) :
    encode (itemsTail (x :: xs) blank) ++ s = ','.toUInt8 :: (encode x.before ++ (encode x.value ++
      (encode (x.after ++ itemsTail xs blank) ++ s))) := by
  simp [itemsTail, Item.text, Text.encode_cons, Text.encodeChar_of_lt]

theorem encode_itemsTail_nil (s : List UInt8) :
    encode (itemsTail [] blank) ++ s = encode blank ++ ']'.toUInt8 :: s := by
  simp [itemsTail, Text.encode_cons, Text.encodeChar_of_lt]

theorem delimited_itemsTail (hb : IsBlank blank) (xs : List Item) (s : List UInt8) :
    Delimited (encode (itemsTail xs blank) ++ s) := by
  cases xs with
  | nil =>
    rw [encode_itemsTail_nil]
    exact delimited_blank (blank_encode hb) (Or.inl rfl)
  | cons x xs =>
    rw [encode_itemsTail_cons]
    exact delimited_comma

theorem exists_succ {m : Nat} {n : ι → Nat} (h : ∀ i, m < n i) :
    ∃ k : ι → Nat, n = fun i => k i + 1 :=
  ⟨fun i => n i - 1, funext fun i => (Nat.succ_pred_eq_of_pos (Nat.zero_lt_of_lt (h i))).symm⟩

theorem nextItem_itemsTail_nil (hgap : IsBlank gap) (hb : IsBlank blank) (s : List UInt8) :
    nextItem false (encode gap ++ (encode (itemsTail [] blank) ++ s)) =
      .ok (false, ']'.toUInt8 :: s) := by
  rw [nextItem_append hgap, encode_itemsTail_nil]
  exact nextItem_end (blank_encode hb) false s

theorem nextItem_itemsTail_cons {x : Item} (hgap : IsBlank gap) (hx : x.Spaced)
    (hstarts : Starts (encode x.value)) (xs : List Item) (s : List UInt8) :
    nextItem false (encode gap ++ (encode (itemsTail (x :: xs) blank) ++ s)) =
      .ok (true, encode x.value ++ (encode x.after ++ (encode (itemsTail xs blank) ++ s))) := by
  rw [nextItem_append hgap, encode_itemsTail_cons, nextItem_comma (blank_encode hx.before) hstarts,
    Text.encode_append, List.append_assoc]

theorem nextItem_listed_nil (hb : IsBlank blank) (s : List UInt8) :
    nextItem true (encode (listed ([].map Item.text) ++ (blank ++ [']'])) ++ s) =
      .ok (false, ']'.toUInt8 :: s) := by
  change nextItem true (encode (itemsTail [] blank) ++ s) = _
  rw [encode_itemsTail_nil]
  exact nextItem_end (blank_encode hb) true s

theorem nextItem_listed_cons {x : Item} (hx : x.Spaced) (hstarts : Starts (encode x.value))
    (xs : List Item) (s : List UInt8) :
    nextItem true (encode (listed ((x :: xs).map Item.text) ++ (blank ++ [']'])) ++ s) =
      .ok (true, encode x.value ++ (encode x.after ++ (encode (itemsTail xs blank) ++ s))) := by
  have htext : encode (listed ((x :: xs).map Item.text) ++ (blank ++ [']'])) ++ s =
      encode x.before ++ (encode x.value ++
        (encode x.after ++ (encode (itemsTail xs blank) ++ s))) := by
    simp [listed, itemsTail, Item.text, List.flatMap_map]
  rw [htext]
  exact nextItem_first (blank_encode hx.before) hstarts

theorem takes_item {x : Item} {n : ι → Nat} {s tail : ι → List UInt8} (hx : Settles ι read x.value)
    (hafter : IsBlank x.after)
    (hnext : ∀ i, nextItem first (s i) = .ok (true, encode x.value ++ (encode x.after ++ tail i)))
    (htail : ∀ i, Delimited (tail i))
    (hrest : Takes (fun i => items read (n i) false (encode x.after ++ tail i)) rest) :
    Takes (fun i => items read (n i + 1) first (s i)) rest := by
  simp only [items_step (hnext _)]
  have hread : Takes (fun i => read (encode x.value ++ (encode x.after ++ tail i)))
      fun i => encode x.after ++ tail i :=
    hx.takes _ _ (fun i => delimited_append hafter (htail i))
      fun i => hx.starts.skipSpace _
  refine Settled.bind hread fun v => ?_
  refine Settled.bind hrest fun vs => ?_
  exact Or.inl ⟨v :: vs, fun i => rfl⟩

theorem takes_itemsTail {n : ι → Nat} (hspaced : ∀ x ∈ xs, x.Spaced)
    (h : ∀ x ∈ xs, Settles ι read x.value) (hgap : IsBlank gap) (hb : IsBlank blank)
    (hn : ∀ i, xs.length < n i) :
    Takes (fun i => items read (n i) false (encode gap ++ (encode (itemsTail xs blank) ++ rest i)))
      rest := by
  obtain ⟨n, rfl⟩ := exists_succ hn
  induction xs generalizing gap n with
  | nil =>
    simp only [items_stop (nextItem_itemsTail_nil hgap hb _)]
    exact Or.inl ⟨[], fun i => rfl⟩
  | cons x xs ih =>
    have hx := hspaced x (by simp)
    have hlater : ∀ i, xs.length < n i := fun i => by simpa using hn i
    obtain ⟨k, rfl⟩ := exists_succ hlater
    have hread := h x (by simp)
    exact takes_item hread hx.after (fun i => nextItem_itemsTail_cons hgap hx hread.starts xs _)
      (fun i => delimited_itemsTail hb xs _)
      (ih (fun y hy => hspaced y (by simp [hy])) (fun y hy => h y (by simp [hy])) hx.after k hlater)

/-- All items are taken, with the bracket behind them, or the list is refused. -/
theorem takes_items {n : ι → Nat} (hspaced : ∀ x ∈ xs, x.Spaced)
    (h : ∀ x ∈ xs, Settles ι read x.value) (hb : IsBlank blank) (hn : ∀ i, xs.length < n i) :
    Takes (fun i => items read (n i) true
      (encode (listed (xs.map Item.text) ++ (blank ++ [']'])) ++ rest i)) rest := by
  obtain ⟨n, rfl⟩ := exists_succ hn
  cases xs with
  | nil =>
    simp only [items_stop (nextItem_listed_nil hb _)]
    exact Or.inl ⟨[], fun i => rfl⟩
  | cons x xs =>
    have hx := hspaced x (by simp)
    have hread := h x (by simp)
    exact takes_item hread hx.after (fun i => nextItem_listed_cons hx hread.starts xs _)
      (fun i => delimited_itemsTail hb xs _)
      (takes_itemsTail (fun y hy => hspaced y (by simp [hy])) (fun y hy => h y (by simp [hy]))
        hx.after hb fun i => by simpa using hn i)

/-! Objects -/

theorem members_step (h : nextMember first s = .ok (true, t)) :
    members read (n + 1) first s = string t >>= fun name => skipColon name.2 >>= fun u =>
      read u >>= fun r => members read n false r.2 >>= fun q =>
        .ok ((name.1, r.1) :: q.1, q.2) := by
  rw [members, h]
  rfl

theorem members_stop (h : nextMember first s = .ok (false, t)) :
    members read (n + 1) first s = .ok ([], t.tail) := by
  rw [members, h]
  rfl

theorem nextMember_append (h : IsBlank gap) (first : Bool) (s : List UInt8) :
    nextMember first (encode gap ++ s) = nextMember first s := by
  rw [nextMember, nextMember, skipSpace_append (blank_encode h)]

theorem skipColon_append (h : IsBlank gap) (s : List UInt8) :
    skipColon (encode gap ++ ':'.toUInt8 :: s) = .ok s := by
  rw [skipColon, skipSpace_append (blank_encode h), skipSpace_cons (by decide)]
  rfl

/-- One more member: its name, its value, and the members behind it. The values may differ from
run to run. -/
theorem settled_member {h : Heading} {n : ι → Nat} {s r u : ι → List UInt8} {v : α' → ι → α}
    {y : δ → ι → List (String × α) × List UInt8} (hh : h.WellFormed)
    (hnext : ∀ i, nextMember first (s i) = .ok (true, encode h.name ++ '"'.toUInt8 ::
      (encode h.beforeColon ++ ':'.toUInt8 :: (encode h.afterColon ++ u i))))
    (hread : Settled (fun i => read (encode h.afterColon ++ u i)) fun a i => (v a i, r i))
    (hrest : Settled (fun i => members read (n i) false (r i)) y) :
    Settled (fun i => members read (n i + 1) first (s i))
      fun (a : { ts // Spells h.name ts } × α' × δ) i =>
        ((String.ofList a.1.1, v a.2.1 i) :: (y a.2.2 i).1, (y a.2.2 i).2) := by
  simp only [members_step (hnext _)]
  refine Settled.bind (settled_string hh.name) fun name => ?_
  refine Settled.bind (settled_ok fun i => skipColon_append hh.beforeColon _) fun _ => ?_
  refine Settled.bind hread fun a => ?_
  refine Settled.bind hrest fun b => ?_
  exact Or.inl ⟨(name, a, b), fun i => rfl⟩

/-- Members that each have a comma before them. -/
def laterText (ms : List Member) : List Char := ms.flatMap fun m => ',' :: m.text

theorem encode_member (m : Member) (s : List UInt8) : encode m.text ++ s =
    encode m.heading.before ++ '"'.toUInt8 :: (encode m.heading.name ++ '"'.toUInt8 ::
      (encode m.heading.beforeColon ++ ':'.toUInt8 :: (encode m.heading.afterColon ++
        (encode m.value ++ (encode m.after ++ s))))) := by
  simp [Member.text, Heading.text, Text.encode_cons, Text.encodeChar_of_lt]

theorem encode_laterText_cons (m : Member) (ms : List Member) (s : List UInt8) :
    encode (laterText (m :: ms)) ++ s =
      ','.toUInt8 :: (encode m.text ++ (encode (laterText ms) ++ s)) := by
  simp [laterText, Text.encode_cons, Text.encodeChar_of_lt]

theorem nextMember_member {m : Member} (h : IsBlank m.heading.before) (s : List UInt8) :
    nextMember true (encode m.text ++ s) = .ok (true, encode m.heading.name ++ '"'.toUInt8 ::
      (encode m.heading.beforeColon ++ ':'.toUInt8 :: (encode m.heading.afterColon ++
        (encode m.value ++ (encode m.after ++ s))))) := by
  rw [encode_member, nextMember_first (blank_encode h)]

/-- Behind its comma a member is a first one. -/
theorem nextMember_later {m : Member} (hgap : IsBlank gap) (h : IsBlank m.heading.before)
    (s : List UInt8) : nextMember false (encode gap ++ ','.toUInt8 :: (encode m.text ++ s)) =
      nextMember true (encode m.text ++ s) := by
  rw [nextMember_append hgap, encode_member, nextMember_comma (blank_encode h),
    nextMember_first (blank_encode h)]

theorem nextMember_brace (first : Bool) (hgap : IsBlank gap) (hb : IsBlank blank)
    (s : List UInt8) : nextMember first (encode gap ++ (encode blank ++ '\x7d'.toUInt8 :: s)) =
      .ok (false, '\x7d'.toUInt8 :: s) := by
  rw [nextMember_append hgap]
  exact nextMember_end (blank_encode hb) first s

theorem encode_listed_nil (blank : List Char) (s : List UInt8) :
    encode (listed ([].map Member.text) ++ (blank ++ ['\x7d'])) ++ s =
      encode [] ++ (encode blank ++ '\x7d'.toUInt8 :: s) := by
  simp [listed, Text.encode_cons, Text.encodeChar_of_lt]

/-- The members of an object that has some, and the brace behind them. -/
theorem encode_listed_cons (m : Member) (ms : List Member) (blank : List Char) (s : List UInt8) :
    encode (listed ((m :: ms).map Member.text) ++ (blank ++ ['\x7d'])) ++ s =
      encode m.text ++ (encode (laterText ms) ++ (encode blank ++ '\x7d'.toUInt8 :: s)) := by
  simp [listed, laterText, List.flatMap_map, Text.encode_cons, Text.encodeChar_of_lt]

theorem delimited_laterText (hs : Delimited s) (ms : List Member) :
    Delimited (encode (laterText ms) ++ s) := by
  cases ms with
  | nil => exact hs
  | cons m ms =>
    rw [encode_laterText_cons]
    exact delimited_comma

/-- A value behind a colon. -/
theorem takes_value {h : Heading} (hh : h.WellFormed) {cs : List Char} (hcs : Settles ι read cs)
    (hr : ∀ i, Delimited (rest i)) :
    Takes (fun i => read (encode h.afterColon ++ (encode cs ++ rest i))) rest := by
  refine hcs.takes _ _ hr fun i => ?_
  rw [skipSpace_append (blank_encode hh.afterColon)]
  exact hcs.starts.skipSpace _

/-- What is read of some members, and of what stands behind them. -/
def following (y : δ → ι → List (String × α) × List UInt8) (a : List (String × α) × δ) (i : ι) :
    List (String × α) × List UInt8 :=
  (a.1 ++ (y a.2 i).1, (y a.2 i).2)

theorem Settled.following_nil {x : ι → Except Fault (List (String × α) × List UInt8)}
    {y : δ → ι → List (String × α) × List UInt8} (h : Settled x y) : Settled x (following y) := by
  rcases h with ⟨d, hd⟩ | hrefused
  · exact Or.inl ⟨([], d), hd⟩
  · exact Or.inr hrefused

/-- One member before what is read behind it. -/
theorem settled_cons {m : Member} {n : ι → Nat} {s tail : ι → List UInt8}
    {y : δ → ι → List (String × α) × List UInt8} (hm : m.WellFormed)
    (h : Settles ι read m.value) (htail : ∀ i, Delimited (tail i))
    (hnext : ∀ i, nextMember first (s i) = nextMember true (encode m.text ++ tail i))
    (hrest : Settled (fun i => members read (n i) false (encode m.after ++ tail i))
      (following y)) :
    Settled (fun i => members read (n i + 1) first (s i)) (following y) := by
  have hname (i : ι) : nextMember first (s i) = .ok (true, encode m.heading.name ++ '"'.toUInt8 ::
      (encode m.heading.beforeColon ++ ':'.toUInt8 :: (encode m.heading.afterColon ++
        (encode m.value ++ (encode m.after ++ tail i))))) := by
    rw [hnext, nextMember_member hm.heading.before]
  have hread := takes_value hm.heading h fun i => delimited_append hm.after (htail i)
  rcases settled_member hm.heading hname hread hrest with ⟨⟨name, v, vs, d⟩, hall⟩ | hrefused
  · exact Or.inl ⟨((String.ofList name.1, v) :: vs, d), hall⟩
  · exact Or.inr hrefused

section

variable {tail : ι → List UInt8} {size : Nat} {y : δ → ι → List (String × α) × List UInt8}
  {n : ι → Nat} (htail : ∀ i, Delimited (tail i))
  (hrest : ∀ (n : ι → Nat) (gap : List Char), (∀ i, size < n i) → IsBlank gap →
    Settled (fun i => members read (n i) false (encode gap ++ tail i)) y)

include htail hrest

/-- Some members, and whatever is read behind them. -/
theorem settled_laterText (hms : ∀ m ∈ ms, m.WellFormed) (h : ∀ m ∈ ms, Settles ι read m.value)
    (hn : ∀ i, size + ms.length < n i) (hgap : IsBlank gap) :
    Settled (fun i => members read (n i) false (encode gap ++ (encode (laterText ms) ++ tail i)))
      (following y) := by
  induction ms generalizing gap n with
  | nil => exact (hrest n gap hn hgap).following_nil
  | cons m ms ih =>
    obtain ⟨n, rfl⟩ := exists_succ hn
    have hm := hms m (by simp)
    simp only [encode_laterText_cons]
    exact settled_cons hm (h m (by simp)) (fun i => delimited_laterText (htail i) ms)
      (fun i => nextMember_later hgap hm.heading.before _)
      (ih (fun x hx => hms x (by simp [hx])) (fun x hx => h x (by simp [hx]))
        (fun i => Nat.lt_of_succ_lt_succ (hn i)) hm.after)

/-- The members from the first one on, and whatever is read behind them. -/
theorem settled_members {m : Member} (hms : ∀ x ∈ m :: ms, x.WellFormed)
    (h : ∀ x ∈ m :: ms, Settles ι read x.value) (hn : ∀ i, size + (m :: ms).length < n i) :
    Settled (fun i => members read (n i) true
      (encode m.text ++ (encode (laterText ms) ++ tail i))) (following y) := by
  obtain ⟨n, rfl⟩ := exists_succ hn
  have hm := hms m (by simp)
  exact settled_cons hm (h m (by simp)) (fun i => delimited_laterText (htail i) ms) (fun _ => rfl)
    (settled_laterText htail hrest (fun x hx => hms x (by simp [hx]))
      (fun x hx => h x (by simp [hx])) (fun i => Nat.lt_of_succ_lt_succ (hn i)) hm.after)

end

/-- The closing brace ends the members. -/
theorem takes_brace {n : ι → Nat} (first : Bool) (hgap : IsBlank gap) (hb : IsBlank blank)
    (hn : ∀ i, 0 < n i) : Takes (fun i => members read (n i) first
      (encode gap ++ (encode blank ++ '\x7d'.toUInt8 :: rest i))) rest := by
  obtain ⟨n, rfl⟩ := exists_succ hn
  simp only [members_stop (nextMember_brace first hgap hb _)]
  exact Or.inl ⟨[], fun i => rfl⟩

theorem delimited_brace (hb : IsBlank blank) (s : List UInt8) :
    Delimited (encode blank ++ '\x7d'.toUInt8 :: s) :=
  delimited_blank (blank_encode hb) (Or.inr rfl)

/-- All members are taken, with the brace behind them, or the object is refused. -/
theorem takes_members {n : ι → Nat} (hms : ∀ m ∈ ms, m.WellFormed)
    (h : ∀ m ∈ ms, Settles ι read m.value) (hb : IsBlank blank) (hn : ∀ i, ms.length < n i) :
    Takes (fun i => members read (n i) true
      (encode (listed (ms.map Member.text) ++ (blank ++ ['\x7d'])) ++ rest i)) rest := by
  cases ms with
  | nil =>
    simp only [encode_listed_nil]
    exact takes_brace true (by simp [IsBlank]) hb hn
  | cons m ms =>
    simp only [encode_listed_cons]
    have hbrace (k : ι → Nat) (gap : List Char) (hk : ∀ i, 0 < k i) (hgap : IsBlank gap) :
        Takes (fun i => members read (k i) false
          (encode gap ++ (encode blank ++ '\x7d'.toUInt8 :: rest i))) rest :=
      takes_brace false hgap hb hk
    rcases settled_members (fun i => delimited_brace hb (rest i)) hbrace hms h
      (by simpa using hn) with ⟨⟨vs, d⟩, hall⟩ | hrefused
    · exact Or.inl ⟨vs ++ d, hall⟩
    · exact Or.inr hrefused

/-! Values -/

theorem ReadBy.settles {a : α} (h : ReadBy read cs a) : Settles ι read cs :=
  ⟨h.starts, fun _ _ hr hs => Or.inl ⟨a, fun i => h.reads _ _ (hr i) (hs i)⟩⟩

theorem starts_cons {c : Char} (hc : c.toNat < 128) (hspace : isSpace c.toUInt8 = false)
    (hclose : c ≠ ']') (cs : List Char) : Starts (encode (c :: cs)) := by
  rw [Text.encode_cons, Text.encodeChar_of_lt hc]
  exact ⟨_, _, rfl, hspace, (Text.toUInt8_inj hc (by decide)).not.mpr hclose⟩

theorem settles_positive (h : IsNumber cs) (n : Nat) : Settles ι (value n) cs := by
  obtain ⟨c, ds, rfl, hc⟩ : ∃ c ds, cs = c :: ds ∧ c.isDigit := by
    cases h with
    | mk hdigits _ _ _ => exact ⟨_, _, rfl, hdigits _ (by simp)⟩
  have hdigit := isDigit_toUInt8 hc
  have htext (s : List UInt8) : encode (c :: ds) ++ s = c.toUInt8 :: (encode ds ++ s) := by
    rw [Text.encode_cons, Text.encodeChar_of_lt (Digits.toNat_lt hc)]
    rfl
  refine ⟨?_, fun s rest hr hs => ?_⟩
  · rw [← List.append_nil (encode (c :: ds)), htext]
    exact starts_of_isDigit hdigit _
  · have hvalue (i : ι) : value n (s i) =
        (number false (encode (c :: ds) ++ rest i)).map fun r => (.number r.1, r.2) := by
      have hi := hs i
      rw [htext] at hi ⊢
      exact value_isDigit hdigit hi
    simp only [hvalue]
    exact (takes_number h hr).map _

theorem length_le_encode (cs : List Char) : cs.length ≤ (encode cs).length := by
  induction cs with
  | nil => exact Nat.zero_le _
  | cons c cs ih =>
    have hpos : 0 < (String.utf8EncodeChar c).length :=
      List.length_pos_iff.mpr String.utf8EncodeChar_ne_nil
    rw [Text.encode_cons, List.length_append, List.length_cons]
    omega

theorem length_le_listed {ts : List (List Char)} (h : ∀ t ∈ ts, t ≠ []) :
    ts.length ≤ (listed ts).length := by
  have hlater (ts : List (List Char)) : ts.length ≤ (ts.flatMap fun t => ',' :: t).length := by
    induction ts with
    | nil => exact Nat.zero_le _
    | cons t ts ih =>
      rw [List.flatMap_cons, List.length_append, List.length_cons, List.length_cons]
      omega
  cases ts with
  | nil => exact Nat.zero_le _
  | cons t ts =>
    have hpos := List.length_pos_iff.mpr (h t (by simp))
    have hle := hlater ts
    rw [listed, List.length_append, List.length_cons]
    omega

/-- The length of a text bounds the number of its parts. -/
theorem lt_length_text {parts : List γ} {f : γ → List Char} (h : ∀ x ∈ parts, f x ≠ [])
    (cs : List Char) (s : List UInt8) :
    parts.length < (encode (listed (parts.map f) ++ cs) ++ s).length + 1 := by
  have hparts := length_le_listed (List.forall_mem_map.mpr h)
  have hbytes := length_le_encode (listed (parts.map f))
  rw [List.length_map] at hparts
  rw [Text.encode_append, List.length_append, List.length_append]
  omega

theorem lt_length_members (ms : List Member) (cs : List Char) (s : List UInt8) :
    ms.length < (encode (listed (ms.map Member.text) ++ cs) ++ s).length + 1 :=
  lt_length_text (by simp [Member.text, Heading.text]) cs s

theorem refused_open (h : skipSpace s = '['.toUInt8 :: t ∨ skipSpace s = '\x7b'.toUInt8 :: t) :
    Refused (value 0 s) := by
  rcases h with h | h
  · rw [value, h]
    exact refused_malformed .nestingTooDeep trivial _
  · rw [value, h]
    exact refused_malformed .nestingTooDeep trivial _

theorem value_bracket (h : skipSpace s = '['.toUInt8 :: t) (n : Nat) :
    value (n + 1) s = (items (value n) (t.length + 1) true t).map fun r => (.array r.1, r.2) := by
  rw [value, h]
  rfl

theorem value_brace (h : skipSpace s = '\x7b'.toUInt8 :: t) (n : Nat) :
    value (n + 1) s =
      (members (value n) (t.length + 1) true t).map fun r => (.object (ofMembers r.1), r.2) := by
  rw [value, h]
  rfl

theorem settles_array (hspaced : ∀ x ∈ xs, x.Spaced)
    (h : ∀ x ∈ xs, ∀ n, Settles ι (value n) x.value) (hb : IsBlank blank) (n : Nat) :
    Settles ι (value n) ('[' :: (listed (xs.map Item.text) ++ (blank ++ [']']))) := by
  refine ⟨starts_cons (by decide) (by decide) (by decide) _, fun s rest hr hs => ?_⟩
  have hopen (i : ι) : skipSpace (s i) = '['.toUInt8 ::
      (encode (listed (xs.map Item.text) ++ (blank ++ [']'])) ++ rest i) := hs i
  cases n with
  | zero => exact Or.inr fun i => refused_open (Or.inl (hopen i))
  | succ n =>
    have hne : ∀ x ∈ xs, x.text ≠ [] := by
      intro x hx hnil
      have hpos := (h x hx n).starts.length_pos
      simp [Item.text] at hnil
      simp [hnil] at hpos
    have hlength (i : ι) := lt_length_text hne (blank ++ [']']) (rest i)
    simp only [value_bracket (hopen _)]
    exact (takes_items hspaced (fun x hx => h x hx n) hb hlength).map _

theorem settles_object (hms : ∀ m ∈ ms, m.WellFormed)
    (h : ∀ m ∈ ms, ∀ n, Settles ι (value n) m.value) (hb : IsBlank blank) (n : Nat) :
    Settles ι (value n)
      ('\x7b' :: (listed (ms.map Member.text) ++ (blank ++ ['\x7d']))) := by
  refine ⟨starts_cons (by decide) (by decide) (by decide) _, fun s rest hr hs => ?_⟩
  have hopen (i : ι) : skipSpace (s i) = '\x7b'.toUInt8 ::
      (encode (listed (ms.map Member.text) ++ (blank ++ ['\x7d'])) ++ rest i) := hs i
  cases n with
  | zero => exact Or.inr fun i => refused_open (Or.inr (hopen i))
  | succ n =>
    have hlength (i : ι) := lt_length_members ms (blank ++ ['\x7d']) (rest i)
    simp only [value_brace (hopen _)]
    have hmembers : Takes _ rest := takes_members hms (fun m hm => h m hm n) hb hlength
    exact hmembers.map fun ms => Json.object (ofMembers ms)

/-- A text that is a value is taken as a value, or refused for a limit. -/
theorem settles_value (h : IsValue cs) (n : Nat) : Settles ι (value n) cs := by
  induction h generalizing n with
  | null =>
    have hread : ReadBy (value n) (chars false 0 .null) .null := readBy_null
    exact hread.settles
  | true =>
    have hread : ReadBy (value n) (chars false 0 (.boolean true)) (.boolean true) :=
      readBy_boolean true
    exact hread.settles
  | false =>
    have hread : ReadBy (value n) (chars false 0 (.boolean false)) (.boolean false) :=
      readBy_boolean false
    exact hread.settles
  | @positive cs hcs => exact settles_positive hcs n
  | @negative cs hcs =>
    refine ⟨starts_cons (by decide) (by decide) (by decide) cs, fun s rest hr hs => ?_⟩
    have hvalue (i : ι) : value n (s i) =
        (number true (encode cs ++ rest i)).map fun r => (.number r.1, r.2) := by
      rw [value, hs]
      rfl
    simp only [hvalue]
    exact (takes_number hcs hr).map _
  | @string cs hcs =>
    refine ⟨starts_cons (by decide) (by decide) (by decide) _, fun s rest hr hs => ?_⟩
    have hvalue (i : ι) : value n (s i) =
        (string (encode cs ++ '"'.toUInt8 :: rest i)).map fun r => (.string r.1, r.2) := by
      have htext : encode ('"' :: (cs ++ ['"'])) ++ rest i =
          '"'.toUInt8 :: (encode cs ++ '"'.toUInt8 :: rest i) := by
        simp [Text.encode_cons, Text.encodeChar_of_lt]
      rw [value, hs, htext]
      rfl
    simp only [hvalue]
    exact (takes_string hcs).map _
  | @array items blank hspaced _ hb ih => exact settles_array hspaced ih hb n
  | @object members blank hms _ hb ih => exact settles_object hms ih hb n

/-- A place where a text may stand: behind blanks, and before nothing that could belong to it. -/
structure Place (cs : List Char) where
  bytes : List UInt8
  rest : List UInt8
  delimited : Delimited rest
  behind : skipSpace bytes = encode cs ++ rest

theorem Settles.readBy_or_refused (h : Settles (Place cs) read cs) :
    (∃ a, ReadBy read cs a) ∨ ∀ p : Place cs, Refused (read p.bytes) := by
  rcases h.takes Place.bytes Place.rest Place.delimited Place.behind with ⟨a, ha⟩ | hrefused
  · exact Or.inl ⟨a, h.starts, fun s rest hr hs => ha ⟨s, rest, hr, hs⟩⟩
  · exact Or.inr hrefused

/-- What a text is read as in one place, it is read as everywhere. -/
theorem Settles.readBy {a : α} (h : Settles (Place cs) read cs) (p : Place cs)
    (hread : read p.bytes = .ok (a, t)) : ReadBy read cs a ∧ t = p.rest := by
  rcases h.readBy_or_refused with ⟨b, hb⟩ | hrefused
  · cases (hb.reads _ _ p.delimited p.behind).symm.trans hread
    exact ⟨hb, rfl⟩
  · obtain ⟨e, he, -⟩ := hrefused p
    cases hread.symm.trans he

/-- A text that is a value is read as the same value wherever it stands, or it is refused for a
limit wherever it stands. -/
theorem readBy_or_refused (h : IsValue cs) (n : Nat) :
    (∃ v, ReadBy (value n) cs v) ∨ ∀ p : Place cs, Refused (value n p.bytes) :=
  (settles_value h n).readBy_or_refused

/-- How a text alone is read tells how it is read wherever it stands. -/
theorem exists_readBy_iff (h : IsValue cs) (n : Nat) :
    (∃ v, ReadBy (value n) cs v) ↔ ∃ v, value n (encode cs) = .ok (v, []) := by
  have hcs : Settles (Place cs) (value n) cs := settles_value h n
  have halone := hcs.starts.skipSpace []
  rw [List.append_nil] at halone
  constructor
  · rintro ⟨v, hv⟩
    exact ⟨v, hv.reads _ _ delimited_nil (by rw [halone, List.append_nil])⟩
  · rintro ⟨v, hv⟩
    exact ⟨v, (hcs.readBy ⟨encode cs, [], delimited_nil, by rw [halone, List.append_nil]⟩ hv).1⟩

end Generation.Json.Read
