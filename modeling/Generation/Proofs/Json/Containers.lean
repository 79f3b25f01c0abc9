import Generation.Proofs.Json.Numbers
import Generation.Proofs.Json.Strings

/-!
Lists and objects as they are written. A text that a reader takes for a value stays so behind blanks
and before anything that ends a number; lists and objects of such texts are read item by item.
-/
namespace Generation.Json.Read

open Text (encode)

variable {α : Type} {pretty : Bool} {depth n : Nat} {rest blank s : List UInt8}

/-- The start of a value: no blank, and no end of a list. -/
def Starts (s : List UInt8) : Prop := ∃ b t, s = b :: t ∧ isSpace b = false ∧ b ≠ ']'.toUInt8

/-- A text is read as a value behind blanks, whatever follows it. -/
structure ReadBy (read : List UInt8 → Except Fault (α × List UInt8)) (cs : List Char) (a : α) :
    Prop where
  starts : Starts (encode cs)
  reads : ∀ s rest, Delimited rest → skipSpace s = encode cs ++ rest → read s = .ok (a, rest)

def Blank (s : List UInt8) : Prop := ∀ b ∈ s, isSpace b = true

theorem blank_lineStart : Blank (encode (lineStart pretty depth)) := by
  have h : ∀ c ∈ lineStart pretty depth, c = '\n' ∨ c = ' ' := by
    intro c hc
    unfold lineStart at hc
    split at hc
    · exact (List.mem_cons.mp hc).imp_right List.eq_of_mem_replicate
    · simp at hc
  have hlt : ∀ c ∈ lineStart pretty depth, c.toNat < 128 := by
    intro c hc
    rcases h c hc with rfl | rfl <;> decide
  rw [Text.encode_of_lt hlt]
  intro b hb
  obtain ⟨c, hc, rfl⟩ := List.mem_map.mp hb
  rcases h c hc with rfl | rfl <;> decide

theorem blank_lineBreak : Blank (encode ['\n']) := by
  intro b hb
  obtain rfl : b = '\n'.toUInt8 := by simpa [Text.encode_cons, Text.encodeChar_of_lt] using hb
  decide

theorem skipSpace_append (h : Blank blank) (s : List UInt8) :
    skipSpace (blank ++ s) = skipSpace s :=
  List.dropWhile_append_of_pos h

theorem skipSpace_cons {b : UInt8} (h : isSpace b = false) (s : List UInt8) :
    skipSpace (b :: s) = b :: s := by simp [skipSpace, h]

theorem skipSpace_blank (h : Blank blank) : skipSpace blank = [] := by
  have := skipSpace_append h []
  rwa [List.append_nil] at this

theorem Starts.skipSpace (h : Starts s) (rest : List UInt8) :
    skipSpace (s ++ rest) = s ++ rest := by
  obtain ⟨b, t, rfl, hb, -⟩ := h
  exact skipSpace_cons hb _

theorem ReadBy.reads_append {read : List UInt8 → Except Fault (α × List UInt8)} {cs : List Char}
    {a : α} (h : ReadBy read cs a) (hr : Delimited rest) :
    read (encode cs ++ rest) = .ok (a, rest) :=
  h.reads _ rest hr (h.starts.skipSpace rest)

theorem delimited_of_isSpace {b : UInt8} (h : isSpace b = true) (s : List UInt8) :
    Delimited (b :: s) := by
  simp only [isSpace, decide_eq_true_eq] at h
  rcases h with rfl | rfl | rfl | rfl <;> exact delimited_cons (by decide) (by decide) (by decide)

/-- Blanks and a closing byte end a number. -/
theorem delimited_blank {b : UInt8} (h : Blank blank) (hb : b = ']'.toUInt8 ∨ b = '\x7d'.toUInt8) :
    Delimited (blank ++ b :: rest) := by
  cases blank with
  | nil => rcases hb with rfl | rfl <;> exact delimited_cons (by decide) (by decide) (by decide)
  | cons c blank => exact delimited_of_isSpace (h c (by simp)) _

theorem delimited_comma : Delimited (','.toUInt8 :: s) :=
  delimited_cons (by decide) (by decide) (by decide)

/-! Lists -/

theorem nextItem_end (h : Blank blank) (first : Bool) (rest : List UInt8) :
    nextItem first (blank ++ ']'.toUInt8 :: rest) = .ok (false, ']'.toUInt8 :: rest) := by
  rw [nextItem, skipSpace_append h, skipSpace_cons (by decide)]
  rfl

theorem nextItem_first (h : Blank blank) (hs : Starts s) :
    nextItem true (blank ++ (s ++ rest)) = .ok (true, s ++ rest) := by
  obtain ⟨b, t, rfl, hb, hclose⟩ := hs
  rw [nextItem, skipSpace_append h, List.cons_append, skipSpace_cons hb]
  simp [hclose]

theorem nextItem_comma (h : Blank blank) (hs : Starts s) :
    nextItem false (','.toUInt8 :: (blank ++ (s ++ rest))) = .ok (true, s ++ rest) := by
  obtain ⟨b, t, rfl, hb, hclose⟩ := hs
  have hcomma : ','.toUInt8 ≠ ']'.toUInt8 := by decide
  rw [nextItem, skipSpace_cons (by decide)]
  simp only [skipSpace_append h, List.cons_append, skipSpace_cons hb, hclose, hcomma, if_false,
    Bool.false_eq_true, if_true]

/-- What stands before all items but the first, and these items. -/
def laterItems (pretty : Bool) (depth : Nat) (vs : List Json) : List Char :=
  vs.flatMap fun v => ',' :: (lineStart pretty depth ++ chars pretty depth v)

theorem itemChars_cons (v : Json) (vs : List Json) :
    itemChars pretty depth (v :: vs) =
      lineStart pretty depth ++ (chars pretty depth v ++ laterItems pretty depth vs) := by
  induction vs generalizing v with
  | nil => simp [itemChars, laterItems]
  | cons w vs ih =>
    rw [itemChars, ih]
    · simp [laterItems]
    · simp

theorem encode_laterItems_cons (pretty : Bool) (depth : Nat) (v : Json) (vs : List Json)
    (s : List UInt8) :
    encode (laterItems pretty depth (v :: vs)) ++ s =
      ','.toUInt8 :: (encode (lineStart pretty depth) ++
        (encode (chars pretty depth v) ++ (encode (laterItems pretty depth vs) ++ s))) := by
  simp [laterItems, Text.encode_cons, Text.encodeChar_of_lt]

theorem delimited_laterItems (pretty : Bool) (depth : Nat) (vs : List Json) (h : Blank blank)
    (rest : List UInt8) :
    Delimited (encode (laterItems pretty depth vs) ++ (blank ++ ']'.toUInt8 :: rest)) := by
  cases vs with
  | nil => exact delimited_blank h (Or.inl rfl)
  | cons v vs =>
    rw [encode_laterItems_cons]
    exact delimited_comma

variable {item : List UInt8 → Except Fault (α × List UInt8)} {f : Json → α} {vs : List Json}

theorem items_laterItems (h : ∀ v ∈ vs, ReadBy item (chars pretty depth v) (f v))
    (hb : Blank blank) (hn : vs.length < n) :
    items item n false (encode (laterItems pretty depth vs) ++ (blank ++ ']'.toUInt8 :: rest)) =
      .ok (vs.map f, rest) := by
  induction vs generalizing n with
  | nil =>
    obtain ⟨n, rfl⟩ : ∃ k, n = k + 1 := ⟨n - 1, by omega⟩
    have hend := nextItem_end hb false rest
    simp only [laterItems, List.flatMap_nil, Text.encode_nil, List.nil_append, items, hend]
    rfl
  | cons v vs ih =>
    obtain ⟨n, rfl⟩ : ∃ k, n = k + 1 := ⟨n - 1, by omega⟩
    have hv := h v (by simp)
    have hread := hv.reads_append (delimited_laterItems pretty depth vs hb rest)
    have hrest := ih (fun w hw => h w (by simp [hw])) (n := n) (by simpa using hn)
    rw [encode_laterItems_cons, items, nextItem_comma blank_lineStart hv.starts]
    simp only [bind, Except.bind, if_true, hread, hrest]
    rfl

/-- All items are read, and the closing bracket behind them. -/
theorem items_itemChars (h : ∀ v ∈ vs, ReadBy item (chars pretty depth v) (f v))
    (hb : Blank blank) (hn : vs.length < n) :
    items item n true (encode (itemChars pretty depth vs) ++ (blank ++ ']'.toUInt8 :: rest)) =
      .ok (vs.map f, rest) := by
  obtain ⟨n, rfl⟩ : ∃ k, n = k + 1 := ⟨n - 1, by omega⟩
  cases vs with
  | nil =>
    have hend := nextItem_end hb true rest
    simp only [itemChars, Text.encode_nil, List.nil_append, items, hend]
    rfl
  | cons v vs =>
    have hv := h v (by simp)
    have hread := hv.reads_append (delimited_laterItems pretty depth vs hb rest)
    have hrest : items item n false
        (encode (laterItems pretty depth vs) ++ (blank ++ ']'.toUInt8 :: rest)) =
        .ok (vs.map f, rest) :=
      items_laterItems (fun w hw => h w (by simp [hw])) hb (by simpa using hn)
    rw [itemChars_cons, Text.encode_append, Text.encode_append, List.append_assoc,
      List.append_assoc, items, nextItem_first blank_lineStart hv.starts]
    simp only [bind, Except.bind, if_true, hread, hrest]
    rfl

/-! Objects -/

theorem nextMember_end (h : Blank blank) (first : Bool) (rest : List UInt8) :
    nextMember first (blank ++ '\x7d'.toUInt8 :: rest) = .ok (false, '\x7d'.toUInt8 :: rest) := by
  rw [nextMember, skipSpace_append h, skipSpace_cons (by decide)]
  rfl

theorem nextMember_first (h : Blank blank) :
    nextMember true (blank ++ '"'.toUInt8 :: s) = .ok (true, s) := by
  rw [nextMember, skipSpace_append h, skipSpace_cons (by decide)]
  rfl

theorem nextMember_comma (h : Blank blank) :
    nextMember false (','.toUInt8 :: (blank ++ '"'.toUInt8 :: s)) = .ok (true, s) := by
  have hcomma : ','.toUInt8 ≠ '\x7d'.toUInt8 := by decide
  rw [nextMember, skipSpace_cons (by decide)]
  simp only [skipSpace_append h, skipSpace_cons (show isSpace '"'.toUInt8 = false by decide),
    hcomma, if_false, Bool.false_eq_true, if_true]

/-- A member as it is written: its line, its name, a colon and its value. -/
def oneMember (pretty : Bool) (depth : Nat) (m : String × Json) : List Char :=
  lineStart pretty depth ++ (quotedText m.1 ++ (colon pretty ++ chars pretty depth m.2))

def laterMembers (pretty : Bool) (depth : Nat) (ms : Members) : List Char :=
  ms.flatMap fun m => ',' :: oneMember pretty depth m

theorem memberChars_cons (m : String × Json) (ms : Members) :
    memberChars pretty depth (m :: ms) =
      oneMember pretty depth m ++ laterMembers pretty depth ms := by
  induction ms generalizing m with
  | nil => simp [memberChars, laterMembers, oneMember]
  | cons w ms ih =>
    rw [memberChars, ih]
    · simp [laterMembers, oneMember]
    · simp

theorem encode_laterMembers_cons (pretty : Bool) (depth : Nat) (m : String × Json) (ms : Members)
    (s : List UInt8) :
    encode (laterMembers pretty depth (m :: ms)) ++ s = ','.toUInt8 ::
      (encode (oneMember pretty depth m) ++ (encode (laterMembers pretty depth ms) ++ s)) := by
  simp [laterMembers, Text.encode_cons, Text.encodeChar_of_lt]

theorem delimited_laterMembers (ms : Members) (h : Blank blank) :
    Delimited (encode (laterMembers pretty depth ms) ++ (blank ++ '\x7d'.toUInt8 :: rest)) := by
  cases ms with
  | nil => exact delimited_blank h (Or.inr rfl)
  | cons m ms =>
    rw [encode_laterMembers_cons]
    exact delimited_comma

/-- Behind the name comes a colon, and behind a blank or none the text of the value. -/
theorem skipColon_colon (pretty : Bool) (s : List UInt8) : ∃ t,
    skipColon (encode (colon pretty) ++ s) = .ok t ∧ skipSpace t = skipSpace s := by
  cases pretty with
  | false => exact ⟨s, rfl, rfl⟩
  | true => exact ⟨' '.toUInt8 :: s, rfl, rfl⟩

/-- The parts of a written member, one after the other. -/
theorem exists_oneMember (pretty : Bool) (depth : Nat) (m : String × Json) (s : List UInt8) :
    ∃ afterQuote afterName afterColon,
    encode (oneMember pretty depth m) ++ s =
      encode (lineStart pretty depth) ++ '"'.toUInt8 :: afterQuote ∧
    string afterQuote = .ok (m.1, afterName) ∧ skipColon afterName = .ok afterColon ∧
    skipSpace afterColon = skipSpace (encode (chars pretty depth m.2) ++ s) := by
  obtain ⟨afterQuote, htext, hname⟩ := string_quotedText m.1
    (encode (colon pretty) ++ (encode (chars pretty depth m.2) ++ s))
  obtain ⟨afterColon, hcolon, hspace⟩ :=
    skipColon_colon pretty (encode (chars pretty depth m.2) ++ s)
  refine ⟨afterQuote, _, afterColon, ?_, hname, hcolon, hspace⟩
  rw [← htext]
  simp [oneMember]

variable {read : List UInt8 → Except Fault (α × List UInt8)} {g : String × Json → α} {ms : Members}

theorem members_laterMembers (h : ∀ m ∈ ms, ReadBy read (chars pretty depth m.2) (g m))
    (hb : Blank blank) (hn : ms.length < n) :
    members read n false
      (encode (laterMembers pretty depth ms) ++ (blank ++ '\x7d'.toUInt8 :: rest)) =
      .ok (ms.map fun m => (m.1, g m), rest) := by
  induction ms generalizing n with
  | nil =>
    obtain ⟨n, rfl⟩ : ∃ k, n = k + 1 := ⟨n - 1, by omega⟩
    have hend := nextMember_end hb false rest
    simp only [laterMembers, List.flatMap_nil, Text.encode_nil, List.nil_append, members, hend]
    rfl
  | cons m ms ih =>
    obtain ⟨n, rfl⟩ : ∃ k, n = k + 1 := ⟨n - 1, by omega⟩
    have hv := h m (by simp)
    have hrest := ih (fun w hw => h w (by simp [hw])) (n := n) (by simpa using hn)
    obtain ⟨afterQuote, afterName, afterColon, htext, hname, hcolon, hspace⟩ :=
      exists_oneMember pretty depth m
        (encode (laterMembers pretty depth ms) ++ (blank ++ '\x7d'.toUInt8 :: rest))
    have hread := hv.reads afterColon _ (delimited_laterMembers ms hb)
      (hspace.trans (hv.starts.skipSpace _))
    rw [encode_laterMembers_cons, htext, members, nextMember_comma blank_lineStart]
    simp only [bind, Except.bind, if_true, hname, hcolon, hread, hrest]
    rfl

/-- All members are read, and the closing brace behind them. -/
theorem members_memberChars (h : ∀ m ∈ ms, ReadBy read (chars pretty depth m.2) (g m))
    (hb : Blank blank) (hn : ms.length < n) :
    members read n true
      (encode (memberChars pretty depth ms) ++ (blank ++ '\x7d'.toUInt8 :: rest)) =
      .ok (ms.map fun m => (m.1, g m), rest) := by
  obtain ⟨n, rfl⟩ : ∃ k, n = k + 1 := ⟨n - 1, by omega⟩
  cases ms with
  | nil =>
    have hend := nextMember_end hb true rest
    simp only [memberChars, Text.encode_nil, List.nil_append, members, hend]
    rfl
  | cons m ms =>
    have hv := h m (by simp)
    have hrest : members read n false
        (encode (laterMembers pretty depth ms) ++ (blank ++ '\x7d'.toUInt8 :: rest)) =
        .ok (ms.map fun m => (m.1, g m), rest) :=
      members_laterMembers (fun w hw => h w (by simp [hw])) hb (by simpa using hn)
    obtain ⟨afterQuote, afterName, afterColon, htext, hname, hcolon, hspace⟩ :=
      exists_oneMember pretty depth m
        (encode (laterMembers pretty depth ms) ++ (blank ++ '\x7d'.toUInt8 :: rest))
    have hread := hv.reads afterColon _ (delimited_laterMembers ms hb)
      (hspace.trans (hv.starts.skipSpace _))
    rw [memberChars_cons, Text.encode_append, List.append_assoc, htext, members,
      nextMember_first blank_lineStart]
    simp only [bind, Except.bind, if_true, hname, hcolon, hread, hrest]
    rfl

end Generation.Json.Read
