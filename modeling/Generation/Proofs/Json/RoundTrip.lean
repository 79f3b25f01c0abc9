import Generation.Proofs.Json.Containers
import Generation.Proofs.Json.Order

/-! Written values read back, on one line or on many. -/
namespace Generation.Json.Read

open Text (encode)

variable {α : Type} {pretty : Bool} {depth n : Nat} {rest blank s : List UInt8}
  {item : List UInt8 → Except Fault (α × List UInt8)} {f : Json → α} {vs : List Json}
  {ms : Members}

theorem starts_of_isDigit {b : UInt8} (h : isDigit b = true) (t : List UInt8) :
    Starts (b :: t) := by
  refine ⟨b, t, rfl, ?_, isDigit_ne h (by decide)⟩
  simp only [isSpace, decide_eq_false_iff_not, not_or]
  exact ⟨isDigit_ne h (by decide), isDigit_ne h (by decide), isDigit_ne h (by decide),
    isDigit_ne h (by decide)⟩

theorem value_isDigit {b : UInt8} {t : List UInt8} (h : isDigit b = true)
    (hs : skipSpace s = b :: t) :
    value n s = (number false (b :: t)).map fun (x, rest) => (.number x, rest) := by
  rw [value, hs]
  simp only [isDigit_ne h (c := 'n'.toUInt8) (by decide), isDigit_ne h (c := 't'.toUInt8) (by decide),
    isDigit_ne h (c := 'f'.toUInt8) (by decide), isDigit_ne h (c := '-'.toUInt8) (by decide), h,
    if_false, if_true]

/-- A text is read as a number, whatever follows it. -/
def NumberReadBy (cs : List Char) (x : Number) : Prop :=
  (∃ c ds, cs = c :: ds ∧ c.isDigit ∧
    ∀ rest, Delimited rest → number false (encode cs ++ rest) = .ok (x, rest)) ∨
  (∃ ds, cs = '-' :: ds ∧ ∀ rest, Delimited rest → number true (encode ds ++ rest) = .ok (x, rest))

theorem NumberReadBy.readBy {cs : List Char} {x : Number} (h : NumberReadBy cs x) (n : Nat) :
    ReadBy (value n) cs (.number x) := by
  rcases h with ⟨c, ds, rfl, hc, h⟩ | ⟨ds, rfl, h⟩
  · have hb := isDigit_toUInt8 hc
    have htext : encode (c :: ds) = c.toUInt8 :: encode ds := by
      rw [Text.encode_cons, Text.encodeChar_of_lt (Digits.toNat_lt hc), List.singleton_append]
    refine ⟨htext ▸ starts_of_isDigit hb _, fun s rest hr hs => ?_⟩
    have hnum := h rest hr
    rw [htext, List.cons_append] at hs hnum
    rw [value_isDigit hb hs, hnum]
    rfl
  · have htext : encode ('-' :: ds) = '-'.toUInt8 :: encode ds := by
      rw [Text.encode_cons, Text.encodeChar_of_lt (by decide), List.singleton_append]
    refine ⟨htext ▸ ⟨_, _, rfl, by decide, by decide⟩, fun s rest hr hs => ?_⟩
    have hnum := h rest hr
    rw [htext, List.cons_append] at hs
    rw [value, hs]
    change (number true (encode ds ++ rest)).map _ = _
    rw [hnum]
    rfl

/-- Integers that a word holds read back. -/
theorem numberReadBy_integerText {k : Int} (hlow : -2 ^ 63 ≤ k) (hhigh : k < 2 ^ 64) :
    NumberReadBy (integerText k) (.integer k) := by
  have hdigits : ∀ d ∈ Nat.toDigits 10 k.natAbs, d.isDigit :=
    fun d hd => Digits.isDigit_of_mem_toDigits hd
  obtain ⟨c, ds, hcons⟩ := List.exists_cons_of_ne_nil (Nat.toDigits_ne_nil (n := k.natAbs) (b := 10))
  have hval : Nat.ofDigitChars 10 (c :: ds) 0 = k.natAbs := by
    rw [← hcons, Nat.ofDigitChars_ten_toDigits]
  have hlead : c = '0' → ds = [] := by
    rintro rfl
    rcases Nat.eq_zero_or_pos k.natAbs with hz | hpos
    · rw [hz, Nat.toDigits_zero] at hcons
      exact (List.cons.inj hcons).2.symm
    · obtain ⟨d, es, hd, hne⟩ := Digits.exists_toDigits_eq_cons hpos
      rw [hcons] at hd
      exact absurd (List.cons.inj hd).1.symm hne
  have hread (negative : Bool) (rest : List UInt8) (hr : Delimited rest) :=
    number_digits negative (hcons ▸ hdigits) hlead (by rw [hval]; omega) hr
  rw [hval] at hread
  unfold integerText
  rw [hcons]
  rcases Int.lt_or_le k 0 with hneg | hpos
  · refine Or.inr ⟨c :: ds, by simp [hneg], fun rest hr => ?_⟩
    have hsmall : ¬ (k.natAbs = 0 ∨ 2 ^ 63 < k.natAbs) := by omega
    rw [hread true rest hr, integerOf, if_pos rfl, if_neg hsmall]
    congr 3
    omega
  · refine Or.inl ⟨c, ds, by simp [Int.not_lt.mpr hpos], hdigits c (by simp [hcons]),
      fun rest hr => ?_⟩
    rw [if_neg (Int.not_lt.mpr hpos), List.nil_append, hread false rest hr, integerOf,
      if_neg (by decide)]
    congr 3
    omega

theorem Starts.length_pos (h : Starts s) : 0 < s.length := by
  obtain ⟨b, t, rfl, -⟩ := h
  exact Nat.succ_pos _

theorem length_le_laterItems (pretty : Bool) (depth : Nat) (vs : List Json) :
    vs.length ≤ (encode (laterItems pretty depth vs)).length := by
  induction vs with
  | nil => exact Nat.zero_le _
  | cons v vs ih =>
    have h := congrArg List.length (encode_laterItems_cons pretty depth v vs [])
    simp only [List.append_nil, List.length_cons, List.length_append] at h ⊢
    omega

theorem length_le_itemChars (h : ∀ v ∈ vs, ReadBy item (chars pretty depth v) (f v)) :
    vs.length ≤ (encode (itemChars pretty depth vs)).length := by
  cases vs with
  | nil => exact Nat.zero_le _
  | cons v vs =>
    have hpos := (h v (by simp)).starts.length_pos
    have hle := length_le_laterItems pretty depth vs
    rw [itemChars_cons, Text.encode_append, Text.encode_append]
    simp only [List.length_cons, List.length_append]
    omega

theorem length_le_memberChars (pretty : Bool) (depth : Nat) (ms : Members) :
    ms.length ≤ (encode (memberChars pretty depth ms)).length := by
  have hlater : ∀ ms : Members, ms.length ≤ (encode (laterMembers pretty depth ms)).length := by
    intro ms
    induction ms with
    | nil => exact Nat.zero_le _
    | cons m ms ih =>
      have h := congrArg List.length
        (encode_laterMembers_cons pretty depth m ms [])
      simp only [List.append_nil, List.length_cons, List.length_append] at h ⊢
      omega
  cases ms with
  | nil => exact Nat.zero_le _
  | cons m ms =>
    obtain ⟨afterQuote, -, -, htext, -⟩ :=
      exists_oneMember pretty depth m []
    have hlen := congrArg List.length htext
    have hle := hlater ms
    rw [memberChars_cons, Text.encode_append]
    simp only [List.append_nil, List.length_cons, List.length_append] at hlen ⊢
    omega

theorem chars_array (pretty : Bool) (depth : Nat) (items : List Json) :
    ∃ space, Blank (encode space) ∧ chars pretty depth (.array items) =
      '[' :: (itemChars pretty (depth + 1) items ++ (space ++ [']'])) := by
  cases items with
  | nil => exact ⟨[], by simp [Blank], by simp [chars, itemChars]⟩
  | cons v vs => exact ⟨lineStart pretty depth, blank_lineStart, by simp [chars]⟩

theorem chars_object (pretty : Bool) (depth : Nat) (ms : Members) :
    ∃ space, Blank (encode space) ∧ chars pretty depth (.object ms) =
      '\x7b' :: (memberChars pretty (depth + 1) ms ++ (space ++ ['\x7d'])) := by
  cases ms with
  | nil => exact ⟨[], by simp [Blank], by simp [chars, memberChars]⟩
  | cons m ms => exact ⟨lineStart pretty depth, blank_lineStart, by simp [chars]⟩

theorem readBy_array {f : Json → Json}
    (h : ∀ v ∈ vs, ReadBy (value n) (chars pretty (depth + 1) v) (f v)) :
    ReadBy (value (n + 1)) (chars pretty depth (.array vs)) (.array (vs.map f)) := by
  obtain ⟨space, hb, hchars⟩ := chars_array pretty depth vs
  have htext : encode (chars pretty depth (.array vs)) = '['.toUInt8 ::
      (encode (itemChars pretty (depth + 1) vs) ++ (encode space ++ [']'.toUInt8])) := by
    rw [hchars]
    simp [Text.encode_cons, Text.encodeChar_of_lt]
  refine ⟨htext ▸ ⟨_, _, rfl, by decide, by decide⟩, fun s rest _ hs => ?_⟩
  simp only [htext, List.cons_append, List.append_assoc, List.nil_append] at hs
  have hlen := length_le_itemChars h
  have hitems : items (value n) ((encode (itemChars pretty (depth + 1) vs) ++
      (encode space ++ ']'.toUInt8 :: rest)).length + 1) true
      (encode (itemChars pretty (depth + 1) vs) ++ (encode space ++ ']'.toUInt8 :: rest)) =
      .ok (vs.map f, rest) :=
    items_itemChars h hb (by simp only [List.length_append]; omega)
  rw [value, hs]
  change (items (value n) _ true _).map _ = _
  rw [hitems]
  rfl

/-- Behind the brace of a written object its members are read, whatever follows the object. -/
theorem members_object {g : String × Json → Json}
    (h : ∀ m ∈ ms, ReadBy (value n) (chars pretty (depth + 1) m.2) (g m)) (rest : List UInt8) :
    ∃ inside, encode (chars pretty depth (.object ms)) ++ rest = '\x7b'.toUInt8 :: inside ∧
      members (value n) (inside.length + 1) true inside =
        .ok (ms.map fun m => (m.1, g m), rest) := by
  obtain ⟨space, hb, hchars⟩ := chars_object pretty depth ms
  refine ⟨encode (memberChars pretty (depth + 1) ms) ++ (encode space ++ '\x7d'.toUInt8 :: rest),
    ?_, ?_⟩
  · rw [hchars]
    simp [Text.encode_cons, Text.encodeChar_of_lt]
  · have hlen := length_le_memberChars pretty (depth + 1) ms
    exact members_memberChars h hb (by simp only [List.length_append]; omega)

theorem readBy_object {g : String × Json → Json}
    (h : ∀ m ∈ ms, ReadBy (value n) (chars pretty (depth + 1) m.2) (g m)) :
    ReadBy (value (n + 1)) (chars pretty depth (.object ms))
      (.object (ofMembers (ms.map fun m => (m.1, g m)))) := by
  constructor
  · obtain ⟨inside, htext, -⟩ := members_object h []
    rw [List.append_nil] at htext
    exact htext ▸ ⟨_, _, rfl, by decide, by decide⟩
  · intro s rest _ hs
    obtain ⟨inside, htext, hmembers⟩ := members_object h rest
    rw [value, hs, htext]
    change (members (value n) _ true _).map _ = _
    rw [hmembers]
    rfl

theorem readBy_string (t : String) : ReadBy (value n) (quotedText t) (.string t) := by
  obtain ⟨s, htext, -⟩ := string_quotedText t []
  rw [List.append_nil] at htext
  refine ⟨htext ▸ ⟨_, _, rfl, by decide, by decide⟩, fun s rest _ hs => ?_⟩
  obtain ⟨afterQuote, hquote, hstring⟩ := string_quotedText t rest
  rw [value, hs, hquote]
  change (string afterQuote).map _ = _
  rw [hstring]
  rfl

theorem readBy_null : ReadBy (value n) (chars pretty depth .null) .null := by
  refine ⟨⟨_, _, rfl, by decide, by decide⟩, fun s rest _ hs => ?_⟩
  rw [value, hs]
  rfl

theorem readBy_boolean (b : Bool) :
    ReadBy (value n) (chars pretty depth (.boolean b)) (.boolean b) := by
  cases b <;> refine ⟨⟨_, _, rfl, by decide, by decide⟩, fun s rest _ hs => ?_⟩ <;>
    rw [value, hs] <;> rfl

end Generation.Json.Read

namespace Generation.Json

open Read

variable {v : Json} {n depth : Nat} {pretty : Bool}

/-- Every number in a value is read back from its own text. -/
inductive Exact : Json → Prop where
  | null : Exact .null
  | boolean (b : Bool) : Exact (.boolean b)
  | number {x : Number} : NumberReadBy x.text x → Exact (.number x)
  | string (s : String) : Exact (.string s)
  | array {items : List Json} : (∀ v ∈ items, Exact v) → Exact (.array items)
  | object {members : Members} : (∀ m ∈ members, Exact m.2) → Exact (.object members)

theorem readBy_chars (hw : v.Within n) (hs : v.Sorted) (he : v.Exact) :
    ReadBy (value n) (chars pretty depth v) v := by
  induction hw generalizing depth with
  | null => exact readBy_null
  | boolean n b => exact readBy_boolean b
  | number n x =>
    cases he with
    | number h => exact h.readBy n
  | string n s => exact readBy_string s
  | @array n items _ ih =>
    cases hs with
    | array hs =>
      cases he with
      | array he =>
        simpa using readBy_array (f := id) fun v hv => ih v hv (hs v hv) (he v hv)
  | @object n members _ ih =>
    cases hs with
    | object hascending hs =>
      cases he with
      | object he =>
        have h : ReadBy (value (n + 1)) (chars pretty depth (.object members))
            (.object (ofMembers (members.map fun m => (m.1, m.2)))) :=
          readBy_object (g := Prod.snd) fun m hm => ih m hm (hs m hm) (he m hm)
        simpa [ofMembers_of_ascending hascending] using h

/-- A text that is read as a value is that value's text, also before blanks. -/
theorem parse_of_readBy {cs : List Char} {blank : List UInt8} (h : ReadBy (value maxDepth) cs v)
    (hb : Blank blank) : parse (Text.encode cs ++ blank) = .ok v := by
  have hr : Delimited blank := by
    cases blank with
    | nil => exact delimited_nil
    | cons b s => exact delimited_of_isSpace (hb b (by simp)) s
  have hread := h.reads_append hr
  simp only [parse, runReader, hread, bind, Except.bind, finish, skipSpace_blank hb]

/-- What was written is read back. -/
theorem parse_write (hw : v.Within maxDepth) (hs : v.Sorted) (he : v.Exact) :
    parse (Text.bytes (v.write pretty)) = .ok v := by
  have hread : ReadBy (value maxDepth) (chars pretty 0 v) v := readBy_chars hw hs he
  have h : parse (Text.encode (chars pretty 0 v) ++ []) = .ok v :=
    parse_of_readBy hread (by simp [Blank])
  rwa [List.append_nil, ← Text.bytes_ofList] at h

end Generation.Json
