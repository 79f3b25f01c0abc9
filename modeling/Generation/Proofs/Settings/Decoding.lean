import Generation.Proofs.Json.NumberTexts
import Generation.Proofs.Json.Paths
import Generation.Proofs.Settings.Held
import Generation.Proofs.Settings.Listing
import Generation.Proofs.Settings.Strict

/-!
Settings written as JSON and read straight from the text. They come back if their numbers do, also
with values that users cannot give.
-/
namespace Generation

open Json Json.Read

variable {α : Type} {depth n : Nat} {t x : List UInt8} {expected : String}

namespace Json.Read

/-- Wherever the value that `toJson` makes can be read, the reader reads what it is made of. -/
def Covers (read : List UInt8 → Except Fault (α × List UInt8)) (toJson : α → Json) : Prop :=
  ∀ ⦃depth s a x⦄, value depth s = .ok (toJson a, x) → read s = .ok (a, x)

theorem covers_of_step {read : List UInt8 → Except Fault (α × List UInt8)} {toJson : α → Json}
    (h : ∀ {depth s u a x}, skipSpace s = u → ValueStep depth u (toJson a) x →
      read s = .ok (a, x)) : Covers read toJson :=
  fun _ _ _ _ hvalue => h rfl (valueStep_of_value hvalue)

theorem covers_text : Covers (text expected) Json.string := by
  refine covers_of_step fun hs hstep => ?_
  cases hstep with
  | string hstring =>
    rw [text, hs]
    exact (if_pos rfl).trans hstring

theorem covers_boolean : Covers boolean Json.boolean := by
  refine covers_of_step fun hs hstep => ?_
  cases hstep with
  | true hword =>
    rw [boolean, hs]
    change (word _ _).map _ = _
    rw [hword]
    rfl
  | false hword =>
    rw [boolean, hs]
    change (word _ _).map _ = _
    rw [hword]
    rfl

theorem covers_anyNumber : Covers (anyNumber expected) Json.number := by
  refine covers_of_step fun hs hstep => ?_
  cases hstep with
  | negative hnumber =>
    rw [anyNumber, hs]
    exact (if_pos rfl).trans hnumber
  | digit hb hnumber =>
    rw [anyNumber, hs]
    exact (if_neg (isDigit_ne hb (by decide))).trans ((if_pos hb).trans hnumber)

theorem covers_choice [Choice α] : Covers (choice (α := α)) choiceJson := by
  refine covers_of_step fun {depth s u a x} hs hstep => ?_
  change ValueStep depth u (.string (Choice.token a)) x at hstep
  cases hstep with
  | string hstring =>
    rw [choice, hs]
    refine (if_pos rfl).trans ?_
    rw [token, hstring]
    change located (variant (Choice.token a)) x = _
    rw [variant, Choice.ofToken?_token]
    rfl

/-- Items that are read one by one make a list that is read. -/
theorem items_of_covers {item : List UInt8 → Except Fault (α × List UInt8)} {toJson : α → Json}
    (hitem : Covers item toJson) {first : Bool} {as : List α}
    (h : items (value depth) n first t = .ok (as.map toJson, x)) :
    items item n first t = .ok (as, x) := by
  induction n generalizing first t as with
  | zero => cases h
  | succ n ih =>
    obtain ⟨m, hm, ⟨u, hnext, hnil, rfl⟩ | ⟨u, w, v, vs, hnext, hv, hvs, hcons⟩⟩ := items_cases h
    · obtain rfl := List.map_eq_nil_iff.mp hnil
      rw [items, hnext]
      rfl
    · obtain rfl := Nat.succ.inj hm
      obtain ⟨a, as, rfl, rfl, rfl⟩ := List.map_eq_cons_iff.mp hcons
      rw [items, hnext]
      change (item u >>= _) = _
      rw [hitem hv]
      change (items item n false w >>= _) = _
      rw [ih hvs]
      rfl

theorem covers_tools : Covers tools fun ts => .array (ts.map choiceJson) := by
  refine covers_of_step fun hs hstep => ?_
  cases hstep with
  | array _ hitems =>
    rw [tools, hs]
    exact (if_pos rfl).trans (items_of_covers covers_choice hitems)

end Json.Read

namespace Kind

theorem covers_read (κ : Kind) : Covers κ.read κ.toJson := by
  cases κ with
  | text => exact covers_text
  | boolean => exact covers_boolean
  | integer =>
    intro depth s v x h
    have hdecode : (Number.integer v.toInt).toInt64 = .ok v := ofJson_toJson .integer v
    rw [read, covers_anyNumber h]
    change located (Number.integer v.toInt).toInt64 x = _
    rw [hdecode]
    rfl
  | unsigned =>
    intro depth s v x h
    have hdecode : (Number.integer v.toNat).toUInt64 = .ok v := ofJson_toJson .unsigned v
    rw [read, covers_anyNumber h]
    change located (Number.integer v.toNat).toUInt64 x = _
    rw [hdecode]
    rfl
  | real low high =>
    intro depth s v x h
    rw [read, covers_anyNumber h]
    rfl
  | choice α => exact covers_choice
  | tools => exact covers_tools

/-- A value is no null, so it is read where null could stand as well. -/
theorem read?_of_value (κ : Kind) {v : κ.Value} (h : value depth t = .ok (κ.toJson v, x)) :
    κ.read? t = .ok (some v, x) := by
  have hstep := valueStep_of_value h
  have hread : κ.read (skipSpace t) = .ok (v, x) :=
    κ.covers_read (by rwa [value_skipSpace])
  unfold read?
  cases hs : skipSpace t with
  | nil =>
    rw [hs] at hstep
    cases hstep
  | cons b rest =>
    have hb : b ≠ 'n'.toUInt8 := by
      rintro rfl
      rw [value_null hs] at h
      obtain ⟨r, -, hnull⟩ := map_eq_ok h
      exact κ.toJson_ne_null v (Prod.mk.inj hnull).1.symm
    rw [hs] at hread
    simp only [if_neg hb, hread]
    rfl

/-- Nothing in a value is null. -/
theorem at?_toJson_ne_null {κ : Kind} (v : κ.Value) {path : List Step} :
    (κ.toJson v).at? path ≠ some .null := by
  have hstring (text : String) (path : List Step) : (Json.string text).at? path ≠ some .null :=
    at?_ne_null_of_childless nofun fun _ => rfl
  cases κ with
  | text => exact hstring v path
  | choice α => exact hstring _ path
  | boolean => exact at?_ne_null_of_childless nofun fun _ => rfl
  | integer => exact at?_ne_null_of_childless nofun fun _ => rfl
  | unsigned => exact at?_ne_null_of_childless nofun fun _ => rfl
  | real low high => exact at?_ne_null_of_childless nofun fun _ => rfl
  | tools =>
    intro hnull
    cases path with
    | nil => cases hnull
    | cons step path =>
      obtain ⟨w, hw, hbehind⟩ := Option.bind_eq_some_iff.mp hnull
      cases step with
      | member name => cases hw
      | item i =>
        obtain ⟨t, -, rfl⟩ := List.mem_map.mp (List.mem_of_getElem? hw)
        exact hstring _ path hbehind

end Kind

/-- A number below four is read back if it is the one that its digits are read as. -/
theorem Binary64.readBack_of_reread {negative : Bool} {u : Nat} (h : Fits u)
    (hu : u < 2 ^ 2 * unitsPerOne) (hsame : reread (.finite negative u h) = .finite negative u h) :
    ReadBack (.finite negative u h) := by
  have hread := (numberReadBy_reread h hu negative).readBy maxDepth
  rw [hsame] at hread
  have hblank : Blank [] := by simp [Blank]
  have hparse := Json.parse_of_readBy hread hblank
  rwa [List.append_nil, ← Text.bytes_ofList] at hparse

namespace Settings

variable {s acc : Settings} {seen : List Key} {ms : Members} {first : Bool}

/-- Members that lead from settings to others: they are members of these, each under another name,
and what they do not name is there already. -/
structure Ahead (s : Settings) (seen : List Key) (acc : Settings) (ms : Members) : Prop where
  own : ∀ m ∈ ms, ∃ k v, s.get k = some v ∧ k ∉ seen ∧ m = (k.name, k.kind.toJson v)
  names : (ms.map Prod.fst).Nodup
  done : ∀ k : Key, k.name ∉ ms.map Prod.fst → acc.get k = s.get k

theorem Ahead.nil (h : Ahead s seen acc []) : acc = s := by
  ext k : 2
  exact h.done k List.not_mem_nil

theorem Ahead.tail {k : Key} {v : k.Value} (h : Ahead s seen acc ((k.name, k.kind.toJson v) :: ms))
    (hget : s.get k = some v) : Ahead s (k :: seen) (acc.set k (some v)) ms := by
  obtain ⟨hname, hnames⟩ := List.nodup_cons.mp h.names
  constructor
  · intro m hm
    obtain ⟨j, w, hw, hseen, rfl⟩ := h.own m (List.mem_cons_of_mem _ hm)
    refine ⟨j, w, hw, ?_, rfl⟩
    rw [List.mem_cons, not_or]
    refine ⟨?_, hseen⟩
    rintro rfl
    exact hname (List.mem_map.mpr ⟨_, hm, rfl⟩)
  · exact hnames
  · intro j hj
    by_cases hjk : j = k
    · subst hjk
      rw [get_set_self, hget]
    · rw [get_set_of_ne hjk]
      refine h.done j ?_
      rw [List.map_cons, List.mem_cons, not_or]
      exact ⟨fun heq => hjk (Key.name_injective heq), hj⟩

theorem readMembers_of_ahead (ha : Ahead s seen acc ms)
    (h : Json.Read.members (value depth) n first t = .ok (ms, x)) :
    readMembers n first seen acc t = .ok (s, x) := by
  induction n generalizing first seen acc t ms with
  | zero => cases h
  | succ n ih =>
    obtain ⟨m, hm, ⟨u, hnext, rfl, rfl⟩ |
      ⟨u, w, y, z, name, v, rest, hnext, hname, hcolon, hv, hrest, rfl⟩⟩ := members_cases h
    · rw [readMembers, hnext, ha.nil]
      rfl
    · obtain rfl := Nat.succ.inj hm
      obtain ⟨k, a, hget, hseen, hmember⟩ := ha.own _ List.mem_cons_self
      obtain ⟨rfl, rfl⟩ := Prod.mk.inj hmember
      -- the key is new and its value is read straight; the other members lead on from there
      have hread := k.kind.read?_of_value hv
      have hlater := ih (ha.tail hget) hrest
      simp only [readMembers, hnext, hname, hcolon, hread, hlater, hseen, bind, Except.bind,
        Key.ofMemberName?_eq_ofName?, Key.ofName?_name, if_true, if_false]

theorem ahead_members (s : Settings) : s.Ahead [] .empty s.members := by
  constructor
  · rintro ⟨name, v⟩ hm
    obtain ⟨k, a, hget, rfl, rfl⟩ := mem_members.mp hm
    exact ⟨k, a, hget, List.not_mem_nil, rfl⟩
  · exact (List.pairwise_map.mpr (ascending_members s)).imp String.ne_of_lt
  · intro k hk
    cases hget : s.get k with
    | none => rfl
    | some a => exact absurd (List.mem_map.mpr ⟨_, mem_members.mpr ⟨k, a, hget, rfl, rfl⟩, rfl⟩) hk

/-! What is written -/

theorem readBack_of_get (h : s.ReadBack) {k : Key} {v : k.Value} (hget : s.get k = some v)
    {y : Binary64} (hy : k.kind.toJson v = .number (.real y)) : y.ReadBack := by
  cases k with
  | temperature =>
    cases hy
    exact h.temperature y hget
  | samplingThreshold =>
    cases hy
    exact h.samplingThreshold y hget
  | _ => cases hy

theorem readBy_members (h : s.ReadBack) (pretty : Bool) : ∀ m ∈ s.members,
    ReadBy (value (maxDepth - 1)) (chars pretty 1 m.2) m.2 := by
  rintro ⟨name, v⟩ hm
  obtain ⟨k, a, hget, rfl, rfl⟩ := mem_members.mp hm
  exact Kind.readBy_toJson_self fun y hy => numberReadBy_real (readBack_of_get h hget hy)

/-- Behind the brace of the text of settings their members are read. -/
theorem members_write (h : s.ReadBack) (pretty : Bool) (ending : String) :
    ∃ inside, skipSpace (Text.bytes (s.toJson.write pretty ++ ending)) = '\x7b'.toUInt8 :: inside ∧
      Json.Read.members (value (maxDepth - 1)) (inside.length + 1) true inside =
        .ok (s.members, Text.bytes ending) := by
  obtain ⟨inside, htext, hmembers⟩ :=
    members_object (readBy_members h pretty) (Text.bytes ending)
  have hbytes : Text.bytes (s.toJson.write pretty ++ ending) =
      Text.encode (chars pretty 0 s.toJson) ++ Text.bytes ending := by
    rw [Text.bytes_eq_encode, Text.bytes_eq_encode, String.toList_append, Text.encode_append,
      write, String.toList_ofList]
  refine ⟨inside, ?_, ?_⟩
  · rw [hbytes, toJson_eq, htext]
    exact skipSpace_cons (by decide) _
  · rw [hmembers]
    simp

theorem parse_write (h : s.ReadBack) (pretty : Bool) {ending : String}
    (hending : Blank (Text.bytes ending)) :
    parse (Text.bytes (s.toJson.write pretty ++ ending)) = .ok s := by
  obtain ⟨inside, hinside, hmembers⟩ := members_write h pretty ending
  have hread := readMembers_of_ahead (ahead_members s) hmembers
  simp only [parse, runReader, read, hinside, if_true, hread, bind, Except.bind, finish,
    skipSpace_blank hending]

theorem writtenMembers?_write (h : s.ReadBack) (pretty : Bool) (ending : String) :
    writtenMembers? (Text.bytes (s.toJson.write pretty ++ ending)) = some s.members := by
  obtain ⟨inside, hinside, hmembers⟩ := members_write h pretty ending
  rw [writtenMembers?, hinside]
  simp only [if_true, hmembers]
  rfl

theorem names_members (s : Settings) : s.members.map Prod.fst = s.allValues.map Prod.fst := by
  rw [members, allValues, List.map_filterMap, List.map_filterMap]
  refine List.filterMap_congr fun k _ => ?_
  rw [render?, Option.map_map, Option.map_map, Option.map_map]
  rfl

/-- A text that spells settings out and holds nothing else. -/
structure SpelledBy (s : Settings) (text : String) : Prop where
  /-- The text is read as the settings. -/
  parse : Settings.parse (Text.bytes text) = .ok s
  /-- Its members bear the names of all values, in the same order, and nothing in them is null. -/
  members : ∃ members, writtenMembers? (Text.bytes text) = some members ∧
    members.map Prod.fst = s.allValues.map Prod.fst ∧
    ∀ m ∈ members, ∀ path, m.2.at? path ≠ some .null
  ascending : (s.allValues.map Prod.fst).Pairwise (· < ·)

theorem spelledBy_of_blank (h : s.ReadBack) (pretty : Bool) {ending : String}
    (hending : Blank (Text.bytes ending)) : s.SpelledBy (s.toJson.write pretty ++ ending) := by
  refine ⟨parse_write h pretty hending, ?_, allValues_ascending s⟩
  refine ⟨_, writtenMembers?_write h pretty ending, names_members s, ?_⟩
  rintro ⟨name, v⟩ hm
  obtain ⟨k, a, -, rfl, rfl⟩ := mem_members.mp hm
  exact fun path => Kind.at?_toJson_ne_null a

/-- Settings are spelled out on one line as on many, and also with a line break at the end. -/
theorem spelledBy_write (h : s.ReadBack) (pretty : Bool) :
    s.SpelledBy (s.toJson.write pretty) ∧ s.SpelledBy (s.toJson.write pretty ++ "\n") := by
  have hempty : Blank (Text.bytes "") := by
    intro b hb
    cases hb
  have hwrite := spelledBy_of_blank h pretty hempty
  rw [String.append_empty] at hwrite
  exact ⟨hwrite, spelledBy_of_blank h pretty blank_lineBreak⟩

/-- Out of range, no tools at all, a limit, and a text that has to be escaped. -/
theorem spelledBy_write_unaccepted :
    let s := (((empty.set .temperature (some (.ofDecimal true 25 (-1)))).set .tools (some [])).set
      .samplingSeed (some 18446744073709551615)).set .instructions (some "\"a\"\n\\")
    s.ReadBack ∧ ¬ s.Accepted ∧
      s.SpelledBy (s.toJson.write true) ∧ s.SpelledBy (s.toJson.write true ++ "\n") ∧
      s.allValues.map Prod.fst = ["instructions", "samplingSeed", "temperature", "tools"] := by
  intro s
  have hnumber : Binary64.ReadBack (.ofDecimal true 25 (-1)) := by
    have hx : .ofDecimal true 25 (-1) =
        Binary64.finite true (5 * 2 ^ 1073) (by decide +kernel) := by decide +kernel
    rw [hx]
    exact Binary64.readBack_of_reread _ (by decide +kernel) (by decide +kernel)
  have hback : s.ReadBack := by
    constructor
    · intro x hx
      have hget : s.get .temperature = some (.ofDecimal true 25 (-1)) := rfl
      obtain rfl := Option.some.inj (hget.symm.trans hx)
      exact hnumber
    · intro x hx
      cases hx
  obtain ⟨hwrite, hbreak⟩ := spelledBy_write hback true
  refine ⟨hback, ?_, hwrite, hbreak, by decide +kernel⟩
  intro haccepted
  exact absurd (haccepted .tools [] rfl) (by decide)

end Settings

end Generation
