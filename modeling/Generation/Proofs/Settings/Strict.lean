import Generation.Proofs.Json.Passing
import Generation.Proofs.Json.RoundTrip
import Generation.Proofs.Settings.Lenient
import Generation.Settings.Reader

/-!
Settings that are read straight from a text, against the JSON value of the same text: where both
reach the end, they agree on every key.
-/
namespace Generation

open Json Json.Read

variable {α : Type} {depth n k : Nat} {s r x y rest : List UInt8} {v : Json} {expected : String}

namespace Json.Read

theorem value_skipSpace (depth : Nat) (s : List UInt8) :
    value depth (skipSpace s) = value depth s := by
  rw [value.eq_def, value.eq_def depth s]
  simp only [skipSpace_skipSpace]

theorem value_quote (h : skipSpace s = '"'.toUInt8 :: rest) :
    value depth s = (string rest).map fun (t, rest) => (.string t, rest) := by
  rw [value, h]
  rfl

theorem value_true (h : skipSpace s = 't'.toUInt8 :: rest) :
    value depth s = (word (Text.bytes "rue") rest).map fun rest => (.boolean true, rest) := by
  rw [value, h]
  rfl

theorem value_false (h : skipSpace s = 'f'.toUInt8 :: rest) :
    value depth s = (word (Text.bytes "alse") rest).map fun rest => (.boolean false, rest) := by
  rw [value, h]
  rfl

theorem value_null (h : skipSpace s = 'n'.toUInt8 :: rest) :
    value depth s = (word (Text.bytes "ull") rest).map fun rest => (.null, rest) := by
  rw [value, h]
  rfl

theorem value_minus (h : skipSpace s = '-'.toUInt8 :: rest) :
    value depth s = (number true rest).map fun (n, rest) => (.number n, rest) := by
  rw [value, h]
  rfl

/-- A value that starts with a bracket is a list. -/
theorem items_of_value (hs : skipSpace s = '['.toUInt8 :: rest) (h : value depth s = .ok (v, x)) :
    ∃ d vs, items (value d) (rest.length + 1) true rest = .ok (vs, x) ∧ v = .array vs := by
  rw [value, hs] at h
  cases depth with
  | zero => cases h
  | succ d =>
    obtain ⟨⟨vs, t⟩, hitems, he⟩ := map_eq_ok h
    obtain ⟨rfl, rfl⟩ := Prod.mk.inj he
    exact ⟨d, vs, hitems, rfl⟩

/-- A value that starts with a brace is an object. -/
theorem members_of_value (hs : skipSpace s = '\x7b'.toUInt8 :: rest)
    (h : value depth s = .ok (v, x)) :
    ∃ d ms, members (value d) (rest.length + 1) true rest = .ok (ms, x) ∧
      v = .object (ofMembers ms) := by
  rw [value, hs] at h
  cases depth with
  | zero => cases h
  | succ d =>
    obtain ⟨⟨ms, t⟩, hmembers, he⟩ := map_eq_ok h
    obtain ⟨rfl, rfl⟩ := Prod.mk.inj he
    exact ⟨d, ms, hmembers, rfl⟩

/-- A value of another type is refused in any case. -/
theorem wrongType_ne_ok (a : α) : wrongType expected s ≠ .ok a := by
  intro h
  unfold wrongType at h
  cases s with
  | nil => cases h
  | cons b rest =>
    dsimp only at h
    repeat' split at h
    all_goals try cases h
    all_goals
      obtain ⟨u, -, hu⟩ := bind_eq_ok h
      cases hu

/-- Two readers of the same text: where both succeed they stop at the same place, and what the
second one reads stands for what the first one reads. -/
def Agree (read : List UInt8 → Except Fault (α × List UInt8)) (decode : Json → Except Mismatch α) :
    Prop :=
  ∀ {depth s a y v x}, read s = .ok (a, y) → value depth s = .ok (v, x) → x = y ∧ decode v = .ok a

theorem agree_text : Agree (text expected) (Kind.ofJson .text) := by
  intro depth s t y v x hread hvalue
  unfold text at hread
  split at hread
  · cases hread
  rename_i b rest hs
  split at hread
  case isTrue hb =>
    subst hb
    rw [value_quote hs, hread] at hvalue
    cases hvalue
    exact ⟨rfl, rfl⟩
  case isFalse => exact absurd hread (wrongType_ne_ok _)

theorem agree_boolean : Agree boolean (Kind.ofJson .boolean) := by
  intro depth s t y v x hread hvalue
  unfold boolean at hread
  split at hread
  · cases hread
  rename_i b rest hs
  split at hread
  case isTrue hb =>
    subst hb
    obtain ⟨r, hword, he⟩ := map_eq_ok hread
    obtain ⟨rfl, rfl⟩ := Prod.mk.inj he
    rw [value_true hs, hword] at hvalue
    cases hvalue
    exact ⟨rfl, rfl⟩
  case isFalse =>
    split at hread
    case isTrue hb =>
      subst hb
      obtain ⟨r, hword, he⟩ := map_eq_ok hread
      obtain ⟨rfl, rfl⟩ := Prod.mk.inj he
      rw [value_false hs, hword] at hvalue
      cases hvalue
      exact ⟨rfl, rfl⟩
    case isFalse => exact absurd hread (wrongType_ne_ok _)

theorem number_of_anyNumber {m : Number} (hread : anyNumber expected s = .ok (m, y))
    (hvalue : value depth s = .ok (v, x)) : x = y ∧ v = .number m := by
  unfold anyNumber at hread
  split at hread
  · cases hread
  rename_i b rest hs
  split at hread
  case isTrue hb =>
    subst hb
    rw [value_minus hs, hread] at hvalue
    cases hvalue
    exact ⟨rfl, rfl⟩
  case isFalse =>
    split at hread
    case isTrue hb =>
      rw [value_isDigit hb hs, hread] at hvalue
      cases hvalue
      exact ⟨rfl, rfl⟩
    case isFalse => exact absurd hread (wrongType_ne_ok _)

theorem eq_ok_of_located {a : α} {d : Except Mismatch α} (h : located d s = .ok (a, y)) :
    d = .ok a ∧ s = y := by
  unfold located at h
  split at h
  · cases h
    exact ⟨rfl, rfl⟩
  · cases h

section
variable [Choice α]

/-- A token with its quotes. -/
theorem string_of_token {a : α} (h : token s = .ok (a, y)) :
    ∃ t, string s = .ok (t, y) ∧ variant t = .ok a := by
  obtain ⟨⟨t, r⟩, hstring, h⟩ := bind_eq_ok h
  obtain ⟨hvariant, rfl⟩ := eq_ok_of_located h
  exact ⟨t, hstring, hvariant⟩

theorem string_of_tokenName {a : α} (h : tokenName s = .ok (a, y)) :
    ∃ rest t, skipSpace s = '"'.toUInt8 :: rest ∧ string rest = .ok (t, y) ∧ variant t = .ok a := by
  unfold tokenName at h
  split at h
  · cases h
  rename_i b rest hs
  split at h
  case isTrue hb =>
    subst hb
    obtain ⟨t, hstring, hvariant⟩ := string_of_token h
    exact ⟨rest, t, hs, hstring, hvariant⟩
  case isFalse => cases h

theorem null_of_unit (hread : unit s = .ok y) (hvalue : value depth s = .ok (v, x)) :
    x = y ∧ v = .null := by
  unfold unit at hread
  split at hread
  · cases hread
  rename_i b rest hs
  split at hread
  case isTrue hb =>
    subst hb
    rw [value_null hs, hread] at hvalue
    cases hvalue
    exact ⟨rfl, rfl⟩
  case isFalse => exact absurd hread (wrongType_ne_ok _)

/-- A token that is written as a name is the only member of its object. -/
theorem members_of_tokenName {a : α} {w u z : List UInt8} {ms : Members}
    (hname : tokenName s = .ok (a, w)) (hcolon : skipColon w = .ok u) (hunit : unit u = .ok z)
    (hclose : skipSpace z = '\x7d'.toUInt8 :: y)
    (h : members (value depth) n true s = .ok (ms, x)) :
    x = y ∧ ∃ t, ms = [(t, .null)] ∧ variant t = (.ok a : Except Mismatch α) := by
  obtain ⟨rest, t, hs, hstring, hvariant⟩ := string_of_tokenName hname
  have hfirst : nextMember true s = .ok (true, rest) := by
    rw [nextMember, hs]
    rfl
  have hlast : nextMember false z = .ok (false, '\x7d'.toUInt8 :: y) := by
    rw [nextMember, hclose]
    rfl
  obtain ⟨k, -, ⟨p, hnext, -⟩ | ⟨p, q, o, l, name, v, as, hnext, hname', hcolon', hv, has, rfl⟩⟩ :=
    members_cases h
  · rw [hfirst] at hnext
    cases hnext
  · rw [hfirst] at hnext
    cases hnext
    rw [hstring] at hname'
    cases hname'
    rw [hcolon] at hcolon'
    cases hcolon'
    obtain ⟨rfl, rfl⟩ := null_of_unit hunit hv
    obtain ⟨j, -, ⟨p, hnext, rfl, rfl⟩ | ⟨p, q, o, l, name, v, as, hnext, -⟩⟩ := members_cases has
    · rw [hlast] at hnext
      cases hnext
      exact ⟨rfl, t, rfl, hvariant⟩
    · rw [hlast] at hnext
      cases hnext

theorem agree_choice : Agree (choice (α := α)) choiceOfJson := by
  intro depth s a y v x hread hvalue
  unfold choice at hread
  split at hread
  · cases hread
  rename_i b rest hs
  split at hread
  case isTrue hb =>
    subst hb
    obtain ⟨t, hstring, hvariant⟩ := string_of_token hread
    rw [value_quote hs, hstring] at hvalue
    cases hvalue
    exact ⟨rfl, hvariant⟩
  case isFalse =>
    split at hread
    case isTrue hb =>
      subst hb
      obtain ⟨⟨a', w⟩, hname, hread⟩ := bind_eq_ok hread
      obtain ⟨u, hcolon, hread⟩ := bind_eq_ok hread
      obtain ⟨z, hunit, hread⟩ := bind_eq_ok hread
      split at hread
      · cases hread
      rename_i c t hz
      split at hread
      case isTrue hc =>
        subst hc
        cases hread
        obtain ⟨d, ms, hmembers, rfl⟩ := members_of_value hs hvalue
        obtain ⟨rfl, t, rfl, hvariant⟩ := members_of_tokenName hname hcolon hunit hz hmembers
        refine ⟨rfl, ?_⟩
        simp [ofMembers, insert, choiceOfJson, hvariant]
      case isFalse => cases hread
    case isFalse => cases hread

end

/-- Readers that agree on the items agree on lists. -/
theorem agree_items {item : List UInt8 → Except Fault (α × List UInt8)}
    {decode : Json → Except Mismatch α} (hitem : Agree item decode) {first : Bool} {as : List α}
    {vs : List Json} (hread : items item n first s = .ok (as, y))
    (hvalue : items (value depth) k first s = .ok (vs, x)) :
    x = y ∧ vs.mapM decode = .ok as := by
  induction n generalizing k first s as vs with
  | zero => cases hread
  | succ n ih =>
    obtain ⟨m, hm, hread⟩ := items_cases hread
    obtain rfl := Nat.succ.inj hm
    obtain ⟨j, -, hvalue⟩ := items_cases hvalue
    rcases hread with ⟨t, hnext, rfl, rfl⟩ | ⟨t, u, a, as, hnext, ha, has, rfl⟩
    · rcases hvalue with ⟨t', hnext', rfl, rfl⟩ | ⟨t', u', v, vs, hnext', -⟩
      · rw [hnext] at hnext'
        cases hnext'
        exact ⟨rfl, rfl⟩
      · rw [hnext] at hnext'
        cases hnext'
    · rcases hvalue with ⟨t', hnext', -⟩ | ⟨t', u', v, vs, hnext', hv, hvs, rfl⟩
      · rw [hnext] at hnext'
        cases hnext'
      · rw [hnext] at hnext'
        cases hnext'
        obtain ⟨rfl, hdecode⟩ := hitem ha hv
        obtain ⟨rfl, hrest⟩ := ih has hvs
        refine ⟨rfl, ?_⟩
        rw [List.mapM_cons, hdecode, hrest]
        rfl

theorem agree_tools : Agree tools (Kind.ofJson .tools) := by
  intro depth s ts y v x hread hvalue
  unfold tools at hread
  split at hread
  · cases hread
  rename_i b rest hs
  split at hread
  case isTrue hb =>
    subst hb
    obtain ⟨d, vs, hitems, rfl⟩ := items_of_value hs hvalue
    exact agree_items agree_choice hread hitems
  case isFalse => exact absurd hread (wrongType_ne_ok _)

end Json.Read

namespace Kind

theorem agree_read (κ : Kind) : Agree κ.read κ.ofJson := by
  cases κ with
  | text => exact agree_text
  | boolean => exact agree_boolean
  | integer | unsigned =>
    intro depth s a y v x hread hvalue
    obtain ⟨⟨m, t⟩, hnumber, hread⟩ := bind_eq_ok hread
    obtain ⟨hm, rfl⟩ := eq_ok_of_located hread
    obtain ⟨rfl, rfl⟩ := number_of_anyNumber hnumber hvalue
    exact ⟨rfl, hm⟩
  | real low high =>
    intro depth s a y v x hread hvalue
    obtain ⟨⟨m, t⟩, hnumber, he⟩ := map_eq_ok hread
    obtain ⟨rfl, rfl⟩ := Prod.mk.inj he
    obtain ⟨rfl, rfl⟩ := number_of_anyNumber hnumber hvalue
    exact ⟨rfl, rfl⟩
  | choice α => exact agree_choice
  | tools => exact agree_tools

theorem agree_read? (κ : Kind) : Agree κ.read? κ.ofJson? := by
  intro depth s a y v x hread hvalue
  unfold read? at hread
  split at hread
  · cases hread
  rename_i b rest hs
  split at hread
  case isTrue hb =>
    subst hb
    obtain ⟨r, hword, he⟩ := map_eq_ok hread
    obtain ⟨rfl, rfl⟩ := Prod.mk.inj he
    rw [value_null hs, hword] at hvalue
    cases hvalue
    exact ⟨rfl, rfl⟩
  case isFalse hb =>
    obtain ⟨⟨u, r⟩, hu, he⟩ := map_eq_ok hread
    obtain ⟨rfl, rfl⟩ := Prod.mk.inj he
    rw [← value_skipSpace, hs] at hvalue
    obtain ⟨rfl, hdecode⟩ := κ.agree_read hu hvalue
    refine ⟨rfl, ?_⟩
    rw [Settings.ofJson?_of_ne_null, hdecode]
    · rfl
    · rintro rfl
      cases κ <;> cases hdecode

end Kind

namespace Settings

variable {first : Bool} {seen : List Key} {acc m : Settings} {ms : Members}

/-- Settings that members have led to: for each key, what every member of that name stands for, and
nothing new without such a member. The keys that came before do not come again. -/
structure Decoded (seen : List Key) (acc m : Settings) (ms : Members) : Prop where
  own : ∀ j v, (j.name, v) ∈ ms → j ∉ seen ∧ j.kind.ofJson? v = .ok (m.get j)
  other : ∀ j : Key, (∀ v, (j.name, v) ∉ ms) → m.get j = acc.get j

theorem Decoded.nil : Decoded seen acc acc [] :=
  ⟨fun _ _ hm => absurd hm List.not_mem_nil, fun _ _ => rfl⟩

theorem Decoded.cons_of_ne {name : String} (h : Decoded seen acc m ms)
    (hne : ∀ j : Key, j.name ≠ name) : Decoded seen acc m ((name, v) :: ms) := by
  constructor
  · intro j v hm
    rcases List.mem_cons.mp hm with hm | hm
    · exact absurd (Prod.mk.inj hm).1 (hne j)
    · exact h.own j v hm
  · intro j hj
    exact h.other j fun v hm => hj v (List.mem_cons_of_mem _ hm)

theorem Decoded.cons {j : Key} {a : Option j.Value} (h : Decoded (j :: seen) (acc.set j a) m ms)
    (hseen : j ∉ seen) (hdecode : j.kind.ofJson? v = .ok a) :
    Decoded seen acc m ((j.name, v) :: ms) := by
  have hj : m.get j = a := by
    rw [h.other j fun v hm => (h.own j v hm).1 (by simp), get_set_self]
  constructor
  · intro i v' hm
    rcases List.mem_cons.mp hm with hm | hm
    · obtain ⟨hi, rfl⟩ := Prod.mk.inj hm
      obtain rfl := Key.name_injective hi
      exact ⟨hseen, hj ▸ hdecode⟩
    · obtain ⟨hi, hv'⟩ := h.own i v' hm
      exact ⟨fun hmem => hi (List.mem_cons_of_mem _ hmem), hv'⟩
  · intro i hi
    rw [h.other i fun v hm => hi v (List.mem_cons_of_mem _ hm)]
    have hne : i ≠ j := by
      rintro rfl
      exact hi _ List.mem_cons_self
    exact get_set_of_ne hne

/-- What can be read straight is what the members lead to. -/
theorem decoded_of_readMembers (hmembers : members (value depth) n first s = .ok (ms, x))
    (hread : readMembers k first seen acc s = .ok (m, y)) : Decoded seen acc m ms := by
  induction k generalizing n first seen acc s ms with
  | zero => cases hread
  | succ k ih =>
    obtain ⟨i, -, hmembers⟩ := members_cases hmembers
    obtain ⟨⟨more, t⟩, hnext, hread⟩ := bind_eq_ok hread
    rcases hmembers with ⟨t', hnext', rfl, -⟩ |
      ⟨t', u, w, r, name, v, rest, hnext', hname, hcolon, hv, hrest, rfl⟩
    · rw [hnext] at hnext'
      cases hnext'
      cases hread
      exact .nil
    · rw [hnext] at hnext'
      cases hnext'
      dsimp only at hread
      rw [if_pos rfl, hname] at hread
      obtain ⟨p, hp, hread⟩ := bind_eq_ok hread
      cases hp
      dsimp only at hread
      split at hread
      case h_1 hunknown =>
        rw [hcolon] at hread
        obtain ⟨q, hq, hread⟩ := bind_eq_ok hread
        cases hq
        obtain ⟨z, hskip, hread⟩ := bind_eq_ok hread
        obtain rfl := eq_of_skipValue hskip hv
        refine (ih hrest hread).cons_of_ne fun j => ?_
        rintro rfl
        simp [Key.ofMemberName?_eq_ofName?] at hunknown
      case h_2 j hkey =>
        rw [Key.ofMemberName?_eq_ofName?] at hkey
        obtain rfl := Key.name_of_ofName? hkey
        split at hread
        case isTrue => cases hread
        case isFalse hseen =>
          rw [hcolon] at hread
          obtain ⟨q, hq, hread⟩ := bind_eq_ok hread
          cases hq
          obtain ⟨⟨a, z⟩, ha, hread⟩ := bind_eq_ok hread
          obtain ⟨rfl, hdecode⟩ := j.kind.agree_read? ha hv
          exact (ih hrest hread).cons hseen hdecode

/-- An object that can be read straight is read member by member. -/
theorem readMembers_of_parse (hs : skipSpace s = '\x7b'.toUInt8 :: rest)
    (h : parse s = .ok m) :
    ∃ r, readMembers (rest.length + 1) true [] .empty rest = .ok (m, r) := by
  obtain ⟨⟨m', r⟩, hread, hfinish⟩ := bind_eq_ok (runReader_eq_ok h)
  obtain rfl := eq_of_finish hfinish
  refine ⟨r, ?_⟩
  rw [read, hs] at hread
  exact hread

theorem field?_of_ofJson? {j : Key} (h : j.kind.ofJson? v = .ok (m.get j))
    (haccepts : ∀ a, m.get j = some a → j.kind.accepts a) : field? j v = m.get j := by
  rw [field?, decodeMembers_singleton, h]
  show ((empty.set j (m.get j)).get j).filter _ = m.get j
  rw [get_set_self]
  cases ha : m.get j with
  | none => rfl
  | some a => simp [Option.filter, haccepts a ha]

/-- Settings that can be read straight from the text of an object, with values that users can give,
are those that its members give one by one. -/
theorem get_eq_of_parse {written : Members} (hs : skipSpace s = '\x7b'.toUInt8 :: rest)
    (hmembers : members (value depth) n true rest = .ok (written, x)) (h : parse s = .ok m)
    (haccepts : ∀ j a, m.get j = some a → j.kind.accepts a) (j : Key) :
    (written.reverse.lookup j.name).bind (field? j) = m.get j := by
  obtain ⟨r, hread⟩ := readMembers_of_parse hs h
  obtain ⟨hown, hother⟩ := decoded_of_readMembers hmembers hread
  cases hlookup : written.reverse.lookup j.name with
  | none =>
    have hnot : ∀ v, (j.name, v) ∉ written := by
      intro v hm
      have hne := List.lookup_eq_none_iff.mp hlookup _ (List.mem_reverse.mpr hm)
      simp at hne
    rw [hother j hnot]
    rfl
  | some v =>
    have hm : (j.name, v) ∈ written := List.mem_reverse.mp (mem_of_lookup hlookup)
    exact field?_of_ofJson? (hown j v hm).2 (haccepts j)

end Settings

end Generation
