import Generation.Json.Reader
import Generation.Proofs.Except
import Generation.Proofs.Json.Order

/-! What a reading step can do, and the shape of every value that is read. -/
namespace Generation.Json.Read

/-- The ways in which a value is read from a text that starts with no blank. -/
inductive ValueStep (n : Nat) : List UInt8 → Json → List UInt8 → Prop where
  | null {t r : List UInt8} : word (Text.bytes "ull") t = .ok r →
    ValueStep n ('n'.toUInt8 :: t) .null r
  | true {t r : List UInt8} : word (Text.bytes "rue") t = .ok r →
    ValueStep n ('t'.toUInt8 :: t) (.boolean true) r
  | false {t r : List UInt8} : word (Text.bytes "alse") t = .ok r →
    ValueStep n ('f'.toUInt8 :: t) (.boolean false) r
  | negative {t r : List UInt8} {x : Number} : number true t = .ok (x, r) →
    ValueStep n ('-'.toUInt8 :: t) (.number x) r
  | digit {b : UInt8} {t r : List UInt8} {x : Number} : isDigit b = true →
    number false (b :: t) = .ok (x, r) → ValueStep n (b :: t) (.number x) r
  | string {t r : List UInt8} {x : String} : string t = .ok (x, r) →
    ValueStep n ('"'.toUInt8 :: t) (.string x) r
  | array {m : Nat} {t r : List UInt8} {vs : List Json} : n = m + 1 →
    items (value m) (t.length + 1) true t = .ok (vs, r) →
    ValueStep n ('['.toUInt8 :: t) (.array vs) r
  | object {m : Nat} {t r : List UInt8} {ms : Members} : n = m + 1 →
    members (value m) (t.length + 1) true t = .ok (ms, r) →
    ValueStep n ('\x7b'.toUInt8 :: t) (.object (ofMembers ms)) r

variable {α : Type} {n : Nat} {s r : List UInt8} {v : Json}

theorem valueStep_of_value (h : value n s = .ok (v, r)) : ValueStep n (skipSpace s) v r := by
  rw [value] at h
  cases hs : skipSpace s with
  | nil => simp [hs, malformed] at h
  | cons b t =>
    simp only [hs] at h
    split at h
    case isTrue hb =>
      subst hb
      obtain ⟨a, ha, he⟩ := map_eq_ok h
      cases he
      exact .null ha
    split at h
    case isTrue hb =>
      subst hb
      obtain ⟨a, ha, he⟩ := map_eq_ok h
      cases he
      exact .true ha
    split at h
    case isTrue hb =>
      subst hb
      obtain ⟨a, ha, he⟩ := map_eq_ok h
      cases he
      exact .false ha
    split at h
    case isTrue hb =>
      subst hb
      obtain ⟨a, ha, he⟩ := map_eq_ok h
      cases he
      exact .negative ha
    split at h
    case isTrue hb =>
      obtain ⟨a, ha, he⟩ := map_eq_ok h
      cases he
      exact .digit hb ha
    split at h
    case isTrue hb =>
      subst hb
      obtain ⟨a, ha, he⟩ := map_eq_ok h
      cases he
      exact .string ha
    split at h
    case isTrue hb =>
      subst hb
      cases n with
      | zero => cases h
      | succ n =>
        obtain ⟨a, ha, he⟩ := map_eq_ok h
        cases he
        exact .array rfl ha
    split at h
    case isTrue hb =>
      subst hb
      cases n with
      | zero => cases h
      | succ n =>
        obtain ⟨a, ha, he⟩ := map_eq_ok h
        cases he
        exact .object rfl ha
    cases h

variable {item : List UInt8 → Except Fault (α × List UInt8)} {vs : List α} {first : Bool}
  {ms : List (String × α)}

/-- A list ends at its bracket, or goes on with an item. -/
theorem items_cases (h : items item n first s = .ok (vs, r)) :
    ∃ m, n = m + 1 ∧
      ((∃ t, nextItem first s = .ok (false, t) ∧ vs = [] ∧ r = t.tail) ∨
        ∃ t u a as, nextItem first s = .ok (true, t) ∧ item t = .ok (a, u) ∧
          items item m false u = .ok (as, r) ∧ vs = a :: as) := by
  cases n with
  | zero => cases h
  | succ m =>
    refine ⟨m, rfl, ?_⟩
    rw [items] at h
    obtain ⟨⟨more, t⟩, hnext, h⟩ := bind_eq_ok h
    cases more with
    | false =>
      simp only [Bool.false_eq_true, if_false, Except.ok.injEq, Prod.mk.injEq] at h
      exact Or.inl ⟨t, hnext, h.1.symm, h.2.symm⟩
    | true =>
      simp only [if_true] at h
      obtain ⟨⟨a, u⟩, hitem, h⟩ := bind_eq_ok h
      obtain ⟨⟨as, w⟩, hrest, h⟩ := bind_eq_ok h
      simp only [Except.ok.injEq, Prod.mk.injEq] at h
      obtain ⟨rfl, rfl⟩ := h
      exact Or.inr ⟨t, u, a, as, hnext, hitem, hrest, rfl⟩

/-- An object ends at its brace, or goes on with a name, a colon and a value. -/
theorem members_cases (h : members item n first s = .ok (ms, r)) :
    ∃ m, n = m + 1 ∧
      ((∃ t, nextMember first s = .ok (false, t) ∧ ms = [] ∧ r = t.tail) ∨
        ∃ t u w x name a as, nextMember first s = .ok (true, t) ∧ string t = .ok (name, u) ∧
          skipColon u = .ok w ∧ item w = .ok (a, x) ∧ members item m false x = .ok (as, r) ∧
          ms = (name, a) :: as) := by
  cases n with
  | zero => cases h
  | succ m =>
    refine ⟨m, rfl, ?_⟩
    rw [members] at h
    obtain ⟨⟨more, t⟩, hnext, h⟩ := bind_eq_ok h
    cases more with
    | false =>
      simp only [Bool.false_eq_true, if_false, Except.ok.injEq, Prod.mk.injEq] at h
      exact Or.inl ⟨t, hnext, h.1.symm, h.2.symm⟩
    | true =>
      simp only [if_true] at h
      obtain ⟨⟨name, u⟩, hname, h⟩ := bind_eq_ok h
      obtain ⟨w, hcolon, h⟩ := bind_eq_ok h
      obtain ⟨⟨a, x⟩, hitem, h⟩ := bind_eq_ok h
      obtain ⟨⟨as, y⟩, hrest, h⟩ := bind_eq_ok h
      simp only [Except.ok.injEq, Prod.mk.injEq] at h
      obtain ⟨rfl, rfl⟩ := h
      exact Or.inr ⟨t, u, w, x, name, a, as, hnext, hname, hcolon, hitem, hrest, rfl⟩

/-- What every item that can be read satisfies, all items of a list satisfy. -/
theorem forall_mem_of_items {P : α → Prop} (hP : ∀ s a r, item s = .ok (a, r) → P a)
    (h : items item n first s = .ok (vs, r)) : ∀ a ∈ vs, P a := by
  induction n generalizing first s vs with
  | zero => cases h
  | succ n ih =>
    obtain ⟨m, hm, ⟨t, -, rfl, -⟩ | ⟨t, u, a, as, -, hitem, hrest, rfl⟩⟩ := items_cases h
    · simp
    · obtain rfl := Nat.succ.inj hm
      rintro b (_ | ⟨_, hb⟩)
      · exact hP _ _ _ hitem
      · exact ih hrest b hb

theorem forall_mem_of_members {P : α → Prop} (hP : ∀ s a r, item s = .ok (a, r) → P a)
    (h : members item n first s = .ok (ms, r)) : ∀ m ∈ ms, P m.2 := by
  induction n generalizing first s ms with
  | zero => cases h
  | succ n ih =>
    obtain ⟨m, hm, ⟨t, -, rfl, -⟩ | ⟨t, u, w, x, name, a, as, -, -, -, hitem, hrest, rfl⟩⟩ :=
      members_cases h
    · simp
    · obtain rfl := Nat.succ.inj hm
      rintro b (_ | ⟨_, hb⟩)
      · exact hP _ _ _ hitem
      · exact ih hrest b hb

/-- Every value that is read has its members in order, and nests no deeper than it may. -/
theorem sorted_within_of_value (h : value n s = .ok (v, r)) : v.Sorted ∧ v.Within n := by
  induction n using Nat.strongRecOn generalizing s v r with
  | ind n ih =>
    have hstep := valueStep_of_value h
    generalize skipSpace s = u at hstep
    cases hstep with
    | null => exact ⟨.null, .null _⟩
    | true => exact ⟨.boolean _, .boolean _ _⟩
    | false => exact ⟨.boolean _, .boolean _ _⟩
    | negative => exact ⟨.number _, .number _ _⟩
    | digit => exact ⟨.number _, .number _ _⟩
    | string => exact ⟨.string _, .string _ _⟩
    | array hn hitems =>
      subst hn
      have hall := forall_mem_of_items (fun s a r h => ih _ (Nat.lt_succ_self _) h) hitems
      exact ⟨.array fun v hv => (hall v hv).1, .array fun v hv => (hall v hv).2⟩
    | object hn hmembers =>
      subst hn
      have hall := forall_mem_of_members (fun s a r h => ih _ (Nat.lt_succ_self _) h) hmembers
      exact ⟨.object (ascending_ofMembers _) fun m hm => (hall m (mem_of_mem_ofMembers hm)).1,
        .object fun m hm => (hall m (mem_of_mem_ofMembers hm)).2⟩

end Generation.Json.Read

namespace Generation.Json

theorem runReader_eq_ok {α : Type} {read : List UInt8 → Except Fault α} {text : List UInt8} {a : α}
    (h : runReader read text = .ok a) : read text = .ok a := by
  unfold runReader at h
  split at h
  · rename_i heq
    rw [heq, Except.ok.inj h]
  · cases h

theorem eq_of_finish {α : Type} {a b : α} {r : List UInt8} (h : Read.finish a r = .ok b) :
    a = b := by
  unfold Read.finish at h
  split at h
  · exact Except.ok.inj h
  · cases h

theorem value_of_parse {text : List UInt8} {v : Json} (h : parse text = .ok v) :
    ∃ r, Read.value Read.maxDepth text = .ok (v, r) ∧ Read.finish v r = .ok v := by
  obtain ⟨⟨w, r⟩, hvalue, hfinish⟩ := bind_eq_ok (runReader_eq_ok h)
  obtain rfl := eq_of_finish hfinish
  exact ⟨r, hvalue, hfinish⟩

theorem sorted_within_of_parse {text : List UInt8} {v : Json} (h : parse text = .ok v) :
    v.Sorted ∧ v.Within Read.maxDepth := by
  obtain ⟨r, hvalue, -⟩ := value_of_parse h
  exact Read.sorted_within_of_value hvalue

/-- The members of the object that a text holds, in the order in which they stand there, repeated
names included. -/
def writtenMembers? (text : List UInt8) : Option Members :=
  match Read.skipSpace text with
  | [] => none
  | b :: rest =>
    if b = '\x7b'.toUInt8 then
      (Read.members (Read.value (Read.maxDepth - 1)) (rest.length + 1) true rest).toOption.map
        Prod.fst
    else none

/-- The members of an object that is read are those that stand in the text. -/
theorem members_of_parse {text : List UInt8} {members : Members}
    (h : parse text = .ok (.object members)) :
    ∃ rest written r, Read.skipSpace text = '\x7b'.toUInt8 :: rest ∧
      Read.members (Read.value (Read.maxDepth - 1)) (rest.length + 1) true rest =
        .ok (written, r) ∧
      writtenMembers? text = some written ∧ members = ofMembers written := by
  obtain ⟨r, hvalue, -⟩ := value_of_parse h
  have hstep := Read.valueStep_of_value hvalue
  generalize hs : Read.skipSpace text = u at hstep
  cases hstep with
  | @object m t r ms hdepth hmembers =>
    obtain rfl : m = Read.maxDepth - 1 := by omega
    refine ⟨t, ms, r, rfl, hmembers, ?_, rfl⟩
    rw [writtenMembers?, hs]
    simp only [if_true, hmembers]
    rfl

end Generation.Json
