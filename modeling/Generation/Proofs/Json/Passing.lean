import Generation.Json.Skip
import Generation.Proofs.Json.Numbers
import Generation.Proofs.Json.Parsed
import Mathlib.Data.List.DropRight

/-!
A value that is passed over ends where it ends when it is read. Strings and numbers that can be read
can also be passed over; of lists and objects this is said only where both happen.
-/
namespace Generation.Json.Read

variable {n m k : Nat} {s t r after rest : List UInt8} {c : Char} {negative : Bool}
  {significand : Nat} {exponent : Int} {x : Number}

/-! Strings -/

theorem hexUnit_eq_ok {unit : Nat} (h : hexUnit s = .ok (unit, r)) :
    ∃ a b c d, s = a :: b :: c :: d :: r := by
  unfold hexUnit at h
  split at h
  · rename_i a b c d t
    split at h
    · cases h
      exact ⟨a, b, c, d, rfl⟩
    · cases h
  · cases h

/-- An escape is one unit, or one unit and a second escape. -/
theorem unicodeEscape_cases (h : unicodeEscape s = .ok (c, after)) :
    ∃ unit rest, hexUnit s = .ok (unit, rest) ∧
      (after = rest ∨ ∃ t low, rest = '\\'.toUInt8 :: 'u'.toUInt8 :: t ∧
        hexUnit t = .ok (low, after)) := by
  obtain ⟨⟨unit, rest⟩, hunit, h⟩ := bind_eq_ok h
  refine ⟨unit, rest, hunit, ?_⟩
  dsimp only at h
  split at h
  · cases h
  split at h
  · split at h
    · cases h
    split at h
    · cases h
    rename_i hslash
    split at h
    · cases h
    split at h
    · cases h
    rename_i hu
    obtain ⟨⟨low, t⟩, hlow, h⟩ := bind_eq_ok h
    dsimp only at h
    split at h
    · obtain ⟨-, rfl⟩ := Prod.mk.inj (Except.ok.inj h)
      exact Or.inr ⟨_, low, by rw [not_not.mp hslash, not_not.mp hu], hlow⟩
    · cases h
  · obtain ⟨-, rfl⟩ := Prod.mk.inj (Except.ok.inj h)
    exact Or.inl rfl

/-- An escape is passed over byte by byte, however long it is. -/
theorem skipString_escape (h : escape rest = .ok (c, after)) :
    skipString 0 ('\\'.toUInt8 :: rest) = skipString (rest.length - after.length) rest := by
  have hquote : '\\'.toUInt8 ≠ '"'.toUInt8 := by decide
  cases rest with
  | nil => cases h
  | cons b tail =>
    rw [skipString]
    simp only [hquote, if_false, if_true]
    rw [escape] at h
    split at h
    case isTrue hb =>
      subst hb
      obtain ⟨unit, t, hunit, hrest⟩ := unicodeEscape_cases h
      obtain ⟨a, b, c, d, rfl⟩ := hexUnit_eq_ok hunit
      simp only [if_true, hunit]
      rcases hrest with rfl | ⟨u, low, rfl, hlow⟩
      · have hlength : ('u'.toUInt8 :: a :: b :: c :: d :: after).length - after.length = 5 := by
          simp only [List.length_cons]
          omega
        rw [hlength]
      · obtain ⟨a', b', c', d', rfl⟩ := hexUnit_eq_ok hlow
        have hlength : ('u'.toUInt8 :: a :: b :: c :: d :: '\\'.toUInt8 :: 'u'.toUInt8 ::
            a' :: b' :: c' :: d' :: after).length - after.length = 11 := by
          simp only [List.length_cons]
          omega
        have hsecond : skipString 0 ('\\'.toUInt8 :: 'u'.toUInt8 :: a' :: b' :: c' :: d' :: after) =
            skipString 0 after := by
          rw [skipString]
          simp only [hquote, if_false, if_true, hlow]
          rfl
        rw [hlength]
        exact hsecond
    case isFalse hb =>
      cases hshort : shortEscape? b with
      | none => simp [hshort, malformed] at h
      | some c =>
        simp only [hshort, Except.ok.injEq, Prod.mk.injEq] at h
        obtain ⟨-, rfl⟩ := h
        simp [hb]

/-- A string that can be read can be passed over. -/
theorem skipString_of_stringBytes {bs : List UInt8} (h : stringBytes n s = .ok (bs, r)) :
    skipString n s = .ok r := by
  fun_induction stringBytes n s generalizing bs with
  | case1 => cases h
  | case2 skip b rest ih => exact ih h
  | case3 rest =>
    cases h
    rfl
  | case4 => cases h
  | case5 rest c after hescape _ ih =>
    obtain ⟨a, ha, he⟩ := map_eq_ok h
    cases he
    rw [skipString_escape hescape]
    exact ih ha
  | case6 => cases h
  | case7 b rest hquote hslash hcontrol ih =>
    obtain ⟨a, ha, he⟩ := map_eq_ok h
    cases he
    unfold skipString
    rw [if_neg hquote, if_neg hslash, if_neg hcontrol]
    exact ih ha

/-- A string that can be read can be passed over. -/
theorem skipString_of_string {text : String} (h : string s = .ok (text, r)) :
    skipString 0 s = .ok r := by
  rw [string] at h
  cases hbytes : stringBytes 0 s with
  | error f => simp [hbytes] at h
  | ok a =>
    obtain ⟨bs, rest⟩ := a
    simp only [hbytes] at h
    split at h
    · cases h
      exact skipString_of_stringBytes hbytes
    · cases h

/-! Numbers -/

theorem rest_of_realOf (h : realOf negative significand exponent s = .ok (x, r)) : r = s := by
  rw [realOf] at h
  split at h <;> cases h
  rfl

/-- The digits of an exponent are read to their end, or it is seen early that they are too many. -/
theorem exponentDigits_rest (e : Nat) (s : List UInt8) :
    (∃ e', exponentDigits e s = .ok (e', s.dropWhile isDigit)) ∨
      ∃ t, exponentDigits e s = .error t ∧ t.dropWhile isDigit = s.dropWhile isDigit := by
  induction s generalizing e with
  | nil => exact Or.inl ⟨e, rfl⟩
  | cons b s ih =>
    by_cases hb : isDigit b
    · rw [exponentDigits, if_pos hb, List.dropWhile_cons_of_pos hb]
      dsimp only
      split
      · exact ih _
      · exact Or.inr ⟨s, rfl, rfl⟩
    · rw [exponentDigits, if_neg hb, List.dropWhile_cons_of_neg hb]
      exact Or.inl ⟨e, rfl⟩

/-- Whether an exponent has a minus sign, and what follows its sign. -/
def afterSign (s : List UInt8) : Bool × List UInt8 :=
  match s with
  | b :: rest =>
    if b = '-'.toUInt8 then (true, rest)
    else if b = '+'.toUInt8 then (false, rest)
    else (false, s)
  | [] => (false, s)

theorem skipExponent_eq (s : List UInt8) :
    skipExponent s =
      match (afterSign s).2 with
      | [] => malformed .badNumber []
      | b :: rest =>
        if isDigit b then .ok (rest.dropWhile isDigit) else malformed .badNumber rest := by
  have hplus : '+'.toUInt8 ≠ '-'.toUInt8 := by decide
  have hsign : (afterSign s).2 = match s with
      | b :: rest => if b = '-'.toUInt8 ∨ b = '+'.toUInt8 then rest else s
      | [] => s := by
    unfold afterSign
    cases s with
    | nil => rfl
    | cons b t =>
      by_cases h : b = '-'.toUInt8
      · simp [h]
      · by_cases h' : b = '+'.toUInt8
        · simp [h', hplus]
        · simp [h, h']
  rw [hsign]
  rfl

/-- What is read of an exponent behind its sign. -/
theorem exponentPart_eq (negative : Bool) (significand : Nat) (exponent : Int) (s : List UInt8) :
    exponentPart negative significand exponent s =
      match (afterSign s).2 with
      | [] => malformed .endOfValue []
      | b :: rest =>
        if isDigit b then
          match exponentDigits (digitValue b) rest with
          | .ok (e, rest) =>
            realOf negative significand
              (if (afterSign s).1 then exponent - e else exponent + e) rest
          | .error rest =>
            if significand ≠ 0 ∧ !(afterSign s).1 then malformed .numberOutOfRange rest
            else .ok (.real (.zero negative), rest.dropWhile isDigit)
        else malformed .badNumber rest := rfl

theorem skipExponent_of_exponentPart
    (h : exponentPart negative significand exponent s = .ok (x, r)) : skipExponent s = .ok r := by
  rw [exponentPart_eq] at h
  rw [skipExponent_eq]
  cases hu : (afterSign s).2 with
  | nil => simp [hu, malformed] at h
  | cons b t =>
    simp only [hu] at h ⊢
    by_cases hb : isDigit b
    · rw [if_pos hb] at h ⊢
      rcases exponentDigits_rest (digitValue b) t with ⟨e, he⟩ | ⟨w, he, hw⟩
      · simp only [he] at h
        rw [rest_of_realOf h]
      · simp only [he] at h
        split at h
        · cases h
        · cases h
          rw [hw]
    · rw [if_neg hb] at h
      cases h

theorem skipFraction_of_fractionPart
    (h : fractionPart negative significand exponent s = .ok (x, r)) : skipFraction s = .ok r := by
  rw [fractionPart] at h
  rw [skipFraction]
  split at h
  · cases h
  rename_i digits hdigits
  rw [if_neg hdigits]
  dsimp only at h
  cases hafter : s.dropWhile isDigit with
  | nil =>
    rw [hafter, realTail] at h
    rw [rest_of_realOf h]
  | cons b t =>
    rw [hafter, realTail] at h
    dsimp only
    split at h
    case isTrue hmark =>
      rw [if_pos hmark]
      exact skipExponent_of_exponentPart h
    case isFalse hmark => rw [if_neg hmark, rest_of_realOf h]

/-- A number that can be read can be passed over. -/
theorem skipNumber_of_number (h : number negative s = .ok (x, r)) : skipNumber s = .ok r := by
  cases s with
  | nil => cases h
  | cons b t =>
    rw [number] at h
    rw [skipNumber]
    by_cases hb : isDigit b
    · rw [if_pos hb] at h ⊢
      dsimp only at h ⊢
      split at h
      case isTrue => cases h
      case isFalse hzero =>
        rw [if_neg hzero]
        cases hafter : t.dropWhile isDigit with
        | nil =>
          simp only [hafter] at h
          split at h
          · cases h
            rfl
          · rw [rest_of_realOf h]
        | cons c tail =>
          simp only [hafter] at h
          by_cases hpoint : c = '.'.toUInt8
          · rw [if_pos hpoint] at h
            simp only [if_pos hpoint]
            exact skipFraction_of_fractionPart h
          · rw [if_neg hpoint] at h
            simp only [if_neg hpoint]
            by_cases hmark : isExponentMark c
            · rw [if_pos hmark]
              simp only [hmark, realTail, if_true, Bool.not_true, Bool.false_eq_true, and_false,
                if_false] at h
              exact skipExponent_of_exponentPart h
            · rw [if_neg hmark]
              split at h
              · cases h
                rfl
              · rw [realTail, if_neg hmark] at h
                rw [rest_of_realOf h]
    · rw [if_neg hb] at h
      cases h

/-! Lists and objects -/

variable {α : Type} {f : Frame} {frames outer : List Frame} {y : List UInt8} {b : UInt8}
  {first more : Bool}

def Frame.opening : Frame → UInt8
  | .list => '['.toUInt8
  | .object => '\x7b'.toUInt8

@[simp] theorem skipSpace_skipSpace (s : List UInt8) : skipSpace (skipSpace s) = skipSpace s :=
  List.dropWhile_idempotent ..

theorem skipIn_skipSpace (n : Nat) (frames : List Frame) (s : List UInt8) :
    skipIn n false frames (skipSpace s) = skipIn n false frames s := by
  cases n with
  | zero => rfl
  | succ n => simp only [skipIn, skipSpace_skipSpace]

/-- A value that is no container is passed over at once. -/
theorem skipIn_scalar (h : skipIn n false frames s = .ok y) (hs : skipSpace s = b :: rest)
    (hlist : b ≠ '['.toUInt8) (hobject : b ≠ '\x7b'.toUInt8) (hscalar : skipScalar b rest = .ok r) :
    ∃ m, skipIn m true frames r = .ok y := by
  cases n with
  | zero => cases h
  | succ n =>
    simp only [skipIn, hs, hlist, hobject, or_self, if_false, hscalar] at h
    exact ⟨n, h⟩

/-- A container is closed at once, or its first value follows. -/
theorem skipIn_container (h : skipIn n false frames s = .ok y)
    (hs : skipSpace s = f.opening :: rest) :
    ∃ m, (∃ t, skipSpace rest = f.close :: t ∧ skipIn m true frames t = .ok y) ∨
      ((∀ t, skipSpace rest ≠ f.close :: t) ∧
        ∃ t, f.enter (skipSpace rest) = .ok t ∧ skipIn m false (f :: frames) t = .ok y) := by
  cases n with
  | zero => cases h
  | succ n =>
    have hopen : f.opening = '['.toUInt8 ∨ f.opening = '\x7b'.toUInt8 := by
      cases f with
      | list => exact Or.inl rfl
      | object => exact Or.inr rfl
    have hframe : (if f.opening = '['.toUInt8 then Frame.list else Frame.object) = f := by
      cases f <;> decide
    simp only [skipIn, hs, hopen, if_true, hframe] at h
    refine ⟨n, ?_⟩
    cases hrest : skipSpace rest with
    | nil => simp [hrest, malformed] at h
    | cons c t =>
      simp only [hrest] at h
      split at h
      case isTrue hclose =>
        subst hclose
        exact Or.inl ⟨t, rfl, h⟩
      case isFalse hclose =>
        obtain ⟨u, henter, h⟩ := bind_eq_ok h
        exact Or.inr ⟨fun v hv => hclose (List.cons.inj hv).1, u, henter, h⟩

theorem skipIn_closed (h : skipIn n false frames s = .ok y) (hs : skipSpace s = f.opening :: rest)
    (hclose : skipSpace rest = f.close :: t) : ∃ m, skipIn m true frames t = .ok y := by
  obtain ⟨m, ⟨u, hu, h⟩ | ⟨hopen, -⟩⟩ := skipIn_container h hs
  · rw [hclose] at hu
    obtain ⟨-, rfl⟩ := List.cons.inj hu
    exact ⟨m, h⟩
  · exact absurd hclose (hopen t)

theorem skipIn_entered (h : skipIn n false frames s = .ok y) (hs : skipSpace s = f.opening :: rest)
    (hopen : ∀ t, skipSpace rest ≠ f.close :: t) :
    ∃ m t, f.enter (skipSpace rest) = .ok t ∧ skipIn m false (f :: frames) t = .ok y := by
  obtain ⟨m, ⟨u, hu, -⟩ | ⟨-, t, henter, h⟩⟩ := skipIn_container h hs
  · exact absurd hu (hopen u)
  · exact ⟨m, t, henter, h⟩

/-- Behind a value its container ends, or the next value follows. -/
theorem skipIn_next (h : skipIn n true (f :: outer) s = .ok y) :
    ∃ m, (∃ t, skipSpace s = f.close :: t ∧ skipIn m true outer t = .ok y) ∨
      ∃ t u, skipSpace s = ','.toUInt8 :: t ∧ f.enter t = .ok u ∧
        skipIn m false (f :: outer) u = .ok y := by
  cases n with
  | zero => cases h
  | succ n =>
    refine ⟨n, ?_⟩
    rw [skipIn] at h
    split at h
    · cases h
    split at h
    case isTrue hs hcomma =>
      subst hcomma
      obtain ⟨u, henter, h⟩ := bind_eq_ok h
      exact Or.inr ⟨_, u, hs, henter, h⟩
    case isFalse hs _ =>
      split at h
      case isTrue hclose =>
        subst hclose
        exact Or.inl ⟨_, hs, h⟩
      case isFalse => cases h

theorem Frame.close_ne_comma (f : Frame) : f.close ≠ ','.toUInt8 := by
  cases f <;> decide

theorem skipIn_next_close (h : skipIn n true (f :: outer) s = .ok y)
    (hs : skipSpace s = f.close :: t) : ∃ m, skipIn m true outer t = .ok y := by
  obtain ⟨m, ⟨u, hu, h⟩ | ⟨u, v, hu, -⟩⟩ := skipIn_next h
  · rw [hs] at hu
    obtain ⟨-, rfl⟩ := List.cons.inj hu
    exact ⟨m, h⟩
  · rw [hs] at hu
    exact absurd (List.cons.inj hu).1 f.close_ne_comma

theorem skipIn_next_comma (h : skipIn n true (f :: outer) s = .ok y)
    (hs : skipSpace s = ','.toUInt8 :: t) :
    ∃ m u, f.enter t = .ok u ∧ skipIn m false (f :: outer) u = .ok y := by
  obtain ⟨m, ⟨u, hu, -⟩ | ⟨u, v, hu, henter, h⟩⟩ := skipIn_next h
  · rw [hs] at hu
    exact absurd (List.cons.inj hu).1.symm f.close_ne_comma
  · rw [hs] at hu
    obtain ⟨-, rfl⟩ := List.cons.inj hu
    exact ⟨m, v, henter, h⟩

/-- The steps to the next item of a list: they end at the bracket, at the first item, or behind a
comma. -/
inductive ItemStep (s : List UInt8) : Bool → Bool → List UInt8 → Prop where
  | close {first : Bool} {u : List UInt8} : skipSpace s = ']'.toUInt8 :: u →
    ItemStep s first false (']'.toUInt8 :: u)
  | first {t : List UInt8} : skipSpace s = t → (∀ u, t ≠ ']'.toUInt8 :: u) → ItemStep s true true t
  | later {u : List UInt8} : skipSpace s = ','.toUInt8 :: u → ItemStep s false true (skipSpace u)

theorem itemStep_of_nextItem (h : nextItem first s = .ok (more, t)) : ItemStep s first more t := by
  rw [nextItem] at h
  split at h
  · cases h
  rename_i b rest hs
  split at h
  case isTrue hclose =>
    subst hclose
    cases h
    exact .close hs
  case isFalse hclose =>
    split at h
    case isTrue hfirst =>
      subst hfirst
      cases h
      exact .first hs fun u hu => hclose (List.cons.inj hu).1
    case isFalse hfirst =>
      obtain rfl := eq_false_of_ne_true hfirst
      split at h
      case isTrue hcomma =>
        subst hcomma
        split at h
        · cases h
        rename_i c u hu
        split at h
        · cases h
        · cases h
          rw [← hu]
          exact .later hs
      case isFalse => cases h

/-- The steps to the next name in an object: they end at the brace, behind the first quote, or
behind a comma and a quote. -/
inductive MemberStep (s : List UInt8) : Bool → Bool → List UInt8 → Prop where
  | close {first : Bool} {u : List UInt8} : skipSpace s = '\x7d'.toUInt8 :: u →
    MemberStep s first false ('\x7d'.toUInt8 :: u)
  | first {t : List UInt8} : skipSpace s = '"'.toUInt8 :: t → MemberStep s true true t
  | later {t u : List UInt8} : skipSpace s = ','.toUInt8 :: u → skipSpace u = '"'.toUInt8 :: t →
    MemberStep s false true t

theorem memberStep_of_nextMember (h : nextMember first s = .ok (more, t)) :
    MemberStep s first more t := by
  rw [nextMember] at h
  split at h
  · cases h
  rename_i b rest hs
  split at h
  case isTrue hclose =>
    subst hclose
    cases h
    exact .close hs
  case isFalse hclose =>
    split at h
    case isTrue hfirst =>
      subst hfirst
      split at h
      case isTrue hquote =>
        subst hquote
        cases h
        exact .first hs
      case isFalse => cases h
    case isFalse hfirst =>
      obtain rfl := eq_false_of_ne_true hfirst
      split at h
      case isTrue hcomma =>
        subst hcomma
        split at h
        · cases h
        rename_i c u hu
        split at h
        case isTrue hquote =>
          subst hquote
          cases h
          exact .later hs hu
        case isFalse => split at h <;> cases h
      case isFalse => cases h

/-- What is read from a text can be passed over, if all that follows can. -/
def Passed (read : List UInt8 → Except Fault (α × List UInt8)) : Prop :=
  ∀ {s a r n frames y}, read s = .ok (a, r) → skipIn n false frames s = .ok y →
    ∃ m, skipIn m true frames r = .ok y

variable {item : List UInt8 → Except Fault (α × List UInt8)} {vs : List α}
  {ms : List (String × α)}

/-- From behind an item to behind the list. -/
theorem skipIn_of_items (hitem : Passed item) (h : items item k false s = .ok (vs, r))
    (hskip : skipIn n true (.list :: outer) s = .ok y) : ∃ m, skipIn m true outer r = .ok y := by
  induction k generalizing s n vs with
  | zero => cases h
  | succ k ih =>
    obtain ⟨k', hk, ⟨t, hnext, -, rfl⟩ | ⟨t, u, a, as, hnext, ha, has, -⟩⟩ := items_cases h
    · cases itemStep_of_nextItem hnext with
      | close hs => exact skipIn_next_close (f := .list) hskip hs
    · obtain rfl := Nat.succ.inj hk
      cases itemStep_of_nextItem hnext with
      | @later w hs =>
        obtain ⟨m, x, henter, hskip⟩ := skipIn_next_comma hskip hs
        obtain rfl : w = x := Except.ok.inj henter
        rw [← skipIn_skipSpace] at hskip
        obtain ⟨m, hskip⟩ := hitem ha hskip
        exact ih has hskip

theorem enter_object {name : String} {u w : List UInt8} (hs : skipSpace s = '"'.toUInt8 :: t)
    (hname : string t = .ok (name, u)) (hcolon : skipColon u = .ok w) :
    Frame.object.enter s = .ok w := by
  simp only [Frame.enter, hs, if_true, skipString_of_string hname]
  exact hcolon

/-- From behind a member to behind the object. -/
theorem skipIn_of_members (hitem : Passed item) (h : members item k false s = .ok (ms, r))
    (hskip : skipIn n true (.object :: outer) s = .ok y) :
    ∃ m, skipIn m true outer r = .ok y := by
  induction k generalizing s n ms with
  | zero => cases h
  | succ k ih =>
    obtain ⟨k', hk, ⟨t, hnext, -, rfl⟩ |
      ⟨t, u, w, x, name, a, as, hnext, hname, hcolon, ha, has, -⟩⟩ :=
      members_cases h
    · cases memberStep_of_nextMember hnext with
      | close hs => exact skipIn_next_close (f := .object) hskip hs
    · obtain rfl := Nat.succ.inj hk
      cases memberStep_of_nextMember hnext with
      | later hs hquote =>
        obtain ⟨m, z, henter, hskip⟩ := skipIn_next_comma hskip hs
        rw [enter_object hquote hname hcolon] at henter
        obtain rfl := Except.ok.inj henter
        obtain ⟨m, hskip⟩ := hitem ha hskip
        exact ih has hskip

theorem passed_array (hitem : Passed item) (h : items item k true t = .ok (vs, r))
    (hs : skipSpace s = '['.toUInt8 :: t) (hskip : skipIn n false frames s = .ok y) :
    ∃ m, skipIn m true frames r = .ok y := by
  obtain ⟨k, -, ⟨u, hnext, -, rfl⟩ | ⟨u, w, a, as, hnext, ha, has, -⟩⟩ := items_cases h
  · cases itemStep_of_nextItem hnext with
    | close ht => exact skipIn_closed (f := .list) hskip hs ht
  · cases itemStep_of_nextItem hnext with
    | first ht hopen =>
      obtain ⟨m, z, henter, hskip⟩ := skipIn_entered (f := .list) hskip hs (ht ▸ hopen)
      obtain rfl := Except.ok.inj henter
      rw [ht] at hskip
      obtain ⟨m, hskip⟩ := hitem ha hskip
      exact skipIn_of_items hitem has hskip

theorem passed_object (hitem : Passed item) (h : members item k true t = .ok (ms, r))
    (hs : skipSpace s = '\x7b'.toUInt8 :: t) (hskip : skipIn n false frames s = .ok y) :
    ∃ m, skipIn m true frames r = .ok y := by
  obtain ⟨k, -, ⟨u, hnext, -, rfl⟩ | ⟨u, w, x, z, name, a, as, hnext, hname, hcolon, ha, has, -⟩⟩ :=
    members_cases h
  · cases memberStep_of_nextMember hnext with
    | close ht => exact skipIn_closed (f := .object) hskip hs ht
  · cases memberStep_of_nextMember hnext with
    | first ht =>
      have hopen : ∀ v, skipSpace t ≠ Frame.object.close :: v := by
        intro v hv
        rw [ht] at hv
        exact absurd (List.cons.inj hv).1 (by decide)
      obtain ⟨m, v, henter, hskip⟩ := skipIn_entered (f := .object) hskip hs hopen
      have hfront : skipSpace (skipSpace t) = '"'.toUInt8 :: u := by rw [skipSpace_skipSpace, ht]
      rw [enter_object hfront hname hcolon] at henter
      obtain rfl := Except.ok.inj henter
      obtain ⟨m, hskip⟩ := hitem ha hskip
      exact skipIn_of_members hitem has hskip

/-- What is read as a value can be passed over, if all that follows can. -/
theorem passed_value (depth : Nat) : Passed (value depth) := by
  induction depth using Nat.strongRecOn with
  | ind depth ih =>
    intro s v r n frames y h hskip
    have hstep := valueStep_of_value h
    generalize hs : skipSpace s = u at hstep
    cases hstep with
    | null hword => exact skipIn_scalar hskip hs (by decide) (by decide) hword
    | true hword => exact skipIn_scalar hskip hs (by decide) (by decide) hword
    | false hword => exact skipIn_scalar hskip hs (by decide) (by decide) hword
    | negative hnumber =>
      exact skipIn_scalar hskip hs (by decide) (by decide) (skipNumber_of_number hnumber)
    | digit hb hnumber =>
      refine skipIn_scalar hskip hs (isDigit_ne hb (by decide)) (isDigit_ne hb (by decide)) ?_
      rw [skipScalar, if_neg (isDigit_ne hb (by decide)), if_neg (isDigit_ne hb (by decide)),
        if_neg (isDigit_ne hb (by decide)), if_neg (isDigit_ne hb (by decide)), if_pos hb]
      exact skipNumber_of_number hnumber
    | string hstring =>
      exact skipIn_scalar hskip hs (by decide) (by decide) (skipString_of_string hstring)
    | array hn hitems =>
      subst hn
      exact passed_array (ih _ (Nat.lt_succ_self _)) hitems hs hskip
    | object hn hmembers =>
      subst hn
      exact passed_object (ih _ (Nat.lt_succ_self _)) hmembers hs hskip

/-- A value that is passed over ends where it ends when it is read. -/
theorem eq_of_skipValue {depth : Nat} {v : Json} (hskip : skipValue s = .ok y)
    (h : value depth s = .ok (v, r)) : r = y := by
  obtain ⟨m, hm⟩ := passed_value depth h hskip
  cases m with
  | zero => cases hm
  | succ m => exact Except.ok.inj hm

end Generation.Json.Read
