import Generation.Proofs.Decimal.ReadBack
import Mathlib.Data.Nat.Digits.Defs

/-! Numerals and the whole numbers that they denote. -/
namespace Generation.Numeral

variable {cs ds : List Char} {m : Nat} {n : Int}

/-- One or more digits and the number that they denote, place by place. -/
structure IsNatural (ds : List Char) (m : Nat) : Prop where
  nonempty : ds ≠ []
  digits : ∀ d ∈ ds, d.isDigit
  value : m = Nat.ofDigits 10 (ds.reverse.map fun d => d.toNat - '0'.toNat)

/-- An optional sign, then digits. Whether it may be a minus sign is said by `negatives`. -/
inductive Denotes (negatives : Bool) : List Char → Int → Prop where
  | plain {ds : List Char} {m : Nat} (h : IsNatural ds m) : Denotes negatives ds m
  | plus {ds : List Char} {m : Nat} (h : IsNatural ds m) : Denotes negatives ('+' :: ds) m
  | minus {ds : List Char} {m : Nat} (allowed : negatives = true) (h : IsNatural ds m) :
    Denotes negatives ('-' :: ds) (-m)

/-- The text of a number without a plus sign or leading zeros. -/
def IsCanonical (cs : List Char) (n : Int) : Prop :=
  ∃ ds, cs = (if n < 0 then ['-'] else []) ++ ds ∧ IsNatural ds n.natAbs ∧
    (ds.head? = some '0' → ds = ['0'])

theorem natural?_eq_some_iff : natural? cs = some m ↔ IsNatural cs m := by
  have hvalue : Nat.ofDigitChars 10 cs 0 =
      Nat.ofDigits 10 (cs.reverse.map fun d => d.toNat - '0'.toNat) := by
    rw [Nat.ofDigits_eq_foldr, List.foldr_map, List.foldr_reverse, Nat.ofDigitChars_eq_foldl]
    simp only [Nat.add_comm, Nat.cast_id]
  unfold natural?
  split
  case isTrue h =>
    constructor
    · intro hm
      exact ⟨h.1, List.all_eq_true.mp h.2, (Option.some.inj hm).symm.trans hvalue⟩
    · exact fun hm => congrArg some (hvalue.trans hm.value.symm)
  case isFalse h =>
    simp only [reduceCtorEq, false_iff]
    intro hm
    exact h ⟨hm.nonempty, List.all_eq_true.mpr hm.digits⟩

theorem IsNatural.head?_ne {c : Char} (h : IsNatural ds m) (hc : c.isDigit = false) :
    ds.head? ≠ some c := by
  intro hhead
  have hdigit := h.digits c (List.mem_of_head? hhead)
  rw [hc] at hdigit
  cases hdigit

theorem unsigned?_eq_some_iff :
    (unsigned? cs).map (fun m : Nat => (m : Int)) = some n ↔ Denotes false cs n := by
  constructor
  · intro h
    obtain ⟨m, hm, rfl⟩ := Option.map_eq_some_iff.mp h
    unfold unsigned? at hm
    split at hm
    · exact .plus (natural?_eq_some_iff.mp hm)
    · exact .plain (natural?_eq_some_iff.mp hm)
  · intro h
    cases h with
    | plain h =>
      have hplus : ∀ ds, cs ≠ '+' :: ds := by
        rintro ds rfl
        exact h.head?_ne (c := '+') rfl rfl
      rw [unsigned?.eq_2 _ hplus, natural?_eq_some_iff.mpr h]
      rfl
    | plus h =>
      rw [unsigned?, natural?_eq_some_iff.mpr h]
      rfl
    | minus allowed => cases allowed

theorem integer?_eq_some_iff : integer? cs = some n ↔ Denotes true cs n := by
  have hcast (m? : Option Nat) (f : Int → Int) :
      (do let m ← m?; pure (m : Int) : Option Int).map f = m?.map fun m : Nat => f m := by
    cases m? <;> rfl
  unfold integer?
  split
  case h_1 ds =>
    rw [hcast]
    constructor
    · intro h
      obtain ⟨m, hm, rfl⟩ := Option.map_eq_some_iff.mp h
      exact .minus rfl (natural?_eq_some_iff.mp hm)
    · intro h
      cases h with
      | plain h => exact absurd rfl (h.head?_ne (c := '-') rfl)
      | minus _ h =>
        rw [natural?_eq_some_iff.mpr h]
        rfl
  case h_2 hminus =>
    rw [hcast, unsigned?_eq_some_iff]
    constructor
    · intro h
      cases h with
      | plain h => exact .plain h
      | plus h => exact .plus h
      | minus allowed => cases allowed
    · intro h
      cases h with
      | plain h => exact .plain h
      | plus h => exact .plus h
      | minus => exact absurd rfl (hminus _)

theorem isNatural_toDigits (m : Nat) : IsNatural (Nat.toDigits 10 m) m :=
  natural?_eq_some_iff.mp (natural?_toDigits m)

theorem isCanonical_toDigits (n : Int) :
    IsCanonical ((if n < 0 then ['-'] else []) ++ Nat.toDigits 10 n.natAbs) n := by
  refine ⟨_, rfl, isNatural_toDigits _, fun hzero => ?_⟩
  rcases Nat.eq_zero_or_pos n.natAbs with hn | hn
  · rw [hn]
    rfl
  · obtain ⟨d, ds, hd, hne⟩ := Digits.exists_toDigits_eq_cons hn
    rw [hd] at hzero
    exact absurd (Option.some.inj hzero) hne

end Generation.Numeral
