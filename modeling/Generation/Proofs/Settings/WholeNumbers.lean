import Generation.Proofs.Settings.Codec
import Generation.Proofs.Settings.Edits
import Generation.Proofs.Decimal.Numerals

/-!
Settings that are whole numbers. A numeral of any length is taken for the number that it denotes, or
refused if no value is that number.
-/
namespace Generation

open Numeral (Denotes IsCanonical)

variable {k : Key} {m : Nat} {n : Int} {negatives : Bool} {low high : Int}

namespace Kind

/-- A kind whose values are the whole numbers from `low` to `high`, each read from every numeral of
it and written as one. -/
structure IsWhole (κ : Kind) (number : κ.Value → Int) (negatives : Bool) (low high : Int) :
    Prop where
  exists_iff : ∀ n, (∃ v, number v = n) ↔ low ≤ n ∧ n ≤ high
  parse_iff : ∀ raw v, κ.parse raw = .ok v ↔ Denotes negatives raw.toList (number v)
  parse_render : ∀ v, κ.parse (κ.render v) = .ok v
  canonical : ∀ v, IsCanonical (κ.render v).toList (number v)

theorem orReject_eq_ok_iff {α : Type} {value? : Option α} {r : Rejection} {a : α} :
    orReject value? r = .ok a ↔ value? = some a := by
  cases value? with
  | none => simp [orReject]
  | some b => simp [orReject]

theorem int64?_eq_some_iff {v : Int64} : int64? n = some v ↔ v.toInt = n := by
  constructor
  · intro h
    unfold int64? at h
    split at h
    case isTrue hn =>
      obtain rfl := Option.some.inj h
      exact Int64.toInt_ofInt_of_le hn.1 hn.2
    case isFalse => cases h
  · rintro rfl
    exact int64?_toInt v

theorem uint64?_eq_some_iff {v : UInt64} : uint64? m = some v ↔ v.toNat = m := by
  constructor
  · intro h
    unfold uint64? at h
    split at h
    case isTrue hm =>
      obtain rfl := Option.some.inj h
      exact UInt64.toNat_ofNat_of_lt' hm
    case isFalse => cases h
  · rintro rfl
    exact uint64?_toNat v

theorem isWhole_integer :
    IsWhole .integer (fun v => v.toInt) true (-2 ^ 63) (2 ^ 63 - 1) := by
  constructor
  · intro n
    constructor
    · rintro ⟨v, rfl⟩
      have hlow := v.le_toInt
      have hhigh := v.toInt_lt
      omega
    · rintro ⟨hlow, hhigh⟩
      exact ⟨.ofInt n, Int64.toInt_ofInt_of_le hlow (by omega)⟩
  · intro raw v
    simp only [parse, orReject_eq_ok_iff, Option.bind_eq_some_iff, Numeral.integer?_eq_some_iff,
      int64?_eq_some_iff]
    constructor
    · rintro ⟨n, hn, rfl⟩
      exact hn
    · exact fun h => ⟨_, h, rfl⟩
  · exact parse_render_integer
  · intro v
    simp only [render, String.toList_ofList]
    exact Numeral.isCanonical_toDigits _

theorem isWhole_unsigned :
    IsWhole .unsigned (fun v => v.toNat) false 0 (2 ^ 64 - 1) := by
  constructor
  · intro n
    constructor
    · rintro ⟨v, rfl⟩
      have hhigh := v.toNat_lt
      omega
    · rintro ⟨hlow, hhigh⟩
      obtain ⟨m, rfl⟩ := Int.eq_ofNat_of_zero_le hlow
      have hm : m < UInt64.size := Int.ofNat_lt.mp (Int.lt_of_le_sub_one hhigh)
      exact ⟨.ofNat m, congrArg Nat.cast (UInt64.toNat_ofNat_of_lt' hm)⟩
  · intro raw v
    simp only [parse, orReject_eq_ok_iff, Option.bind_eq_some_iff, uint64?_eq_some_iff,
      ← Numeral.unsigned?_eq_some_iff, Option.map_eq_some_iff]
    constructor
    · rintro ⟨m, hm, rfl⟩
      exact ⟨_, hm, rfl⟩
    · rintro ⟨m, hm, h⟩
      exact ⟨m, hm, (Int.ofNat_inj.mp h).symm⟩
  · exact parse_render_unsigned
  · intro v
    have hcanonical := Numeral.isCanonical_toDigits v.toNat
    rw [if_neg (by omega)] at hcanonical
    simp only [render, String.toList_ofList]
    exact hcanonical

end Kind

namespace Settings

/-- How settings take texts for a key whose values are the whole numbers from `low` to `high`. -/
structure TakesWhole (k : Key) (number : k.Value → Int) (negatives : Bool) (low high : Int) :
    Prop where
  accepted : ∀ s raw, ((Edit.assign k.name raw).make s).1 = .ok () ↔
    ∃ n, Denotes negatives raw.toList n ∧ low ≤ n ∧ n ≤ high
  /-- The value is exactly the number that is denoted. It is shown without a plus sign or leading
  zeros, and what is shown leads to it again. -/
  stored : ∀ s raw n, Denotes negatives raw.toList n → low ≤ n → n ≤ high →
    ∃ v text, number v = n ∧ (Edit.assign k.name raw).make s = (.ok (), s.set k (some v)) ∧
      (s.set k (some v)).value? k.name = some text ∧ IsCanonical text.toList n ∧
      ∀ t, (Edit.assign k.name text).make t = (.ok (), t.set k (some v))
  refused : ∀ s raw, (¬ ∃ n, Denotes negatives raw.toList n ∧ low ≤ n ∧ n ≤ high) →
    ∃ e, (Edit.assign k.name raw).make s = (.error e, s)

theorem takesWhole {number : k.Value → Int} (h : k.kind.IsWhole number negatives low high) :
    TakesWhole k number negatives low high := by
  have hstored (s : Settings) (raw : String) (n : Int) (hn : Denotes negatives raw.toList n)
      (hlow : low ≤ n) (hhigh : n ≤ high) :
      ∃ v, number v = n ∧ (Edit.assign k.name raw).make s = (.ok (), s.set k (some v)) := by
    obtain ⟨v, rfl⟩ := (h.exists_iff n).mpr ⟨hlow, hhigh⟩
    exact ⟨v, rfl, Edit.make_assign_of_ok ((h.parse_iff raw v).mpr hn) s⟩
  have hrefused (s : Settings) (raw : String)
      (hraw : ¬ ∃ n, Denotes negatives raw.toList n ∧ low ≤ n ∧ n ≤ high) :
      ∃ e, (Edit.assign k.name raw).make s = (.error e, s) := by
    cases hparse : k.kind.parse raw with
    | ok v => exact absurd ⟨_, (h.parse_iff raw v).mp hparse, (h.exists_iff _).mp ⟨v, rfl⟩⟩ hraw
    | error r => exact ⟨_, Edit.make_assign_of_error hparse s⟩
  constructor
  · intro s raw
    constructor
    · intro haccepted
      by_contra hraw
      obtain ⟨e, hmake⟩ := hrefused s raw hraw
      rw [hmake] at haccepted
      cases haccepted
    · rintro ⟨n, hn, hlow, hhigh⟩
      obtain ⟨v, -, hmake⟩ := hstored s raw n hn hlow hhigh
      rw [hmake]
  · intro s raw n hn hlow hhigh
    obtain ⟨v, rfl, hmake⟩ := hstored s raw n hn hlow hhigh
    exact ⟨v, k.kind.render v, rfl, hmake, value?_set_self s k (some v), h.canonical v,
      Edit.make_assign_of_ok (h.parse_render v)⟩
  · exact hrefused

/-- Settings that are whole numbers are exact up to their limits. -/
theorem whole_numbers_exact :
    TakesWhole .maxTokens (fun v => v.toInt) true (-2 ^ 63) (2 ^ 63 - 1) ∧
    TakesWhole .samplingTop (fun v => v.toInt) true (-2 ^ 63) (2 ^ 63 - 1) ∧
    TakesWhole .samplingSeed (fun v => v.toNat) false 0 (2 ^ 64 - 1) :=
  ⟨takesWhole Kind.isWhole_integer, takesWhole Kind.isWhole_integer,
    takesWhole Kind.isWhole_unsigned⟩

/-- Leading zeros below a limit, the number behind that limit, and minus zero. -/
theorem whole_numbers_exact_limits :
    (∃ v text, v.toInt = 2 ^ 63 - 1 ∧
      (Edit.assign "maxTokens" "+0009223372036854775807").make empty =
        (.ok (), empty.set .maxTokens (some v)) ∧
      (empty.set .maxTokens (some v)).value? "maxTokens" = some text ∧
      IsCanonical text.toList (2 ^ 63 - 1)) ∧
    (∃ e, (Edit.assign "samplingTop" "9223372036854775808").make empty = (.error e, empty)) ∧
    ∃ e, (Edit.assign "samplingSeed" "-0").make empty = (.error e, empty) := by
  obtain ⟨hmax, htop, hseed⟩ := whole_numbers_exact
  refine ⟨?_, htop.refused _ _ ?_, hseed.refused _ _ ?_⟩
  · have hdenotes : Denotes true "+0009223372036854775807".toList (2 ^ 63 - 1) :=
      Numeral.integer?_eq_some_iff.mp (by decide +kernel)
    obtain ⟨v, text, hv, hmake, hvalue, htext, -⟩ :=
      hmax.stored empty _ _ hdenotes (by decide) (by decide)
    exact ⟨v, text, hv, hmake, hvalue, htext⟩
  · have hread : Numeral.integer? "9223372036854775808".toList = some (2 ^ 63) := by
      decide +kernel
    rintro ⟨n, hn, -, hhigh⟩
    rw [← Numeral.integer?_eq_some_iff, hread] at hn
    obtain rfl := Option.some.inj hn
    omega
  · have hread : (Numeral.unsigned? "-0".toList).map (fun m : Nat => (m : Int)) = none := by
      decide +kernel
    rintro ⟨n, hn, -⟩
    rw [← Numeral.unsigned?_eq_some_iff, hread] at hn
    cases hn

end Settings

end Generation
