import Generation.Decimal.Numeral
import Generation.Proofs.Decimal.Digits
import Generation.Proofs.Decimal.Rounding
import Mathlib.Data.List.TakeWhile

/-! Numbers that are written in any layout read back as themselves. -/
namespace Generation

variable {c : Char} {cs ds rest whole fraction : List Char} {n s : Nat} {e x : Int}

namespace Text

/-- What is dropped at the end is there no more. -/
theorem exists_eq_dropEndWhile_append (z : Char) (cs : List Char) :
    ∃ k, cs = dropEndWhile (· == z) cs ++ List.replicate k z := by
  refine ⟨(cs.reverse.takeWhile (· == z)).length, ?_⟩
  have hall : ∀ c ∈ cs.reverse.takeWhile (· == z), c = z := by
    intro c hc
    simpa using List.mem_takeWhile_imp hc
  have hreplicate := List.eq_replicate_of_mem hall
  rw [dropEndWhile, ← List.reverse_replicate, ← hreplicate, ← List.reverse_append,
    List.takeWhile_append_dropWhile, List.reverse_reverse]

end Text

namespace Numeral

theorem natural?_toDigits (n : Nat) : natural? (Nat.toDigits 10 n) = some n := by
  have hall : (Nat.toDigits 10 n).all Char.isDigit = true :=
    List.all_eq_true.mpr fun c hc => Digits.isDigit_of_mem_toDigits hc
  rw [natural?, if_pos ⟨Nat.toDigits_ne_nil, hall⟩, Nat.ofDigitChars_ten_toDigits]

theorem unsigned?_toDigits (n : Nat) : unsigned? (Nat.toDigits 10 n) = some n := by
  obtain ⟨c, cs, hcons⟩ := List.exists_cons_of_ne_nil (Nat.toDigits_ne_nil (n := n) (b := 10))
  have hdigit : c.isDigit := Digits.isDigit_of_mem_toDigits (n := n) (by simp [hcons])
  have hplus : c ≠ '+' := by
    rintro rfl
    exact absurd hdigit (by decide)
  rw [← natural?_toDigits n, hcons, unsigned?.eq_2 _ (by simpa using hplus)]

/-- A number with its sign, and with or without a plus, reads back. -/
theorem integer?_signed (k : Int) (plus : Bool) :
    integer? ((if k < 0 then ['-'] else if plus then ['+'] else []) ++
      Nat.toDigits 10 k.natAbs) = some k := by
  rcases Int.lt_or_le k 0 with hneg | hpos
  · rw [if_pos hneg, List.singleton_append, integer?, natural?_toDigits]
    have hnat : -(k.natAbs : Int) = k := by omega
    exact congrArg some hnat
  · rw [if_neg (Int.not_lt.mpr hpos)]
    have hnat : ((k.natAbs : Nat) : Int) = k := Int.natAbs_of_nonneg hpos
    cases plus with
    | true =>
      rw [if_pos rfl, List.singleton_append, integer?.eq_2 _ (by simp), unsigned?,
        natural?_toDigits]
      exact congrArg some hnat
    | false =>
      obtain ⟨c, cs, hcons⟩ :=
        List.exists_cons_of_ne_nil (Nat.toDigits_ne_nil (n := k.natAbs) (b := 10))
      have hdigit : c.isDigit := Digits.isDigit_of_mem_toDigits (n := k.natAbs) (by simp [hcons])
      have hminus : c ≠ '-' := by
        rintro rfl
        exact absurd hdigit (by decide)
      have hunsigned := unsigned?_toDigits k.natAbs
      rw [hcons] at hunsigned
      rw [if_neg (by decide), List.nil_append, hcons, integer?.eq_2 _ (by simpa using hminus),
        hunsigned]
      exact congrArg some hnat

/-- No digit comes next. -/
def NoDigitNext (rest : List Char) : Prop := ∀ c ∈ rest.head?, c.isDigit = false

theorem takeWhile_isDigit (h : ∀ d ∈ ds, d.isDigit) (hr : NoDigitNext rest) :
    (ds ++ rest).takeWhile Char.isDigit = ds := by
  rw [List.takeWhile_append_of_pos h]
  cases rest with
  | nil => simp
  | cons c cs => simp [hr c (by simp)]

theorem dropWhile_isDigit (h : ∀ d ∈ ds, d.isDigit) (hr : NoDigitNext rest) :
    (ds ++ rest).dropWhile Char.isDigit = rest := by
  rw [List.dropWhile_append_of_pos h]
  cases rest with
  | nil => simp
  | cons c cs => simp [hr c (by simp)]

theorem mantissa_point (hw : ∀ d ∈ whole, d.isDigit) (hf : ∀ d ∈ fraction, d.isDigit)
    (hr : NoDigitNext rest) :
    mantissa (whole ++ '.' :: (fraction ++ rest)) = (whole, fraction, rest) := by
  have hpoint : NoDigitNext ('.' :: (fraction ++ rest)) := by
    intro c hc
    obtain rfl := Option.mem_some.mp hc
    rfl
  rw [mantissa, dropWhile_isDigit hw hpoint, takeWhile_isDigit hw hpoint]
  simp only [takeWhile_isDigit hf hr, dropWhile_isDigit hf hr]

theorem mantissa_whole (hw : ∀ d ∈ whole, d.isDigit) (hr : NoDigitNext rest)
    (hpoint : rest.head? ≠ some '.') : mantissa (whole ++ rest) = (whole, [], rest) := by
  rw [mantissa, dropWhile_isDigit hw hr, takeWhile_isDigit hw hr]
  cases rest with
  | nil => rfl
  | cons c cs =>
    split
    case h_1 heq => simp_all
    case h_2 => rfl

theorem decimal?_of_mantissa {negative : Bool}
    (h : mantissa cs = (whole, fraction, rest)) (hw : whole ≠ []) (he : exponent? rest = some e) :
    decimal? negative cs = some (.ofDecimal negative (Nat.ofDigitChars 10 (whole ++ fraction) 0)
      (e - fraction.length)) := by
  simp only [decimal?, h, hw, false_and, if_false, he, Option.map_some]

end Numeral

open Binary64 Numeral

theorem Decimal.ofDigitChars_scientific_le (d : Decimal) :
    Nat.ofDigitChars 10 d.scientific.1 0 ≤ d.significand := by
  obtain ⟨k, hsplit⟩ := Text.exists_eq_dropEndWhile_append '0' (Nat.toDigits 10 d.significand)
  conv_rhs => rw [← Nat.ofDigitChars_ten_toDigits (n := d.significand), hsplit,
    Nat.ofDigitChars_append, Nat.ofDigitChars_replicate_zero]
  exact Nat.le_mul_of_pos_left _ (Nat.pow_pos (by omega))

/-- The digits of a number in scientific notation stand for its decimal. -/
theorem Decimal.scientific_spec {d : Decimal} (hs : d.significand ≠ 0) :
    d.scientific.1 ≠ [] ∧ (∀ c ∈ d.scientific.1, c.isDigit) ∧
      nearestDecimal (Nat.ofDigitChars 10 d.scientific.1 0)
        (d.scientific.2 + 1 - d.scientific.1.length) = nearestDecimal d.significand d.exponent := by
  obtain ⟨k, hsplit⟩ := Text.exists_eq_dropEndWhile_append '0' (Nat.toDigits 10 d.significand)
  rw [scientific]
  dsimp only
  set digits := Text.dropEndWhile (· == '0') (Nat.toDigits 10 d.significand) with hdigits
  have hvalue : d.significand = Nat.ofDigitChars 10 digits 0 * 10 ^ k := by
    rw [← Nat.ofDigitChars_ten_toDigits (n := d.significand), hsplit, Nat.ofDigitChars_append,
      Nat.ofDigitChars_replicate_zero, Nat.mul_comm]
  have hlength : (Nat.toDigits 10 d.significand).length = digits.length + k := by
    conv_lhs => rw [hsplit]
    rw [List.length_append, List.length_replicate]
  refine ⟨?_, fun c hc => ?_, ?_⟩
  · intro hnil
    refine hs ?_
    rw [hvalue, hnil, Nat.ofDigitChars_nil, Nat.zero_mul]
  · refine Digits.isDigit_of_mem_toDigits (n := d.significand) ?_
    rw [hsplit]
    exact List.mem_append_left _ hc
  · conv_rhs => rw [hvalue]
    rw [← nearestDecimal_scale _ _ k]
    congr 1
    rw [hlength]
    omega

namespace Layout

/-- A text in decimal notation that rounds to a magnitude. -/
def ReadAs (cs : List Char) (u : Nat) : Prop :=
  (∃ c ds, cs = c :: ds ∧ c.isDigit) ∧ ∃ s e, nearestDecimal s e = u ∧
    ∀ negative, decimal? negative cs = some (.ofDecimal negative s e)

theorem noDigitNext_nil : NoDigitNext [] := by
  intro c hc
  cases hc

theorem exists_cons_append (hd : ∀ d ∈ ds, d.isDigit) (hne : ds ≠ []) (rest : List Char) :
    ∃ c cs, ds ++ rest = c :: cs ∧ c.isDigit := by
  obtain ⟨c, cs, rfl⟩ := List.exists_cons_of_ne_nil hne
  exact ⟨c, cs ++ rest, rfl, hd c (by simp)⟩

theorem readAs_point (hw : ∀ d ∈ whole, d.isDigit) (hne : whole ≠ [])
    (hf : ∀ d ∈ fraction, d.isDigit) (hr : NoDigitNext rest) (he : exponent? rest = some e) :
    ReadAs (whole ++ '.' :: (fraction ++ rest))
      (nearestDecimal (Nat.ofDigitChars 10 (whole ++ fraction) 0) (e - fraction.length)) :=
  ⟨exists_cons_append hw hne _, _, _, rfl, fun _ =>
    decimal?_of_mantissa (mantissa_point hw hf hr) hne he⟩

theorem readAs_whole (hw : ∀ d ∈ whole, d.isDigit) (hne : whole ≠ []) (hr : NoDigitNext rest)
    (hpoint : rest.head? ≠ some '.') (he : exponent? rest = some e) :
    ReadAs (whole ++ rest) (nearestDecimal (Nat.ofDigitChars 10 whole 0) e) := by
  refine ⟨exists_cons_append hw hne _, Nat.ofDigitChars 10 whole 0, e, rfl, fun negative => ?_⟩
  rw [decimal?_of_mantissa (mantissa_whole hw hr hpoint) hne he, List.append_nil]
  simp

theorem isDigit_of_mem_zeros (k : Nat) : ∀ c ∈ List.replicate k '0', c.isDigit := by
  intro c hc
  obtain rfl := List.eq_of_mem_replicate hc
  rfl

theorem isDigit_of_mem_append (hw : ∀ d ∈ whole, d.isDigit) (hf : ∀ d ∈ fraction, d.isDigit) :
    ∀ d ∈ whole ++ fraction, d.isDigit := by
  intro d hd
  rcases List.mem_append.mp hd with hd | hd
  · exact hw d hd
  · exact hf d hd

/-- Written with a point alone, digits stand where they belong. -/
theorem readAs_positional (hd : ∀ d ∈ ds, d.isDigit) (hne : ds ≠ []) :
    ReadAs (positional ds x) (nearestDecimal (Nat.ofDigitChars 10 ds 0) (x + 1 - ds.length)) := by
  have hzero : ∀ d ∈ ['0'], d.isDigit := isDigit_of_mem_zeros 1
  cases x with
  | negSucc j =>
    have htext : positional ds (.negSucc j) =
        ['0'] ++ '.' :: ((List.replicate j '0' ++ ds) ++ []) := by simp [positional]
    have hvalue : Nat.ofDigitChars 10 ds 0 =
        Nat.ofDigitChars 10 (['0'] ++ (List.replicate j '0' ++ ds)) 0 := by
      rw [Nat.ofDigitChars_append, Nat.ofDigitChars_append, Nat.ofDigitChars_replicate_zero]
      rfl
    have hplace : Int.negSucc j + 1 - ds.length = 0 - (List.replicate j '0' ++ ds).length := by
      rw [List.length_append, List.length_replicate, Int.negSucc_eq]
      omega
    rw [htext, hvalue, hplace]
    exact readAs_point hzero (by simp) (isDigit_of_mem_append (isDigit_of_mem_zeros j) hd)
      noDigitNext_nil rfl
  | ofNat j =>
    rw [positional]
    split
    case isTrue hle =>
      have hvalue : Nat.ofDigitChars 10 ((ds ++ List.replicate (j + 1 - ds.length) '0') ++ ['0']) 0 =
          Nat.ofDigitChars 10 ds 0 * 10 ^ (j + 2 - ds.length) := by
        rw [Nat.ofDigitChars_append, Nat.ofDigitChars_append, Nat.ofDigitChars_replicate_zero,
          Nat.ofDigitChars_cons, Nat.ofDigitChars_nil,
          show j + 2 - ds.length = (j + 1 - ds.length) + 1 by omega, Nat.pow_succ]
        change 10 * (10 ^ _ * _) + 0 = _
        ring
      have hplace : (0 : Int) - ['0'].length =
          Int.ofNat j + 1 - ds.length - (j + 2 - ds.length : Nat) := by
        rw [List.length_singleton, Int.ofNat_eq_natCast]
        omega
      rw [← nearestDecimal_scale _ _ (j + 2 - ds.length), ← hvalue, ← hplace]
      exact readAs_point (isDigit_of_mem_append hd (isDigit_of_mem_zeros _)) (by simp [hne]) hzero
        noDigitNext_nil rfl
    case isFalse hlt =>
      have hplace : Int.ofNat j + 1 - ds.length = 0 - (ds.drop (j + 1)).length := by
        rw [List.length_drop, Int.ofNat_eq_natCast]
        omega
      have hvalue := congrArg (Nat.ofDigitChars 10 · 0) (List.take_append_drop (j + 1) ds)
      have h : ReadAs (ds.take (j + 1) ++ '.' :: (ds.drop (j + 1) ++ []))
          (nearestDecimal (Nat.ofDigitChars 10 (ds.take (j + 1) ++ ds.drop (j + 1)) 0)
            (0 - (ds.drop (j + 1)).length)) :=
        readAs_point (fun d hm => hd d (List.mem_of_mem_take hm)) (by simp [hne])
          (fun d hm => hd d (List.mem_of_mem_drop hm)) noDigitNext_nil rfl
      rwa [List.append_nil, ← hplace, hvalue] at h

/-- Written with an exponent, digits stand behind the first one. -/
theorem readAs_withExponent (plus : Bool) (hd : ∀ d ∈ ds, d.isDigit) (hne : ds ≠ []) :
    ReadAs (withExponent plus ds x)
      (nearestDecimal (Nat.ofDigitChars 10 ds 0) (x + 1 - ds.length)) := by
  have hrest (cs : List Char) : NoDigitNext ('e' :: cs) := by
    intro c hc
    obtain rfl := Option.mem_some.mp hc
    rfl
  have hexponent : exponent? ('e' :: ((if x < 0 then ['-'] else if plus then ['+'] else []) ++
      Nat.toDigits 10 x.natAbs)) = some x := by
    rw [exponent?, if_pos (Or.inl rfl), integer?_signed]
  match ds, hne with
  | [d], _ =>
    have h := readAs_whole hd (by simp) (hrest _) (by simp) hexponent
    simpa [withExponent] using h
  | first :: second :: more, _ =>
    have hfirst : ∀ d ∈ [first], d.isDigit := fun d hm => hd d (by simp_all)
    have h := readAs_point hfirst (by simp) (fun d hm => hd d (List.mem_cons_of_mem _ hm))
      (hrest _) hexponent
    have hplace : x + 1 - (first :: second :: more).length = x - (second :: more).length := by
      simp only [List.length_cons]
      omega
    rw [hplace]
    simpa [withExponent] using h

theorem readAs_magnitude (l : Layout) {u : Nat} (hu : u ≠ 0) (h : Fits u) :
    ReadAs (l.magnitude u) u := by
  have hback : nearestDecimal (Decimal.shortest l.halfUp u).significand
      (Decimal.shortest l.halfUp u).exponent = u := Decimal.readsBack_shortest l.halfUp h
  have hs : (Decimal.shortest l.halfUp u).significand ≠ 0 := significand_ne_zero (hback ▸ hu)
  obtain ⟨hne, hd, hvalue⟩ := Decimal.scientific_spec hs
  rw [hback] at hvalue
  rw [magnitude, if_neg hu]
  dsimp only
  split
  · have hread := readAs_positional (x := (Decimal.shortest l.halfUp u).scientific.2) hd hne
    rwa [hvalue] at hread
  · have hread :=
      readAs_withExponent (x := (Decimal.shortest l.halfUp u).scientific.2) l.plus hd hne
    rwa [hvalue] at hread

theorem decimal?_magnitude (l : Layout) (negative : Bool) {u : Nat} (h : Fits u) :
    (∃ c ds, l.magnitude u = c :: ds ∧ c.isDigit) ∧
      decimal? negative (l.magnitude u) = some (.finite negative u h) := by
  rcases Nat.eq_zero_or_pos u with rfl | hpos
  · rw [magnitude, if_pos rfl]
    exact ⟨⟨_, _, rfl, rfl⟩, rfl⟩
  · have hu := Nat.ne_of_gt hpos
    obtain ⟨hstart, s, e, hn, hread⟩ := l.readAs_magnitude hu h
    exact ⟨hstart, by rw [hread, ofDecimal_of_nearestDecimal hn hu h]⟩

end Layout

/-- Every number reads back from its text, the ones that are not finite as well. -/
theorem Numeral.real?_write (l : Layout) (x : Binary64) : real? (l.write x) = some x := by
  have hdigit {c : Char} {ds : List Char} (hc : c.isDigit) :
      real? (c :: ds) = (decimal? false (c :: ds)).or (word? false (c :: ds)) := by
    rw [real?]
    · rintro cs ⟨⟩
      exact absurd hc (by decide)
    · rintro cs ⟨⟩
      exact absurd hc (by decide)
  cases x with
  | nan => rfl
  | infinite s => cases s <;> rfl
  | finite s u h =>
    obtain ⟨⟨c, ds, hcons, hc⟩, hread⟩ := l.decimal?_magnitude s h
    rw [Layout.write]
    cases s with
    | true =>
      rw [if_pos rfl, List.singleton_append, real?]
      simp only [hread, Option.some_or]
    | false =>
      rw [hcons] at hread ⊢
      rw [if_neg (by decide), List.nil_append, hdigit hc, hread, Option.some_or]

end Generation
