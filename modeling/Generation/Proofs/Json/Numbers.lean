import Generation.Json.Printer
import Generation.Json.Reader
import Generation.Proofs.Decimal.Digits

/-! Reading the digits of numbers, whatever follows them. -/
namespace Generation.Json.Read

open Text (encode)

/-- What follows a number: nothing that could belong to it. -/
def Delimited (rest : List UInt8) : Prop :=
  ∀ b ∈ rest.head?, isDigit b = false ∧ b ≠ '.'.toUInt8 ∧ isExponentMark b = false

theorem delimited_nil : Delimited [] := by
  intro b hb
  simp at hb

theorem delimited_cons {b : UInt8} {s : List UInt8} (hd : isDigit b = false)
    (hp : b ≠ '.'.toUInt8) (he : isExponentMark b = false) : Delimited (b :: s) := by
  intro c hc
  obtain rfl : b = c := by simpa using hc
  exact ⟨hd, hp, he⟩

/-- No digit comes first. -/
def NoDigit (rest : List UInt8) : Prop := ∀ b ∈ rest.head?, isDigit b = false

theorem Delimited.noDigit {rest : List UInt8} (h : Delimited rest) : NoDigit rest :=
  fun b hb => (h b hb).1

theorem noDigit_cons {b : UInt8} {s : List UInt8} (h : isDigit b = false) : NoDigit (b :: s) := by
  intro c hc
  obtain rfl : b = c := by simpa using hc
  exact h

variable {c : Char} {ds : List Char} {rest : List UInt8} {negative : Bool}

theorem isDigit_ne {b c : UInt8} (h : isDigit b = true) (hc : isDigit c = false) : b ≠ c := by
  rintro rfl
  rw [h] at hc
  cases hc

theorem isDigit_toUInt8 (h : c.isDigit) : isDigit c.toUInt8 = true := by
  obtain ⟨hlow, hhigh⟩ := Digits.toNat_of_isDigit h
  simp only [isDigit, Bool.and_eq_true, decide_eq_true_eq, UInt8.le_iff_toNat_le,
    Text.toNat_toUInt8 (Digits.toNat_lt h)]
  exact ⟨hlow, hhigh⟩

theorem digitValue_toUInt8 (h : c.isDigit) : digitValue c.toUInt8 = c.toNat - '0'.toNat := by
  rw [digitValue, Text.toNat_toUInt8 (Digits.toNat_lt h)]

theorem digitValue_lt (h : c.isDigit) : digitValue c.toUInt8 < 10 := by
  obtain ⟨hlow, hhigh⟩ := Digits.toNat_of_isDigit h
  rw [digitValue_toUInt8 h]
  change c.toNat ≤ 57 at hhigh
  change c.toNat - 48 < 10
  omega

theorem isDigit_of_mem_encode (h : ∀ d ∈ ds, d.isDigit) : ∀ b ∈ encode ds, isDigit b = true := by
  rw [Digits.encode_digits h]
  intro b hb
  obtain ⟨d, hd, rfl⟩ := List.mem_map.mp hb
  exact isDigit_toUInt8 (h d hd)

theorem takeWhile_digits (h : ∀ d ∈ ds, d.isDigit) (hr : NoDigit rest) :
    (encode ds ++ rest).takeWhile isDigit = encode ds := by
  rw [List.takeWhile_append_of_pos (isDigit_of_mem_encode h)]
  cases rest with
  | nil => simp
  | cons b s => simp [hr b rfl]

theorem dropWhile_digits (h : ∀ d ∈ ds, d.isDigit) (hr : NoDigit rest) :
    (encode ds ++ rest).dropWhile isDigit = rest := by
  rw [List.dropWhile_append_of_pos (isDigit_of_mem_encode h)]
  cases rest with
  | nil => simp
  | cons b s => simp [hr b rfl]

/-- As long as the value fits a word, every digit is taken. -/
theorem absorb_digits (h : ∀ d ∈ ds, d.isDigit) (n : Nat) (hn : Nat.ofDigitChars 10 ds n < 2 ^ 64) :
    absorb n (encode ds) = (Nat.ofDigitChars 10 ds n, ds.length) := by
  rw [Digits.encode_digits h]
  induction ds generalizing n with
  | nil => rfl
  | cons d ds ih =>
    have hd := h d (by simp)
    have hstep : n * 10 + digitValue d.toUInt8 = 10 * n + (d.toNat - '0'.toNat) := by
      rw [digitValue_toUInt8 hd, Nat.mul_comm]
    rw [Nat.ofDigitChars_cons] at hn ⊢
    have hle : 10 * n + (d.toNat - '0'.toNat) < 2 ^ 64 := by
      refine Nat.lt_of_le_of_lt ?_ hn
      rw [Nat.ofDigitChars_eq_ofDigitChars_zero]
      exact Nat.le_add_right_of_le (Nat.le_mul_of_pos_left _ (Nat.pow_pos (by omega)))
    rw [List.map_cons, absorb, hstep]
    simp only [hle, if_true]
    rw [ih (fun e he => h e (by simp [he])) _ hn]
    rfl

theorem absorb_cons (hc : c.isDigit) (h : ∀ d ∈ ds, d.isDigit)
    (hn : Nat.ofDigitChars 10 (c :: ds) 0 < 2 ^ 64) :
    absorb (digitValue c.toUInt8) (encode ds) = (Nat.ofDigitChars 10 (c :: ds) 0, ds.length) := by
  have hval : digitValue c.toUInt8 = 10 * 0 + (c.toNat - '0'.toNat) := by
    rw [digitValue_toUInt8 hc, Nat.mul_zero, Nat.zero_add]
  rw [Nat.ofDigitChars_cons, ← hval] at hn ⊢
  exact absorb_digits h _ hn

theorem not_leadingZero (hc : c.isDigit) (hz : c = '0' → ds = []) :
    ¬ (c.toUInt8 = '0'.toUInt8 ∧ encode ds ≠ []) := by
  rintro ⟨he, hne⟩
  have hc0 := (Text.toUInt8_inj (Digits.toNat_lt hc) (by decide)).mp he
  exact hne (by rw [hz hc0, Text.encode_nil])

/-- Digits alone are an integer, if a word holds it. -/
theorem number_digits (negative : Bool) (h : ∀ d ∈ c :: ds, d.isDigit)
    (hz : c = '0' → ds = []) (hn : Nat.ofDigitChars 10 (c :: ds) 0 < 2 ^ 64) (hr : Delimited rest) :
    number negative (encode (c :: ds) ++ rest) =
      .ok (integerOf negative (Nat.ofDigitChars 10 (c :: ds) 0), rest) := by
  have hc := h c (by simp)
  have hds : ∀ d ∈ ds, d.isDigit := fun d hd => h d (by simp [hd])
  have hlead := not_leadingZero hc hz
  have habs := absorb_cons hc hds hn
  have hlen : (encode ds).length = ds.length := by rw [Digits.encode_digits hds, List.length_map]
  rw [Text.encode_cons, Text.encodeChar_of_lt (Digits.toNat_lt hc), List.singleton_append,
    List.cons_append, number, if_pos (isDigit_toUInt8 hc)]
  simp only [takeWhile_digits hds hr.noDigit, dropWhile_digits hds hr.noDigit, if_neg hlead, habs,
    hlen, Nat.sub_self]
  cases rest with
  | nil => rfl
  | cons b s =>
    obtain ⟨-, hp, he⟩ := hr b rfl
    simp [hp, he]

/-! Numbers with a point or an exponent -/

variable {significand : Nat} {exponent : Int} {es : List Char}

/-- A power of ten below one is divided by. -/
theorem realOf_neg {places : Nat} (h : 0 < places) : realOf negative significand (-places) rest =
    .ok (.real (signed negative (scaleDown (.ofNat significand) places)), rest) := by
  obtain ⟨n, rfl⟩ := Nat.exists_eq_succ_of_ne_zero (Nat.ne_of_gt h)
  rfl

theorem exponentDigits_digits (h : ∀ d ∈ es, d.isDigit) (n : Nat)
    (hn : Nat.ofDigitChars 10 es n < 2 ^ 31) (hr : NoDigit rest) :
    exponentDigits n (encode es ++ rest) = .ok (Nat.ofDigitChars 10 es n, rest) := by
  rw [Digits.encode_digits h]
  induction es generalizing n with
  | nil =>
    cases rest with
    | nil => rfl
    | cons b s => simp [exponentDigits, hr b rfl]
  | cons d es ih =>
    have hd := h d (by simp)
    have hstep : n * 10 + digitValue d.toUInt8 = 10 * n + (d.toNat - '0'.toNat) := by
      rw [digitValue_toUInt8 hd, Nat.mul_comm]
    rw [Nat.ofDigitChars_cons] at hn ⊢
    have hle : 10 * n + (d.toNat - '0'.toNat) < 2 ^ 31 := by
      refine Nat.lt_of_le_of_lt ?_ hn
      rw [Nat.ofDigitChars_eq_ofDigitChars_zero]
      exact Nat.le_add_right_of_le (Nat.le_mul_of_pos_left _ (Nat.pow_pos (by omega)))
    rw [List.map_cons, List.cons_append, exponentDigits, if_pos (isDigit_toUInt8 hd), hstep]
    simp only [hle, if_true]
    exact ih (fun e he => h e (by simp [he])) _ hn

theorem realTail_delimited (hr : Delimited rest) :
    realTail negative significand exponent rest = realOf negative significand exponent rest := by
  cases rest with
  | nil => rfl
  | cons b s => simp [realTail, (hr b rfl).2.2]

theorem realTail_negativeExponent (h : ∀ d ∈ es, d.isDigit) (hne : es ≠ [])
    (hn : Nat.ofDigitChars 10 es 0 < 2 ^ 31) (hr : Delimited rest) :
    realTail negative significand exponent (encode ('e' :: '-' :: es) ++ rest) =
      realOf negative significand (exponent - Nat.ofDigitChars 10 es 0) rest := by
  obtain ⟨d, es, rfl⟩ := List.exists_cons_of_ne_nil hne
  have hd := h d (by simp)
  have hval : digitValue d.toUInt8 = 10 * 0 + (d.toNat - '0'.toNat) := by
    rw [digitValue_toUInt8 hd, Nat.mul_zero, Nat.zero_add]
  have htext : encode ('e' :: '-' :: d :: es) ++ rest =
      'e'.toUInt8 :: '-'.toUInt8 :: d.toUInt8 :: (encode es ++ rest) := by
    simp [Text.encode_cons, Text.encodeChar_of_lt, Digits.toNat_lt hd]
  rw [Nat.ofDigitChars_cons, ← hval] at hn
  have hdigits := exponentDigits_digits (fun e he => h e (by simp [he])) _ hn hr.noDigit
  rw [htext, realTail, if_pos (by decide), exponentPart, if_pos rfl]
  simp only [isDigit_toUInt8 hd, if_true, hdigits]
  rw [Nat.ofDigitChars_cons, ← hval]

/-- One digit, a point and more digits: the places behind the point count down. -/
theorem number_fraction (hc : c.isDigit) (h : ∀ d ∈ ds, d.isDigit) (hne : ds ≠ [])
    (hn : Nat.ofDigitChars 10 (c :: ds) 0 < 2 ^ 64) (hr : NoDigit rest) :
    number negative (encode (c :: '.' :: ds) ++ rest) =
      realTail negative (Nat.ofDigitChars 10 (c :: ds) 0) (-ds.length) rest := by
  have htext : encode (c :: '.' :: ds) ++ rest =
      c.toUInt8 :: '.'.toUInt8 :: (encode ds ++ rest) := by
    simp [Text.encode_cons, Text.encodeChar_of_lt, Digits.toNat_lt hc]
  have habs := absorb_cons hc h hn
  obtain ⟨b, bs, hcons⟩ : ∃ b bs, encode ds = b :: bs := by
    obtain ⟨d, ds, rfl⟩ := List.exists_cons_of_ne_nil hne
    exact ⟨d.toUInt8, encode ds,
      by rw [Text.encode_cons, Text.encodeChar_of_lt (Digits.toNat_lt (h d (by simp))),
        List.singleton_append]⟩
  have hpoint : isDigit '.'.toUInt8 = false := by decide
  rw [htext, number, if_pos (isDigit_toUInt8 hc)]
  simp only [List.takeWhile_cons, List.dropWhile_cons, hpoint, Bool.false_eq_true, if_false,
    ne_eq, not_true_eq_false, and_false, if_true, absorb, fractionPart, takeWhile_digits h hr,
    dropWhile_digits h hr]
  rw [hcons] at habs ⊢
  simp [habs]

/-- One digit before an exponent. -/
theorem number_exponent (hc : c.isDigit) (hr : rest.head? = some 'e'.toUInt8) :
    number negative (encode [c] ++ rest) = realTail negative (digitValue c.toUInt8) 0 rest := by
  obtain ⟨s, rfl⟩ : ∃ s, rest = 'e'.toUInt8 :: s := by
    cases rest with
    | nil => simp at hr
    | cons b s => exact ⟨s, by rw [Option.some.inj hr]⟩
  have hmark : isDigit 'e'.toUInt8 = false := by decide
  have hpoint : 'e'.toUInt8 ≠ '.'.toUInt8 := by decide
  have he : isExponentMark 'e'.toUInt8 = true := by decide
  rw [Text.encode_cons, Text.encodeChar_of_lt (Digits.toNat_lt hc), Text.encode_nil,
    List.append_nil, List.singleton_append, number, if_pos (isDigit_toUInt8 hc)]
  simp [hmark, absorb, hpoint, he]

end Generation.Json.Read
