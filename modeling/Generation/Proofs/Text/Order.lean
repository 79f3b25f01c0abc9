import Generation.Decimal.Binary64
import Generation.Proofs.Text.Encoding

/-! Texts are in the order of their bytes: UTF-8 keeps the order of characters. -/
namespace Generation.Text

variable {c d : Char} {cs ds : List Char} {k l m n base base' : Nat} {xs ys : List UInt8}

/-- The bytes behind the first one of a character: its last places to the base 64. -/
def continuation : Nat → Nat → List UInt8
  | 0, _ => []
  | k + 1, n => .ofNat (n / 64 ^ k % 64 + 128) :: continuation k n

/-- How many bytes of continuation a character has, and what is added to its first byte. -/
inductive Leads (n : Nat) : Nat → Nat → Prop where
  | one : n ≤ 127 → Leads n 0 0
  | two : 127 < n → n ≤ 2047 → Leads n 1 192
  | three : 2047 < n → n ≤ 65535 → Leads n 2 224
  | four : 65535 < n → n < 0x110000 → Leads n 3 240

theorem leads_encodeChar (c : Char) : ∃ k base, Leads c.val.toNat k base ∧
    String.utf8EncodeChar c =
      .ofNat (c.val.toNat / 64 ^ k + base) :: continuation k c.val.toNat := by
  have hvalid : c.val.toNat < 0x110000 := by
    rcases c.valid with hc | ⟨-, hc⟩
    · exact Nat.lt_trans hc (by decide)
    · exact hc
  unfold String.utf8EncodeChar
  generalize c.val.toNat = n at hvalid
  by_cases hone : n ≤ 127
  · exact ⟨0, 0, .one hone, by simp [hone, continuation]⟩
  by_cases htwo : n ≤ 2047
  · refine ⟨1, 192, .two (by omega) htwo, ?_⟩
    have hlead : n / 64 % 32 = n / 64 := by omega
    simp [hone, htwo, hlead, continuation]
  by_cases hthree : n ≤ 65535
  · refine ⟨2, 224, .three (by omega) hthree, ?_⟩
    have hlead : n / 4096 % 16 = n / 4096 := by omega
    simp [hone, htwo, hthree, hlead, continuation]
  · refine ⟨3, 240, .four (by omega) hvalid, ?_⟩
    have hlead : n / 262144 % 8 = n / 262144 := by omega
    simp [hone, htwo, hthree, hlead, continuation]

theorem Leads.lt_256 (h : Leads n k base) : n / 64 ^ k + base < 256 := by
  cases h <;> omega

/-- Of two characters the smaller one has the smaller first byte, or they start alike. -/
theorem Leads.lt_or_eq (hm : Leads m k base) (hn : Leads n l base') (h : m < n) :
    m / 64 ^ k + base < n / 64 ^ l + base' ∨ k = l ∧ base = base' ∧ m / 64 ^ k = n / 64 ^ k := by
  cases hm <;> cases hn <;> omega

theorem ofNat_cons_lt (hm : m < 256) (hn : n < 256) (h : m < n) :
    UInt8.ofNat m :: xs < UInt8.ofNat n :: ys := by
  apply List.Lex.rel
  rwa [UInt8.lt_iff_toNat_lt, UInt8.toNat_ofNat_of_lt' hm, UInt8.toNat_ofNat_of_lt' hn]

theorem continuation_append_lt (h : m < n) (hk : m / 64 ^ k = n / 64 ^ k) :
    continuation k m ++ xs < continuation k n ++ ys := by
  induction k with
  | zero =>
    rw [Nat.pow_zero, Nat.div_one, Nat.div_one] at hk
    omega
  | succ k ih =>
    rw [Nat.pow_succ, ← Nat.div_div_eq_div_mul, ← Nat.div_div_eq_div_mul] at hk
    have hle : m / 64 ^ k ≤ n / 64 ^ k := Nat.div_le_div_right (Nat.le_of_lt h)
    rw [continuation, continuation, List.cons_append, List.cons_append]
    rcases Nat.lt_or_eq_of_le hle with hlt | heq
    · exact ofNat_cons_lt (by omega) (by omega) (by omega)
    · rw [heq]
      exact List.Lex.cons (ih heq)

/-- The bytes of a smaller character are smaller, whatever follows them. -/
theorem encodeChar_append_lt (h : c < d) (xs ys : List UInt8) :
    String.utf8EncodeChar c ++ xs < String.utf8EncodeChar d ++ ys := by
  have hlt : c.val.toNat < d.val.toNat := h
  obtain ⟨k, base, hc, hencode⟩ := leads_encodeChar c
  obtain ⟨l, base', hd, hencode'⟩ := leads_encodeChar d
  rw [hencode, hencode', List.cons_append, List.cons_append]
  rcases hc.lt_or_eq hd hlt with hfirst | ⟨rfl, rfl, hsame⟩
  · exact ofNat_cons_lt hc.lt_256 hd.lt_256 hfirst
  · rw [hsame]
    exact List.Lex.cons (continuation_append_lt hlt hsame)

theorem encode_lt (h : cs < ds) : encode cs < encode ds := by
  induction h with
  | @nil d ds =>
    obtain ⟨k, base, -, hencode⟩ := leads_encodeChar d
    rw [encode_cons, hencode]
    exact List.Lex.nil
  | rel h => exact encodeChar_append_lt h _ _
  | cons _ ih =>
    rw [encode_cons, encode_cons]
    exact List.append_left_lt ih

theorem bytes_lt {s t : String} (h : s < t) : bytes s < bytes t := encode_lt (String.lt_iff.mp h)

end Generation.Text
