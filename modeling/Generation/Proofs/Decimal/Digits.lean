import Generation.Proofs.Text.Encoding

/-! Decimal digits as characters and as bytes. -/
namespace Generation.Digits

theorem toNat_of_isDigit {c : Char} (h : c.isDigit) : '0'.toNat ≤ c.toNat ∧ c.toNat ≤ '9'.toNat :=
  Char.isDigit_iff_toNat.mp h

theorem toNat_lt {c : Char} (h : c.isDigit) : c.toNat < 128 :=
  Nat.lt_of_le_of_lt (toNat_of_isDigit h).2 (by decide)

theorem isDigit_of_mem_toDigits {n : Nat} {c : Char} (h : c ∈ Nat.toDigits 10 n) : c.isDigit :=
  Nat.isDigit_of_mem_toDigits (by omega) (by omega) h

theorem encode_digits {ds : List Char} (h : ∀ c ∈ ds, c.isDigit) :
    Text.encode ds = ds.map Char.toUInt8 :=
  Text.encode_of_lt fun c hc => toNat_lt (h c hc)

theorem digitChar_ne_zero {n : Nat} (h : 0 < n) (hn : n < 10) : Nat.digitChar n ≠ '0' := by
  revert h
  revert n
  decide

/-- No number but zero starts with the digit zero. -/
theorem exists_toDigits_eq_cons {n : Nat} (h : 0 < n) :
    ∃ d ds, Nat.toDigits 10 n = d :: ds ∧ d ≠ '0' := by
  induction n using Nat.strongRecOn with
  | ind n ih =>
    rcases Nat.lt_or_ge n 10 with hlt | hge
    · exact ⟨_, [], Nat.toDigits_of_lt_base hlt, digitChar_ne_zero h hlt⟩
    · obtain ⟨d, ds, hd, hne⟩ := ih (n / 10) (by omega) (by omega)
      exact ⟨d, ds ++ [Nat.digitChar (n % 10)], by
        rw [Nat.toDigits_of_base_le (by omega) hge, hd, List.cons_append], hne⟩

end Generation.Digits
