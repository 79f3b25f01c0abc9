import Generation.Json.Printer
import Generation.Json.Token
import Generation.Proofs.Text.Encoding

/-! Quoted texts read back, whatever characters they hold. -/
namespace Generation.Json.Read

open Text (encode)

/-- Bytes that stand for themselves between quotes. -/
def Plain (b : UInt8) : Prop := b ≠ '"'.toUInt8 ∧ b ≠ '\\'.toUInt8 ∧ ¬ b < 0x20

theorem stringBytes_skip (n : Nat) (s : List UInt8) :
    stringBytes n s = stringBytes 0 (s.drop n) := by
  induction n generalizing s with
  | zero => rfl
  | succ n ih =>
    cases s with
    | nil => simp [stringBytes]
    | cons b s => simpa [stringBytes] using ih s

theorem stringBytes_plain {bs : List UInt8} (h : ∀ b ∈ bs, Plain b) (s : List UInt8) :
    stringBytes 0 (bs ++ s) = (stringBytes 0 s).map fun (cs, rest) => (bs ++ cs, rest) := by
  induction bs with
  | nil => cases h : stringBytes 0 s <;> simp [h, Except.map]
  | cons b bs ih =>
    obtain ⟨hq, hs, hc⟩ := h b (by simp)
    rw [List.cons_append, stringBytes, if_neg hq, if_neg hs, if_neg hc,
      ih fun d hd => h d (by simp [hd])]
    cases stringBytes 0 s <;> rfl

/-- An escape is passed over as a whole, and its character takes its place. -/
theorem stringBytes_escape {e s : List UInt8} {c : Char} (h : escape (e ++ s) = .ok (c, s)) :
    stringBytes 0 ('\\'.toUInt8 :: (e ++ s)) =
      (stringBytes 0 s).map fun (bs, rest) => (String.utf8EncodeChar c ++ bs, rest) := by
  rw [stringBytes, if_neg (by decide), if_pos rfl, h]
  simp only
  rw [stringBytes_skip]
  simp

theorem hexValue?_digitChar {n : Nat} (h : n < 16) :
    hexValue? (Nat.digitChar n).toUInt8 = some n := by
  revert n
  decide

theorem unicodeEscape_control {c : Char} (h : c.toNat < 0x20) (s : List UInt8) :
    unicodeEscape (['0', '0', Nat.digitChar (c.toNat / 16), Nat.digitChar (c.toNat % 16)].map
      Char.toUInt8 ++ s) = .ok (c, s) := by
  have h1 := hexValue?_digitChar (n := c.toNat / 16) (by omega)
  have h2 := hexValue?_digitChar (n := c.toNat % 16) (by omega)
  have hz : hexValue? '0'.toUInt8 = some 0 := by decide
  have hc : (0 * 16 + 0) * 16 + c.toNat / 16 = c.toNat / 16 := by omega
  have hunit : c.toNat / 16 * 16 + c.toNat % 16 = c.toNat := by omega
  simp only [unicodeEscape, hexUnit, List.map_cons, List.map_nil, List.cons_append,
    List.nil_append, hz, h1, h2, hc, hunit, bind, Except.bind]
  rw [if_neg (by omega), if_neg (by omega), Char.ofNat_toNat]

theorem plain_of_unescaped {c : Char} (hq : c ≠ '"') (hs : c ≠ '\\') (hc : ¬ c.toNat < 0x20)
    {b : UInt8} (hb : b ∈ String.utf8EncodeChar c) : Plain b := by
  by_cases h : c.toNat < 128
  · rw [Text.encodeChar_of_lt h, List.mem_singleton] at hb
    subst hb
    refine ⟨?_, ?_, ?_⟩
    · rwa [ne_eq, Text.toUInt8_inj h (by decide)]
    · rwa [ne_eq, Text.toUInt8_inj h (by decide)]
    · rwa [UInt8.lt_iff_toNat_lt, Text.toNat_toUInt8 h]
  · have hle := Text.le_of_mem_encodeChar (by omega) hb
    refine ⟨?_, ?_, ?_⟩
    · rintro rfl
      exact absurd hle (by decide)
    · rintro rfl
      exact absurd hle (by decide)
    · rw [UInt8.lt_iff_toNat_lt]
      change ¬ b.toNat < 32
      omega

/-- Reading a written character gives its bytes, whether it is escaped or not. -/
theorem stringBytes_escapedChar (c : Char) (s : List UInt8) :
    stringBytes 0 (encode (escapedChar c) ++ s) =
      (stringBytes 0 s).map fun (bs, rest) => (String.utf8EncodeChar c ++ bs, rest) := by
  have short (l : Char) (hl : l.toNat < 128) (h : escape ([l.toUInt8] ++ s) = .ok (c, s)) :
      stringBytes 0 (encode ['\\', l] ++ s) =
        (stringBytes 0 s).map fun (bs, rest) => (String.utf8EncodeChar c ++ bs, rest) := by
    rw [Text.encode_of_lt (by simp [hl])]
    exact stringBytes_escape h
  unfold escapedChar
  split
  case isTrue h => rcases h with rfl | rfl <;> exact short _ (by decide) rfl
  split
  case isTrue h => subst h; exact short _ (by decide) rfl
  split
  case isTrue h => subst h; exact short _ (by decide) rfl
  split
  case isTrue h => subst h; exact short _ (by decide) rfl
  split
  case isTrue h => subst h; exact short _ (by decide) rfl
  split
  case isTrue h => subst h; exact short _ (by decide) rfl
  split
  case isTrue h =>
    have hx (n : Nat) (hn : n < 16) : (Nat.digitChar n).toNat < 128 := by revert n; decide
    have ht : ∀ d ∈ "\\u00".toList ++ [Nat.digitChar (c.toNat / 16), Nat.digitChar (c.toNat % 16)],
        d.toNat < 128 := by
      have hu : "\\u00".toList = ['\\', 'u', '0', '0'] := rfl
      simp only [hu, List.mem_append, List.mem_cons, List.not_mem_nil, or_false]
      rintro d ((rfl | rfl | rfl | rfl) | rfl | rfl)
      · decide
      · decide
      · decide
      · decide
      · exact hx _ (by omega)
      · exact hx _ (by omega)
    rw [Text.encode_of_lt ht]
    refine stringBytes_escape (e := 'u'.toUInt8 :: ['0', '0', Nat.digitChar (c.toNat / 16),
      Nat.digitChar (c.toNat % 16)].map Char.toUInt8) ?_
    rw [List.cons_append, escape, if_pos rfl]
    exact unicodeEscape_control h s
  case isFalse hq _ _ _ _ _ hc =>
    rw [not_or] at hq
    rw [Text.encode_cons, Text.encode_nil, List.append_nil]
    exact stringBytes_plain (fun b hb => plain_of_unescaped hq.1 hq.2 hc hb) s

theorem stringBytes_escaped (cs : List Char) (rest : List UInt8) :
    stringBytes 0 (encode (cs.flatMap escapedChar) ++ '"'.toUInt8 :: rest) =
      .ok (encode cs, rest) := by
  induction cs with
  | nil => rfl
  | cons c cs ih =>
    rw [List.flatMap_cons, Text.encode_append, List.append_assoc, stringBytes_escapedChar, ih]
    rfl

/-- What is written between quotes reads back as the same text. -/
theorem string_quotedText (t : String) (rest : List UInt8) :
    ∃ s, encode (quotedText t) ++ rest = '"'.toUInt8 :: s ∧ string s = .ok (t, rest) := by
  refine ⟨encode (t.toList.flatMap escapedChar) ++ '"'.toUInt8 :: rest, ?_, ?_⟩
  · simp [quotedText, Text.encode_cons, Text.encodeChar_of_lt]
  · rw [string, stringBytes_escaped]
    simp only [Text.decode?_encode, String.ofList_toList]

end Generation.Json.Read
