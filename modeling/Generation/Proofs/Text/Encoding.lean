import Generation.Text.Encoding

/-! Texts survive the way through their bytes, and bytes below 128 stand for themselves alone. -/
namespace Generation.Text

/-- The bytes of characters. -/
def encode (cs : List Char) : List UInt8 := cs.flatMap String.utf8EncodeChar

theorem bytes_eq_encode (s : String) : bytes s = encode s.toList := rfl

theorem bytes_ofList (cs : List Char) : bytes (String.ofList cs) = encode cs := by
  simp [bytes, encode]

@[simp] theorem encode_nil : encode [] = [] := rfl

@[simp] theorem encode_append (cs ds : List Char) : encode (cs ++ ds) = encode cs ++ encode ds := by
  simp [encode]

theorem encode_cons (c : Char) (cs : List Char) :
    encode (c :: cs) = String.utf8EncodeChar c ++ encode cs := rfl

@[simp] theorem decode?_encode (cs : List Char) :
    decode? (encode cs) = some (String.ofList cs) := by
  have h : (⟨(encode cs).toArray⟩ : ByteArray) = (String.ofList cs).toByteArray := by
    rw [String.toByteArray_ofList]
    apply ByteArray.ext
    simp [encode, List.utf8Encode]
  unfold decode? String.fromUTF8?
  rw [h, dif_pos (String.ofList cs).isValidUTF8]
  rfl

@[simp] theorem decode?_bytes (s : String) : decode? (bytes s) = some s := by
  rw [bytes_eq_encode, decode?_encode, String.ofList_toList]

theorem encodeChar_of_lt {c : Char} (h : c.toNat < 128) :
    String.utf8EncodeChar c = [c.toUInt8] := by
  have hv : c.val.toNat ≤ 127 := Nat.le_of_lt_succ h
  simp only [String.utf8EncodeChar, hv, if_true]
  rfl

theorem toNat_toUInt8 {c : Char} (h : c.toNat < 128) : c.toUInt8.toNat = c.toNat := by
  rw [Char.toUInt8, UInt32.toNat_toUInt8]
  exact Nat.mod_eq_of_lt (Nat.lt_trans h (by decide))

theorem toUInt8_inj {c d : Char} (hc : c.toNat < 128) (hd : d.toNat < 128) :
    c.toUInt8 = d.toUInt8 ↔ c = d := by
  refine ⟨fun h => ?_, fun h => h ▸ rfl⟩
  have hn := congrArg UInt8.toNat h
  rw [toNat_toUInt8 hc, toNat_toUInt8 hd] at hn
  exact Char.toNat_inj.mp hn

/-- Characters beyond ASCII leave no byte that could be taken for an ASCII character. -/
theorem le_of_mem_encodeChar {c : Char} (h : 128 ≤ c.toNat) {b : UInt8}
    (hb : b ∈ String.utf8EncodeChar c) : 128 ≤ b.toNat := by
  have hv : ¬ c.val.toNat ≤ 127 := by
    intro hle
    have : c.toNat = c.val.toNat := rfl
    omega
  simp only [String.utf8EncodeChar, hv, if_false] at hb
  split at hb
  · simp only [List.mem_cons, List.not_mem_nil, or_false] at hb
    rcases hb with rfl | rfl <;> simp only [UInt8.toNat_ofNat'] <;> omega
  · split at hb <;> simp only [List.mem_cons, List.not_mem_nil, or_false] at hb
    · rcases hb with rfl | rfl | rfl <;> simp only [UInt8.toNat_ofNat'] <;> omega
    · rcases hb with rfl | rfl | rfl | rfl <;> simp only [UInt8.toNat_ofNat'] <;> omega

/-- ASCII characters are written byte by byte. -/
theorem encode_of_lt {cs : List Char} (h : ∀ c ∈ cs, c.toNat < 128) :
    encode cs = cs.map Char.toUInt8 := by
  induction cs with
  | nil => rfl
  | cons c cs ih =>
    rw [encode_cons, encodeChar_of_lt (h c (by simp)), ih fun d hd => h d (by simp [hd])]
    rfl

end Generation.Text
