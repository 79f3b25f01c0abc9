import Generation.Proofs.Json.Settled

/-!
Strings of the grammar. Each of them is read as the characters it spells; one that spells none has a
surrogate without its partner, and is refused for that.
-/
namespace Generation.Json.Read

open Grammar
open Text (encode)

variable {ι : Type} {rest : ι → List UInt8} {ds cs ts : List Char} {u : Nat} {t : List UInt8}

theorem hexValue?_of_hexDigit? {c : Char} {n : Nat} (h : hexDigit? c = some n) :
    c.toNat < 128 ∧ hexValue? c.toUInt8 = some n := by
  have hascii : c.toNat < 128 := by
    unfold hexDigit? at h
    split at h
    · rename_i hdigit
      exact Digits.toNat_lt hdigit
    · split at h
      · rename_i hlower
        exact Nat.lt_of_le_of_lt hlower.2 (by decide)
      · split at h
        · rename_i hupper
          exact Nat.lt_of_le_of_lt hupper.2 (by decide)
        · cases h
  have htable : ∀ n < 128, hexValue? (Char.ofNat n).toUInt8 = hexDigit? (Char.ofNat n) := by
    decide
  have hc := htable c.toNat hascii
  rw [Char.ofNat_toNat, h] at hc
  exact ⟨hascii, hc⟩

theorem hexUnit_of_isUnit (h : IsUnit ds u) (t : List UInt8) :
    hexUnit (encode ds ++ t) = .ok (u, t) := by
  obtain ⟨ha, hb, hc, hd⟩ := h
  obtain ⟨ha, hva⟩ := hexValue?_of_hexDigit? ha
  obtain ⟨hb, hvb⟩ := hexValue?_of_hexDigit? hb
  obtain ⟨hc, hvc⟩ := hexValue?_of_hexDigit? hc
  obtain ⟨hd, hvd⟩ := hexValue?_of_hexDigit? hd
  rw [Text.encode_of_lt (by simp [ha, hb, hc, hd])]
  simp only [List.map_cons, List.map_nil, List.cons_append, List.nil_append, hexUnit, hva, hvb,
    hvc, hvd]

theorem shortEscape?_of_mem {l c : Char} (h : (l, c) ∈ shortEscapes) :
    l.toNat < 128 ∧ l.toUInt8 ≠ 'u'.toUInt8 ∧ shortEscape? l.toUInt8 = some c := by
  simp only [shortEscapes, List.mem_cons, Prod.mk.injEq, List.not_mem_nil, or_false] at h
  rcases h with ⟨rfl, rfl⟩ | ⟨rfl, rfl⟩ | ⟨rfl, rfl⟩ | ⟨rfl, rfl⟩ | ⟨rfl, rfl⟩ | ⟨rfl, rfl⟩ |
    ⟨rfl, rfl⟩ | ⟨rfl, rfl⟩ <;> decide

/-- Puts a character before the bytes of a string. -/
def prepend (c : Char) (r : List UInt8 × List UInt8) : List UInt8 × List UInt8 :=
  (String.utf8EncodeChar c ++ r.1, r.2)

theorem stringBytes_isPlain {c : Char} (h : IsPlain c) (cs : List Char) (t : List UInt8) :
    stringBytes 0 (encode (c :: cs) ++ t) =
      (stringBytes 0 (encode cs ++ t)).map (prepend c) := by
  have hplain : ∀ b ∈ String.utf8EncodeChar c, Plain b := fun b hb =>
    plain_of_unescaped h.notQuote h.notBackslash (Nat.not_lt.mpr h.notControl) hb
  rw [Text.encode_cons, List.append_assoc, stringBytes_plain hplain]
  rfl

theorem stringBytes_short {l c : Char} (h : (l, c) ∈ shortEscapes) (cs : List Char)
    (t : List UInt8) : stringBytes 0 (encode ('\\' :: l :: cs) ++ t) =
      (stringBytes 0 (encode cs ++ t)).map (prepend c) := by
  obtain ⟨hl, hu, hshort⟩ := shortEscape?_of_mem h
  have hescape : escape ([l.toUInt8] ++ (encode cs ++ t)) = .ok (c, encode cs ++ t) := by
    rw [List.singleton_append, escape, if_neg hu, hshort]
  have htext : encode ('\\' :: l :: cs) ++ t =
      '\\'.toUInt8 :: ([l.toUInt8] ++ (encode cs ++ t)) := by
    simp [Text.encode_cons, Text.encodeChar_of_lt, hl]
  rw [htext, stringBytes_escape hescape]
  rfl

theorem unicodeEscape_unit (h : IsUnit ds u) (hhigh : ¬ IsHighSurrogate u)
    (hlow : ¬ IsLowSurrogate u) (t : List UInt8) :
    unicodeEscape (encode ds ++ t) = .ok (.ofNat u, t) := by
  have hread := hexUnit_of_isUnit h t
  simp only [unicodeEscape, hread, bind, Except.bind]
  rw [if_neg hlow, if_neg hhigh]

/-- Behind a high surrogate everything depends on the next unit. -/
theorem unicodeEscape_second {es : List Char} {low : Nat} (h : IsUnit ds u) (hu : IsHighSurrogate u)
    (he : IsUnit es low) (t : List UInt8) :
    unicodeEscape (encode ds ++ '\\'.toUInt8 :: 'u'.toUInt8 :: (encode es ++ t)) =
      if IsLowSurrogate low then
        .ok (.ofNat (0x10000 + (u - 0xd800) * 0x400 + (low - 0xdc00)), t)
      else malformed .loneSurrogate t := by
  have hread := hexUnit_of_isUnit h ('\\'.toUInt8 :: 'u'.toUInt8 :: (encode es ++ t))
  have hread' := hexUnit_of_isUnit he t
  have hnot : ¬ IsLowSurrogate u := by omega
  simp only [unicodeEscape, hread, hread', bind, Except.bind]
  rw [if_neg hnot, if_pos hu]
  simp only [ne_eq, not_true_eq_false, if_false]

theorem encode_unit (ds cs : List Char) (t : List UInt8) :
    encode ('\\' :: 'u' :: (ds ++ cs)) ++ t =
      '\\'.toUInt8 :: 'u'.toUInt8 :: (encode ds ++ (encode cs ++ t)) := by
  simp [Text.encode_cons, Text.encodeChar_of_lt]

theorem stringBytes_unit (h : IsUnit ds u) (hhigh : ¬ IsHighSurrogate u)
    (hlow : ¬ IsLowSurrogate u) (cs : List Char) (t : List UInt8) :
    stringBytes 0 (encode ('\\' :: 'u' :: (ds ++ cs)) ++ t) =
      (stringBytes 0 (encode cs ++ t)).map (prepend (.ofNat u)) := by
  have hescape : escape (('u'.toUInt8 :: encode ds) ++ (encode cs ++ t)) =
      .ok (.ofNat u, encode cs ++ t) := by
    rw [List.cons_append, escape, if_pos rfl]
    exact unicodeEscape_unit h hhigh hlow _
  rw [encode_unit, ← List.cons_append, stringBytes_escape hescape]
  rfl

theorem stringBytes_pair {es : List Char} {low : Nat} (h : IsUnit ds u) (hu : IsHighSurrogate u)
    (he : IsUnit es low) (hlow : IsLowSurrogate low) (cs : List Char) (t : List UInt8) :
    stringBytes 0 (encode ('\\' :: 'u' :: (ds ++ '\\' :: 'u' :: (es ++ cs))) ++ t) =
      (stringBytes 0 (encode cs ++ t)).map
        (prepend (.ofNat (0x10000 + (u - 0xd800) * 0x400 + (low - 0xdc00)))) := by
  have hescape : escape
      (('u'.toUInt8 :: (encode ds ++ '\\'.toUInt8 :: 'u'.toUInt8 :: encode es)) ++
        (encode cs ++ t)) =
      .ok (.ofNat (0x10000 + (u - 0xd800) * 0x400 + (low - 0xdc00)), encode cs ++ t) := by
    rw [List.cons_append, escape, if_pos rfl, List.append_assoc]
    exact (unicodeEscape_second h hu he _).trans (if_pos hlow)
  have htext : encode ('\\' :: 'u' :: (ds ++ '\\' :: 'u' :: (es ++ cs))) ++ t =
      '\\'.toUInt8 :: (('u'.toUInt8 :: (encode ds ++ '\\'.toUInt8 :: 'u'.toUInt8 :: encode es)) ++
        (encode cs ++ t)) := by
    simp [Text.encode_cons, Text.encodeChar_of_lt]
  rw [htext, stringBytes_escape hescape]
  rfl

/-- A string that stands for characters is read as these. -/
theorem stringBytes_of_spells (h : Spells cs ts) (t : List UInt8) :
    stringBytes 0 (encode cs ++ '"'.toUInt8 :: t) = .ok (encode ts, t) := by
  have hone (c : Char) (ts : List Char) : prepend c (encode ts, t) = (encode (c :: ts), t) := rfl
  induction h with
  | nil => rfl
  | plain hc _ ih => rw [stringBytes_isPlain hc, ih, Except.map, hone]
  | short hl _ ih => rw [stringBytes_short hl, ih, Except.map, hone]
  | unit hds hhigh hlow _ ih => rw [stringBytes_unit hds hhigh hlow, ih, Except.map, hone]
  | pair hds hhigh hes hlow _ ih => rw [stringBytes_pair hds hhigh hes hlow, ih, Except.map, hone]

theorem refused_stringBytes {s : List UInt8} (h : Refused (unicodeEscape s)) :
    Refused (stringBytes 0 ('\\'.toUInt8 :: 'u'.toUInt8 :: s)) := by
  obtain ⟨e, he, hlimit⟩ := h
  have hescape : escape ('u'.toUInt8 :: s) = .error e := by
    rw [escape, if_pos rfl, he]
  refine ⟨e, ?_, hlimit⟩
  rw [stringBytes, if_neg (by decide), if_pos rfl, hescape]

theorem refused_low (h : IsUnit ds u) (hu : IsLowSurrogate u) (t : List UInt8) :
    Refused (unicodeEscape (encode ds ++ t)) := by
  have hread := hexUnit_of_isUnit h t
  simp only [unicodeEscape, hread, bind, Except.bind]
  rw [if_pos hu]
  exact refused_malformed .loneSurrogate trivial _

/-- A high surrogate needs a low one behind it. -/
theorem partner_or_refused (h : IsUnit ds u) (hu : IsHighSurrogate u) (hcs : IsString cs) :
    (∃ es low after, IsUnit es low ∧ IsLowSurrogate low ∧ IsString after ∧
      cs = '\\' :: 'u' :: (es ++ after)) ∨
      ∀ t, Refused (unicodeEscape (encode ds ++ (encode cs ++ '"'.toUInt8 :: t))) := by
  have hnot : ¬ IsLowSurrogate u := by omega
  -- the next byte, or the one behind it, is not the start of another unit
  have hother (b : UInt8) (s : List UInt8) (hb : b ≠ '\\'.toUInt8) :
      Refused (unicodeEscape (encode ds ++ b :: s)) := by
    have hread := hexUnit_of_isUnit h (b :: s)
    simp only [unicodeEscape, hread, bind, Except.bind]
    rw [if_neg hnot, if_pos hu]
    simp only [ne_eq, hb, not_false_eq_true, if_true]
    exact refused_malformed .unpairedSurrogate trivial _
  cases hcs with
  | nil => exact Or.inr fun t => hother _ _ (by decide)
  | @plain c cs hc _ =>
    refine Or.inr fun t => ?_
    obtain ⟨b, bs, hbs⟩ := List.exists_cons_of_ne_nil (String.utf8EncodeChar_ne_nil (c := c))
    have hplain : Plain b := plain_of_unescaped hc.notQuote hc.notBackslash
      (Nat.not_lt.mpr hc.notControl) (hbs ▸ List.mem_cons_self)
    rw [Text.encode_cons, hbs]
    exact hother _ _ hplain.2.1
  | @short l c cs hl _ =>
    refine Or.inr fun t => ?_
    obtain ⟨hlt, hl, -⟩ := shortEscape?_of_mem hl
    have htext : encode ('\\' :: l :: cs) ++ '"'.toUInt8 :: t =
        '\\'.toUInt8 :: l.toUInt8 :: (encode cs ++ '"'.toUInt8 :: t) := by
      simp [Text.encode_cons, Text.encodeChar_of_lt, hlt]
    have hread := hexUnit_of_isUnit h ('\\'.toUInt8 :: l.toUInt8 :: (encode cs ++ '"'.toUInt8 :: t))
    rw [htext]
    simp only [unicodeEscape, hread, bind, Except.bind]
    rw [if_neg hnot, if_pos hu]
    simp only [ne_eq, hl, not_true_eq_false, not_false_eq_true, if_true, if_false]
    exact refused_malformed .unpairedSurrogate trivial _
  | @unit es after low hes hafter =>
    by_cases hlow : IsLowSurrogate low
    · exact Or.inl ⟨es, low, after, hes, hlow, hafter, rfl⟩
    · refine Or.inr fun t => ?_
      rw [encode_unit, unicodeEscape_second h hu hes, if_neg hlow]
      exact refused_malformed .loneSurrogate trivial _

/-- A string stands for characters, or it is refused for a surrogate without its partner. -/
theorem spells_or_refused (h : IsString cs) :
    (∃ ts, Spells cs ts) ∨ ∀ t, Refused (stringBytes 0 (encode cs ++ '"'.toUInt8 :: t)) := by
  -- a pair takes two escapes at once, so the induction is on the length
  induction hlength : cs.length using Nat.strongRecOn generalizing cs with
  | ind n ih =>
    subst hlength
    cases h with
    | nil => exact Or.inl ⟨[], .nil⟩
    | @plain c cs hc hcs =>
      rcases ih cs.length (by simp) hcs rfl with ⟨ts, hts⟩ | hrefused
      · exact Or.inl ⟨_, .plain hc hts⟩
      · refine Or.inr fun t => ?_
        rw [stringBytes_isPlain hc]
        exact (hrefused t).map _
    | @short l c cs hl hcs =>
      rcases ih cs.length (by simp only [List.length_cons]; omega) hcs rfl with ⟨ts, hts⟩ | hrefused
      · exact Or.inl ⟨_, .short hl hts⟩
      · refine Or.inr fun t => ?_
        rw [stringBytes_short hl]
        exact (hrefused t).map _
    | @unit ds cs u hds hcs =>
      by_cases hlow : IsLowSurrogate u
      · refine Or.inr fun t => ?_
        rw [encode_unit]
        exact refused_stringBytes (refused_low hds hlow _)
      by_cases hhigh : IsHighSurrogate u
      · rcases partner_or_refused hds hhigh hcs with
          ⟨es, low, after, hes, hpartner, hafter, rfl⟩ | hrefused
        · rcases ih after.length (by simp; omega) hafter rfl with ⟨ts, hts⟩ | hrefused
          · exact Or.inl ⟨_, .pair hds hhigh hes hpartner hts⟩
          · refine Or.inr fun t => ?_
            rw [stringBytes_pair hds hhigh hes hpartner]
            exact (hrefused t).map _
        · refine Or.inr fun t => ?_
          rw [encode_unit]
          exact refused_stringBytes (hrefused t)
      · rcases ih cs.length (by simp; omega) hcs rfl with ⟨ts, hts⟩ | hrefused
        · exact Or.inl ⟨_, .unit hds hhigh hlow hts⟩
        · refine Or.inr fun t => ?_
          rw [stringBytes_unit hds hhigh hlow]
          exact (hrefused t).map _

theorem string_of_spells (h : Spells cs ts) (t : List UInt8) :
    string (encode cs ++ '"'.toUInt8 :: t) = .ok (String.ofList ts, t) := by
  rw [string, stringBytes_of_spells h]
  simp only [Text.decode?_encode]

theorem refused_string {s : List UInt8} (h : Refused (stringBytes 0 s)) : Refused (string s) := by
  obtain ⟨e, he, hlimit⟩ := h
  refine ⟨e, ?_, hlimit⟩
  rw [string, he]

/-- The name that a string spells, and what follows it. -/
theorem settled_string (h : IsString cs) :
    Settled (fun i => string (encode cs ++ '"'.toUInt8 :: rest i))
      fun (name : { ts // Spells cs ts }) i => (String.ofList name.1, rest i) := by
  rcases spells_or_refused h with ⟨ts, hts⟩ | hrefused
  · exact Or.inl ⟨⟨ts, hts⟩, fun i => string_of_spells hts _⟩
  · exact Or.inr fun i => refused_string (hrefused _)

theorem takes_string (h : IsString cs) :
    Takes (fun i => string (encode cs ++ '"'.toUInt8 :: rest i)) rest := by
  rcases settled_string h with ⟨name, hall⟩ | hrefused
  · exact Or.inl ⟨_, hall⟩
  · exact Or.inr hrefused

end Generation.Json.Read
