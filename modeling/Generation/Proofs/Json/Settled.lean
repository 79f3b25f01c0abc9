import Generation.Proofs.Json.Grammar
import Generation.Proofs.Json.RoundTrip

/-!
Texts of the grammar are read up to their last character or refused, whatever follows them; and they
are refused for nothing but a limit of the reader.
-/
namespace Generation.Json

/-- The faults of texts that keep to the grammar. -/
def SyntaxFault.IsLimit : SyntaxFault → Prop
  | .numberOutOfRange | .loneSurrogate | .unpairedSurrogate | .nestingTooDeep => True
  | _ => False

def Cause.IsLimit : Cause → Prop
  | .grammar f => f.IsLimit
  | .mismatch _ => False

namespace Read

open Grammar
open Text (encode)

variable {ι α α' β γ δ : Type} {x : ι → Except Fault β} {y : α → ι → β} {rest : ι → List UInt8}

/-- A reader stopped at a limit. -/
def Refused (x : Except Fault β) : Prop := ∃ f, x = .error f ∧ f.cause.IsLimit

theorem refused_malformed (f : SyntaxFault) (h : f.IsLimit) (rest : List UInt8) :
    Refused (malformed f rest : Except Fault β) :=
  ⟨⟨.grammar f, rest⟩, rfl, h⟩

theorem Refused.map {x : Except Fault β} (h : Refused x) (f : β → γ) : Refused (x.map f) := by
  obtain ⟨e, rfl, hlimit⟩ := h
  exact ⟨e, rfl, hlimit⟩

/-- Runs of a reader on texts that differ: they all give a result, and the results differ only as
`y` says, or all of them are refused. -/
def Settled (x : ι → Except Fault β) (y : α → ι → β) : Prop :=
  (∃ a, ∀ i, x i = .ok (y a i)) ∨ ∀ i, Refused (x i)

theorem settled_ok {z : ι → β} (h : ∀ i, x i = .ok (z i)) : Settled x fun _ : Unit => z :=
  Or.inl ⟨(), h⟩

theorem Settled.map (h : Settled x y) (f : β → γ) :
    Settled (fun i => (x i).map f) fun a i => f (y a i) := by
  rcases h with ⟨a, ha⟩ | hrefused
  · exact Or.inl ⟨a, fun i => congrArg (Except.map f) (ha i)⟩
  · exact Or.inr fun i => (hrefused i).map f

theorem Settled.bind {f : ι → β → Except Fault γ} {z : α' → ι → γ} (h : Settled x y)
    (hf : ∀ a, Settled (fun i => f i (y a i)) z) : Settled (fun i => x i >>= f i) z := by
  rcases h with ⟨a, ha⟩ | hrefused
  · have heq : (fun i => x i >>= f i) = fun i => f i (y a i) :=
      funext fun i => congrArg (· >>= f i) (ha i)
    rw [heq]
    exact hf a
  · refine Or.inr fun i => ?_
    obtain ⟨e, he, hlimit⟩ := hrefused i
    exact ⟨e, congrArg (· >>= f i) he, hlimit⟩

/-- A settled reader that takes the same value in every run. -/
abbrev Takes (x : ι → Except Fault (α × List UInt8)) (rest : ι → List UInt8) : Prop :=
  Settled x fun a i => (a, rest i)

theorem Takes.map {x : ι → Except Fault (α × List UInt8)} (h : Takes x rest) (f : α → β) :
    Takes (fun i => (x i).map fun r => (f r.1, r.2)) rest := by
  rcases h with ⟨a, ha⟩ | hrefused
  · exact Or.inl ⟨f a, fun i => congrArg _ (ha i)⟩
  · exact Or.inr fun i => (hrefused i).map _

/-! Numbers -/

variable {negative : Bool} {significand : Nat} {exponent : Int} {ds cs : List Char}

theorem takes_realOf : Takes (fun i => realOf negative significand exponent (rest i)) rest := by
  unfold realOf
  cases scale? (.ofNat significand) exponent with
  | some x => exact Or.inl ⟨_, fun i => rfl⟩
  | none => exact Or.inr fun i => refused_malformed .numberOutOfRange trivial _

/-- The digits of an exponent are taken, or there are too many of them. -/
theorem exponentDigits_settled (h : ∀ d ∈ ds, d.isDigit) (n : Nat) :
    (∃ e, ∀ rest, NoDigit rest → exponentDigits n (encode ds ++ rest) = .ok (e, rest)) ∨
      ∃ es : List Char, (∀ e ∈ es, e.isDigit) ∧ ∀ rest, NoDigit rest →
        exponentDigits n (encode ds ++ rest) = .error (encode es ++ rest) := by
  induction ds generalizing n with
  | nil =>
    refine Or.inl ⟨n, fun rest hr => ?_⟩
    cases rest with
    | nil => rfl
    | cons b s => simp [exponentDigits, hr b rfl]
  | cons d ds ih =>
    have hd := h d (by simp)
    have hds : ∀ e ∈ ds, e.isDigit := fun e he => h e (by simp [he])
    have hstep (rest : List UInt8) : exponentDigits n (encode (d :: ds) ++ rest) =
        if n * 10 + digitValue d.toUInt8 < 2 ^ 31 then
          exponentDigits (n * 10 + digitValue d.toUInt8) (encode ds ++ rest)
        else .error (encode ds ++ rest) := by
      rw [Text.encode_cons, Text.encodeChar_of_lt (Digits.toNat_lt hd), List.append_assoc,
        List.singleton_append, exponentDigits, if_pos (isDigit_toUInt8 hd)]
    simp only [hstep]
    split
    · exact ih hds _
    · exact Or.inr ⟨ds, hds, fun rest _ => rfl⟩

/-- What becomes of a number with the digits of its exponent read. The exponent counts downwards
after a minus. -/
def afterExponent (negative : Bool) (significand : Nat) (exponent : Int) (down : Bool) :
    Except (List UInt8) (Nat × List UInt8) → Except Fault (Number × List UInt8)
  | .ok (e, s) => realOf negative significand (if down then exponent - e else exponent + e) s
  | .error s =>
    if significand ≠ 0 ∧ !down then malformed .numberOutOfRange s
    else .ok (.real (.zero negative), s.dropWhile isDigit)

theorem exponentPart_sign (negative : Bool) (significand : Nat) (exponent : Int)
    {sign : List Char} {d : Char} (hd : d.isDigit)
    (hsign : sign = [] ∨ sign = ['+'] ∨ sign = ['-']) : ∃ down : Bool, ∀ s,
      exponentPart negative significand exponent (encode sign ++ d.toUInt8 :: s) =
        afterExponent negative significand exponent down
          (exponentDigits (digitValue d.toUInt8) s) := by
  have hdigit := isDigit_toUInt8 hd
  have hminus : d.toUInt8 ≠ '-'.toUInt8 := isDigit_ne hdigit (by decide)
  have hplus : d.toUInt8 ≠ '+'.toUInt8 := isDigit_ne hdigit (by decide)
  have hother : '+'.toUInt8 ≠ '-'.toUInt8 := by decide
  rcases hsign with rfl | rfl | rfl
  · refine ⟨false, fun s => ?_⟩
    rw [Text.encode_nil, List.nil_append, exponentPart]
    simp only [hminus, hplus, hdigit, if_false, if_true]
    rfl
  · refine ⟨false, fun s => ?_⟩
    change exponentPart _ _ _ ('+'.toUInt8 :: d.toUInt8 :: s) = _
    rw [exponentPart]
    simp only [hother, hdigit, if_false, if_true]
    rfl
  · refine ⟨true, fun s => ?_⟩
    change exponentPart _ _ _ ('-'.toUInt8 :: d.toUInt8 :: s) = _
    rw [exponentPart]
    simp only [hdigit, if_true]
    rfl

theorem takes_exponentPart {sign : List Char} (hsign : sign = [] ∨ sign = ['+'] ∨ sign = ['-'])
    (hds : IsDigits ds) (hr : ∀ i, NoDigit (rest i)) :
    Takes (fun i => exponentPart negative significand exponent (encode (sign ++ ds) ++ rest i))
      rest := by
  obtain ⟨d, ds, rfl⟩ := List.exists_cons_of_ne_nil hds.ne_nil
  have hd := hds.isDigit d (by simp)
  obtain ⟨down, hpart⟩ := exponentPart_sign negative significand exponent hd hsign
  have htext (i : ι) : encode (sign ++ d :: ds) ++ rest i =
      encode sign ++ d.toUInt8 :: (encode ds ++ rest i) := by
    simp [Text.encode_cons, Text.encodeChar_of_lt (Digits.toNat_lt hd)]
  simp only [htext, hpart]
  have hmore : ∀ e ∈ ds, e.isDigit := fun e he => hds.isDigit e (by simp [he])
  rcases exponentDigits_settled hmore (digitValue d.toUInt8) with ⟨e, he⟩ | ⟨es, hes, he⟩
  · have hdigits (i : ι) := he (rest i) (hr i)
    simp only [hdigits, afterExponent]
    exact takes_realOf
  · have hdigits (i : ι) := he (rest i) (hr i)
    have hleft (i : ι) := dropWhile_digits hes (hr i)
    simp only [hdigits, afterExponent, hleft]
    split
    · exact Or.inr fun i => refused_malformed .numberOutOfRange trivial _
    · exact Or.inl ⟨_, fun i => rfl⟩

/-- What stands behind the digits of a number. -/
theorem takes_realTail (negative : Bool) (significand : Nat) (exponent : Int)
    (hcs : IsExponent cs) (hr : ∀ i, Delimited (rest i)) :
    Takes (fun i => realTail negative significand exponent (encode cs ++ rest i)) rest := by
  cases hcs with
  | none =>
    simp only [Text.encode_nil, List.nil_append, realTail_delimited (hr _)]
    exact takes_realOf
  | @mark c sign ds hc hsign hds =>
    have hmark : c.toNat < 128 ∧ isExponentMark c.toUInt8 = true := by
      rcases hc with rfl | rfl <;> decide
    have htail (i : ι) :
        realTail negative significand exponent (encode (c :: (sign ++ ds)) ++ rest i) =
          exponentPart negative significand exponent (encode (sign ++ ds) ++ rest i) := by
      rw [Text.encode_cons, Text.encodeChar_of_lt hmark.1, List.append_assoc,
        List.singleton_append, realTail, if_pos hmark.2]
    simp only [htail]
    exact takes_exponentPart hsign hds fun i => (hr i).noDigit

theorem noDigit_of_isExponent {s : List UInt8} (hcs : IsExponent cs) (hs : NoDigit s) :
    NoDigit (encode cs ++ s) := by
  cases hcs with
  | none => exact hs
  | @mark c sign ds hc hsign hds =>
    have hmark : c.toNat < 128 ∧ isDigit c.toUInt8 = false := by rcases hc with rfl | rfl <;> decide
    rw [Text.encode_cons, Text.encodeChar_of_lt hmark.1]
    exact noDigit_cons hmark.2

theorem takes_fractionPart (hds : IsDigits ds) (hcs : IsExponent cs)
    (hr : ∀ i, Delimited (rest i)) :
    Takes (fun i => fractionPart negative significand exponent
      (encode ds ++ (encode cs ++ rest i))) rest := by
  have hafter (i : ι) := noDigit_of_isExponent hcs (hr i).noDigit
  obtain ⟨b, bs, hbs⟩ : ∃ b bs, encode ds = b :: bs := by
    obtain ⟨d, ds, rfl⟩ := List.exists_cons_of_ne_nil hds.ne_nil
    rw [Text.encode_cons, Text.encodeChar_of_lt (Digits.toNat_lt (hds.isDigit d (by simp)))]
    exact ⟨_, _, rfl⟩
  have hdigits (i : ι) := takeWhile_digits hds.isDigit (hafter i)
  have hleft (i : ι) := dropWhile_digits hds.isDigit (hafter i)
  simp only [fractionPart, hdigits, hleft]
  simp only [hbs]
  exact takes_realTail _ _ _ hcs hr

/-- What becomes of the digits before the point, when a word cannot hold the last `left` of them. -/
def afterWhole (negative : Bool) (significand left : Nat) (s : List UInt8) :
    Except Fault (Number × List UInt8) :=
  match s with
  | [] =>
    if left = 0 then .ok (integerOf negative significand, [])
    else realOf negative significand left []
  | b :: t =>
    if b = '.'.toUInt8 then fractionPart negative significand left t
    else if left = 0 ∧ !isExponentMark b then .ok (integerOf negative significand, s)
    else realTail negative significand left s

theorem number_eq (negative : Bool) {c : Char} {s : List UInt8} (h : ∀ d ∈ c :: ds, d.isDigit)
    (hzero : c = '0' → ds = []) (hs : NoDigit s) :
    number negative (encode (c :: ds) ++ s) =
      afterWhole negative (absorb (digitValue c.toUInt8) (encode ds)).1
        ((encode ds).length - (absorb (digitValue c.toUInt8) (encode ds)).2) s := by
  have hc := h c (by simp)
  have hds : ∀ d ∈ ds, d.isDigit := fun d hd => h d (by simp [hd])
  have hlead := not_leadingZero hc hzero
  rw [Text.encode_cons, Text.encodeChar_of_lt (Digits.toNat_lt hc), List.append_assoc,
    List.singleton_append, number, if_pos (isDigit_toUInt8 hc)]
  simp only [takeWhile_digits hds hs, dropWhile_digits hds hs, hlead, if_false]
  cases s with
  | nil => rfl
  | cons b t => rfl

theorem afterWhole_delimited {left : Nat} {s : List UInt8} (hs : Delimited s) :
    afterWhole negative significand left s =
      if left = 0 then .ok (integerOf negative significand, s)
      else realOf negative significand left s := by
  cases s with
  | nil => rfl
  | cons b t =>
    obtain ⟨-, hpoint, hmark⟩ := hs b rfl
    rw [afterWhole, if_neg hpoint, realTail_delimited hs]
    simp [hmark]

/-- A number ends where nothing follows that could belong to it. -/
theorem takes_number (hcs : IsNumber cs) (hr : ∀ i, Delimited (rest i)) :
    Takes (fun i => number negative (encode cs ++ rest i)) rest := by
  obtain @⟨c, ds, fraction, exponent, hdigits, hzero, hfraction, hexponent⟩ := hcs
  have htext (i : ι) : encode (c :: (ds ++ (fraction ++ exponent))) ++ rest i =
      encode (c :: ds) ++ (encode fraction ++ (encode exponent ++ rest i)) := by
    simp [Text.encode_cons]
  have hafter (i : ι) := noDigit_of_isExponent hexponent (hr i).noDigit
  simp only [htext]
  cases hfraction with
  | @point fs hfs =>
    have hpoint (i : ι) : encode ('.' :: fs) ++ (encode exponent ++ rest i) =
        '.'.toUInt8 :: (encode fs ++ (encode exponent ++ rest i)) := rfl
    have hnumber (i : ι) := number_eq negative hdigits hzero
      (noDigit_cons (b := '.'.toUInt8) (s := encode fs ++ (encode exponent ++ rest i)) (by decide))
    simp only [hpoint, hnumber, afterWhole, if_true]
    exact takes_fractionPart hfs hexponent hr
  | none =>
    have hnumber (i : ι) := number_eq negative hdigits hzero (hafter i)
    simp only [Text.encode_nil, List.nil_append, hnumber]
    cases hexponent with
    | none =>
      simp only [Text.encode_nil, List.nil_append, afterWhole_delimited (hr _)]
      split
      · exact Or.inl ⟨_, fun i => rfl⟩
      · exact takes_realOf
    | @mark e sign es he hsign hes =>
      have hmark : e.toNat < 128 ∧ e.toUInt8 ≠ '.'.toUInt8 ∧ isExponentMark e.toUInt8 = true := by
        rcases he with rfl | rfl <;> decide
      have hexponent : IsExponent (e :: (sign ++ es)) := .mark he hsign hes
      have htail (significand left : Nat) := takes_realTail negative significand left hexponent hr
      have heq (i : ι) : encode (e :: (sign ++ es)) ++ rest i =
          e.toUInt8 :: (encode (sign ++ es) ++ rest i) := by
        rw [Text.encode_cons, Text.encodeChar_of_lt hmark.1]
        rfl
      simp only [heq] at htail ⊢
      simp only [afterWhole, hmark.2.1, hmark.2.2, if_false, Bool.not_true, Bool.false_eq_true,
        and_false]
      exact htail _ _

end Read

end Generation.Json
