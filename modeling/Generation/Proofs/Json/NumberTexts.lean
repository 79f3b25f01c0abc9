import Generation.Proofs.Decimal.ReadBack
import Generation.Proofs.Json.Parsed
import Generation.Proofs.Json.Settled

/-!
Texts of numbers with a fraction, of any size. They keep to the grammar, so a text that is read as a
number when it stands alone is read as that number wherever it stands.
-/
namespace Generation

open Json.Grammar

variable {cs ds fraction : List Char} {e : Int} {u : Nat} {negative : Bool}

/-- The first digit is not zero. -/
theorem Decimal.head?_scientific {d : Decimal} (hs : d.significand ≠ 0) :
    d.scientific.1.head? ≠ some '0' := by
  obtain ⟨c, cs, hcs, hc⟩ := Digits.exists_toDigits_eq_cons (Nat.pos_of_ne_zero hs)
  obtain ⟨k, hsplit⟩ := Text.exists_eq_dropEndWhile_append '0' (Nat.toDigits 10 d.significand)
  obtain ⟨first, more, hdigits⟩ := List.exists_cons_of_ne_nil (scientific_spec hs).1
  have hfirst : Text.dropEndWhile (· == '0') (Nat.toDigits 10 d.significand) = first :: more :=
    hdigits
  rw [hfirst, hcs, List.cons_append] at hsplit
  rw [hdigits, List.head?_cons, ← (List.cons.inj hsplit).1]
  exact fun h => hc (Option.some.inj h)

namespace Layout

/-- Digits, a point and more digits. -/
theorem isNumber_point (hd : ∀ d ∈ ds, d.isDigit) (hfirst : ds.head? ≠ some '0') (hne : ds ≠ [])
    (hfraction : IsDigits fraction) (hexponent : IsExponent cs) :
    IsNumber (ds ++ '.' :: (fraction ++ cs)) := by
  obtain ⟨c, ds, rfl⟩ := List.exists_cons_of_ne_nil hne
  have hzero : c = '0' → ds = [] := fun h => absurd (congrArg some h) hfirst
  exact .mk hd hzero (.point hfraction) hexponent

theorem isNumber_positional (hne : ds ≠ []) (hd : ∀ d ∈ ds, d.isDigit)
    (hfirst : ds.head? ≠ some '0') : IsNumber (positional ds e) := by
  cases e with
  | negSucc e =>
    have htext : positional ds (.negSucc e) =
        '0' :: ([] ++ ('.' :: (List.replicate e '0' ++ ds) ++ [])) := by simp [positional]
    have hfraction : IsDigits (List.replicate e '0' ++ ds) :=
      ⟨by simp [hne], isDigit_of_mem_append (isDigit_of_mem_zeros e) hd⟩
    rw [htext]
    exact .mk (isDigit_of_mem_zeros 1) (fun _ => rfl) (.point hfraction) .none
  | ofNat e =>
    rw [positional]
    split
    case isTrue =>
      let zeros := List.replicate (e + 1 - ds.length) '0'
      have hwhole : ∀ d ∈ ds ++ zeros, d.isDigit :=
        isDigit_of_mem_append hd (isDigit_of_mem_zeros _)
      have hhead : (ds ++ zeros).head? = ds.head? := List.head?_append_of_ne_nil _ hne
      have hfraction : IsDigits ['0'] := ⟨List.cons_ne_nil _ _, isDigit_of_mem_zeros 1⟩
      have h : IsNumber (ds ++ zeros ++ '.' :: (['0'] ++ [])) :=
        isNumber_point hwhole (hhead ▸ hfirst) (by simp [hne]) hfraction .none
      exact h
    case isFalse hlt =>
      have hfraction : IsDigits (ds.drop (e + 1)) :=
        ⟨by simpa using hlt, fun d hm => hd d (List.mem_of_mem_drop hm)⟩
      have hwhole : ∀ d ∈ ds.take (e + 1), d.isDigit := fun d hm => hd d (List.mem_of_mem_take hm)
      have htake : (ds.take (e + 1)).head? = ds.head? := by
        rw [List.head?_take, if_neg (Nat.succ_ne_zero e)]
      have h : IsNumber (ds.take (e + 1) ++ '.' :: (ds.drop (e + 1) ++ [])) :=
        isNumber_point hwhole (htake ▸ hfirst) (by simp [hne]) hfraction .none
      rwa [List.append_nil] at h

theorem isNumber_withExponent (plus : Bool) (hne : ds ≠ []) (hd : ∀ d ∈ ds, d.isDigit)
    (hfirst : ds.head? ≠ some '0') : IsNumber (withExponent plus ds e) := by
  have hdigits : IsDigits (Nat.toDigits 10 e.natAbs) :=
    ⟨Nat.toDigits_ne_nil, fun d hm => Digits.isDigit_of_mem_toDigits hm⟩
  have hexponent : IsExponent ('e' :: ((if e < 0 then ['-'] else if plus then ['+'] else []) ++
      Nat.toDigits 10 e.natAbs)) := by
    refine .mark (Or.inl rfl) ?_ hdigits
    split
    · exact Or.inr (Or.inr rfl)
    · split
      · exact Or.inr (Or.inl rfl)
      · exact Or.inl rfl
  match ds, hne with
  | [d], _ =>
    have h : IsNumber (d :: ([] ++ ([] ++ _))) := .mk hd (fun _ => rfl) .none hexponent
    simpa [withExponent] using h
  | first :: second :: more, _ =>
    have hfraction : IsDigits (second :: more) :=
      ⟨List.cons_ne_nil _ _, fun d hm => hd d (List.mem_cons_of_mem _ hm)⟩
    have hwhole : ∀ d ∈ [first], d.isDigit :=
      fun d hm => hd d (List.mem_cons.mpr (Or.inl (List.mem_singleton.mp hm)))
    have h := isNumber_point hwhole hfirst (List.cons_ne_nil _ _) hfraction hexponent
    simpa [withExponent] using h

theorem isNumber_magnitude (l : Layout) (h : Binary64.Fits u) : IsNumber (l.magnitude u) := by
  rw [magnitude]
  split
  case isTrue =>
    have hzero : ∀ d ∈ ['0'], d.isDigit := isDigit_of_mem_zeros 1
    have h : IsNumber ('0' :: ([] ++ (['.', '0'] ++ []))) :=
      .mk hzero (fun _ => rfl) (.point ⟨List.cons_ne_nil _ _, hzero⟩) .none
    exact h
  case isFalse hu =>
    have hback : Binary64.nearestDecimal (Decimal.shortest l.halfUp u).significand
        (Decimal.shortest l.halfUp u).exponent = u := Decimal.readsBack_shortest l.halfUp h
    have hs : (Decimal.shortest l.halfUp u).significand ≠ 0 :=
      Binary64.significand_ne_zero (hback ▸ hu)
    obtain ⟨hne, hd, -⟩ := Decimal.scientific_spec hs
    have hfirst := Decimal.head?_scientific hs
    dsimp only
    split
    · exact isNumber_positional hne hd hfirst
    · exact isNumber_withExponent l.plus hne hd hfirst

end Layout

namespace Json.Read

open Text (encode)

variable {x : Number} {rest : List UInt8}

/-- What is read of a number alone is read before anything that does not belong to it. -/
theorem number_of_isNumber (hcs : IsNumber cs) (h : number negative (encode cs) = .ok (x, rest))
    {s : List UInt8} (hs : Delimited s) : number negative (encode cs ++ s) = .ok (x, s) := by
  have htakes : Takes (ι := {s // Delimited s})
      (fun s => number negative (encode cs ++ s.val)) fun s => s.val :=
    takes_number hcs fun s => s.property
  have hnil : number negative (encode cs ++ []) = .ok (x, rest) := by rw [List.append_nil, h]
  rcases htakes with ⟨y, hy⟩ | hrefused
  · obtain ⟨rfl, -⟩ := Prod.mk.inj (Except.ok.inj (hnil.symm.trans (hy ⟨[], delimited_nil⟩)))
    exact hy ⟨s, hs⟩
  · obtain ⟨f, hf, -⟩ := hrefused ⟨[], delimited_nil⟩
    cases hnil.symm.trans hf

theorem exists_of_isNumber (hcs : IsNumber cs) : ∃ c ds, cs = c :: ds ∧ c.isDigit ∧
    encode cs = c.toUInt8 :: encode ds := by
  obtain @⟨c, ds, fraction, exponent, hdigits, -⟩ := hcs
  have hc := hdigits c List.mem_cons_self
  refine ⟨c, _, rfl, hc, ?_⟩
  rw [Text.encode_cons, Text.encodeChar_of_lt (Digits.toNat_lt hc), List.singleton_append]

theorem numberReadBy_of_parse (hcs : IsNumber cs)
    (h : parse (encode ((if negative then ['-'] else []) ++ cs)) = .ok (.number x)) :
    NumberReadBy ((if negative then ['-'] else []) ++ cs) x := by
  obtain ⟨r, hvalue, -⟩ := value_of_parse h
  have hstep := valueStep_of_value hvalue
  cases negative with
  | true =>
    change ValueStep _ ('-'.toUInt8 :: encode cs) _ _ at hstep
    refine Or.inr ⟨cs, rfl, fun rest hrest => ?_⟩
    generalize hs : '-'.toUInt8 :: encode cs = s at hstep
    cases hstep with
    | negative hnumber =>
      obtain ⟨-, rfl⟩ := List.cons.inj hs
      exact number_of_isNumber hcs hnumber hrest
    | digit hb =>
      obtain ⟨rfl, -⟩ := List.cons.inj hs
      cases hb
  | false =>
    obtain ⟨c, ds, hcons, hc, hencode⟩ := exists_of_isNumber hcs
    have hb := isDigit_toUInt8 hc
    change ValueStep _ (skipSpace (encode cs)) _ _ at hstep
    refine Or.inl ⟨c, ds, hcons, hc, fun rest hrest => ?_⟩
    have hskip : skipSpace (encode cs) = encode cs := by
      have hstarts := (starts_of_isDigit hb (encode ds)).skipSpace []
      rwa [List.append_nil, ← hencode] at hstarts
    rw [hskip] at hstep
    generalize hs : encode cs = s at hstep
    cases hstep with
    | negative hnumber =>
      rw [hencode] at hs
      obtain ⟨hminus, -⟩ := List.cons.inj hs
      exact absurd hminus (isDigit_ne hb (by decide))
    | digit _ hnumber => exact number_of_isNumber hcs (hs ▸ hnumber) hrest

/-- A number with a fraction that is read back from its own text is read back wherever its text
stands. -/
theorem numberReadBy_real {y : Binary64}
    (h : parse (Text.bytes ((Json.number (.real y)).write false)) = .ok (.number (.real y))) :
    NumberReadBy (Number.text (.real y)) (.real y) := by
  have hnull : parse (encode "null".toList) = .ok .null := rfl
  rw [write, Text.bytes_ofList, chars] at h
  cases y with
  | nan => cases hnull.symm.trans h
  | infinite _ => cases hnull.symm.trans h
  | finite negative u hfits => exact numberReadBy_of_parse (Layout.isNumber_magnitude _ hfits) h

end Json.Read

end Generation
