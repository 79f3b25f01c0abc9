import Generation.Proofs.Json.Limits

/-!
Texts of objects with one value left open. Whatever value is put there, all other members are read
as the same; but if the value is refused, so is the whole text.
-/
namespace Generation.Json

open Grammar Read
open Text (encode)

variable {ι α : Type}

/-- The text of an object where the value of one member is left open. -/
structure Frame where
  before : List Char
  earlier : List Member
  heading : Heading
  after : List Char
  later : List Member
  inner : List Char
  last : List Char

namespace Frame

/-- All members, once the open value is there. -/
def members (f : Frame) (value : List Char) : List Member :=
  f.earlier ++ ⟨f.heading, value, f.after⟩ :: f.later

def text (f : Frame) (value : List Char) : List Char :=
  f.before ++ '\x7b' ::
    (listed ((f.members value).map Member.text) ++ (f.inner ++ '\x7d' :: f.last))

/-- What stands there belongs to a text of the grammar. -/
structure WellFormed (f : Frame) : Prop where
  before : IsBlank f.before
  heading : f.heading.WellFormed
  after : IsBlank f.after
  members : ∀ m ∈ f.earlier ++ f.later, m.WellFormed
  values : ∀ m ∈ f.earlier ++ f.later, IsValue m.value
  inner : IsBlank f.inner
  last : IsBlank f.last

/-- What is read of the members but for the open value. -/
structure Reading (f : Frame) where
  earlier : Members
  name : List Char
  spells : Spells f.heading.name name
  later : Members

/-- The members that are read when the open value is read as `v`. -/
def Reading.members {f : Frame} (r : f.Reading) (v : Json) : Members :=
  r.earlier ++ (String.ofList r.name, v) :: r.later

/-- What stands behind the open member, with `s` behind the text. -/
def tail (f : Frame) (s : List UInt8) : List UInt8 :=
  encode (laterText f.later) ++ (encode f.inner ++ '\x7d'.toUInt8 :: s)

theorem delimited_tail {f : Frame} (hf : f.WellFormed) (s : List UInt8) : Delimited (f.tail s) :=
  delimited_laterText (delimited_brace hf.inner s) f.later

section

variable {f : Frame} {n : Nat} {v : α → ι → Json} {text : ι → List Char} {rest : ι → List UInt8}
  {fuel : ι → Nat} (hf : f.WellFormed)
  (hopen : ∀ rest : ι → List UInt8, (∀ i, Delimited (rest i)) →
    Settled (fun i => value n (encode f.heading.afterColon ++ (encode (text i) ++ rest i)))
      fun a i => (v a i, rest i))

include hf hopen

/-- The open member, whose value is another one in every run, and the members behind it. -/
theorem settled_open {first : Bool} {s : ι → List UInt8}
    (hnext : ∀ i, nextMember first (s i) = nextMember true
      (encode (Member.text ⟨f.heading, text i, f.after⟩) ++ f.tail (rest i)))
    (hfuel : ∀ i, f.later.length + 1 < fuel i) :
    Settled (fun i => Read.members (value n) (fuel i) first (s i))
      fun (a : { r : f.Reading // r.earlier = [] } × α) i =>
        (a.1.1.members (v a.2 i), rest i) := by
  obtain ⟨fuel, rfl⟩ := exists_succ hfuel
  have hname (i : ι) : nextMember first (s i) =
      .ok (true, encode f.heading.name ++ '"'.toUInt8 ::
        (encode f.heading.beforeColon ++ ':'.toUInt8 :: (encode f.heading.afterColon ++
          (encode (text i) ++ (encode f.after ++ f.tail (rest i)))))) := by
    exact (hnext i).trans (nextMember_member hf.heading.before _)
  have hread := hopen (fun i => encode f.after ++ f.tail (rest i))
    fun i => delimited_append hf.after (delimited_tail hf (rest i))
  have hend (k : ι → Nat) (gap : List Char) (hk : ∀ i, 0 < k i) (hgap : IsBlank gap) :
      Takes (fun i => Read.members (value n) (k i) false
        (encode gap ++ (encode f.inner ++ '\x7d'.toUInt8 :: rest i))) rest :=
    takes_brace false hgap hf.inner hk
  have hlater := settled_laterText (fun i => delimited_brace hf.inner (rest i)) hend
    (fun m hm => hf.members m (List.mem_append_right _ hm))
    (fun m hm => settles_value (hf.values m (List.mem_append_right _ hm)) n)
    (fun i => Nat.lt_of_succ_lt_succ (by simpa using hfuel i)) hf.after
  rcases settled_member hf.heading hname hread hlater with ⟨⟨name, a, vs, d⟩, hall⟩ | hrefused
  · exact Or.inl ⟨(⟨⟨[], name.1, name.2, vs ++ d⟩, rfl⟩, a), hall⟩
  · exact Or.inr hrefused

/-- All members, with the brace behind them. -/
theorem settled_members (hfuel : ∀ i, (f.members (text i)).length < fuel i) :
    Settled (fun i => Read.members (value n) (fuel i) true
      (encode (listed ((f.members (text i)).map Member.text) ++ (f.inner ++ ['\x7d'])) ++ rest i))
      fun (a : f.Reading × α) i => (a.1.members (v a.2 i), rest i) := by
  cases hearlier : f.earlier with
  | nil =>
    have hmembers (i : ι) : f.members (text i) = ⟨f.heading, text i, f.after⟩ :: f.later := by
      rw [members, hearlier, List.nil_append]
    simp only [hmembers] at hfuel ⊢
    simp only [encode_listed_cons]
    rcases settled_open hf hopen (fun _ => rfl) hfuel with ⟨⟨r, a⟩, hall⟩ | hrefused
    · exact Or.inl ⟨(r.1, a), hall⟩
    · exact Or.inr hrefused
  | cons m ms =>
    have hmembers (i : ι) : f.members (text i) =
        m :: (ms ++ ⟨f.heading, text i, f.after⟩ :: f.later) := by
      rw [members, hearlier, List.cons_append]
    have hearly : ∀ x ∈ m :: ms, x ∈ f.earlier ++ f.later := by
      intro x hx
      rw [hearlier]
      exact List.mem_append_left _ hx
    have htail (i : ι) : encode (laterText (ms ++ ⟨f.heading, text i, f.after⟩ :: f.later)) ++
        (encode f.inner ++ '\x7d'.toUInt8 :: rest i) = encode (laterText ms) ++
          (','.toUInt8 :: (encode (Member.text ⟨f.heading, text i, f.after⟩) ++
            f.tail (rest i))) := by
      rw [laterText, List.flatMap_append, Text.encode_append, List.append_assoc]
      exact congrArg _ (encode_laterText_cons _ _ _)
    simp only [hmembers] at hfuel ⊢
    simp only [encode_listed_cons, htail]
    have hrest (k : ι → Nat) (gap : List Char) (hk : ∀ i, f.later.length + 1 < k i)
        (hgap : IsBlank gap) :
        Settled (fun i => Read.members (value n) (k i) false (encode gap ++ ','.toUInt8 ::
          (encode (Member.text ⟨f.heading, text i, f.after⟩) ++ f.tail (rest i))))
          fun (a : { r : f.Reading // r.earlier = [] } × α) i =>
            (a.1.1.members (v a.2 i), rest i) := by
      exact settled_open hf hopen (fun i => nextMember_later hgap hf.heading.before _) hk
    have hsize (i : ι) : f.later.length + 1 + (m :: ms).length < fuel i := by
      have := hfuel i
      simp only [List.length_cons, List.length_append] at this ⊢
      omega
    rcases Read.settled_members (fun i => delimited_comma) hrest
      (fun x hx => hf.members x (hearly x hx))
      (fun x hx => settles_value (hf.values x (hearly x hx)) n) hsize
      with ⟨⟨vs, ⟨r, hr⟩, a⟩, hall⟩ | hrefused
    · refine Or.inl ⟨(⟨vs, r.name, r.spells, r.later⟩, a), fun i => (hall i).trans ?_⟩
      simp only [following, Reading.members, hr, List.nil_append]
    · exact Or.inr hrefused

end

/-- The text as a whole is read member by member, or refused. -/
theorem settled_text {f : Frame} {v : α → ι → Json} {text : ι → List Char} (hf : f.WellFormed)
    (hopen : ∀ rest : ι → List UInt8, (∀ i, Delimited (rest i)) →
      Settled (fun i => value (maxDepth - 1)
        (encode f.heading.afterColon ++ (encode (text i) ++ rest i))) fun a i => (v a i, rest i)) :
    Settled (fun i => value maxDepth (encode (f.text (text i))) >>= fun r => finish r.1 r.2)
      fun (a : f.Reading × α) i => object (ofMembers (a.1.members (v a.2 i))) := by
  have hskip (i : ι) : skipSpace (encode (f.text (text i))) = '\x7b'.toUInt8 ::
      (encode (listed ((f.members (text i)).map Member.text) ++ (f.inner ++ ['\x7d'])) ++
        encode f.last) := by
    have htext : encode (f.text (text i)) = encode f.before ++ '\x7b'.toUInt8 ::
        (encode (listed ((f.members (text i)).map Member.text) ++ (f.inner ++ ['\x7d'])) ++
          encode f.last) := by
      simp [Frame.text, Text.encode_cons, Text.encodeChar_of_lt]
    rw [htext, skipSpace_append (blank_encode hf.before), skipSpace_cons (by decide)]
  have hmembers : Settled (fun i => Read.members (value (maxDepth - 1)) _ true
      (encode (listed ((f.members (text i)).map Member.text) ++ (f.inner ++ ['\x7d'])) ++
        encode f.last)) fun (a : f.Reading × α) i => (a.1.members (v a.2 i), encode f.last) :=
    settled_members hf hopen fun i =>
      lt_length_members (f.members (text i)) (f.inner ++ ['\x7d']) (encode f.last)
  have hvalue (i : ι) := value_brace (hskip i) (maxDepth - 1)
  change Settled (fun i => value (maxDepth - 1 + 1) _ >>= _) _
  simp only [hvalue]
  refine Settled.bind (hmembers.map _) fun a => ?_
  refine Or.inl ⟨a, fun i => ?_⟩
  dsimp only
  rw [finish, skipSpace_blank (blank_encode hf.last)]

/-- The open value is read as `v`, so the text is read with `v` in its place. -/
theorem takes_open {f : Frame} {text : ι → List Char} {v : ι → Json} {n : Nat} (hf : f.WellFormed)
    (h : ∀ i, ReadBy (value n) (text i) (v i)) (rest : ι → List UInt8)
    (hr : ∀ i, Delimited (rest i)) :
    Settled (fun i => value n (encode f.heading.afterColon ++ (encode (text i) ++ rest i)))
      fun (_ : Unit) i => (v i, rest i) := by
  refine Or.inl ⟨(), fun i => (h i).reads _ _ (hr i) ?_⟩
  rw [skipSpace_append (blank_encode hf.heading.afterColon)]
  exact (h i).starts.skipSpace _

end Frame

/-- A text is read as a value where it stands in an object. -/
def Readable (cs : List Char) : Prop := ∃ v, value (maxDepth - 1) (encode cs) = .ok (v, [])

variable {f : Frame} {cs ds : List Char} {v : Json} {e : Fault}

theorem parse_eq_runReader (bytes : List UInt8) : parse bytes =
    runReader (fun s => value maxDepth s >>= fun r => finish r.1 r.2) bytes := rfl

theorem parse_eq_ok (h : (value maxDepth (encode cs) >>= fun r => finish r.1 r.2) = .ok v) :
    parse (encode cs) = .ok v := by
  rw [parse_eq_runReader, runReader, h]

theorem parse_eq_error (h : (value maxDepth (encode cs) >>= fun r => finish r.1 r.2) = .error e) :
    parse (encode cs) = .error (e.locate (encode cs)) := by
  rw [parse_eq_runReader, runReader, h]

/-- A value that is refused takes the whole text with it. -/
theorem parse_of_not_readable (hf : f.WellFormed) (h : IsValue cs) (hcs : ¬ Readable cs) :
    ∃ e, parse (encode (f.text cs)) = .error e ∧ e.cause.IsLimit := by
  have hrefused : ∀ p : Place cs, Refused (value (maxDepth - 1) p.bytes) := by
    rcases readBy_or_refused h (maxDepth - 1) with hread | hrefused
    · exact absurd ((exists_readBy_iff h _).mp hread) hcs
    · exact hrefused
  have hstarts : Starts (encode cs) := (settles_value (ι := Unit) h 0).starts
  -- no value is read, so what is read of the text may be said to depend on none
  let v (a : Empty) (_ : Unit) : Json := a.elim
  have hopen (rest : Unit → List UInt8) (hr : ∀ i, Delimited (rest i)) :
      Settled (fun i => value (maxDepth - 1)
        (encode f.heading.afterColon ++ (encode cs ++ rest i))) fun a i => (v a i, rest i) := by
    refine Or.inr fun i => hrefused ⟨_, rest i, hr i, ?_⟩
    rw [skipSpace_append (blank_encode hf.heading.afterColon)]
    exact hstarts.skipSpace _
  rcases Frame.settled_text hf hopen with ⟨⟨-, a⟩, -⟩ | hrefused
  · exact a.elim
  · obtain ⟨e, he, hlimit⟩ := hrefused ()
    exact ⟨_, parse_eq_error he, hlimit⟩

/-- If both values are read, either text is read, with all members but one the same, or neither. -/
theorem parse_of_readable (hf : f.WellFormed) (hcs : IsValue cs) (hds : IsValue ds)
    (hc : Readable cs) (hd : Readable ds) :
    (∃ (r : f.Reading) (v w : Json),
      parse (encode (f.text cs)) = .ok (.object (ofMembers (r.members v))) ∧
        parse (encode (f.text ds)) = .ok (.object (ofMembers (r.members w)))) ∨
      (∃ e, parse (encode (f.text cs)) = .error e) ∧
        ∃ e, parse (encode (f.text ds)) = .error e := by
  obtain ⟨v, hv⟩ := (exists_readBy_iff hcs _).mpr hc
  obtain ⟨w, hw⟩ := (exists_readBy_iff hds _).mpr hd
  let text (i : Bool) : List Char := bif i then cs else ds
  let read (_ : Unit) (i : Bool) : Json := bif i then v else w
  have hboth (i : Bool) : ReadBy (value (maxDepth - 1)) (text i) (read () i) := by
    cases i with
    | true => exact hv
    | false => exact hw
  have htext : Settled (fun i => value maxDepth (encode (f.text (text i))) >>= fun r =>
      finish r.1 r.2)
      fun (a : f.Reading × Unit) i => object (ofMembers (a.1.members (read a.2 i))) :=
    Frame.settled_text hf (Frame.takes_open hf hboth)
  rcases htext with ⟨⟨r, _⟩, hr⟩ | hrefused
  · exact Or.inl ⟨r, v, w, parse_eq_ok (hr true), parse_eq_ok (hr false)⟩
  · obtain ⟨d, hd, -⟩ := hrefused true
    obtain ⟨e, he, -⟩ := hrefused false
    exact Or.inr ⟨⟨_, parse_eq_error hd⟩, _, parse_eq_error he⟩

end Generation.Json
