import Generation.Proofs.CommandLine.Words
import Generation.Proofs.Options.Flags

/-!
A value given by a flag, and the same value stored. Both are read in the same way, but the command
line does not take the same words in both places.
-/
namespace Generation

variable {k : Key} {v : String}

/-- A single flag. -/
def Flags.one (k : Key) (v : String) : Flags := ⟨fun j => if j = k then some v else none⟩

theorem Text.trim_cons {c : Char} (hc : isBlank c = false) (cs : List Char) :
    ∃ ds, trim (c :: cs) = c :: ds := by
  have hstart : (c :: cs).dropWhile isBlank = c :: cs := by simp [hc]
  unfold trim dropEndWhile
  rw [hstart, List.reverse_cons, List.dropWhile_append]
  split
  · exact ⟨[], by simp [hc]⟩
  · exact ⟨(cs.reverse.dropWhile isBlank).reverse, by simp⟩

/-! Kinds without values that start with a hyphen -/

namespace Kind

theorem parse_unsigned_hyphen (cs : List Char) (h : v.toList = '-' :: cs) (x : UInt64) :
    unsigned.parse v ≠ .ok x := by
  have hnone : Numeral.unsigned? ('-' :: cs) = none := by
    change Numeral.natural? ('-' :: cs) = none
    simp [Numeral.natural?]
  rw [parse, h, hnone]
  rintro ⟨⟩

theorem parse_boolean_hyphen (cs : List Char) (h : v.toList = '-' :: cs) (x : Bool) :
    boolean.parse v ≠ .ok x := by
  intro hx
  change parseBoolean v = .ok x at hx
  unfold parseBoolean at hx
  split at hx
  · cases h
  · cases h
  · cases hx

theorem parse_choice_hyphen {α : Type} [Choice α] (cs : List Char) (h : v.toList = '-' :: cs)
    (htokens : ∀ t ∈ Choice.tokens α, t.toList.head? ≠ some '-') (x : α) :
    (choice α).parse v ≠ .ok x := by
  intro hx
  change parseChoice v = .ok x at hx
  unfold parseChoice at hx
  split at hx
  · rename_i a ha
    have hmem : Choice.token a ∈ Choice.tokens α :=
      List.mem_map_of_mem (List.mem_of_find?_eq_some ha)
    have hhead := htokens _ hmem
    rw [Choice.token_of_ofToken? ha, h] at hhead
    exact hhead rfl
  · cases hx

theorem toolPieces_hyphen {cs : List Char} (h : v.toList = '-' :: cs) :
    ∃ ds pieces, toolPieces v = String.ofList ('-' :: ds) :: pieces := by
  obtain ⟨piece, pieces, hsplit⟩ := List.exists_cons_of_ne_nil (List.splitOn_ne_nil ',' cs)
  obtain ⟨ds, hds⟩ := Text.trim_cons (c := '-') rfl piece
  have hpieces : v.toList.splitOn ',' = ('-' :: piece) :: pieces := by
    rw [h, List.splitOn_cons_eq_if_modifyHead, hsplit]
    rfl
  refine ⟨ds, ((pieces.map Text.trim).filter (· ≠ [])).map String.ofList, ?_⟩
  rw [toolPieces, hpieces, List.map_cons, hds, List.filter_cons_of_pos (by simp), List.map_cons]

theorem parse_tools_hyphen (cs : List Char) (h : v.toList = '-' :: cs) (ts : List Tool) :
    tools.parse v ≠ .ok ts := by
  obtain ⟨ds, pieces, hpieces⟩ := toolPieces_hyphen h
  intro hts
  change parseTools v = .ok ts at hts
  unfold parseTools at hts
  rw [hpieces] at hts
  dsimp only at hts
  rw [List.mapM_cons] at hts
  obtain ⟨t, ht, -⟩ := bind_eq_ok hts
  unfold parseTool at ht
  split at ht
  · rename_i tool htool
    have htoken := congrArg String.toList (Choice.token_of_ofToken? htool)
    rw [String.toList_ofList] at htoken
    cases tool <;> cases htoken
  · cases ht

end Kind

namespace CommandLine

/-- A flag with a value is accepted. -/
def FlagAccepts (k : Key) (v : String) : Prop :=
  ∃ i f o, Invocation.parse ["options", "--" ++ k.flag, v] = .ok i ∧ i.command = .options f ∧
    f.overrides = .ok o

/-- The command that stores a value takes a word as this value. -/
def SetTakes (k : Key) (v : String) : Prop :=
  ∃ i, Invocation.parse ["config", "set", k.name, v] = .ok i ∧
    i.command = .config (.set k.name v)

/-- A value is accepted by the command that stores it. -/
def SetAccepts (s : Settings) (k : Key) (v : String) : Prop :=
  ∃ i name raw t, Invocation.parse ["config", "set", k.name, v] = .ok i ∧
    i.command = .config (.set name raw) ∧ s.withValue name raw = .ok t

/-! The command that tells the options -/

def optionsSpec : CommandSpec := leaf "options" (Key.all.map flagOption) []

theorem matchWords_options (words : List String) :
    programSpec.matchWords .start ("options" :: words) =
      (optionsSpec.matchWords .start words).map (⟨"fmcli", [], []⟩ :: ·) := by
  have hsub : programSpec.subcommands.find? (·.name = "options") = some optionsSpec := rfl
  rw [CommandSpec.matchWords_subcommand rfl rfl hsub]
  cases optionsSpec.matchWords .start words <;> rfl

/-- What is known once a flag has been read, and its value perhaps. -/
def afterFlag (k : Key) (v? : Option String) : Progress :=
  ⟨[], [], some (flagOption k, v?), false⟩

theorem take_flag (k : Key) :
    optionsSpec.take .start ("--" ++ k.flag) = .ok (afterFlag k none) := by
  cases k <;> rfl

theorem matchWords_flag (k : Key) (v : String) :
    optionsSpec.matchWords .start ["--" ++ k.flag, v] =
      optionsSpec.matchWords (afterFlag k none) [v] := by
  rw [CommandSpec.matchWords_cons rfl, take_flag]
  rfl

theorem close_afterFlag (k : Key) (v : String) :
    optionsSpec.close (afterFlag k (some v)) false = .ok ⟨"options", [(k.flag, v)], []⟩ := by
  have hgive : Progress.give ⟨[], [], none, false⟩ (flagOption k) v =
      .ok ⟨[(k.flag, v)], [], none, false⟩ := by
    simp [Progress.give, flagOption]
  unfold CommandSpec.close
  change Progress.give ⟨[], [], none, false⟩ (flagOption k) v >>= _ = _
  rw [hgive]
  rfl

/-- The value of a flag is the next word, unless that starts with a hyphen and the flag takes no
such values. -/
theorem matchWords_afterFlag (h : (flagOption k).hyphenValue = true ∨ looksLikeOption v = false) :
    optionsSpec.matchWords (afterFlag k none) [v] = .ok [⟨"options", [(k.flag, v)], []⟩] := by
  have htake : optionsSpec.take (afterFlag k none) v = .ok (afterFlag k (some v)) := by
    rcases h with h | h
    · exact if_pos (Or.inr h)
    · rw [CommandSpec.take_of_not_looksLikeOption h]
      rfl
  rw [CommandSpec.matchWords_cons rfl, htake]
  change optionsSpec.matchWords (afterFlag k (some v)) [] = _
  rw [CommandSpec.matchWords, close_afterFlag]
  rfl

theorem find?_flag (k : Key) : Key.all.find? (·.flag == k.flag) = some k := by
  cases k <;> rfl

theorem flag_injective : Function.Injective Key.flag := by
  intro j k h
  have hfind := find?_flag j
  rw [h, find?_flag k] at hfind
  exact (Option.some.inj hfind).symm

theorem lookup_flag (k : Key) (v : String) :
    (⟨fun j => [(k.flag, v)].lookup j.flag⟩ : Flags) = .one k v := by
  refine congrArg Flags.mk (funext fun j => ?_)
  by_cases hj : j = k
  · subst hj
    simp
  · have hflag : (j.flag == k.flag) = false := beq_false_of_ne (flag_injective.ne hj)
    simp [List.lookup_cons, hflag, hj]

theorem exists_overrides_one (hk : k ≠ .language) :
    (∃ o, (Flags.one k v).overrides = .ok o) ↔ ∃ x, k.kind.parse v = .ok x := by
  rw [Flags.exists_overrides_iff]
  constructor
  · intro h
    exact h k hk v (if_pos rfl)
  · intro h j _ raw hraw
    obtain ⟨rfl, rfl⟩ : j = k ∧ v = raw := by simpa [Flags.one] using hraw
    exact h

/-- The command line takes the value of a flag. -/
theorem parse_flag (h : (flagOption k).hyphenValue = true ∨ looksLikeOption v = false) :
    ∃ i, Invocation.parse ["options", "--" ++ k.flag, v] = .ok i ∧
      i.command = .options (.one k v) := by
  unfold Invocation.parse
  rw [matchWords_options, matchWords_flag, matchWords_afterFlag h]
  refine ⟨_, rfl, ?_⟩
  exact congrArg Command.options (lookup_flag k v)

theorem parse_flag_of_looksLikeOption (hplain : (flagOption k).hyphenValue = false)
    (hword : looksLikeOption v = true) :
    ∃ e, Invocation.parse ["options", "--" ++ k.flag, v] = .error e := by
  obtain ⟨e, he⟩ : ∃ e, optionsSpec.matchWords (afterFlag k none) [v] = .error e :=
    CommandSpec.matchWords_of_awaiting rfl rfl rfl hplain rfl hword
  unfold Invocation.parse
  rw [matchWords_options, matchWords_flag, he]
  exact ⟨e, rfl⟩

/-- A flag is accepted if the command line takes its value and the value can be read. -/
theorem flagAccepts_iff_parse (hk : k ≠ .language) : FlagAccepts k v ↔
    ((flagOption k).hyphenValue = true ∨ looksLikeOption v = false) ∧
      ∃ x, k.kind.parse v = .ok x := by
  rw [← exists_overrides_one hk]
  by_cases htaken : (flagOption k).hyphenValue = true ∨ looksLikeOption v = false
  · obtain ⟨i, hi, hcommand⟩ := parse_flag htaken
    constructor
    · rintro ⟨i', f, o, hi', hf, ho⟩
      cases hi.symm.trans hi'
      cases hcommand.symm.trans hf
      exact ⟨htaken, o, ho⟩
    · rintro ⟨-, o, ho⟩
      exact ⟨i, _, o, hi, hcommand, ho⟩
  · obtain ⟨hplain, hword⟩ := not_or.mp htaken
    obtain ⟨e, he⟩ := parse_flag_of_looksLikeOption (by simpa using hplain) (by simpa using hword)
    constructor
    · rintro ⟨i, f, o, hi, -⟩
      cases he.symm.trans hi
    · rintro ⟨h, -⟩
      exact absurd h htaken

/-! The command that stores a value -/

def setSpec : CommandSpec := leaf "set" [] [⟨"key", true, false⟩, ⟨"value", true, true⟩]

theorem matchWords_set (words : List String) :
    programSpec.matchWords .start ("config" :: "set" :: words) =
      (setSpec.matchWords .start words).map (⟨"fmcli", [], []⟩ :: ⟨"config", [], []⟩ :: ·) := by
  have hconfig : programSpec.subcommands.find? (·.name = "config") = some configSpec := rfl
  have hset : configSpec.subcommands.find? (·.name = "set") = some setSpec := rfl
  rw [CommandSpec.matchWords_subcommand rfl rfl hconfig,
    CommandSpec.matchWords_subcommand rfl rfl hset]
  cases setSpec.matchWords .start words <;> rfl

/-- What is known once the name of the key has been read. -/
def afterKey (k : Key) : Progress := ⟨[], [k.name], none, false⟩

theorem looksLikeOption_name (k : Key) : looksLikeOption k.name = false := by
  cases k <;> rfl

theorem take_name (k : Key) : setSpec.take .start k.name = .ok (afterKey k) := by
  rw [CommandSpec.take_of_not_looksLikeOption (looksLikeOption_name k)]
  rfl

theorem matchWords_name (k : Key) (v : String) :
    setSpec.matchWords .start [k.name, v] = setSpec.matchWords (afterKey k) [v] := by
  rw [CommandSpec.matchWords_cons rfl, take_name]
  rfl

theorem matchWords_afterKey (h : setSpec.recognizes v = false) :
    setSpec.matchWords (afterKey k) [v] = .ok [⟨"set", [], [k.name, v]⟩] := by
  have htake : setSpec.take (afterKey k) v = .ok ⟨[], [k.name, v], none, false⟩ := by
    rw [CommandSpec.take_of_not_recognizes rfl rfl h]
    rfl
  rw [CommandSpec.matchWords_cons rfl, htake]
  rfl

/-- Without a value the command is incomplete. -/
theorem matchWords_afterKey_of_recognizes (h : setSpec.recognizes v = true) :
    ∃ e, setSpec.matchWords (afterKey k) [v] = .error e := by
  rw [CommandSpec.matchWords_cons rfl]
  cases htake : setSpec.take (afterKey k) v with
  | error e => exact ⟨e, rfl⟩
  | ok q =>
    have hpositionals : q.positionals = [k.name] :=
      CommandSpec.positionals_take_of_recognizes rfl h htake
    have hmissing : (setSpec.positionals.drop q.positionals.length).any (·.isRequired) = true := by
      rw [hpositionals]
      rfl
    obtain ⟨e, he⟩ := CommandSpec.close_of_missing hmissing false
    change ∃ e, setSpec.matchWords q [] = .error e
    rw [CommandSpec.matchWords, he]
    exact ⟨e, rfl⟩

/-- The command takes every word as the value that is not among its own options. -/
theorem parse_set (k : Key) (v : String) :
    if setSpec.recognizes v then ∃ e, Invocation.parse ["config", "set", k.name, v] = .error e
    else Invocation.parse ["config", "set", k.name, v] =
      .ok ⟨.config (.set k.name v), none, false⟩ := by
  unfold Invocation.parse
  rw [matchWords_set, matchWords_name]
  split
  · rename_i h
    obtain ⟨e, he⟩ := matchWords_afterKey_of_recognizes (k := k) h
    rw [he]
    exact ⟨e, rfl⟩
  · rename_i h
    rw [matchWords_afterKey (by simpa using h)]
    rfl

theorem setTakes_iff : SetTakes k v ↔ setSpec.recognizes v = false := by
  have hparse := parse_set k v
  unfold SetTakes
  cases h : setSpec.recognizes v with
  | false =>
    rw [h, if_neg Bool.false_ne_true] at hparse
    simp [hparse]
  | true =>
    rw [h, if_pos rfl] at hparse
    obtain ⟨e, he⟩ := hparse
    simp [he]

/-- A stored value is accepted if the command line takes it and it can be read. -/
theorem setAccepts_iff_parse (s : Settings) (hv : SetTakes k v) :
    SetAccepts s k v ↔ ∃ x, k.kind.parse v = .ok x := by
  obtain ⟨i, hi, hcommand⟩ := hv
  constructor
  · rintro ⟨i', name, raw, t, hi', hset, ht⟩
    cases hi.symm.trans hi'
    cases hcommand.symm.trans hset
    rw [Settings.withValue_name, Settings.assign_eq_ok_iff] at ht
    obtain ⟨x, hx, -⟩ := ht
    exact ⟨x, hx⟩
  · rintro ⟨x, hx⟩
    refine ⟨i, k.name, v, s.set k (some x), hi, hcommand, ?_⟩
    rw [Settings.withValue_name, Settings.assign_eq_ok_iff]
    exact ⟨x, hx, rfl⟩

/-- The keys of which some values start with a hyphen although their flags take no such words. -/
def narrowKeys : List Key := [.adapter, .maxTokens, .samplingTop]

/-- Values start with a hyphen for few keys only. -/
theorem hyphen_of_parse {x : k.Value} (h : k.kind.parse v = .ok x)
    (hword : looksLikeOption v = true) (hk : k ≠ .language) :
    (flagOption k).hyphenValue = true ∨ k ∈ narrowKeys := by
  obtain ⟨c, cs, hv⟩ := looksLikeOption_iff.mp hword
  cases k with
  | adapter | maxTokens | samplingTop => exact .inr (by decide)
  | temperature | samplingThreshold | instructions => exact .inl rfl
  | language => exact absurd rfl hk
  | logEnabled | rawJson | stream => exact absurd h (Kind.parse_boolean_hyphen _ hv x)
  | samplingSeed => exact absurd h (Kind.parse_unsigned_hyphen _ hv x)
  | tools => exact absurd h (Kind.parse_tools_hyphen _ hv x)
  | format | guardrails | sampling | toolApproval =>
    exact absurd h (Kind.parse_choice_hyphen _ hv (by decide) x)

/-- Of the words that the command line takes as a value to store, a flag accepts those that are
accepted to be stored, except that a few flags take no words that start with a hyphen. -/
theorem flagAccepts_iff (hk : k ≠ .language) (hv : SetTakes k v) (s : Settings) :
    FlagAccepts k v ↔ SetAccepts s k v ∧ (k ∈ narrowKeys → looksLikeOption v = false) := by
  rw [flagAccepts_iff_parse hk, setAccepts_iff_parse s hv]
  constructor
  · rintro ⟨htakes, hx⟩
    refine ⟨hx, fun hnarrow => htakes.resolve_left ?_⟩
    revert hnarrow
    cases k <;> decide
  · rintro ⟨⟨x, hx⟩, hplain⟩
    refine ⟨?_, x, hx⟩
    cases hword : looksLikeOption v with
    | false => exact .inr rfl
    | true =>
      refine (hyphen_of_parse hx hword hk).imp_right fun hnarrow => ?_
      rw [← hword]
      exact hplain hnarrow

/-- A number with a minus sign, and a flag that takes it. -/
theorem flagAccepts_iff_temperature :
    Key.temperature ≠ .language ∧ SetTakes .temperature "-0.0" ∧
      SetAccepts .empty .temperature "-0.0" ∧ FlagAccepts .temperature "-0.0" := by
  have htakes : SetTakes .temperature "-0.0" := setTakes_iff.mpr (by decide +kernel)
  have hset : SetAccepts .empty .temperature "-0.0" := by
    have hread : (Key.temperature.kind.parse "-0.0").toBool = true := by decide +kernel
    rw [setAccepts_iff_parse .empty htakes]
    cases hparse : Key.temperature.kind.parse "-0.0" with
    | ok x => exact ⟨x, rfl⟩
    | error r =>
      rw [hparse] at hread
      cases hread
  have hkey : Key.temperature ≠ .language := by decide
  refine ⟨hkey, htakes, hset, (flagAccepts_iff hkey htakes .empty).mpr ⟨hset, ?_⟩⟩
  exact fun hnarrow => absurd hnarrow (by decide)

/-- A negative number is stored, but its flag does not take it. -/
theorem not_flagAccepts_maxTokens :
    SetTakes .maxTokens "-5" ∧ SetAccepts .empty .maxTokens "-5" ∧ ¬ FlagAccepts .maxTokens "-5" ∧
      ¬ ∀ k v s, k ≠ .language → SetTakes k v → (FlagAccepts k v ↔ SetAccepts s k v) := by
  have htakes : SetTakes .maxTokens "-5" := setTakes_iff.mpr (by decide +kernel)
  have hset : SetAccepts .empty .maxTokens "-5" :=
    (setAccepts_iff_parse .empty htakes).mpr ⟨_, rfl⟩
  have hflag : ¬ FlagAccepts .maxTokens "-5" := by
    rw [flagAccepts_iff_parse (by decide)]
    rintro ⟨htaken, -⟩
    revert htaken
    decide
  refine ⟨htakes, hset, hflag, fun hall => hflag ?_⟩
  exact (hall .maxTokens "-5" .empty (by decide) htakes).mpr hset

end CommandLine

end Generation
