import Generation.CommandLine.Invocation
import Generation.Proofs.Except

/-!
Words that start with a hyphen: what they are where an option waits for its value, and where the
next positional argument takes hyphens.
-/
namespace Generation.CommandLine

/-- A hyphen with something behind it. -/
def looksLikeOption (word : String) : Bool :=
  match word.toList with
  | '-' :: _ :: _ => true
  | _ => false

theorem looksLikeOption_iff {word : String} :
    looksLikeOption word ↔ ∃ c cs, word.toList = '-' :: c :: cs := by
  unfold looksLikeOption
  split
  · rename_i c cs h
    simp [h]
  · rename_i h
    simpa using h

theorem toList_ne_of_not_looksLikeOption {word : String} (h : looksLikeOption word = false)
    (c : Char) (cs : List Char) : word.toList ≠ '-' :: c :: cs := by
  intro hword
  rw [looksLikeOption_iff.mpr ⟨c, cs, hword⟩] at h
  cases h

theorem word_cases (word : String) :
    looksLikeOption word = false ∨ word.toList = ['-', '-'] ∨
      (∃ c body, word.toList = '-' :: '-' :: c :: body) ∨
        ∃ l letters, l ≠ '-' ∧ word.toList = '-' :: l :: letters := by
  cases hword : looksLikeOption word with
  | false => exact .inl rfl
  | true =>
    obtain ⟨l, letters, hletters⟩ := looksLikeOption_iff.mp hword
    by_cases hl : l = '-'
    · subst hl
      cases letters with
      | nil => exact .inr (.inl hletters)
      | cons c body => exact .inr (.inr (.inl ⟨c, body, hletters⟩))
    · exact .inr (.inr (.inr ⟨l, letters, hl, hletters⟩))

variable {p q : Progress} {o : OptionSpec} {value word : String}

namespace Progress

/-- Whether a hyphen at the start of the next word may make it an option. -/
def seeksOptions (p : Progress) : Bool := !p.trailing && !p.awaiting?.any (·.hyphenValue)

theorem settle_of_awaiting (h : p.pending = some (o, none)) : p.settle = .error .invalidValue := by
  unfold settle
  rw [h]

theorem meet_of_awaiting (h : p.pending = some (o, none)) (o' : OptionSpec) :
    p.meet o' value = .error .invalidValue := by
  unfold meet
  rw [settle_of_awaiting h]
  rfl

/-! Options leave the positional arguments as they are. -/

theorem positionals_give (h : p.give o value = .ok q) : q.positionals = p.positionals := by
  unfold give at h
  split at h
  · cases h
  · split at h
    · cases h
    · cases h
      rfl

theorem positionals_settle (h : p.settle = .ok q) : q.positionals = p.positionals := by
  unfold settle at h
  split at h
  · cases h
    rfl
  · cases h
  · rw [positionals_give h]

theorem positionals_meet (h : p.meet o value = .ok q) : q.positionals = p.positionals := by
  obtain ⟨r, hr, h⟩ := bind_eq_ok h
  rw [← positionals_settle hr]
  split at h
  · cases h
  · cases h
  · exact positionals_give h

end Progress

namespace CommandSpec

variable {c sub : CommandSpec} {rest : List String}

theorem close_of_missing
    (h : (c.positionals.drop p.positionals.length).any (·.isRequired) = true)
    (hasSubcommand : Bool) :
    ∃ e, c.close p hasSubcommand = .error e := by
  unfold close
  cases hsettle : p.settle with
  | error e => exact ⟨e, rfl⟩
  | ok q =>
    rw [← Progress.positionals_settle hsettle] at h
    dsimp only [bind, Except.bind]
    rw [if_pos h]
    split
    · exact ⟨_, rfl⟩
    · exact ⟨_, rfl⟩

theorem matchWords_subcommand (hpending : p.pending = none) (htrailing : p.trailing = false)
    (hsub : c.subcommands.find? (·.name = word) = some sub) :
    c.matchWords p (word :: rest) =
      sub.matchWords .start rest >>= fun levels => (c.close p true).map (· :: levels) := by
  have hword : c.hasSubcommand word = true := by
    have hmem : sub ∈ c.subcommands := List.mem_of_find?_eq_some hsub
    have hname : sub.name = word := by simpa using List.find?_some hsub
    simpa [hasSubcommand] using .inl ⟨sub, hmem, hname⟩
  have hawaits : p.awaiting? = none := by
    unfold Progress.awaiting?
    rw [hpending]
  rw [matchWords, if_pos (by simp [htrailing, hawaits, hword]), hsub]
  dsimp only
  cases sub.matchWords .start rest <;> rfl

/-- A command without subcommands takes every word itself. -/
theorem matchWords_cons (h : c.subcommands = []) :
    c.matchWords p (word :: rest) = c.take p word >>= fun q => c.matchWords q rest := by
  rw [matchWords, if_neg (by simp [hasSubcommand, h])]
  cases c.take p word <;> rfl

/-! What is done with a word, by how it starts -/

theorem take_of_not_looksLikeOption (h : looksLikeOption word = false) :
    c.take p word = c.takeWord p word := by
  unfold take
  split
  · rfl
  · split
    case h_4 => rfl
    all_goals
      rename_i hword
      exact absurd hword (toList_ne_of_not_looksLikeOption h _ _)

theorem take_of_seeksOptions (h : p.seeksOptions = true) : c.take p word =
    match word.toList with
    | ['-', '-'] => .ok { p with trailing := true }
    | '-' :: '-' :: body => c.takeLong p word body
    | '-' :: l :: letters => c.takeShort p word (l :: letters)
    | _ => c.takeWord p word := by
  have hseeks : p.trailing = false ∧ p.awaiting?.any (·.hyphenValue) = false := by
    simpa [Progress.seeksOptions] using h
  exact if_neg (by simp [hseeks])

theorem take_hyphens (h : p.seeksOptions = true) (hword : word.toList = ['-', '-']) :
    c.take p word = .ok { p with trailing := true } := by
  rw [take_of_seeksOptions h, hword]
  rfl

theorem take_long {l : Char} {body : List Char} (h : p.seeksOptions = true)
    (hword : word.toList = '-' :: '-' :: l :: body) :
    c.take p word = c.takeLong p word (l :: body) := by
  rw [take_of_seeksOptions h, hword]
  rfl

theorem take_short {l : Char} {letters : List Char} (h : p.seeksOptions = true) (hl : l ≠ '-')
    (hword : word.toList = '-' :: l :: letters) :
    c.take p word = c.takeShort p word (l :: letters) := by
  rw [take_of_seeksOptions h, hword]
  simp [hl]

/-- What a known name does: it is met with a value of its own word or without one, it waits for the
next word, or it has a value that it does not take. -/
theorem takeLong_cases (p : Progress) (word : String) {body : List Char}
    (h : c.options.find? (·.long = String.ofList (body.takeWhile (· ≠ '='))) = some o) :
    (∃ value, c.takeLong p word body = p.meet o value) ∨
      (c.takeLong p word body = p.settle >>= fun q => .ok { q with pending := some (o, none) }) ∨
        c.takeLong p word body = .error .unneededValue := by
  unfold takeLong
  dsimp only
  rw [h]
  dsimp only
  split
  · exact .inl ⟨_, rfl⟩
  · exact .inr (.inl rfl)
  · exact .inr (.inr rfl)
  · exact .inl ⟨_, rfl⟩

theorem any_isNone_shortOption? (letters : List Char) :
    letters.any (fun letter => (c.shortOption? letter).isNone) =
      !letters.all fun letter => (c.shortOption? letter).isSome := by
  simp [List.any_eq_not_all_not]

/-- Whether a word is read as options of a command, or as the end of them. -/
def recognizes (c : CommandSpec) (word : String) : Bool :=
  match word.toList with
  | ['-', '-'] => true
  | '-' :: '-' :: body => c.options.any (·.long = String.ofList (body.takeWhile (· ≠ '=')))
  | '-' :: l :: letters => (l :: letters).all fun letter => (c.shortOption? letter).isSome
  | _ => false

theorem recognizes_of_not_looksLikeOption (h : looksLikeOption word = false) :
    c.recognizes word = false := by
  unfold recognizes
  split
  case h_4 => rfl
  all_goals
    rename_i hword
    exact absurd hword (toList_ne_of_not_looksLikeOption h _ _)

theorem recognizes_long {l : Char} {body : List Char}
    (hword : word.toList = '-' :: '-' :: l :: body) : c.recognizes word =
      c.options.any (·.long = String.ofList ((l :: body).takeWhile (· ≠ '='))) := by
  unfold recognizes
  rw [hword]
  rfl

theorem recognizes_short {l : Char} {letters : List Char} (hl : l ≠ '-')
    (hword : word.toList = '-' :: l :: letters) :
    c.recognizes word = (l :: letters).all fun letter => (c.shortOption? letter).isSome := by
  unfold recognizes
  rw [hword]
  simp [hl]

/-- A word that is none of the options is the next positional argument, if that takes hyphens. -/
theorem take_of_not_recognizes (hseeks : p.seeksOptions = true)
    (hnext : c.nextTakesHyphens p = true) (h : c.recognizes word = false) :
    c.take p word = c.takeWord p word := by
  rcases word_cases word with hword | hword | ⟨l, body, hword⟩ | ⟨l, letters, hl, hword⟩
  · exact take_of_not_looksLikeOption hword
  · unfold recognizes at h
    rw [hword] at h
    cases h
  · have hfind : c.options.find? (·.long = String.ofList ((l :: body).takeWhile (· ≠ '='))) =
        none := by
      rw [recognizes_long hword] at h
      simpa using h
    rw [take_long hseeks hword, takeLong, hfind]
    exact if_pos hnext
  · have hunknown : (l :: letters).any (fun letter => (c.shortOption? letter).isNone) = true := by
      rw [any_isNone_shortOption?, ← recognizes_short hl hword, h]
      rfl
    rw [take_short hseeks hl hword, takeShort, if_pos ⟨hnext, hunknown⟩]

theorem positionals_takeLong {body : List Char}
    (h : c.options.any (·.long = String.ofList (body.takeWhile (· ≠ '='))) = true)
    (htake : c.takeLong p word body = .ok q) : q.positionals = p.positionals := by
  obtain ⟨o, ho⟩ := Option.isSome_iff_exists.mp (List.find?_isSome.mpr (List.any_eq_true.mp h))
  rcases takeLong_cases p word ho with ⟨value, hlong⟩ | hlong | hlong
  · rw [hlong] at htake
    exact Progress.positionals_meet htake
  · rw [hlong] at htake
    obtain ⟨r, hr, htake⟩ := bind_eq_ok htake
    rw [← Progress.positionals_settle hr]
    cases htake
    rfl
  · rw [hlong] at htake
    cases htake

theorem positionals_takeShort {letters : List Char}
    (h : letters.all (fun letter => (c.shortOption? letter).isSome) = true)
    (htake : c.takeShort p word letters = .ok q) : q.positionals = p.positionals := by
  have hknown : ¬(c.nextTakesHyphens p = true ∧
      letters.any (fun letter => (c.shortOption? letter).isNone) = true) := by
    rw [any_isNone_shortOption?, h]
    simp
  rw [takeShort, if_neg hknown] at htake
  clear h hknown
  induction letters generalizing p with
  | nil =>
    cases htake
    rfl
  | cons letter letters ih =>
    obtain ⟨r, hr, htake⟩ := bind_eq_ok htake
    rw [ih htake]
    dsimp only at hr
    split at hr
    · exact Progress.positionals_meet hr
    · cases hr

/-- A word that is among the options gives no positional argument. -/
theorem positionals_take_of_recognizes (hseeks : p.seeksOptions = true)
    (h : c.recognizes word = true) (htake : c.take p word = .ok q) :
    q.positionals = p.positionals := by
  rcases word_cases word with hword | hword | ⟨l, body, hword⟩ | ⟨l, letters, hl, hword⟩
  · rw [recognizes_of_not_looksLikeOption hword] at h
    cases h
  · rw [take_hyphens hseeks hword] at htake
    cases htake
    rfl
  · rw [recognizes_long hword] at h
    rw [take_long hseeks hword] at htake
    exact positionals_takeLong h htake
  · rw [recognizes_short hl hword] at h
    rw [take_short hseeks hl hword] at htake
    exact positionals_takeShort h htake

/-! Where an option waits for a value -/

theorem takeLong_of_awaiting {body : List Char} (hpending : p.pending = some (o, none))
    (hnext : c.nextTakesHyphens p = false) : ∃ e, c.takeLong p word body = .error e := by
  cases hfind : c.options.find? (·.long = String.ofList (body.takeWhile (· ≠ '='))) with
  | none =>
    refine ⟨.unknownArgument, ?_⟩
    unfold takeLong
    dsimp only
    rw [hfind]
    exact if_neg (by simp [hnext])
  | some o' =>
    rcases takeLong_cases p word hfind with ⟨value, hlong⟩ | hlong | hlong
    · exact ⟨_, hlong.trans (Progress.meet_of_awaiting hpending o')⟩
    · rw [hlong, Progress.settle_of_awaiting hpending]
      exact ⟨_, rfl⟩
    · exact ⟨_, hlong⟩

theorem takeShort_of_awaiting {l : Char} {letters : List Char}
    (hpending : p.pending = some (o, none)) (hnext : c.nextTakesHyphens p = false) :
    ∃ e, c.takeShort p word (l :: letters) = .error e := by
  rw [takeShort, if_neg (by simp [hnext]), List.foldlM_cons]
  cases c.shortOption? l with
  | none => exact ⟨_, rfl⟩
  | some o' =>
    dsimp only
    rw [Progress.meet_of_awaiting hpending o']
    exact ⟨_, rfl⟩

/-- Behind the end of the options no value is met any more. -/
theorem matchWords_of_awaiting_trailing (hsub : c.subcommands = [])
    (hpending : p.pending = some (o, none)) (htrailing : p.trailing = true) :
    ∃ e, c.matchWords p rest = .error e := by
  have hsettle : p.settle = .error .invalidValue := Progress.settle_of_awaiting hpending
  cases rest with
  | nil =>
    rw [matchWords, close, hsettle]
    exact ⟨_, rfl⟩
  | cons word rest =>
    have htake : ∃ e, c.take p word = .error e := by
      rw [take, if_pos (Or.inl htrailing), takeWord, if_pos htrailing]
      dsimp only
      split
      · rw [hsettle]
        exact ⟨_, rfl⟩
      · rw [if_neg (by simp [hasSubcommand, hsub]), if_pos (by simp [hsub])]
        exact ⟨_, rfl⟩
    obtain ⟨e, he⟩ := htake
    rw [matchWords_cons hsub, he]
    exact ⟨e, rfl⟩

/-- A value that starts with a hyphen is a fault if the option takes none: the word is an option
itself, or the end of the options, and the value is missing. -/
theorem matchWords_of_awaiting (hsub : c.subcommands = []) (hpending : p.pending = some (o, none))
    (htrailing : p.trailing = false) (hplain : o.hyphenValue = false)
    (hnext : c.nextTakesHyphens p = false) (hword : looksLikeOption word = true) :
    ∃ e, c.matchWords p (word :: rest) = .error e := by
  have hseeks : p.seeksOptions = true := by
    simp [Progress.seeksOptions, Progress.awaiting?, htrailing, hpending, hplain]
  have hfault : (∃ e, c.take p word = .error e) →
      ∃ e, c.matchWords p (word :: rest) = .error e := by
    rintro ⟨e, he⟩
    rw [matchWords_cons hsub, he]
    exact ⟨e, rfl⟩
  rcases word_cases word with hnone | hhyphens | ⟨l, body, hlong⟩ | ⟨l, letters, hl, hshort⟩
  · rw [hnone] at hword
    cases hword
  · rw [matchWords_cons hsub, take_hyphens hseeks hhyphens]
    exact matchWords_of_awaiting_trailing hsub hpending rfl
  · rw [take_long hseeks hlong] at hfault
    exact hfault (takeLong_of_awaiting hpending hnext)
  · rw [take_short hseeks hl hshort] at hfault
    exact hfault (takeShort_of_awaiting hpending hnext)

end CommandSpec

end Generation.CommandLine
