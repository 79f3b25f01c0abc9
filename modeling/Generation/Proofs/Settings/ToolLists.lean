import Generation.Proofs.Settings.Codec
import Generation.Proofs.Settings.Edits
import Generation.Proofs.Text.Pieces
import Mathlib.Data.List.Forall2

/-!
Lists of tools as users type them: pieces between commas, each of which has to be a token. The first
piece that is none is named when a list is refused.
-/
namespace Generation

open Text (Trims trims_iff)

variable {raw piece : String} {pieces after : List String} {ts : List Tool}

/-- The pieces of a text between commas, without the blanks around each; empty ones do not count. -/
def IsPieces (raw : String) (pieces : List String) : Prop :=
  ∃ between trimmed : List (List Char), between ≠ [] ∧ raw.toList = [','].intercalate between ∧
    (∀ piece ∈ between, ',' ∉ piece) ∧ List.Forall₂ Trims between trimmed ∧
    pieces = (trimmed.filter (· ≠ [])).map String.ofList

theorem isPieces_iff : IsPieces raw pieces ↔ pieces = toolPieces raw := by
  have htrimmed (between trimmed : List (List Char)) :
      List.Forall₂ Trims between trimmed ↔ between.map Text.trim = trimmed := by
    induction between generalizing trimmed with
    | nil => simp [eq_comm]
    | cons cs between ih => cases trimmed <;> simp [ih, trims_iff]
  constructor
  · rintro ⟨between, trimmed, hne, hraw, hcomma, hforall, rfl⟩
    rw [toolPieces, Text.splitOn_eq_iff.mpr ⟨hne, hraw, hcomma⟩, (htrimmed _ _).mp hforall]
  · rintro rfl
    obtain ⟨hne, hraw, hcomma⟩ := Text.splitOn_eq_iff.mp (rfl : raw.toList.splitOn ',' = _)
    exact ⟨_, _, hne, hraw, hcomma, (htrimmed _ _).mpr rfl, rfl⟩

theorem mem_tokens_iff {α : Type} [Choice α] :
    piece ∈ Choice.tokens α ↔ ∃ a : α, Choice.token a = piece := by
  constructor
  · intro h
    obtain ⟨a, -, ha⟩ := List.mem_map.mp h
    exact ⟨a, ha⟩
  · rintro ⟨a, rfl⟩
    exact List.mem_map.mpr ⟨a, List.mem_of_find?_eq_some (Choice.find_token a), rfl⟩

theorem token_injective {α : Type} [Choice α] :
    Function.Injective (Choice.token : α → String) := by
  intro a b h
  have hread := congrArg (Choice.ofToken? (α := α)) h
  simpa using hread

/-- Pieces that are all tokens are those of some tools. -/
theorem exists_tools : (∀ piece ∈ pieces, piece ∈ Choice.tokens Tool) ↔
    ∃ ts : List Tool, pieces = ts.map Choice.token := by
  constructor
  · intro h
    induction pieces with
    | nil => exact ⟨[], rfl⟩
    | cons piece pieces ih =>
      obtain ⟨t, rfl⟩ := mem_tokens_iff.mp (h piece List.mem_cons_self)
      obtain ⟨ts, rfl⟩ := ih fun piece hm => h piece (List.mem_cons_of_mem _ hm)
      exact ⟨t :: ts, rfl⟩
  · rintro ⟨ts, rfl⟩ piece hm
    obtain ⟨t, -, rfl⟩ := List.mem_map.mp hm
    exact mem_tokens_iff.mpr ⟨t, rfl⟩

/-- Pieces are those of some tools, or there is a first one that is no token. -/
theorem tools_or_split (pieces : List String) :
    (∃ ts : List Tool, pieces = ts.map Choice.token) ∨
      ∃ (ts : List Tool) (piece : String) (after : List String),
        pieces = ts.map Choice.token ++ piece :: after ∧ piece ∉ Choice.tokens Tool := by
  induction pieces with
  | nil => exact Or.inl ⟨[], rfl⟩
  | cons piece pieces ih =>
    by_cases hpiece : piece ∈ Choice.tokens Tool
    · obtain ⟨t, rfl⟩ := mem_tokens_iff.mp hpiece
      rcases ih with ⟨ts, rfl⟩ | ⟨ts, other, after, rfl, hother⟩
      · exact Or.inl ⟨t :: ts, rfl⟩
      · exact Or.inr ⟨t :: ts, other, after, rfl, hother⟩
    · exact Or.inr ⟨[], piece, pieces, rfl, hpiece⟩

theorem parseTool_of_notMem (h : piece ∉ Choice.tokens Tool) :
    parseTool piece = .error (.notTool piece) := by
  unfold parseTool
  split
  case h_1 t ht => exact absurd (mem_tokens_iff.mpr ⟨t, Choice.token_of_ofToken? ht⟩) h
  case h_2 => rfl

/-! What a text is read as, by its pieces -/

theorem parseTools_of_nil (h : toolPieces raw = []) : parseTools raw = .error .noTools := by
  rw [parseTools, h]

theorem parseTools_of_ne_nil (h : toolPieces raw ≠ []) :
    parseTools raw = (toolPieces raw).mapM parseTool := by
  obtain ⟨piece, pieces, hpieces⟩ := List.exists_cons_of_ne_nil h
  rw [parseTools, hpieces]

theorem parseTools_of_tools (h : toolPieces raw = ts.map Choice.token) (hne : ts ≠ []) :
    parseTools raw = .ok ts := by
  rw [parseTools_of_ne_nil (by simpa [h] using hne), h, Kind.mapM_parseTool]

theorem parseTools_of_split (h : toolPieces raw = ts.map Choice.token ++ piece :: after)
    (hpiece : piece ∉ Choice.tokens Tool) : parseTools raw = .error (.notTool piece) := by
  rw [parseTools_of_ne_nil (by simp [h]), h, List.mapM_append, Kind.mapM_parseTool,
    List.mapM_cons, parseTool_of_notMem hpiece]
  rfl

/-! What is said of a list that is refused -/

theorem intercalate_tokens : ", ".intercalate (Choice.tokens Tool) = "shell, file-read" := rfl

theorem message_noTools : (SettingError.invalidValue .tools .noTools).message =
    "Invalid value for tools: tool list is empty. Valid tools: shell, file-read" := by
  rfl

theorem message_notTool (piece : String) :
    (SettingError.invalidValue .tools (.notTool piece)).message =
      "Invalid value for tools: '" ++ piece ++
        "' is not a valid tool. Valid tools: shell, file-read" := by
  have hstart : "Invalid value for " ++ "tools" ++ ": " ++ "'" = "Invalid value for tools: '" := rfl
  have hend : "' is not a valid tool. Valid tools: " ++ "shell, file-read" =
      "' is not a valid tool. Valid tools: shell, file-read" := rfl
  change "Invalid value for " ++ "tools" ++ ": " ++ ("'" ++ piece ++
    "' is not a valid tool. Valid tools: " ++ ", ".intercalate (Choice.tokens Tool)) = _
  rw [intercalate_tokens, ← hstart, ← hend]
  simp only [String.append_assoc]

namespace Settings

theorem make_tools_of_ok (h : parseTools raw = .ok ts) (s : Settings) :
    (Edit.assign "tools" raw).make s = (.ok (), s.set .tools (some ts)) :=
  Edit.make_assign_of_ok (k := .tools) h s

theorem make_tools_of_error {r : Rejection} (h : parseTools raw = .error r) (s : Settings) :
    (Edit.assign "tools" raw).make s = (.error (.invalidValue .tools r), s) :=
  Edit.make_assign_of_error (k := .tools) h s

/-- Some pieces, and tokens only, are what it takes. -/
theorem make_tools_accepted_iff (s : Settings) (raw : String) :
    ((Edit.assign "tools" raw).make s).1 = .ok () ↔
      toolPieces raw ≠ [] ∧ ∀ piece ∈ toolPieces raw, piece ∈ Choice.tokens Tool := by
  by_cases hempty : toolPieces raw = []
  · rw [make_tools_of_error (parseTools_of_nil hempty)]
    simp [hempty]
  · rcases tools_or_split (toolPieces raw) with ⟨ts, hts⟩ | ⟨ts, piece, after, hsplit, hpiece⟩
    · rw [make_tools_of_ok (parseTools_of_tools hts (by simpa [hts] using hempty))]
      exact ⟨fun _ => ⟨hempty, exists_tools.mpr ⟨ts, hts⟩⟩, fun _ => rfl⟩
    · rw [make_tools_of_error (parseTools_of_split hsplit hpiece)]
      have hmem : piece ∈ toolPieces raw := by simp [hsplit]
      simp only [reduceCtorEq, false_iff]
      rintro ⟨-, hall⟩
      exact hpiece (hall piece hmem)

/-- How settings take a text for the list of tools, by its pieces. -/
structure TakesTools (s : Settings) (raw : String) (pieces : List String) : Prop where
  accepted : ((Edit.assign "tools" raw).make s).1 = .ok () ↔
    pieces ≠ [] ∧ ∀ piece ∈ pieces, piece ∈ Choice.tokens Tool
  /-- The tools are those of the pieces, one by one. -/
  stored : ((Edit.assign "tools" raw).make s).1 = .ok () →
    ∃ ts : List Tool, pieces = ts.map Choice.token ∧
      (Edit.assign "tools" raw).make s = (.ok (), s.set .tools (some ts)) ∧
      (s.set .tools (some ts)).value? "tools" = some (",".intercalate pieces)
  empty : pieces = [] →
    ∃ e, (Edit.assign "tools" raw).make s = (.error e, s) ∧
      e.message = "Invalid value for tools: tool list is empty. Valid tools: shell, file-read"
  /-- The first piece that is no token is named. -/
  named : ∀ before piece after, pieces = before ++ piece :: after →
    (∀ token ∈ before, token ∈ Choice.tokens Tool) → piece ∉ Choice.tokens Tool →
    ∃ e, (Edit.assign "tools" raw).make s = (.error e, s) ∧
      e.message = "Invalid value for tools: '" ++ piece ++
        "' is not a valid tool. Valid tools: shell, file-read"

theorem takesTools (s : Settings) (raw : String) : s.TakesTools raw (toolPieces raw) := by
  constructor
  · exact make_tools_accepted_iff s raw
  · intro haccepted
    obtain ⟨hne, htokens⟩ := (make_tools_accepted_iff s raw).mp haccepted
    obtain ⟨ts, hts⟩ := exists_tools.mp htokens
    have hparse := parseTools_of_tools hts (by simpa [hts] using hne)
    refine ⟨ts, hts, make_tools_of_ok hparse s, ?_⟩
    rw [hts]
    exact value?_set_self s .tools (some ts)
  · exact fun hempty => ⟨_, make_tools_of_error (parseTools_of_nil hempty) s, message_noTools⟩
  · intro before piece after hsplit hbefore hpiece
    obtain ⟨ts, rfl⟩ := exists_tools.mp hbefore
    exact ⟨_, make_tools_of_error (parseTools_of_split hsplit hpiece) s, message_notTool piece⟩

/-- A text for the list of tools is taken by its pieces alone, and a list of tools is what its own
text is read as. -/
theorem tools_taken (s : Settings) :
    (∀ raw, ∃ pieces, (∀ others, IsPieces raw others ↔ others = pieces) ∧
      s.TakesTools raw pieces) ∧
    ∀ ts : List Tool, ts ≠ [] → Kind.tools.parse (Kind.tools.render ts) = .ok ts := by
  constructor
  · exact fun raw => ⟨toolPieces raw, fun others => isPieces_iff, s.takesTools raw⟩
  · intro ts hne
    rw [Kind.parse_render_tools, if_pos (by simpa [Kind.accepts] using hne)]

/-- Blanks of any script, an empty piece and a repetition; then a piece in capitals before one that
is no token either. -/
theorem tools_taken_blanks :
    let s := empty.set .tools (some [.fileRead])
    (Edit.assign "tools" " shell,, file-read\u3000,shell").make s =
        (.ok (), s.set .tools (some [.shell, .fileRead, .shell])) ∧
      (∃ e, (Edit.assign "tools" "shell,\tShell ,bash").make s = (.error e, s) ∧
        e.message = "Invalid value for tools: 'Shell' is not a valid tool. " ++
          "Valid tools: shell, file-read") ∧
      Kind.tools.parse (Kind.tools.render [.shell, .shell]) = .ok [.shell, .shell] := by
  intro s
  obtain ⟨hraw, hback⟩ := tools_taken s
  refine ⟨?_, ?_, hback _ (List.cons_ne_nil _ _)⟩
  · obtain ⟨pieces, hpieces, htaken⟩ := hraw " shell,, file-read\u3000,shell"
    obtain rfl := (hpieces ["shell", "file-read", "shell"]).mp
      (isPieces_iff.mpr (by decide +kernel))
    obtain ⟨ts, hts, hmake, -⟩ := htaken.stored (htaken.accepted.mpr ⟨by decide, by decide⟩)
    have htokens : [Tool.shell, .fileRead, .shell].map Choice.token = ts.map Choice.token := hts
    obtain rfl := List.map_injective_iff.mpr token_injective htokens
    exact hmake
  · obtain ⟨pieces, hpieces, htaken⟩ := hraw "shell,\tShell ,bash"
    obtain rfl := (hpieces ["shell", "Shell", "bash"]).mp (isPieces_iff.mpr (by decide +kernel))
    exact htaken.named ["shell"] "Shell" ["bash"] rfl (by decide) (by decide)

end Settings

end Generation
