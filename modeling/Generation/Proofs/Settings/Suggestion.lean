import Generation.Proofs.Settings.Lenient
import Generation.Proofs.Text.EditDistance

/-!
What is said about a name that is no key: the nearest key is proposed, or all keys are listed where
none is near.
-/
namespace Generation

open Text (Edits IsNearest Within closest?_eq_none_iff closest?_eq_some_iff)

variable {name key : String}

namespace Key

/-- The alphabetically first of the keys that are nearest to a name, if these are near enough. -/
def IsProposed (name : String) (k : Key) : Prop :=
  ∃ n ≤ 3, Edits n name.toList k.name.toList ∧
    (∀ (j : Key) m, Edits m name.toList j.name.toList → n ≤ m) ∧
    ∀ j : Key, Edits n name.toList j.name.toList → k.name ≤ j.name

theorem forall_mem_names {motive : String → Prop} :
    (∀ n ∈ names, motive n) ↔ ∀ k : Key, motive k.name := by
  simp only [names, List.forall_mem_map]
  exact ⟨fun h k => h k (mem_all k), fun h k _ => h k⟩

theorem suggestion?_eq_none_iff :
    suggestion? name = none ↔ ∀ k : Key, ¬ Within 3 name k.name := by
  rw [suggestion?, closest?_eq_none_iff, forall_mem_names]
  rfl

theorem isProposed_of_suggestion? (h : suggestion? name = some key) :
    ∃ k : Key, k.name = key ∧ IsProposed name k := by
  obtain ⟨n, hn, hedits, hleast, before, after, hsplit, hbefore⟩ := closest?_eq_some_iff.mp h
  have hmem : key ∈ names := by simp [hsplit]
  obtain ⟨k, -, rfl⟩ := List.mem_map.mp hmem
  refine ⟨k, rfl, n, hn, hedits, forall_mem_names.mp hleast, fun j hj => ?_⟩
  -- a key that is as near stands behind the one that is proposed, and names ascend
  have hascending := names_ascending
  rw [hsplit] at hascending
  have hlater := (List.pairwise_cons.mp (List.pairwise_append.mp hascending).2.1).1
  have hmem : j.name ∈ before ++ k.name :: after := hsplit ▸ List.mem_map_of_mem (mem_all j)
  rcases List.mem_append.mp hmem with hmem | hmem
  · exact absurd hj (hbefore _ hmem)
  · rcases List.mem_cons.mp hmem with heq | hmem
    · exact heq ▸ String.le_refl _
    · exact String.not_lt.mp fun hlt => String.lt_irrefl _ (String.lt_trans hlt (hlater _ hmem))

end Key

theorem message_of_some (h : Key.suggestion? name = some key) :
    (SettingError.unknownKey name).message =
      s!"Unknown setting key: '{name}'. " ++ s!"Did you mean '{key}'?" := by
  change unknownKeyMessage name = _
  unfold unknownKeyMessage
  rw [h]

theorem message_of_none (h : Key.suggestion? name = none) :
    (SettingError.unknownKey name).message = s!"Unknown setting key: '{name}'. " ++
      ("Valid keys: " ++ ", ".intercalate Key.names) := by
  change unknownKeyMessage name = _
  unfold unknownKeyMessage
  rw [h]

/-- A proposal and the list of keys differ in their first letter. -/
theorem proposal_ne_listing (key : String) :
    s!"Did you mean '{key}'?" ≠ "Valid keys: " ++ ", ".intercalate Key.names := by
  intro h
  have hletter := congrArg (fun s => s.toList.head?) h
  simp [ToString.toString] at hletter

/-- What is answered to a name that is no key. -/
structure AnswersUnknown (name : String) : Prop where
  refused : Key.require name = .error (.unknownKey name)
  /-- A key is proposed if there is one within three edits. -/
  proposed : (∃ k : Key, Within 3 name k.name) → ∃ k : Key, Key.IsProposed name k ∧
    (SettingError.unknownKey name).message =
      s!"Unknown setting key: '{name}'. " ++ s!"Did you mean '{k.name}'?"
  /-- All keys are listed exactly if there is none. -/
  listed : (SettingError.unknownKey name).message = s!"Unknown setting key: '{name}'. " ++
      ("Valid keys: " ++ ", ".intercalate Key.names) ↔ ∀ k : Key, ¬ Within 3 name k.name

theorem answersUnknown (h : Key.ofName? name = none) : AnswersUnknown name := by
  constructor
  · rw [Key.require, h]
  · rintro ⟨j, hj⟩
    cases hsuggestion : Key.suggestion? name with
    | none => exact absurd hj (Key.suggestion?_eq_none_iff.mp hsuggestion j)
    | some key =>
      obtain ⟨k, rfl, hproposed⟩ := Key.isProposed_of_suggestion? hsuggestion
      exact ⟨k, hproposed, message_of_some hsuggestion⟩
  · rw [← Key.suggestion?_eq_none_iff]
    constructor
    · intro hlisted
      cases hsuggestion : Key.suggestion? name with
      | none => rfl
      | some key =>
        rw [message_of_some hsuggestion, String.append_right_inj] at hlisted
        exact absurd hlisted (proposal_ne_listing key)
    · exact message_of_none

/-- The nearest of some candidates is the one that the fewest edits lead to, and so it is with the
keys that are proposed. -/
theorem nearest_suggested :
    (∀ input candidates limit, (closest? input candidates limit = none ↔
        ∀ c ∈ candidates, ¬ Within limit input c) ∧
      ∀ c, closest? input candidates limit = some c ↔ IsNearest input candidates limit c) ∧
      ∀ name, Key.ofName? name = none → AnswersUnknown name := by
  refine ⟨fun input candidates limit => ?_, fun name h => answersUnknown h⟩
  exact ⟨closest?_eq_none_iff, fun c => closest?_eq_some_iff⟩

/-- Of two candidates that are as near the first is taken, and in the key a letter is missing. -/
theorem nearest_suggested_tie :
    IsNearest "日本" ["英", "日本語", "日木"] 1 "日本語" ∧ Key.ofName? "temprature" = none ∧
      AnswersUnknown "temprature" :=
  ⟨((nearest_suggested.1 _ _ 1).2 _).mp (by decide), by decide, nearest_suggested.2 _ (by decide)⟩

end Generation
