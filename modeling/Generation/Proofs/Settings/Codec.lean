import Generation.Proofs.Decimal.ReadBack
import Generation.Settings.Basic

/-!
The text of a value is read as that value, unless the value is one that users cannot give: a number
out of its range, or no tools at all.
-/
namespace Generation

variable {κ : Kind}

namespace Kind

/-- Whether a value is one that users can give. -/
def accepts : (κ : Kind) → κ.Value → Bool
  | .real low high, x => inRange low high x
  | .tools, v => v != []
  | _, _ => true

/-- What is said of a value that users cannot give. -/
def refusal : (κ : Kind) → κ.Value → Rejection
  | .real low high, x => .outOfRange (String.ofList (Layout.plain.write x)) low high
  | _, _ => .noTools

theorem int64?_toInt (n : Int64) : int64? n.toInt = some n := by
  rw [int64?, if_pos ⟨n.le_toInt, n.toInt_lt⟩, Int64.ofInt_toInt]

theorem uint64?_toNat (n : UInt64) : uint64? n.toNat = some n := by
  rw [uint64?, if_pos n.toNat_lt, UInt64.ofNat_toNat]

theorem parse_render_integer (n : Int64) : Kind.integer.parse (Kind.integer.render n) = .ok n := by
  have htext := Numeral.integer?_signed n.toInt false
  simp only [Bool.false_eq_true, if_false] at htext
  simp only [parse, render, String.toList_ofList, htext, Option.bind_some, int64?_toInt, orReject]

theorem parse_render_unsigned (n : UInt64) :
    Kind.unsigned.parse (Kind.unsigned.render n) = .ok n := by
  simp only [parse, render, String.toList_ofList, Numeral.unsigned?_toDigits, Option.bind_some,
    uint64?_toNat, orReject]

theorem parse_render_real (low high : Nat) (x : Binary64) :
    (Kind.real low high).parse ((Kind.real low high).render x) =
      if (Kind.real low high).accepts x then .ok x
      else .error ((Kind.real low high).refusal x) := by
  simp only [parse, render, parseReal, String.toList_ofList, Numeral.real?_write, accepts, refusal]
  rfl

theorem trim_token (t : Tool) : Text.trim (Choice.token t).toList = (Choice.token t).toList := by
  cases t <;> decide

theorem comma_notMem_token (t : Tool) : ',' ∉ (Choice.token t).toList := by
  cases t <;> decide

theorem token_ne_nil (t : Tool) : (Choice.token t).toList ≠ [] := by
  cases t <;> decide

/-- Tokens between commas are taken apart at the commas. -/
theorem toolPieces_render (ts : List Tool) :
    toolPieces (Kind.tools.render ts) = ts.map Choice.token := by
  have hlist : (Kind.tools.render ts).toList =
      [','].intercalate (ts.map fun t => (Choice.token t).toList) := by
    simp only [render, String.toList_intercalate, List.map_map]
    rfl
  rw [toolPieces, hlist]
  cases ts with
  | nil => decide
  | cons t more =>
    rw [List.splitOn_intercalate _ (by simp [comma_notMem_token]) (by simp), List.map_map,
      List.filter_eq_self.mpr]
    · simp [Function.comp_def, trim_token]
    · intro piece hpiece
      obtain ⟨t, -, rfl⟩ := List.mem_map.mp hpiece
      simpa [trim_token] using token_ne_nil t

theorem mapM_parseTool (ts : List Tool) :
    (ts.map Choice.token).mapM parseTool = .ok ts := by
  induction ts with
  | nil => rfl
  | cons t ts ih =>
    rw [List.map_cons, List.mapM_cons, ih, parseTool, Choice.ofToken?_token]
    rfl

theorem parse_render_tools (ts : List Tool) :
    Kind.tools.parse (Kind.tools.render ts) =
      if Kind.tools.accepts ts then .ok ts else .error (Kind.tools.refusal ts) := by
  have hpieces := toolPieces_render ts
  have htools := mapM_parseTool ts
  simp only [parse, parseTools]
  rw [hpieces]
  cases ts with
  | nil => rfl
  | cons t more => exact htools

theorem parse_render_choice {α : Type} [Choice α] (a : α) :
    (Kind.choice α).parse ((Kind.choice α).render a) = .ok a := by
  simp only [parse, render, parseChoice, Choice.ofToken?_token]

/-- The text of a value is the value, if users can give it, and is refused otherwise. -/
theorem parse_render (κ : Kind) (v : κ.Value) :
    κ.parse (κ.render v) = if κ.accepts v then .ok v else .error (κ.refusal v) := by
  cases κ with
  | text => rfl
  | boolean => cases v <;> rfl
  | integer => exact parse_render_integer v
  | unsigned => exact parse_render_unsigned v
  | real low high => exact parse_render_real low high v
  | choice α => exact parse_render_choice v
  | tools => exact parse_render_tools v

end Kind

end Generation
