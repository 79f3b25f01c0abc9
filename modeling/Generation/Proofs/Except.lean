import Mathlib.Logic.Basic

/-! Results that may be errors. -/
namespace Generation

variable {ε α β : Type} {x : Except ε α} {y : β}

theorem map_eq_ok {f : α → β} (h : x.map f = .ok y) : ∃ a, x = .ok a ∧ f a = y := by
  cases x with
  | error e => cases h
  | ok a => exact ⟨a, rfl, Except.ok.inj h⟩

theorem map_eq_error {f : α → β} {e : ε} (h : x.map f = .error e) : x = .error e := by
  cases x with
  | error d => exact congrArg Except.error (Except.error.inj h)
  | ok a => cases h

theorem bind_eq_ok {f : α → Except ε β} (h : x >>= f = .ok y) :
    ∃ a, x = .ok a ∧ f a = .ok y := by
  cases x with
  | error e => cases h
  | ok a => exact ⟨a, rfl, h⟩

theorem exists_of_isOk (h : x.isOk = true) : ∃ a, x = .ok a := by
  cases x with
  | error e => cases h
  | ok a => exact ⟨a, rfl⟩

theorem exists_of_isOk_eq_false (h : x.isOk = false) : ∃ e, x = .error e := by
  cases x with
  | error e => exact ⟨e, rfl⟩
  | ok a => cases h

/-- A chain of steps fails at the first step that fails. -/
theorem foldlM_eq_error_iff {f : β → α → Except ε β} {e : ε} {steps : List α} {b : β} :
    steps.foldlM f b = .error e ↔ ∃ before step after c, steps = before ++ step :: after ∧
      before.foldlM f b = .ok c ∧ f c step = .error e := by
  constructor
  · intro h
    induction steps generalizing b with
    | nil => cases h
    | cons step steps ih =>
      rw [List.foldlM_cons] at h
      cases hstep : f b step with
      | error d =>
        rw [hstep] at h
        cases h
        exact ⟨[], step, steps, b, rfl, rfl, hstep⟩
      | ok c =>
        rw [hstep] at h
        obtain ⟨before, later, after, d, rfl, hbefore, hlater⟩ := ih h
        refine ⟨step :: before, later, after, d, rfl, ?_, hlater⟩
        rw [List.foldlM_cons, hstep]
        exact hbefore
  · rintro ⟨before, step, after, c, rfl, hbefore, hstep⟩
    rw [List.foldlM_append, hbefore]
    change List.foldlM f c (step :: after) = _
    rw [List.foldlM_cons, hstep]
    rfl

end Generation
