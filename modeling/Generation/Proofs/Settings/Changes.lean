import Generation.Settings.Basic
import Mathlib.Logic.Function.Basic

/-! What one change of settings does: it reads one text, and touches one key. -/
namespace Generation

variable {s t : Settings} {k : Key} {name raw : String} {e : SettingError}

namespace Key

theorem name_injective : Function.Injective Key.name := by
  intro j k h
  have hname := congrArg ofName? h
  simpa using hname

theorem require_name (k : Key) : require k.name = .ok k := by
  rw [require, ofName?_name]

theorem eq_name_of_require (h : require name = .ok k) : name = k.name := by
  unfold require at h
  split at h
  · cases h
    rename_i hk
    exact (name_of_ofName? hk).symm
  · cases h

end Key

namespace Settings

theorem withValue_name (s : Settings) (k : Key) (raw : String) :
    s.withValue k.name raw = s.assign k raw := by
  rw [withValue, Key.require_name]

theorem withoutValue_name (s : Settings) (k : Key) :
    s.withoutValue k.name = .ok (s.set k none) := by
  rw [withoutValue, Key.require_name]

theorem value?_set_self (s : Settings) (k : Key) (v : Option k.Value) :
    (s.set k v).value? k.name = v.map k.kind.render := by
  rw [value?, Key.ofName?_name, Option.bind_some, render?, get_set_self]

theorem assign_eq_ok_iff : s.assign k raw = .ok t ↔
    ∃ v, k.kind.parse raw = .ok v ∧ t = s.set k (some v) := by
  unfold assign
  cases k.kind.parse raw with
  | ok v =>
    constructor
    · intro h
      exact ⟨v, rfl, (Except.ok.inj h).symm⟩
    · rintro ⟨w, hw, rfl⟩
      cases hw
      rfl
  | error r =>
    constructor
    · intro h
      cases h
    · rintro ⟨w, hw, -⟩
      cases hw

theorem assign_eq_error_iff : s.assign k raw = .error e ↔
    ∃ r, k.kind.parse raw = .error r ∧ e = .invalidValue k r := by
  unfold assign
  cases k.kind.parse raw with
  | ok v =>
    constructor
    · intro h
      cases h
    · rintro ⟨r, hr, -⟩
      cases hr
  | error r =>
    constructor
    · intro h
      exact ⟨r, rfl, (Except.error.inj h).symm⟩
    · rintro ⟨r', hr, rfl⟩
      cases hr
      rfl

/-- No temperature is stored that is out of range. -/
theorem withValue_temperature_outOfRange {x : Binary64}
    (hread : Numeral.real? raw.toList = some x) (hrange : inRange 0 2 x = false) :
    s.withValue "temperature" raw = .error (.invalidValue .temperature (.outOfRange raw 0 2)) := by
  have hparse : Key.temperature.kind.parse raw = .error (.outOfRange raw 0 2) := by
    change parseReal 0 2 raw = _
    rw [parseReal, hread]
    exact if_neg (by simp [hrange])
  exact (withValue_name s .temperature raw).trans (assign_eq_error_iff.mpr ⟨_, hparse, rfl⟩)

end Settings

end Generation
