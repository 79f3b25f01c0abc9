import Generation.Proofs.Options.Flags
import Generation.Proofs.Settings.Document
import Mathlib.Logic.Relation

/-!
Settings stay valid: whatever a file holds and however they are changed, their numbers lie in their
ranges, and a list of tools is not empty. Options keep to the same ranges.
-/
namespace Generation

variable {s t : Settings} {o : Overrides} {f : Flags} {k : Key}

namespace Binary64

/-- A finite number from one whole number to another. -/
def Between (low high : Nat) : Binary64 → Prop
  | .finite negative units _ =>
    (low * unitsPerOne : Nat) ≤ signedUnits negative units ∧
      signedUnits negative units ≤ (high * unitsPerOne : Nat)
  | _ => False

theorem between_of_inRange {j : Nat} (hj : j ≤ 1) {x : Binary64}
    (h : inRange 0 (2 ^ j) x = true) : x.Between 0 (2 ^ j) := by
  obtain ⟨negative, units, hfits, rfl, hsign, hle⟩ := (inRange_iff hj).mp h
  change ((0 * unitsPerOne : Nat) : Int) ≤ signedUnits negative units ∧ _
  generalize 2 ^ j * unitsPerOne = high at hle ⊢
  cases negative with
  | true =>
    obtain rfl := hsign rfl
    change _ ≤ -((0 : Nat) : Int) ∧ -((0 : Nat) : Int) ≤ _
    omega
  | false =>
    change _ ≤ (units : Int) ∧ (units : Int) ≤ _
    omega

end Binary64

namespace Settings

structure Valid (s : Settings) : Prop where
  temperature : ∀ x, s.get .temperature = some x → Binary64.Between 0 2 x
  samplingThreshold : ∀ x, s.get .samplingThreshold = some x → Binary64.Between 0 1 x
  tools : s.get .tools ≠ some []

theorem valid_of_accepted (h : s.Accepted) : s.Valid := by
  constructor
  · intro x hx
    exact Binary64.between_of_inRange (Nat.le_refl 1) (h .temperature x hx)
  · intro x hx
    exact Binary64.between_of_inRange (Nat.zero_le 1) (h .samplingThreshold x hx)
  · intro hempty
    exact absurd (h .tools [] hempty) (by decide)

/-- What a program starts with: no settings, or those of a file. -/
inductive Initial : Settings → Prop where
  | empty : Initial empty
  | load (store : Store) (w : Machine) : Initial ((store.load : StateM Machine Settings) w).1

/-- One change of settings. A preset with an assignment that is rejected still changes what its
earlier assignments say. -/
inductive Update (s : Settings) : Settings → Prop where
  | assign {t : Settings} {name raw : String} : s.withValue name raw = .ok t → Update s t
  | unset {t : Settings} {name : String} : s.withoutValue name = .ok t → Update s t
  | preset {c : Catalog} {name : String} {last : Preset.Application} :
    c.apply name s = .ok last → Update s last.settings
  | rejected {c : Catalog} {name : String} {e : Preset.Failure} {done : Preset.Application} :
    c.apply name s = .error (e, done) → Update s done.settings

theorem accepted_of_initial (h : s.Initial) : s.Accepted := by
  cases h with
  | empty => exact accepted_empty
  | load store w => exact accepted_load store w

/-- What is done before an assignment is rejected keeps settings accepted. -/
theorem accepted_of_rejected_run {preset : String} {e : Preset.Failure}
    {done last : Preset.Application} {assignments : List (String × String)}
    (hs : done.settings.Accepted) (h : Preset.run preset done assignments = .error (e, last)) :
    last.settings.Accepted := by
  induction assignments generalizing done with
  | nil => cases h
  | cons assignment rest ih =>
    obtain ⟨key, value⟩ := assignment
    rw [Preset.run] at h
    split at h
    · cases h
      exact hs
    · rename_i t ht
      exact ih (accepted_of_withValue hs ht) h

theorem accepted_of_rejected {c : Catalog} {name : String} {e : Preset.Failure}
    {done : Preset.Application} (hs : s.Accepted) (h : c.apply name s = .error (e, done)) :
    done.settings.Accepted := by
  unfold Catalog.apply at h
  split at h
  · cases h
    exact hs
  · exact accepted_of_rejected_run hs h

theorem accepted_of_update (h : s.Update t) (hs : s.Accepted) : t.Accepted := by
  cases h with
  | assign h => exact accepted_of_withValue hs h
  | unset h => exact accepted_of_withoutValue hs h
  | preset h => exact accepted_of_apply hs h
  | rejected h => exact accepted_of_rejected hs h

theorem accepted_of_updates (h : Relation.ReflTransGen Update s t) (hs : s.Accepted) :
    t.Accepted := by
  induction h with
  | refl => exact hs
  | tail _ hstep ih => exact accepted_of_update hstep ih

end Settings

namespace Flags

theorem accepted_of_assignGiven (hs : s.Accepted) (h : f.assignGiven s k = .ok t) :
    t.Accepted := by
  unfold assignGiven at h
  split at h
  · cases h
    exact hs
  · exact Settings.accepted_of_assign hs h

theorem accepted_of_foldlM {keys : List Key} (hs : s.Accepted)
    (h : keys.foldlM f.assignGiven s = .ok t) : t.Accepted := by
  induction keys generalizing s with
  | nil =>
    cases h
    exact hs
  | cons k keys ih =>
    rw [List.foldlM_cons] at h
    obtain ⟨u, hu, h⟩ := bind_eq_ok h
    exact ih (accepted_of_assignGiven hs hu) h

/-- Values given by flags are values that users can give. -/
theorem accepted_of_overrides (h : f.overrides = .ok o) : o.values.Accepted := by
  unfold overrides at h
  split at h
  · rename_i values hvalues
    cases h
    exact accepted_of_foldlM Settings.accepted_empty hvalues
  · cases h

end Flags

namespace Options

structure Valid (options : Options) : Prop where
  temperature : ∀ x, options.generation.temperature = some x → Binary64.Between 0 2 x
  threshold : ∀ x seed, options.generation.sampling = .randomThreshold x seed →
    Binary64.Between 0 1 x

theorem get_of_given {v : k.Value} (h : o.given k = some v) : o.values.get k = some v := by
  unfold Overrides.given at h
  split at h
  · split at h
    · cases h
    · exact h
  · exact h

theorem accepts_of_effective? {v : k.Value} (ho : o.values.Accepted) (hs : s.Accepted)
    (h : effective? o s k = some v) : k.kind.accepts v = true := by
  rcases Option.or_eq_some_iff.mp h with hgiven | ⟨-, hstored⟩
  · exact ho k v (get_of_given hgiven)
  · exact hs k v hstored

theorem threshold_of_ofParts {mode? : Option SamplingMode} {threshold? : Option Binary64}
    {top? : Option Int64} {seed? seed : Option UInt64} {x : Binary64}
    (h : Sampling.ofParts mode? threshold? top? seed? = .randomThreshold x seed) :
    threshold? = some x := by
  unfold Sampling.ofParts at h
  split at h
  · cases h
  · cases h
    rfl
  · cases h
  · cases h

theorem valid_resolve (ho : o.values.Accepted) (hs : s.Accepted) : (resolve o s).Valid := by
  constructor
  · intro x hx
    have haccepts := accepts_of_effective? (k := .temperature) ho hs hx
    exact Binary64.between_of_inRange (Nat.le_refl 1) haccepts
  · intro x seed hx
    have hthreshold : effective? o s .samplingThreshold = some x := threshold_of_ofParts hx
    have haccepts := accepts_of_effective? ho hs hthreshold
    exact Binary64.between_of_inRange (Nat.zero_le 1) haccepts

end Options

namespace Settings

/-- All settings that a program can come to hold are valid, and so are the options that it resolves
from them and from flags. -/
theorem valid_of_updates (hs : s.Initial) (h : Relation.ReflTransGen Update s t) :
    t.Valid ∧ ∀ (f : Flags) (o : Overrides), f.overrides = .ok o →
      (Options.resolve o t).Valid := by
  have ht := accepted_of_updates h (accepted_of_initial hs)
  refine ⟨valid_of_accepted ht, ?_⟩
  intro f o ho
  exact Options.valid_resolve (Flags.accepted_of_overrides ho) ht

/-- From a file that holds no text, through a preset that ends in a number that is none. -/
theorem valid_of_updates_rejected_preset :
    let w : Machine := .withFile fileName [0xff]
    let s := ((Store.load ⟨⟨"/home"⟩, ⟨""⟩⟩ : StateM Machine Settings) w).1
    let c : Catalog := [⟨"mixed", "", [("samplingThreshold", "0.5"), ("temperature", "NaN")]⟩]
    let t := s.set .samplingThreshold (some (.ofDecimal false 5 (-1)))
    let f : Flags := ⟨fun k => if k = .temperature then some "2" else none⟩
    s.Initial ∧ (∃ e changes, c.apply "mixed" s = .error (e, ⟨t, changes⟩)) ∧
      Relation.ReflTransGen Update s t ∧ t.Valid ∧
        ∃ o, f.overrides = .ok o ∧ (Options.resolve o t).Valid := by
  intro w s c t f
  have hinitial : s.Initial := .load _ _
  have hthreshold : s.withValue "samplingThreshold" "0.5" = .ok t := by
    have hread : Numeral.real? "0.5".toList = some (.ofDecimal false 5 (-1)) := by decide +kernel
    have hparse : Key.samplingThreshold.kind.parse "0.5" = .ok (.ofDecimal false 5 (-1)) := by
      change parseReal 0 1 "0.5" = _
      rw [parseReal, hread]
      exact if_pos (by decide +kernel)
    exact (withValue_name s .samplingThreshold "0.5").trans
      (assign_eq_ok_iff.mpr ⟨_, hparse, rfl⟩)
  have hnan (u : Settings) : u.withValue "temperature" "NaN" =
      .error (.invalidValue .temperature (.outOfRange "NaN" 0 2)) :=
    withValue_temperature_outOfRange (x := .nan) (by decide +kernel) (by decide +kernel)
  have hrejected : c.apply "mixed" s =
      .error (.rejected "mixed" "temperature" (.invalidValue .temperature (.outOfRange "NaN" 0 2)),
        ⟨t, [⟨"samplingThreshold", s.value? "samplingThreshold", "0.5"⟩]⟩) := by
    change Preset.run "mixed" ⟨s, []⟩ [("samplingThreshold", "0.5"), ("temperature", "NaN")] = _
    simp only [Preset.run, hthreshold, hnan, List.nil_append]
  have hupdates : Relation.ReflTransGen Update s t := .single (.rejected hrejected)
  obtain ⟨ht, hoptions⟩ := valid_of_updates hinitial hupdates
  have hflags : Flags.checkedKeys.findSome? f.fault? = none := by decide +kernel
  have hoverrides := Flags.overrides_eq f
  rw [hflags] at hoverrides
  exact ⟨hinitial, ⟨_, _, hrejected⟩, hupdates, ht, _, hoverrides, hoptions f _ hoverrides⟩

end Settings

end Generation
