import Generation.Options
import Mathlib.Logic.Basic

/-!
Flags before stored settings in the choice of sampling. What flags select stays selected, with a
stored seed where they give none, unless a part is stored that goes before the part they select by:
each part is taken for itself, and the parts are put together afterwards.
-/
namespace Generation

variable {o : Overrides} {s t : Settings}

namespace Sampling

/-- A seed where there is none yet. -/
def orSeed : Sampling → Option UInt64 → Sampling
  | randomThreshold threshold seed?, other? => randomThreshold threshold (seed?.or other?)
  | randomTop top seed?, other? => randomTop top (seed?.or other?)
  | sampling, _ => sampling

/-- The same way to pick tokens, with the same threshold or count. -/
def SameChoice : Sampling → Sampling → Prop
  | default, default | greedy, greedy => True
  | randomThreshold threshold _, randomThreshold threshold' _ => threshold = threshold'
  | randomTop top _, randomTop top' _ => top = top'
  | _, _ => False

theorem sameChoice_orSeed (sampling : Sampling) (seed? seed?' : Option UInt64) :
    (sampling.orSeed seed?).SameChoice (sampling.orSeed seed?') := by
  cases sampling with
  | default => trivial
  | greedy => trivial
  | randomThreshold threshold own? => exact rfl
  | randomTop top own? => exact rfl

end Sampling

/-- The sampling that flags select by themselves. -/
def Overrides.sampling (o : Overrides) : Sampling :=
  .ofParts (o.values.get .sampling) (o.values.get .samplingThreshold) (o.values.get .samplingTop)
    (o.values.get .samplingSeed)

/-- Whether a part is stored that goes before the one that a sampling is selected by. -/
def Settings.Outranks (s : Settings) : Sampling → Prop
  | .randomThreshold _ _ => s.get .sampling ≠ none
  | .randomTop _ _ => s.get .sampling ≠ none ∨ s.get .samplingThreshold ≠ none
  | _ => False

namespace Options

theorem sampling_eq (o : Overrides) (s : Settings) : (generationOf o s).sampling =
    .ofParts ((o.values.get .sampling).or (s.get .sampling))
      ((o.values.get .samplingThreshold).or (s.get .samplingThreshold))
      ((o.values.get .samplingTop).or (s.get .samplingTop))
      ((o.values.get .samplingSeed).or (s.get .samplingSeed)) := rfl

/-- What flags select is kept where nothing stored goes before it. -/
theorem sampling_of_not_outranks (h : o.sampling ≠ .default) (hs : ¬ s.Outranks o.sampling) :
    (generationOf o s).sampling = o.sampling.orSeed (s.get .samplingSeed) := by
  rw [sampling_eq]
  unfold Overrides.sampling at h hs ⊢
  cases hmode : o.values.get .sampling with
  | some mode =>
    cases mode
    rfl
  | none =>
    rw [hmode] at h hs
    cases hthreshold : o.values.get .samplingThreshold with
    | some threshold =>
      rw [hthreshold] at hs
      have hmode' : s.get .sampling = none := not_not.mp hs
      rw [hmode']
      rfl
    | none =>
      rw [hthreshold] at h hs
      cases htop : o.values.get .samplingTop with
      | none =>
        rw [htop] at h
        exact absurd rfl h
      | some top =>
        rw [htop] at hs
        obtain ⟨hmode', hthreshold'⟩ := not_or.mp hs
        rw [not_not.mp hmode', not_not.mp hthreshold']
        rfl

/-- A stored part that goes before it decides in its place. -/
theorem sampling_of_outranks (hs : s.Outranks o.sampling) :
    (generationOf o s).sampling = .ofParts (s.get .sampling) (s.get .samplingThreshold) none
      ((o.values.get .samplingSeed).or (s.get .samplingSeed)) := by
  rw [sampling_eq]
  unfold Overrides.sampling at hs
  cases hmode : o.values.get .sampling with
  | some mode =>
    rw [hmode] at hs
    cases mode
    exact hs.elim
  | none =>
    rw [hmode] at hs
    cases hthreshold : o.values.get .samplingThreshold with
    | some threshold =>
      rw [hthreshold] at hs
      obtain ⟨mode, hmode'⟩ := Option.ne_none_iff_exists'.mp hs
      rw [hmode']
      cases mode
      rfl
    | none =>
      rw [hthreshold] at hs
      cases htop : o.values.get .samplingTop with
      | none =>
        rw [htop] at hs
        exact hs.elim
      | some top =>
        rw [htop] at hs
        cases hmode' : s.get .sampling with
        | some mode =>
          cases mode
          rfl
        | none =>
          rcases hs with hs | hs
          · exact absurd hmode' hs
          · obtain ⟨threshold, hthreshold'⟩ := Option.ne_none_iff_exists'.mp hs
            rw [hthreshold']
            rfl

/-- How the sampling that flags select fares beside stored settings. -/
structure SelectionKept (o : Overrides) : Prop where
  /-- Only a missing seed is taken from settings that store nothing that goes before it. -/
  kept : ∀ s : Settings, ¬ s.Outranks o.sampling →
    (generationOf o s).sampling = o.sampling.orSeed (s.get .samplingSeed)
  /-- Between such settings there is no difference but the seed. -/
  same : ∀ s t : Settings, ¬ s.Outranks o.sampling → ¬ t.Outranks o.sampling →
    (generationOf o s).sampling.SameChoice (generationOf o t).sampling
  /-- Otherwise the stored part is what is selected by. -/
  outranked : ∀ s : Settings, s.Outranks o.sampling →
    (generationOf o s).sampling = .ofParts (s.get .sampling) (s.get .samplingThreshold) none
      ((o.values.get .samplingSeed).or (s.get .samplingSeed))

/-- A sampling that flags select is kept, unless what is stored goes before it. -/
theorem selectionKept (h : o.sampling ≠ .default) : SelectionKept o := by
  constructor
  · exact fun s hs => sampling_of_not_outranks h hs
  · intro s t hs ht
    rw [sampling_of_not_outranks h hs, sampling_of_not_outranks h ht]
    exact o.sampling.sameChoice_orSeed _ _
  · exact fun s hs => sampling_of_outranks hs

/-- A threshold from flags with a stored seed, and with a stored mode. -/
theorem selectionKept_threshold :
    let half : Binary64 := .ofDecimal false 5 (-1)
    let o : Overrides := ⟨Settings.empty.set .samplingThreshold (some half), none⟩
    let s := (Settings.empty.set .samplingSeed (some 42)).set .samplingTop (some 3)
    let t := s.set .sampling (some SamplingMode.greedy)
    o.sampling ≠ .default ∧ ¬ s.Outranks o.sampling ∧ t.Outranks o.sampling ∧
      (generationOf o s).sampling = .randomThreshold half (some 42) ∧
        (generationOf o t).sampling = .greedy := by
  intro half o s t
  have ho : o.sampling = .randomThreshold half none := rfl
  have hselected : o.sampling ≠ .default := by
    rw [ho]
    exact fun h => by cases h
  have hs : ¬ s.Outranks o.sampling := fun h => h rfl
  have ht : t.Outranks o.sampling := fun h => by cases h
  have hkept := selectionKept hselected
  exact ⟨hselected, hs, ht, hkept.kept s hs, hkept.outranked t ht⟩

/-- A stored mode takes the place of a threshold that flags give. -/
theorem not_sameChoice_of_storedMode :
    let half : Binary64 := .ofDecimal false 5 (-1)
    let o : Overrides := ⟨Settings.empty.set .samplingThreshold (some half), none⟩
    let s := Settings.empty.set .sampling (some SamplingMode.greedy)
    o.sampling ≠ .default ∧
      ¬ (generationOf o .empty).sampling.SameChoice (generationOf o s).sampling ∧
        ¬ ∀ (o : Overrides) (s t : Settings), o.sampling ≠ .default →
          (generationOf o s).sampling.SameChoice (generationOf o t).sampling := by
  intro half o s
  have hselected : o.sampling ≠ .default := fun h => by cases h
  have hother : ¬ (generationOf o .empty).sampling.SameChoice (generationOf o s).sampling := id
  exact ⟨hselected, hother, fun hall => hother (hall o .empty s hselected)⟩

end Options

end Generation
