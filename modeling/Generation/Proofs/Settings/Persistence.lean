import Generation.Proofs.Settings.Document
import Generation.Proofs.Settings.Reachable

/-!
Settings that are saved and then loaded. All of them come back without a warning, but for the two
numbers with a fraction: these come back as the numbers that their digits are read as.
-/
namespace Generation

variable {store : Store} {s : Settings} {w w' : Machine}

namespace Settings

theorem reread_of_ne {k : Key} (htemperature : k ≠ .temperature)
    (hthreshold : k ≠ .samplingThreshold) (x : k.Value) : k.kind.reread x = x := by
  cases k with
  | temperature => exact absurd rfl htemperature
  | samplingThreshold => exact absurd rfl hthreshold
  | _ => rfl

theorem get_reread_of_ne {k : Key} (htemperature : k ≠ .temperature)
    (hthreshold : k ≠ .samplingThreshold) : s.reread.get k = s.get k := by
  rw [get_reread]
  cases s.get k with
  | none => rfl
  | some x => exact congrArg some (reread_of_ne htemperature hthreshold x)

/-- Nothing changes on the way through a file if the numbers do not. -/
theorem reread_eq_iff : s.reread = s ↔ (∀ x, s.get .temperature = some x → x.reread = x) ∧
    ∀ x, s.get .samplingThreshold = some x → x.reread = x := by
  constructor
  · intro h
    have hself (k : Key) (x : k.Value) (hx : s.get k = some x) : k.kind.reread x = x := by
      have hget : s.reread.get k = s.get k := by rw [h]
      rw [get_reread, hx] at hget
      exact Option.some.inj hget
    exact ⟨fun x hx => hself .temperature x hx, fun x hx => hself .samplingThreshold x hx⟩
  · rintro ⟨htemperature, hthreshold⟩
    have hnumber {x? : Option Binary64} (h : ∀ x, x? = some x → x.reread = x) :
        x?.map Binary64.reread = x? := by
      cases x? with
      | none => rfl
      | some x => exact congrArg some (h x rfl)
    ext1
    funext k
    by_cases ht : k = .temperature
    · subst ht
      exact hnumber htemperature
    · by_cases hs : k = .samplingThreshold
      · subst hs
        exact hnumber hthreshold
      · exact get_reread_of_ne ht hs

/-- A temperature is stored as the number nearest to its text. -/
theorem withValue_temperature {raw : String} {x : Binary64}
    (hread : Numeral.real? raw.toList = some x) (hrange : inRange 0 2 x = true) :
    s.withValue "temperature" raw = .ok (s.set .temperature (some x)) := by
  have hkey : Key.require "temperature" = .ok .temperature := rfl
  have hparse : Key.temperature.kind.parse raw = .ok x := by
    show parseReal 0 2 raw = .ok x
    rw [parseReal, hread]
    exact if_pos hrange
  rw [withValue, hkey]
  show s.assign .temperature raw = _
  rw [assign, hparse]

end Settings

namespace Store

/-- What is loaded from a file with the text of accepted settings. -/
theorem load_of_fileText (hs : s.Accepted)
    (h : w.tree.read w.workingDir store.path = .ok (Text.bytes s.fileText)) :
    (store.load : StateM Machine Settings) w =
      (s.reread, { w with events := w.events ++ [.settingsLoaded store.shownPath] }) := by
  have hparse := Settings.parse_fileText hs
  rw [Settings.toJson_eq] at hparse
  rw [load_of_read h, decode_object _ hparse,
    Settings.ofMembers_members (Settings.accepted_reread hs)]
  rfl

/-- How settings come back when they are loaded from where they were saved. -/
structure Returns (store : Store) (s : Settings) (w : Machine) : Prop where
  /-- Nothing is said but that settings were loaded. -/
  quiet : ((store.load : StateM Machine Settings) w).2 =
    { w with events := w.events ++ [.settingsLoaded store.shownPath] }
  /-- All keys but two come back as they were. -/
  kept : ∀ k : Key, k ≠ .temperature → k ≠ .samplingThreshold →
    ((store.load : StateM Machine Settings) w).1.get k = s.get k
  /-- These two come back as the numbers that their digits are read as. -/
  temperature : ((store.load : StateM Machine Settings) w).1.get .temperature =
    (s.get .temperature).map Binary64.reread
  samplingThreshold : ((store.load : StateM Machine Settings) w).1.get .samplingThreshold =
    (s.get .samplingThreshold).map Binary64.reread
  /-- So nothing is lost exactly if both numbers are read as they were. -/
  lossless : ((store.load : StateM Machine Settings) w).1 = s ↔
    (∀ x, s.get .temperature = some x → x.reread = x) ∧
      ∀ x, s.get .samplingThreshold = some x → x.reread = x

/-- Saved settings come back, up to the reading of numbers from their digits. -/
theorem returns_of_save (hs : s.Reachable)
    (h : (store.save s : StateM Machine (Except StoreError Unit)) w = (.ok (), w')) :
    store.Returns s w' := by
  have hload := load_of_fileText hs.accepted (read_of_save h)
  constructor
  · rw [hload]
  · intro k htemperature hthreshold
    rw [hload]
    exact Settings.get_reread_of_ne htemperature hthreshold
  · rw [hload]
    rfl
  · rw [hload]
    rfl
  · rw [hload]
    exact Settings.reread_eq_iff

/-- A temperature that does not come back: its digits are a whole number too large to be exact, and
rounding them moves the quotient to a neighbour. -/
theorem load_ne_of_save :
    let store : Store := ⟨⟨"/home"⟩, ⟨""⟩⟩
    let s := Settings.empty.set .temperature (some (.ofDecimal false 12458033897794039 (-16)))
    Settings.empty.withValue "temperature" "1.2458033897794039" = .ok s ∧ ∃ w,
      (store.save s : StateM Machine (Except StoreError Unit)) ⟨⟨[]⟩, [], []⟩ = (.ok (), w) ∧
        ((store.load : StateM Machine Settings) w).1 ≠ s := by
  intro store s
  have hvalue : Settings.empty.withValue "temperature" "1.2458033897794039" = .ok s :=
    Settings.withValue_temperature (by decide +kernel) (by decide +kernel)
  have hreachable : s.Reachable := .withValue .empty hvalue
  obtain ⟨w, hsave⟩ := exists_save_blank ⟨"/home"⟩ s
  refine ⟨hvalue, w, hsave, fun hsame => ?_⟩
  rw [load_of_fileText hreachable.accepted (read_of_save hsave)] at hsame
  have hself := (Settings.reread_eq_iff.mp hsame).1 _ (Settings.get_set_self)
  exact absurd hself (by decide +kernel)

theorem returns_of_save_short :
    let store : Store := ⟨⟨"/home"⟩, ⟨""⟩⟩
    let s := Settings.empty.set .temperature (some (.ofDecimal false 7 (-1)))
    s.Reachable ∧ ∃ w,
      (store.save s : StateM Machine (Except StoreError Unit)) ⟨⟨[]⟩, [], []⟩ = (.ok (), w) ∧
        store.Returns s w ∧ ((store.load : StateM Machine Settings) w).1 = s := by
  intro store s
  have hvalue : Settings.empty.withValue "temperature" "0.7" = .ok s :=
    Settings.withValue_temperature (by decide +kernel) (by decide +kernel)
  have hreachable : s.Reachable := .withValue .empty hvalue
  obtain ⟨w, hsave⟩ := exists_save_blank ⟨"/home"⟩ s
  have hreturns := returns_of_save hreachable hsave
  refine ⟨hreachable, w, hsave, hreturns, hreturns.lossless.mpr ⟨?_, ?_⟩⟩
  · intro x hx
    obtain rfl := Option.some.inj (Settings.get_set_self.symm.trans hx)
    decide +kernel
  · intro x hx
    cases hx

end Store

end Generation
