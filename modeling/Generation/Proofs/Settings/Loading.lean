import Generation.Proofs.Settings.Saving
import Generation.Proofs.Settings.Strict

/-! What is loaded from a settings file, and what is reported of it. -/
namespace Generation

open Json (Members)

variable {s : Store} {w : Machine} {contents : List UInt8} {text : String} {members : Members}

namespace Machine

@[simp] theorem forM_log (events : List Log.Event) (w : Machine) :
    (events.forM Host.log : StateM Machine Unit) w =
      ((), { w with events := w.events ++ events }) := by
  induction events generalizing w with
  | nil =>
    rw [List.append_nil]
    rfl
  | cons e events ih =>
    have hstep : ((e :: events).forM Host.log : StateM Machine Unit) w =
        (events.forM Host.log : StateM Machine Unit) { w with events := w.events ++ [e] } := rfl
    rw [hstep, ih]
    simp

end Machine

namespace Store

/-- A file that can be read is loaded as its contents say. -/
theorem load_of_read (h : w.tree.read w.workingDir s.path = .ok contents) :
    (s.load : StateM Machine Settings) w = ((decode s.shownPath contents).1,
      { w with events := w.events ++ (decode s.shownPath contents).2 }) := by
  have hread : (Host.read s.path : StateM Machine (Except IoError (List UInt8))) w =
      (.ok contents, w) := by
    show (w.tree.read w.workingDir s.path, w) = _
    rw [h]
  have hlog := Machine.forM_log (decode s.shownPath contents).2 w
  simp only [load, bind, StateT.bind, hread, hlog]
  rfl

/-- Without a file that can be read there are no settings. -/
theorem load_of_read_error {e : IoError}
    (h : w.tree.read w.workingDir s.path = .error e) :
    ∃ events, (s.load : StateM Machine Settings) w =
      (.empty, { w with events := w.events ++ events }) := by
  have hhost : (Host.read s.path : StateM Machine (Except IoError (List UInt8))) w =
      (.error e, w) := by
    show (w.tree.read w.workingDir s.path, w) = _
    rw [h]
  simp only [load, bind, StateT.bind, hhost]
  cases e with
  | notFound => exact ⟨[], by rw [List.append_nil]; rfl⟩
  | _ => exact ⟨_, rfl⟩

theorem decode_object (shown : String)
    (hparse : Json.parse (Text.bytes text) = .ok (.object members)) :
    decode shown (Text.bytes text) = ((Settings.empty.ofMembers members).1,
      (Settings.empty.ofMembers members).2.map
        (fun (k, fault) => .settingIgnored shown k.name fault.message) ++
        [.settingsLoaded shown]) := by
  rw [decode, Text.decode?_bytes, hparse]
  rfl

/-- What loading makes of the members that stand in a settings file. -/
structure LoadsByKey (s : Store) (w : Machine) (contents : List UInt8) (written : Members) :
    Prop where
  /-- The way of a value through its text does not alter it; the text of a value that users cannot
  give is refused. -/
  passage : ∀ (t : Settings) (k : Key) (x : k.Value),
    t.assign k (k.kind.render x) =
      if k.kind.accepts x then .ok (t.set k (some x))
      else .error (.invalidValue k (k.kind.refusal x))
  /-- The last value under the name of a key decides this key, and no other member does. -/
  fields : ∀ k : Key, ((s.load : StateM Machine Settings) w).1.get k =
    (written.reverse.lookup k.name).bind (Settings.field? k)
  /-- Settings that can be read straight from the text are loaded as they are. -/
  strict : ∀ m, Settings.parse contents = .ok m →
    (∀ k x, m.get k = some x → k.kind.accepts x) → ((s.load : StateM Machine Settings) w).1 = m
  /-- A member is faulty if it is not null and gives its key no value. -/
  faulty : ∀ (k : Key) (v : Json),
    (Settings.fault? k v).isSome ↔ v ≠ .null ∧ Settings.field? k v = none
  /-- There is one warning for each faulty key, in ascending order, and nothing else changes. -/
  warnings : ((s.load : StateM Machine Settings) w).2 = { w with events := w.events ++
    (Key.all.filterMap fun k => ((written.reverse.lookup k.name).bind (Settings.fault? k)).map
      fun e => .settingIgnored s.shownPath k.name e.message) ++ [.settingsLoaded s.shownPath] }

/-- The members of an object that is loaded, key by key. -/
theorem loadsByKey_of_parse
    (hread : w.tree.read w.workingDir s.path = .ok (Text.bytes text))
    (hparse : Json.parse (Text.bytes text) = .ok (.object members)) :
    ∃ written, Json.writtenMembers? (Text.bytes text) = some written ∧
      s.LoadsByKey w (Text.bytes text) written := by
  obtain ⟨rest, written, r, hs, hmembers, hwritten, rfl⟩ := Json.members_of_parse hparse
  have hascending := Json.ascending_ofMembers written
  have hload := load_of_read hread
  rw [decode_object _ hparse] at hload
  have hfields (k : Key) : ((s.load : StateM Machine Settings) w).1.get k =
      (written.reverse.lookup k.name).bind (Settings.field? k) := by
    rw [hload, Settings.get_ofMembers _ hascending, Json.lookup_ofMembers]
    simp
  refine ⟨written, hwritten, ⟨Settings.assign_render, hfields, ?_, ?_, ?_⟩⟩
  · intro m hstrict haccepts
    ext1
    funext k
    rw [hfields]
    exact Settings.get_eq_of_parse hs hmembers hstrict haccepts _
  · intro k v
    rw [← Option.ne_none_iff_isSome, Ne, Settings.fault?_eq_none_iff]
    simp
  · rw [hload, Settings.faults_by_key _ hascending]
    simp only [Json.lookup_ofMembers, List.map_filterMap, Option.map_map]
    rw [List.append_assoc]
    rfl

theorem loadsByKey_of_parse_badStream :
    let s : Store := ⟨⟨"/home"⟩, ⟨""⟩⟩
    let v := Json.object [("rawJson", .boolean true), ("stream", .string "yes")]
    let text := v.write false
    let w : Machine := ⟨⟨[(["settings.json"], .file (Text.bytes text))]⟩, [], []⟩
    w.tree.read w.workingDir s.path = .ok (Text.bytes text) ∧
      Json.parse (Text.bytes text) = .ok v ∧
      ∃ written, Json.writtenMembers? (Text.bytes text) = some written ∧
        s.LoadsByKey w (Text.bytes text) written := by
  intro s v text w
  have hread : w.tree.read w.workingDir s.path = .ok (Text.bytes text) := by
    have hpath : s.path = ⟨Settings.fileName⟩ := by decide +kernel
    have hentry : w.tree.entryAt w.workingDir ⟨Settings.fileName⟩ =
        .ok ([Settings.fileName], .file (Text.bytes text)) :=
      FileTree.entryAt_eq_ok.mpr
        ⟨FileTree.locate_name isName_fileName (by decide) (by decide) rfl, rfl⟩
    rw [FileTree.read, hpath, hentry]
  have hsorted : v.Sorted := by
    refine .object (Json.ascending_of_names (by decide)) fun m hm => ?_
    simp only [List.mem_cons, List.not_mem_nil, or_false] at hm
    rcases hm with rfl | rfl
    · exact .boolean true
    · exact .string "yes"
  have hexact : v.Exact := by
    refine .object fun m hm => ?_
    simp only [List.mem_cons, List.not_mem_nil, or_false] at hm
    rcases hm with rfl | rfl
    · exact .boolean true
    · exact .string "yes"
  have hwithin : v.Within Json.Read.maxDepth := by
    refine .object fun m hm => ?_
    simp only [List.mem_cons, List.not_mem_nil, or_false] at hm
    rcases hm with rfl | rfl
    · exact .boolean _ true
    · exact .string _ "yes"
  have hparse : Json.parse (Text.bytes text) = .ok v := Json.parse_write hwithin hsorted hexact
  exact ⟨hread, hparse, loadsByKey_of_parse hread hparse⟩

end Store

end Generation
