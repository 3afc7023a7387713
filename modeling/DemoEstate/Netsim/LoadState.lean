import DemoEstate.Netsim.Incidents
import DemoEstate.Netsim.Persistence

/-!
# Loading a state file of any content

Both the network simulator and the database host guard the reading of their state file, and not
what they do with the value that it holds.  They restore one object after the other, and the first
value of an unexpected type ends the start of the process with the objects before it restored.

Main definitions:

- Definition {lit}`mapUntil`: a loop over objects that an error ends.
- Definitions {lit}`Persisted.loadState` and {lit}`HostPersisted.loadState`: what a start makes of
  the state file.
- Definition {lit}`AllOrNothing`: all is restored, or all is as it was.

Main results:

- Theorems {lit}`loadState_iff` and {lit}`loadHost_iff`: the values that are restored or left.
- Theorem {lit}`loadState_saved`: the values that the simulator itself has saved.
- Theorem {lit}`allOrNothing_iff`: the contents of both state files that are.
-/

namespace DemoEstate
namespace Netsim

/-! ## Loops that an error ends -/

section Loops

variable {α : Type} {f : α → Option α} {l : List α}

/-- Change the elements in turn; the first that cannot be changed ends the loop and stays, with
all after it. -/
def mapUntil (f : α → Option α) : List α → List α × Bool
  | [] => ([], true)
  | a :: l =>
      match f a with
      | none => (a :: l, false)
      | some b => (b :: (mapUntil f l).1, (mapUntil f l).2)

theorem mapUntil_snd_iff :
    (mapUntil f l).2 = true ↔ ∀ a ∈ l, (f a).isSome = true := by
  induction l with
  | nil => simp [mapUntil]
  | cons a l ih =>
      unfold mapUntil
      cases hchange : f a with
      | none => simp [hchange]
      | some b => simp [hchange, ih]

theorem mapUntil_fst {g : α → α} (h : (mapUntil f l).2 = true)
    (hg : ∀ a ∈ l, ∀ b, f a = some b → b = g a) : (mapUntil f l).1 = l.map g := by
  induction l with
  | nil => rfl
  | cons a l ih =>
      unfold mapUntil at h ⊢
      cases hchange : f a with
      | none => simp [hchange] at h
      | some b =>
          simp only [hchange] at h ⊢
          rw [List.map_cons, hg a List.mem_cons_self b hchange,
            ih h fun a' ha' => hg a' (List.mem_cons_of_mem _ ha')]

/-- A loop in which every change succeeds. -/
theorem mapUntil_map {β : Type} {g h : β → α} {l : List β} (hchange : ∀ b ∈ l, f (g b) = some (h b)) :
    mapUntil f (l.map g) = (l.map h, true) := by
  induction l with
  | nil => rfl
  | cons b l ih =>
      rw [List.map_cons, mapUntil, hchange b List.mem_cons_self,
        ih fun b' hb' => hchange b' (List.mem_cons_of_mem _ hb')]
      rfl

end Loops

/-! ## Reading the file -/

/-- What a start makes of the state file before it restores anything: there is none, it cannot be
opened, it holds no JSON, its nesting is too deep for the decoder, or it holds a value. -/
inductive Reading where
  | absent
  | osError
  | valueError
  | recursionError
  | loaded (data : Json)

/-- The value in the file. -/
def Reading.data : Reading → Option Json
  | .loaded data => some data
  | _ => none

/-- The guard of the reading catches its error, or the value meets a condition. -/
def Reading.Caught (good : Json → Prop) : Reading → Prop
  | .recursionError => False
  | .loaded data => good data
  | _ => True

/-- The load comes to its end, with all that the file holds restored or with all as it was. -/
def AllOrNothing {σ : Type} (before : σ) (restored : Json → σ) (reading : Reading)
    (result : σ × Bool) : Prop :=
  result.2 = true ∧ (result.1 = before ∨ ∃ data ∈ reading.data, result.1 = restored data)

/-- A named counter with its accumulator and its last time. -/
abbrev SavedCounter := Text × Json × Json

/-- `c.acc, c.last = saved[name]`, for a counter that is saved. -/
def restoreCounter (saved : Json) (c : SavedCounter) : Option SavedCounter :=
  Json.withKey c.1 (fun value => value.pair.map fun p => (c.1, p)) c saved

/-- Every look for a counter finds a value that unpacks into two, or none. -/
def CountersFit (saved : Json) (counters : List SavedCounter) : Prop :=
  ∀ c ∈ counters, saved.Finds c.1 fun value => value.pair.isSome = true

/-- A counter as it is saved, or as it was. -/
def savedCounter (saved : Json) (c : SavedCounter) : SavedCounter :=
  (((saved.index c.1).bind Json.pair).map fun p => (c.1, p)).getD c

theorem restoreCounters_iff {saved : Json} {counters : List SavedCounter} :
    (mapUntil (restoreCounter saved) counters).2 = true ↔ CountersFit saved counters := by
  simp only [mapUntil_snd_iff, restoreCounter, Json.isSome_withKey_iff, Option.isSome_map,
    CountersFit]

theorem restoreCounters_eq {saved : Json} {counters : List SavedCounter}
    (h : (mapUntil (restoreCounter saved) counters).2 = true) :
    (mapUntil (restoreCounter saved) counters).1 = counters.map (savedCounter saved) := by
  apply mapUntil_fst h
  intro c _ c' hc
  rw [Json.withKey_eq hc, savedCounter, Option.map_bind]
  rfl

/-! ## The network simulator -/

/-- The start, the devices and the counters in memory, in the order of their creation. -/
structure Persisted where
  start : Json
  devices : List (Text × Fields)
  counters : List SavedCounter

/-- Restore the state of a device that the file has. -/
def restoreDevice (clock : Text → ℚ) (devices : Json) (d : Text × Fields) :
    Option (Text × Fields) :=
  Json.withKey d.1 (fun entry => (Fields.restore (clock d.1) entry).map fun f => (d.1, f)) d devices

/-- `load_state`; the flag tells whether it came to its end. -/
def Persisted.loadState (clock : Text → ℚ) (mem : Persisted) : Reading → Persisted × Bool
  | .absent | .osError | .valueError => (mem, true)
  | .recursionError => (mem, false)
  | .loaded (.obj members) =>
      let data := Json.obj members
      let start := (data.index "start".toList).getD mem.start
      let devices := mapUntil
        (restoreDevice clock ((data.index "devices".toList).getD (.obj []))) mem.devices
      if devices.2 then
        let counters := mapUntil
          (restoreCounter ((data.index "counters".toList).getD (.obj []))) mem.counters
        (⟨start, devices.1, counters.1⟩, counters.2)
      else (⟨start, devices.1, mem.counters⟩, false)
  | .loaded _ => (mem, false)

/-- The memory with all that the value holds. -/
def restored (clock : Text → ℚ) (mem : Persisted) (data : Json) : Persisted where
  start := (data.index "start".toList).getD mem.start
  devices := mem.devices.map fun d =>
    ((((data.index "devices".toList).bind (Json.index d.1)).bind
      (Fields.restore (clock d.1))).map fun f => (d.1, f)).getD d
  counters := mem.counters.map (savedCounter ((data.index "counters".toList).getD (.obj [])))

/-- The value is an object; every look for a device finds an object or none; and every look for a
counter finds a pair or none. -/
structure WellShaped (mem : Persisted) (data : Json) : Prop where
  object : data.isObj = true
  devices : ∀ d ∈ mem.devices, ((data.index "devices".toList).getD (.obj [])).Finds d.1
    fun entry => entry.isObj = true
  counters : CountersFit ((data.index "counters".toList).getD (.obj [])) mem.counters

theorem Fields.isSome_restore_iff {now : ℚ} {data : Json} :
    (Fields.restore now data).isSome = true ↔ data.isObj = true := by
  cases data <;> simp [Fields.restore, Json.get, Json.isObj]

section Simulator

variable {clock : Text → ℚ} {mem : Persisted}

theorem restoreDevices_iff {devices : Json} :
    (mapUntil (restoreDevice clock devices) mem.devices).2 = true ↔
      ∀ d ∈ mem.devices, devices.Finds d.1 fun entry => entry.isObj = true := by
  simp only [mapUntil_snd_iff, restoreDevice, Json.isSome_withKey_iff, Option.isSome_map,
    Fields.isSome_restore_iff]

theorem restoreDevices_eq {data : Json}
    (h : (mapUntil (restoreDevice clock ((data.index "devices".toList).getD (.obj [])))
      mem.devices).2 = true) :
    (mapUntil (restoreDevice clock ((data.index "devices".toList).getD (.obj [])))
      mem.devices).1 = (restored clock mem data).devices := by
  apply mapUntil_fst h
  intro d _ d' hd
  rw [Json.withKey_eq hd]
  cases data.index "devices".toList with
  | none => rfl
  | some devices =>
      rw [Option.getD_some, Option.bind_some, Option.map_bind]
      rfl

/-- A load of the simulator is all or nothing exactly if the guard catches the reading's error or
the value has the shape of a saved one. -/
theorem loadState_iff (clock : Text → ℚ) (mem : Persisted) (reading : Reading) :
    AllOrNothing mem (restored clock mem) reading (Persisted.loadState clock mem reading) ↔
      reading.Caught (WellShaped mem) := by
  cases reading with
  | absent => exact iff_of_true ⟨rfl, Or.inl rfl⟩ trivial
  | osError => exact iff_of_true ⟨rfl, Or.inl rfl⟩ trivial
  | valueError => exact iff_of_true ⟨rfl, Or.inl rfl⟩ trivial
  | recursionError => exact iff_of_false (fun h => nomatch h.1) id
  | loaded data =>
      cases data with
      | obj members =>
          constructor
          · rintro ⟨hend, -⟩
            unfold Persisted.loadState at hend
            dsimp only at hend
            split at hend
            · rename_i hdevices
              exact ⟨rfl, restoreDevices_iff.mp hdevices, restoreCounters_iff.mp hend⟩
            · cases hend
          · rintro ⟨-, hdevices, hcounters⟩
            have hdevices : (mapUntil (restoreDevice clock _) mem.devices).2 = true :=
              restoreDevices_iff.mpr hdevices
            have hcounters := restoreCounters_iff.mpr hcounters
            unfold Persisted.loadState
            dsimp only
            rw [if_pos hdevices]
            refine ⟨hcounters, Or.inr ⟨_, rfl, ?_⟩⟩
            rw [restoreDevices_eq hdevices, restoreCounters_eq hcounters]
            rfl
      | _ => exact iff_of_false (fun h => nomatch h.1) fun h => nomatch h.object

end Simulator

/-! ## Files that the simulator has saved -/

/-- The text of a snapshot, decoded. -/
def Snapshot.json (snap : Snapshot) : Json :=
  .obj [("version".toList, .num 1), ("start".toList, .num snap.start),
    ("devices".toList, .obj (snap.devices.entries.map fun e => (e.1, e.2.fields.dump))),
    ("counters".toList, .obj (snap.counters.entries.map fun e =>
      (e.1, .arr [.num e.2.1, .num e.2.2])))]

/-- What of a process is saved. -/
def Process.persisted (p : Process) : Persisted where
  start := .num p.start
  devices := p.devices.entries.map fun e => (e.1, e.2.fields)
  counters := p.counters.entries.map fun e => (e.1, .num e.2.acc, .num e.2.last)

section Saved

variable {clock : Text → ℚ} {p : Process} {snap : Snapshot}

theorem restoreDevices_saved :
    mapUntil (restoreDevice clock (.obj (snap.devices.entries.map fun e => (e.1, e.2.fields.dump))))
        p.persisted.devices =
      ((loadState p (some snap)).persisted.devices, true) := by
  simp only [Process.persisted, loadState, Dict.mapValues, List.map_map]
  apply mapUntil_map
  intro e _
  have hlookup := Json.lookup_entries snap.devices (fun state => state.fields.dump) e.1
  cases hsaved : snap.devices.get e.1 with
  | none =>
      rw [hsaved, Option.map_none] at hlookup
      simp [restoreDevice, Json.withKey, Json.contains, hlookup, hsaved]
  | some state =>
      rw [hsaved, Option.map_some] at hlookup
      simp [restoreDevice, Json.withKey, Json.contains, Json.index, hlookup, hsaved,
        Fields.restore_dump]

theorem restoreCounters_saved :
    mapUntil (restoreCounter (.obj (snap.counters.entries.map fun e =>
        (e.1, .arr [.num e.2.1, .num e.2.2])))) p.persisted.counters =
      ((loadState p (some snap)).persisted.counters, true) := by
  simp only [Process.persisted, loadState, Dict.mapValues, List.map_map]
  apply mapUntil_map
  intro e _
  have hlookup := Json.lookup_entries snap.counters (fun c => .arr [.num c.1, .num c.2]) e.1
  cases hsaved : snap.counters.get e.1 with
  | none =>
      rw [hsaved, Option.map_none] at hlookup
      simp [restoreCounter, Json.withKey, Json.contains, hlookup, hsaved, Snapshot.restoreCounter]
  | some c =>
      rw [hsaved, Option.map_some] at hlookup
      simp [restoreCounter, Json.withKey, Json.contains, Json.index, Json.pair, hlookup, hsaved,
        Snapshot.restoreCounter]

/-- Loading a file that was saved restores the snapshot in it. -/
theorem loadState_saved :
    Persisted.loadState clock p.persisted (.loaded snap.json) =
      ((loadState p (some snap)).persisted, true) := by
  have hdevices : (snap.json.index "devices".toList).getD (.obj []) =
      .obj (snap.devices.entries.map fun e => (e.1, e.2.fields.dump)) := rfl
  have hcounters : (snap.json.index "counters".toList).getD (.obj []) =
      .obj (snap.counters.entries.map fun e => (e.1, .arr [.num e.2.1, .num e.2.2])) := rfl
  unfold Snapshot.json at hdevices hcounters ⊢
  unfold Persisted.loadState
  dsimp only
  rw [hdevices, hcounters, restoreDevices_saved, restoreCounters_saved]
  rfl

end Saved

/-! ## The database host -/

/-- The start, the incident state and the counters in memory. -/
structure HostPersisted where
  start : Json
  state : Json
  degradedSince : Json
  brokenSince : Json
  stateSince : Json
  counters : List SavedCounter

/-- The saved counters by name; an older file lists them in the order of their creation. -/
def byName (counters : List SavedCounter) : Json → Json
  | .arr items =>
      if items.length = counters.length then .obj ((counters.map Prod.fst).zip items)
      else .obj []
  | saved => saved

/-- `load_state` of the database host. -/
def HostPersisted.loadState (now : ℚ) (mem : HostPersisted) : Reading → HostPersisted × Bool
  | .absent | .osError | .valueError => (mem, true)
  | .recursionError => (mem, false)
  | .loaded (.obj members) =>
      let data := Json.obj members
      match data.index "start".toList with
      | none => (mem, false)
      | some start =>
          let saved := byName mem.counters ((data.index "counters".toList).getD (.obj []))
          let counters := mapUntil (restoreCounter saved) mem.counters
          ({ start := start
             state := (data.index "state".toList).getD mem.state
             degradedSince := (data.index "degraded_since".toList).getD .null
             brokenSince := (data.index "broken_since".toList).getD .null
             stateSince := (data.index "state_since".toList).getD (.num now)
             counters := counters.1 }, counters.2)
  | .loaded _ => (mem, false)

/-- The memory with all that the value holds. -/
def restoredHost (now : ℚ) (mem : HostPersisted) (data : Json) : HostPersisted where
  start := (data.index "start".toList).getD mem.start
  state := (data.index "state".toList).getD mem.state
  degradedSince := (data.index "degraded_since".toList).getD .null
  brokenSince := (data.index "broken_since".toList).getD .null
  stateSince := (data.index "state_since".toList).getD (.num now)
  counters := mem.counters.map
    (savedCounter (byName mem.counters ((data.index "counters".toList).getD (.obj []))))

/-- The value is an object with a start, and every look for a counter finds a pair or none. -/
structure WellShapedHost (mem : HostPersisted) (data : Json) : Prop where
  start : (data.index "start".toList).isSome = true
  counters : CountersFit (byName mem.counters ((data.index "counters".toList).getD (.obj [])))
    mem.counters

/-- A load of the database host is all or nothing exactly if the guard catches the reading's error
or the value has the shape of a saved one. -/
theorem loadHost_iff (now : ℚ) (mem : HostPersisted) (reading : Reading) :
    AllOrNothing mem (restoredHost now mem) reading (HostPersisted.loadState now mem reading) ↔
      reading.Caught (WellShapedHost mem) := by
  cases reading with
  | absent => exact iff_of_true ⟨rfl, Or.inl rfl⟩ trivial
  | osError => exact iff_of_true ⟨rfl, Or.inl rfl⟩ trivial
  | valueError => exact iff_of_true ⟨rfl, Or.inl rfl⟩ trivial
  | recursionError => exact iff_of_false (fun h => nomatch h.1) id
  | loaded data =>
      cases data with
      | obj members =>
          cases hstart : (Json.obj members).index "start".toList with
          | none =>
              apply iff_of_false
              · rintro ⟨hend, -⟩
                simp only [HostPersisted.loadState, hstart, Bool.false_eq_true] at hend
              · rintro ⟨hsome, -⟩
                rw [hstart] at hsome
                cases hsome
          | some start =>
              constructor
              · rintro ⟨hend, -⟩
                simp only [HostPersisted.loadState, hstart] at hend
                exact ⟨by rw [hstart]; rfl, restoreCounters_iff.mp hend⟩
              · rintro ⟨-, hcounters⟩
                have hcounters := restoreCounters_iff.mpr hcounters
                refine ⟨by simpa only [HostPersisted.loadState, hstart] using hcounters,
                  Or.inr ⟨_, rfl, ?_⟩⟩
                simp only [HostPersisted.loadState, hstart, restoreCounters_eq hcounters,
                  restoredHost, Option.getD_some]
      | _ => exact iff_of_false (fun h => nomatch h.1) fun h => nomatch h.start

/-! ## Both -/

/-- For every content of their state files, what both programs load is all or nothing exactly if
the guard catches the reading's error or the value has the shape of a saved one. -/
theorem allOrNothing_iff (reading : Reading) :
    (∀ clock mem,
      AllOrNothing mem (restored clock mem) reading (Persisted.loadState clock mem reading) ↔
        reading.Caught (WellShaped mem)) ∧
    ∀ now mem,
      AllOrNothing mem (restoredHost now mem) reading (HostPersisted.loadState now mem reading) ↔
        reading.Caught (WellShapedHost mem) :=
  ⟨fun clock mem => loadState_iff clock mem reading, fun now mem => loadHost_iff now mem reading⟩

/-- A simulator with one device and no counters. -/
def oneDevice : Persisted where
  start := .num 1
  devices := [("rt-wan-01".toList, (DeviceState.init 1).fields)]
  counters := []

/-- A file with a start and no devices. -/
def nullDevices : Json :=
  .obj [("start".toList, .num 0), ("devices".toList, .null)]

/-- The start is restored, and the load ends at the first device. -/
theorem not_allOrNothing_nullDevices :
    ¬ ∀ (clock : Text → ℚ) (mem : Persisted) (reading : Reading),
      AllOrNothing mem (restored clock mem) reading (Persisted.loadState clock mem reading) := by
  intro hclaim
  have hend := (hclaim (fun _ => 0) oneDevice (.loaded nullDevices)).1
  cases hend

end Netsim
end DemoEstate
