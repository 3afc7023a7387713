import DemoEstate.Netsim.Persistence
import DemoEstate.Netsim.Watchdog

/-!
# Walk files that cannot be written

A toggle request changes the device in memory, writes the walk file of every device and saves the
state, in this order; the watchdog writes the walk files after an escalation, and the renderer
does so all the time.  Writing a walk file may fail.  Only the renderer catches the error: it ends
the request before the state is saved, and it ends the thread of the watchdog.

Main definitions:

- Definition {lit}`Config.writeWalks`: the walk files in turn, up to the first failure.
- Definition {lit}`Config.step`: requests, the watchdog and the renderer.
- Definition {lit}`Orderly`: memory, file and threads agree after a step.
- Definition {lit}`Unharmed`: no failure in the step does harm.

Main results:

- Theorem {lit}`Config.escalates_iff`: the devices that the watchdog can still come to break.
- Theorem {lit}`orderly_runs_iff`: the runs in which memory, file and threads keep agreeing.
-/

namespace DemoEstate
namespace Netsim

open Transition (Run Meeting Graph)

/-! ## Writing the walk files -/

/-- The simulator writes walk files into a directory of the site, or it answers live and leaves the
directory unset. -/
inductive Transport where
  | walk (dir : Text)
  | snmp

/-- The directory of the walk files. -/
def Transport.walksDir : Transport → Text
  | .walk dir => dir
  | .snmp => []

/-- A name under a directory. -/
def joinPath (dir name : Text) : Text :=
  if name.head? = some '/' then name
  else if dir = [] ∨ dir.getLast? = some '/' then dir ++ name
  else dir ++ '/' :: name

/-- The path that a file is written to before it is moved. -/
def tmpPath (path : Text) : Text :=
  path ++ ".tmp".toList

/-- How a simulator is started; each device has a name and may have incident toggles. -/
structure Config where
  transport : Transport
  domain : Text
  stateFile : Text
  limit : ℚ
  devices : List (Text × Bool)

/-- How one writing of the walk files goes: the paths that can be opened, those that can be written
and replaced, and what the renderings make of the counters. -/
structure Writing where
  opens : Text → Bool
  lands : Text → Bool
  render : Text → Dict Text Counter → Dict Text Counter

namespace Config

/-- The names of the devices. -/
def shorts (cfg : Config) : List Text :=
  cfg.devices.map Prod.fst

/-- The devices with incident toggles. -/
def incidents (cfg : Config) : List Text :=
  (cfg.devices.filter Prod.snd).map Prod.fst

/-- The walk file of a device. -/
def walkPath (cfg : Config) (short : Text) : Text :=
  joinPath cfg.transport.walksDir (short ++ '.' :: cfg.domain)

/-- `write_walks`, over the devices that are left; the flag tells whether it came to its end. -/
def writeWalks (cfg : Config) (w : Writing) :
    List Text → Dict Text Counter → Dict Text Counter × Bool
  | [], counters => (counters, true)
  | short :: rest, counters =>
      let path := cfg.walkPath short
      if w.opens (tmpPath path) then
        let counters := w.render short counters
        if w.lands path then cfg.writeWalks w rest counters else (counters, false)
      else (counters, false)

/-- Every walk file can be written. -/
def Writes (cfg : Config) (w : Writing) : Prop :=
  ∀ short ∈ cfg.shorts,
    w.opens (tmpPath (cfg.walkPath short)) = true ∧ w.lands (cfg.walkPath short) = true

/-- The loop comes to its end exactly if every file in it can be written. -/
theorem writeWalks_snd_iff {cfg : Config} {w : Writing} {shorts : List Text}
    {counters : Dict Text Counter} :
    (cfg.writeWalks w shorts counters).2 = true ↔
      ∀ short ∈ shorts, w.opens (tmpPath (cfg.walkPath short)) = true ∧
        w.lands (cfg.walkPath short) = true := by
  induction shorts generalizing counters with
  | nil => simp [writeWalks]
  | cons short rest ih =>
      unfold writeWalks
      by_cases hopens : w.opens (tmpPath (cfg.walkPath short)) = true
      · by_cases hlands : w.lands (cfg.walkPath short) = true
        · simp [hopens, hlands, ih]
        · simp [hopens, hlands]
      · simp [hopens]

end Config

/-! ## The running simulator -/

/-- The states of the devices with the watchdog among them, the other data in memory, what the
state file holds, and whether the thread of the watchdog is still there. -/
structure Service where
  patrol : Patrol
  start : ℚ
  counters : Dict Text Counter
  saved : Option Snapshot
  watching : Bool

/-- Time passes, a request toggles a device, the watchdog takes a step, and the walk files or the
state are written in turn.  Each writing goes in its own way, and a save may fail. -/
inductive Activity where
  | clock (d : ℚ≥0)
  | request (short : Text) (value : Incident) (w : Writing) (saves : Bool)
  | wake
  | look
  | age
  | escalate (w : Writing)
  | render (w : Writing) (saves : Bool)

namespace Config

/-- The data that a save collects. -/
def snapshot (cfg : Config) (s : Service) : Snapshot where
  start := s.start
  devices := Dict.ofRows (cfg.shorts.map fun short => (short, s.patrol.devices short))
  counters := s.counters.mapValues fun _ c => (c.acc, c.last)

/-- `save_state`, which catches its own failure. -/
def saveState (cfg : Config) (saves : Bool) (s : Service) : Service :=
  if cfg.stateFile ≠ [] ∧ saves = true then { s with saved := some (cfg.snapshot s) } else s

/-- Write the walk files, and then save the state. -/
def writeAndSave (cfg : Config) (w : Writing) (saves : Bool) (s : Service) : Service :=
  let written := cfg.writeWalks w cfg.shorts s.counters
  let s := { s with counters := written.1 }
  if written.2 then cfg.saveState saves s else s

/-- A step of the devices and the watchdog. -/
def move (cfg : Config) (s : Service) (m : Move) : Option Service :=
  (s.patrol.step cfg.incidents cfg.limit m).map fun p => { s with patrol := p }

/-- A step of the watchdog. -/
def watch (cfg : Config) (s : Service) (m : Move) : Option Service :=
  if s.watching then cfg.move s m else none

/-- The steps of the threads. -/
def step (cfg : Config) (s : Service) : Activity → Option Service
  | .clock d => cfg.move s (.clock d)
  | .request short value w saves =>
      (cfg.move s (.toggle short value)).map (cfg.writeAndSave w saves)
  | .wake => cfg.watch s .wake
  | .look => cfg.watch s .look
  | .age => cfg.watch s .age
  | .escalate w =>
      (cfg.watch s .escalate).map fun s =>
        let written := cfg.writeWalks w cfg.shorts s.counters
        { s with counters := written.1, watching := written.2 }
  | .render w saves =>
      match cfg.transport with
      | .walk _ => some (cfg.writeAndSave w saves s)
      | .snmp => some (cfg.saveState saves s)

/-- One state leads to another. -/
def Reaches (cfg : Config) (s u : Service) : Prop :=
  ∃ activities, Run (Graph cfg.step) s activities u

/-- The thread of the watchdog can come to a state with a property. -/
def ComesTo (cfg : Config) (s : Service) (good : Patrol → Prop) : Prop :=
  ∃ u, cfg.Reaches s u ∧ u.watching = true ∧ good u.patrol

/-- The watchdog can come to break the device out of the degraded state. -/
def Escalates (cfg : Config) (s : Service) (short : Text) : Prop :=
  cfg.ComesTo s fun p =>
    (∃ rest, p.watch = .due short rest) ∧ (p.devices short).state = .degraded

end Config

/-- The incident state of a device in the state file. -/
def Service.savedState (s : Service) (short : Text) : Option Incident :=
  (s.saved.bind fun snap => snap.devices.get short).map DeviceState.state

/-- After a request whose save would succeed, the state file holds the state of the device; and
after an escalation, the watchdog can still come to break the other devices. -/
def Orderly (cfg : Config) (s : Service) : Activity → Prop
  | .request short value w saves => cfg.stateFile ≠ [] → saves = true →
      ∀ s' ∈ cfg.step s (.request short value w saves),
        s'.savedState short = some (s'.patrol.devices short).state
  | .escalate w => ∀ s' ∈ cfg.step s (.escalate w),
      ∀ other ∈ cfg.incidents, s.patrol.watch.target ≠ some other → cfg.Escalates s' other
  | _ => True

/-- All walk files can be written; or the state file holds what the request sets already; or there
is no other device to be escalated. -/
def Unharmed (cfg : Config) (s : Service) : Activity → Prop
  | .request short value w saves => cfg.stateFile ≠ [] → saves = true →
      cfg.Writes w ∨ s.savedState short = some value
  | .escalate w => cfg.Writes w ∨ ∀ other ∈ cfg.incidents, s.patrol.watch.target = some other
  | _ => True

/-- A writing in which nothing fails. -/
def Writing.clean : Writing where
  opens := fun _ => true
  lands := fun _ => true
  render := fun _ counters => counters

/-! ## What the threads share -/

section Steps

variable {cfg : Config} {w : Writing} {saves : Bool} {s s' t u : Service} {short other : Text}
  {value : Incident} {rest : List Text} {good good' : Patrol → Prop}

namespace Config

theorem mem_shorts_of_mem_incidents (h : short ∈ cfg.incidents) : short ∈ cfg.shorts := by
  obtain ⟨d, hd, rfl⟩ := List.mem_map.mp h
  exact List.mem_map_of_mem (List.mem_of_mem_filter hd)

/-- A save collects the state of every device. -/
theorem get_snapshot_devices (h : short ∈ cfg.shorts) :
    (cfg.snapshot s).devices.get short = some (s.patrol.devices short) := by
  have hmem : short ∈ (cfg.shorts.map fun name => (name, s.patrol.devices name)).map Prod.fst := by
    rw [List.map_map]
    exact List.mem_map.mpr ⟨short, h, rfl⟩
  obtain ⟨state, hrow, hget⟩ := Dict.get_update_of_mem Dict.empty hmem
  obtain ⟨name, -, hrow⟩ := List.mem_map.mp hrow
  cases hrow
  exact hget

@[simp]
theorem saveState_patrol : (cfg.saveState saves s).patrol = s.patrol := by
  unfold saveState
  split <;> rfl

@[simp]
theorem saveState_watching : (cfg.saveState saves s).watching = s.watching := by
  unfold saveState
  split <;> rfl

@[simp]
theorem writeAndSave_patrol : (cfg.writeAndSave w saves s).patrol = s.patrol := by
  unfold writeAndSave
  dsimp only
  split
  · rw [saveState_patrol]
  · rfl

@[simp]
theorem writeAndSave_watching : (cfg.writeAndSave w saves s).watching = s.watching := by
  unfold writeAndSave
  dsimp only
  split
  · rw [saveState_watching]
  · rfl

/-- A save that succeeds puts the state of every device into the file. -/
theorem savedState_saveState (hfile : cfg.stateFile ≠ []) (hsaves : saves = true)
    (h : short ∈ cfg.shorts) :
    (cfg.saveState saves s).savedState short = some (s.patrol.devices short).state := by
  rw [saveState, if_pos ⟨hfile, hsaves⟩, Service.savedState, Option.bind_some,
    get_snapshot_devices h, Option.map_some]

/-- After writing and saving, the file holds the state of a device exactly if the writing came to
its end or the file held the state before. -/
theorem savedState_writeAndSave_iff (hfile : cfg.stateFile ≠ []) (hsaves : saves = true)
    (h : short ∈ cfg.shorts) :
    (cfg.writeAndSave w saves s).savedState short = some (s.patrol.devices short).state ↔
      cfg.Writes w ∨ s.savedState short = some (s.patrol.devices short).state := by
  unfold writeAndSave
  dsimp only
  split
  · rename_i hwritten
    exact iff_of_true (savedState_saveState hfile hsaves h) (Or.inl (writeWalks_snd_iff.mp hwritten))
  · rename_i hwritten
    have hfails : ¬ cfg.Writes w := fun hwrites => hwritten (writeWalks_snd_iff.mpr hwrites)
    rw [or_iff_right hfails]
    rfl

/-! ## The watchdog -/

theorem move_eq_some_iff {m : Move} :
    cfg.move s m = some s' ↔
      ∃ p, s.patrol.step cfg.incidents cfg.limit m = some p ∧ { s with patrol := p } = s' :=
  Option.map_eq_some_iff

theorem watch_eq_some_iff {m : Move} :
    cfg.watch s m = some s' ↔ s.watching = true ∧
      ∃ p, s.patrol.step cfg.incidents cfg.limit m = some p ∧ { s with patrol := p } = s' := by
  rw [watch, Option.ite_none_right_eq_some, move_eq_some_iff]

/-- A thread that has ended stays ended. -/
theorem watching_of_step {activity : Activity} (hstep : cfg.step s activity = some s')
    (h : s'.watching = true) : s.watching = true := by
  cases activity with
  | clock d =>
      obtain ⟨p, -, rfl⟩ := move_eq_some_iff.mp hstep
      exact h
  | request short value w saves =>
      obtain ⟨t, ht, rfl⟩ := Option.map_eq_some_iff.mp hstep
      obtain ⟨p, -, rfl⟩ := move_eq_some_iff.mp ht
      rwa [writeAndSave_watching] at h
  | wake => exact (watch_eq_some_iff.mp hstep).1
  | look => exact (watch_eq_some_iff.mp hstep).1
  | age => exact (watch_eq_some_iff.mp hstep).1
  | escalate w =>
      obtain ⟨t, ht, -⟩ := Option.map_eq_some_iff.mp hstep
      exact (watch_eq_some_iff.mp ht).1
  | render w saves =>
      unfold step at hstep
      dsimp only at hstep
      split at hstep <;> cases hstep
      · rwa [writeAndSave_watching] at h
      · rwa [saveState_watching] at h

theorem watching_of_reaches (h : cfg.Reaches s u) (hu : u.watching = true) :
    s.watching = true := by
  obtain ⟨activities, hrun⟩ := h
  induction hrun with
  | nil s => exact hu
  | cons head _ ih => exact watching_of_step head (ih hu)

theorem Reaches.refl (s : Service) : cfg.Reaches s s :=
  ⟨[], Run.nil s⟩

theorem Reaches.head {activity : Activity} (hstep : cfg.step s activity = some t)
    (h : cfg.Reaches t u) : cfg.Reaches s u :=
  h.imp' (activity :: ·) fun _ hrun => Run.cons hstep hrun

theorem Reaches.trans (hleft : cfg.Reaches s t) (hright : cfg.Reaches t u) : cfg.Reaches s u := by
  obtain ⟨_, hst⟩ := hleft
  obtain ⟨_, htu⟩ := hright
  exact ⟨_, hst.append htu⟩

theorem ComesTo.here (hs : s.watching = true) (h : good s.patrol) : cfg.ComesTo s good :=
  ⟨s, Reaches.refl s, hs, h⟩

theorem ComesTo.head {activity : Activity} (hstep : cfg.step s activity = some t)
    (h : cfg.ComesTo t good) : cfg.ComesTo s good := by
  obtain ⟨u, hreach, hu⟩ := h
  exact ⟨u, hreach.head hstep, hu⟩

theorem ComesTo.bind (h : cfg.ComesTo s good)
    (hnext : ∀ u : Service, u.watching = true → good u.patrol → cfg.ComesTo u good') :
    cfg.ComesTo s good' := by
  obtain ⟨t, hreach, ht, hgood⟩ := h
  obtain ⟨u, hreach', hu⟩ := hnext t ht hgood
  exact ⟨u, hreach.trans hreach', hu⟩

/-- The watchdog takes a step in which it writes no walk files. -/
theorem ComesTo.watch (activity : Activity) {m : Move} {p : Patrol} (hs : s.watching = true)
    (hactivity : cfg.step s activity = cfg.watch s m)
    (hstep : s.patrol.step cfg.incidents cfg.limit m = some p)
    (hnext : ∀ u : Service, u.watching = true → u.patrol = p → cfg.ComesTo u good) :
    cfg.ComesTo s good := by
  have hwatch := watch_eq_some_iff.mpr ⟨hs, p, hstep, rfl⟩
  exact (hnext { s with patrol := p } hs rfl).head (hactivity.trans hwatch)

theorem comesTo_of_due (hs : s.watching = true) (h : s.patrol.watch = .due short rest) :
    cfg.ComesTo s (·.watch = .scanning rest) := by
  have hpatrol : s.patrol.step cfg.incidents cfg.limit .escalate =
      some { s.patrol.set short .broken with watch := .scanning rest } := by
    simp only [Patrol.step, h]
  have hwatch := watch_eq_some_iff.mpr ⟨hs, _, hpatrol, rfl⟩
  have hstep : cfg.step s (.escalate .clean) = _ := congrArg (Option.map _) hwatch
  refine ComesTo.head hstep (ComesTo.here ?_ ?_)
  · exact writeWalks_snd_iff.mpr fun _ _ => ⟨rfl, rfl⟩
  · rfl

theorem comesTo_of_degraded (hs : s.watching = true) (h : s.patrol.watch = .degraded short rest) :
    cfg.ComesTo s (·.watch = .scanning rest) := by
  by_cases hage : cfg.limit ≤ s.patrol.now - (s.patrol.devices short).stateSince
  · have hpatrol : s.patrol.step cfg.incidents cfg.limit .age =
        some { s.patrol with watch := .due short rest } := by
      simp only [Patrol.step, h, if_pos hage]
    exact ComesTo.watch .age hs rfl hpatrol fun u hu hp =>
      comesTo_of_due hu (by rw [hp])
  · have hpatrol : s.patrol.step cfg.incidents cfg.limit .age =
        some { s.patrol with watch := .scanning rest } := by
      simp only [Patrol.step, h, if_neg hage]
    exact ComesTo.watch .age hs rfl hpatrol fun u hu hp =>
      ComesTo.here hu (by rw [hp])

theorem comesTo_of_scanning (hs : s.watching = true)
    (h : s.patrol.watch = .scanning (short :: rest)) : cfg.ComesTo s (·.watch = .scanning rest) := by
  by_cases hstate : (s.patrol.devices short).state = .degraded
  · have hpatrol : s.patrol.step cfg.incidents cfg.limit .look =
        some { s.patrol with watch := .degraded short rest, changed := none } := by
      simp only [Patrol.step, h, if_pos hstate]
    exact ComesTo.watch .look hs rfl hpatrol fun u hu hp =>
      comesTo_of_degraded hu (by rw [hp])
  · have hpatrol : s.patrol.step cfg.incidents cfg.limit .look =
        some { s.patrol with watch := .scanning rest } := by
      simp only [Patrol.step, h, if_neg hstate]
    exact ComesTo.watch .look hs rfl hpatrol fun u hu hp =>
      ComesTo.here hu (by rw [hp])

/-- The watchdog can pass any number of devices. -/
theorem comesTo_of_append (passed : List Text) (hs : s.watching = true)
    (h : s.patrol.watch = .scanning (passed ++ rest)) : cfg.ComesTo s (·.watch = .scanning rest) := by
  induction passed generalizing s with
  | nil => exact ComesTo.here hs h
  | cons short passed ih => exact (comesTo_of_scanning hs h).bind fun _ hu hat => ih hu hat

theorem comesTo_asleep_of_scanning (hs : s.watching = true)
    (h : s.patrol.watch = .scanning rest) : cfg.ComesTo s (·.watch = .asleep) := by
  have hend : cfg.ComesTo s (·.watch = .scanning []) :=
    comesTo_of_append rest hs (h.trans (by rw [List.append_nil]))
  refine hend.bind fun t ht hat => ?_
  have hpatrol : t.patrol.step cfg.incidents cfg.limit .look =
      some { t.patrol with watch := .asleep } := by
    simp only [Patrol.step, hat]
  exact ComesTo.watch .look ht rfl hpatrol fun u hu hp =>
    ComesTo.here hu (by rw [hp])

theorem comesTo_asleep (hs : s.watching = true) : cfg.ComesTo s (·.watch = .asleep) := by
  cases h : s.patrol.watch with
  | asleep => exact ComesTo.here hs h
  | scanning rest => exact comesTo_asleep_of_scanning hs h
  | degraded short rest =>
      exact (comesTo_of_degraded hs h).bind fun u hu hat => comesTo_asleep_of_scanning hu hat
  | due short rest =>
      exact (comesTo_of_due hs h).bind fun u hu hat => comesTo_asleep_of_scanning hu hat

/-- The watchdog can come to stand before any device with incident toggles. -/
theorem comesTo_device (hs : s.watching = true) (h : short ∈ cfg.incidents) :
    ∃ rest, cfg.ComesTo s (·.watch = .scanning (short :: rest)) := by
  obtain ⟨passed, rest, hsplit⟩ := List.append_of_mem h
  refine ⟨rest, (comesTo_asleep hs).bind fun t ht hat => ?_⟩
  have hpatrol : t.patrol.step cfg.incidents cfg.limit .wake =
      some { t.patrol with watch := .scanning cfg.incidents } := by
    simp only [Patrol.step, hat]
  exact ComesTo.watch .wake ht rfl hpatrol fun u hu hp =>
    comesTo_of_append passed hu (by rw [hp, hsplit])

/-- A request changes the device and leaves the watchdog where it is. -/
theorem step_request (h : short ∈ cfg.incidents) (value : Incident) :
    ∃ u, cfg.step s (.request short value .clean false) = some u ∧
      u.watching = s.watching ∧ u.patrol.watch = s.patrol.watch ∧
      u.patrol.now = s.patrol.now ∧
      u.patrol.devices short = (s.patrol.devices short).set value s.patrol.now := by
  have hmove : cfg.move s (.toggle short value) = some { s with
      patrol := { s.patrol.set short value with changed := s.patrol.noted short value } } := by
    simp only [move, Patrol.step, if_pos h, Option.map_some]
  refine ⟨_, congrArg (Option.map _) hmove, writeAndSave_watching, ?_⟩
  rw [writeAndSave_patrol]
  refine ⟨rfl, rfl, ?_⟩
  dsimp only
  rw [Patrol.set_devices, if_pos rfl]

/-- Before a device that has just been degraded, the watchdog waits until its time has come. -/
theorem escalates_of_degraded (hs : s.watching = true)
    (hwatch : s.patrol.watch = .scanning (short :: rest))
    (hstate : (s.patrol.devices short).state = .degraded)
    (hsince : (s.patrol.devices short).stateSince = s.patrol.now) : cfg.Escalates s short := by
  have hclock : cfg.step s (.clock cfg.limit.toNNRat) = some { s with
      patrol := { s.patrol with now := s.patrol.now + (cfg.limit.toNNRat : ℚ) } } := rfl
  refine ComesTo.head hclock ?_
  have hlook : ({ s.patrol with now := s.patrol.now + (cfg.limit.toNNRat : ℚ) } : Patrol).step
      cfg.incidents cfg.limit .look = some { s.patrol with
        now := s.patrol.now + (cfg.limit.toNNRat : ℚ)
        watch := .degraded short rest
        changed := none } := by
    simp only [Patrol.step, hwatch, if_pos hstate]
  refine ComesTo.watch .look hs rfl hlook fun u hu hp => ?_
  have hwaited : cfg.limit ≤ u.patrol.now - (u.patrol.devices short).stateSince := by
    rw [hp, hsince, add_sub_cancel_left]
    exact Rat.le_coe_toNNRat cfg.limit
  have hage : u.patrol.step cfg.incidents cfg.limit .age =
      some { u.patrol with watch := .due short rest } := by
    rw [hp] at hwaited ⊢
    simp only [Patrol.step, if_pos hwaited]
  refine ComesTo.watch .age hu rfl hage fun v hv hq => ?_
  refine ComesTo.here hv ⟨⟨rest, by rw [hq]⟩, ?_⟩
  rw [hq, hp]
  exact hstate

/-- The watchdog can still come to break a device exactly if its thread is there. -/
theorem escalates_iff (h : short ∈ cfg.incidents) :
    cfg.Escalates s short ↔ s.watching = true := by
  constructor
  · rintro ⟨u, hreach, hu, -⟩
    exact watching_of_reaches hreach hu
  · intro hs
    obtain ⟨rest, hdevice⟩ := comesTo_device hs h
    refine hdevice.bind fun t ht hat => ?_
    -- The device is healed and degraded anew, and the watchdog waits until its time has come.
    obtain ⟨t₁, hheal, hs₁, hat₁, -, hdev₁⟩ := step_request (s := t) h .healthy
    obtain ⟨t₂, hdegrade, hs₂, hat₂, hnow₂, hdev₂⟩ := step_request (s := t₁) h .degraded
    have hstate : (t₂.patrol.devices short).state = .degraded := by
      rw [hdev₂, DeviceState.set_state]
    have hsince : (t₂.patrol.devices short).stateSince = t₂.patrol.now := by
      rw [hdev₂, DeviceState.set_stateSince, hdev₁, DeviceState.set_state, if_pos (by decide),
        hnow₂]
    have hwatching : t₂.watching = true := by rw [hs₂, hs₁, ht]
    have hwatch : t₂.patrol.watch = .scanning (short :: rest) := by rw [hat₂, hat₁, hat]
    have hescalates : cfg.Escalates t₂ short := escalates_of_degraded hwatching hwatch hstate hsince
    exact (hescalates.head hdegrade).head hheal

end Config

/-! ## Runs -/

/-- After a request the file agrees with memory exactly if no failure in it does harm. -/
theorem orderly_request_iff (hstep : cfg.step s (.request short value w saves) = some t) :
    Orderly cfg s (.request short value w saves) ↔
      Unharmed cfg s (.request short value w saves) := by
  have hend := hstep
  obtain ⟨u, hmove, rfl⟩ := Option.map_eq_some_iff.mp hstep
  obtain ⟨p, hpatrol, rfl⟩ := Config.move_eq_some_iff.mp hmove
  simp only [Patrol.step, Option.ite_none_right_eq_some, Option.some.injEq] at hpatrol
  obtain ⟨hincident, rfl⟩ := hpatrol
  have hstate : ((s.patrol.set short value).devices short).state = value := by
    rw [Patrol.set_devices, if_pos rfl, DeviceState.set_state]
  simp only [Orderly, Unharmed, hend, Option.mem_def, Option.some.injEq, forall_eq']
  refine forall_congr' fun hfile => forall_congr' fun hsaves => ?_
  have hiff := Config.savedState_writeAndSave_iff (w := w) (s := { s with
    patrol := { s.patrol.set short value with changed := s.patrol.noted short value } })
    hfile hsaves (Config.mem_shorts_of_mem_incidents hincident)
  dsimp only at hiff
  rw [hstate] at hiff
  rw [Config.writeAndSave_patrol]
  dsimp only
  rw [hstate]
  exact hiff

/-- After an escalation the thread can still escalate the others exactly if no failure in it does
harm. -/
theorem orderly_escalate_iff (hstep : cfg.step s (.escalate w) = some t) :
    Orderly cfg s (.escalate w) ↔ Unharmed cfg s (.escalate w) := by
  have hend := hstep
  obtain ⟨u, hwatch, rfl⟩ := Option.map_eq_some_iff.mp hstep
  simp only [Orderly, Unharmed, hend, Option.mem_def, Option.some.injEq, forall_eq']
  constructor
  · intro hothers
    by_cases hwrites : cfg.Writes w
    · exact Or.inl hwrites
    · refine Or.inr fun other hother => ?_
      by_contra htarget
      have hescalates := (Config.escalates_iff hother).mp (hothers other hother htarget)
      exact hwrites (Config.writeWalks_snd_iff.mp hescalates)
  · rintro (hwrites | hnone) other hother htarget
    · exact (Config.escalates_iff hother).mpr (Config.writeWalks_snd_iff.mpr hwrites)
    · exact absurd (hnone other hother) htarget

theorem orderly_iff_unharmed {activity : Activity} (hstep : cfg.step s activity = some t) :
    Orderly cfg s activity ↔ Unharmed cfg s activity := by
  cases activity with
  | request short value w saves => exact orderly_request_iff hstep
  | escalate w => exact orderly_escalate_iff hstep
  | _ => exact Iff.rfl

/-- In every run, from any state, each request leaves the file in agreement with memory and each
escalation leaves the watchdog able to escalate, exactly if no failure does harm. -/
theorem orderly_runs_iff {activities : List Activity} :
    Run (Meeting (Graph cfg.step) (Orderly cfg)) s activities t ↔
      Run (Meeting (Graph cfg.step) (Unharmed cfg)) s activities t :=
  Run.meeting_congr (I := fun _ => True) (fun _ _ _ _ _ => trivial)
    (fun _ _ _ _ hstep => orderly_iff_unharmed hstep) trivial

end Steps

/-! ## A directory that is not writable -/

/-- The live simulator in a working directory that is not writable. -/
def readOnly : Config where
  transport := .snmp
  domain := "example.com".toList
  stateFile := "/var/tmp/state.json".toList
  limit := 1200
  devices := [("rt-wan-01".toList, true), ("sw-access-01".toList, true)]

/-- No path can be opened. -/
def Writing.refused : Writing where
  opens := fun _ => false
  lands := fun _ => false
  render := fun _ counters => counters

/-- A simulator that has just been started without a state file. -/
def freshService : Service where
  patrol := Patrol.boot 0 fun _ => DeviceState.init 0
  start := 0
  counters := Dict.empty
  saved := none
  watching := true

/-- The device is degraded in memory, and nothing is saved. -/
theorem not_orderly_refused :
    ¬ ∀ (cfg : Config) (s t : Service) (activities : List Activity),
      Run (Graph cfg.step) s activities t →
        Run (Meeting (Graph cfg.step) (Orderly cfg)) s activities t := by
  intro hclaim
  have hrun : Run (Graph readOnly.step) freshService
      [.request "rt-wan-01".toList .degraded .refused true] _ :=
    Run.cons rfl (Run.nil _)
  cases hclaim _ _ _ _ hrun with
  | cons hhead htail =>
      have hsaved := hhead.2 (by decide) rfl _ rfl
      cases hsaved

end Netsim
end DemoEstate
