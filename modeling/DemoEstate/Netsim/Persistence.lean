import DemoEstate.Library.Transition
import DemoEstate.Netsim.Counter

/-!
# Saved counters, kills and restarts

The simulator dumps its counters to a state file from a background thread, reads
the file back at the next start and installs no handler for the signal it is
stopped with.  A run interleaves clock steps, samples, toggles, the single reads
and file operations of any number of savers, kills and restarts.

Main definitions:

- Definition {lit}`Saver.step`: one read or file operation of a save.
- Definition {lit}`loadState`: what a start restores from the state file.
- Definition {lit}`Sim.step`: the transitions of the simulator.

Main results:

- Theorem {lit}`inv_step`: one transition that meets the condition preserves the
  invariant.
- Theorem {lit}`ascending_of_durable`: in every run that is only killed when the
  file would restore what memory holds, no emitted counter ever decreases.
- Theorem {lit}`not_ascending_across_kill`: a kill between two saves makes the
  next value smaller.
-/

namespace DemoEstate
namespace Netsim

open Transition

/-! ## The process, its snapshot and its files -/

/-- What the command line and the device classes construct. -/
structure Assembly where
  devices : List Text
  counters : List CounterSpec

/-- The persisted part of the memory of a running simulator. -/
structure Process where
  start : ℚ
  devices : Dict Text DeviceState
  counters : Dict Text Counter

/-- The data a save collects; a counter is its accumulator and last time. -/
structure Snapshot where
  start : ℚ
  devices : Dict Text DeviceState
  counters : Dict Text (ℚ × ℚ)

/-- Construct the devices and register their counters. -/
def Process.assemble (asm : Assembly) (now : ℚ) : Process where
  start := now
  devices := Dict.ofRows (asm.devices.map fun short => (short, DeviceState.init now))
  counters := (Dict.ofRows (asm.counters.map fun spec => (spec.name, spec))).mapValues
    fun _ spec => spec.counter now

/-- Overwrite a counter with its saved accumulator and time. -/
def Snapshot.restoreCounter (snap : Snapshot) (name : Text) (c : Counter) : Counter :=
  match snap.counters.get name with
  | none => c
  | some (acc, last) => { c with acc := acc, last := last }

/-- Restore what the file holds; a missing or unreadable file changes nothing. -/
def loadState (p : Process) : Option Snapshot → Process
  | none => p
  | some snap =>
      { start := snap.start
        devices := p.devices.mapValues fun short state => (snap.devices.get short).getD state
        counters := p.counters.mapValues snap.restoreCounter }

/-- A start: assemble the devices, then load the state file. -/
def Process.launch (asm : Assembly) (now : ℚ) (saved : Option Snapshot) : Process :=
  loadState (Process.assemble asm now) saved

/-- The state file and the temporary path beside it name file contents; content
that is not a whole snapshot cannot be read back. -/
structure Files where
  content : Nat → Option Snapshot
  fresh : Nat
  tmp : Option Nat
  stateFile : Option Nat

/-- What a start reads from the state file. -/
def Files.read (f : Files) : Option Snapshot :=
  f.stateFile.bind f.content

/-- Replace the content of one file. -/
def Files.put (f : Files) (n : Nat) (snap : Option Snapshot) : Files :=
  { f with content := fun m => if m = n then snap else f.content m }

/-- Open the temporary path for writing: truncate it, or create it. -/
def Files.openTmp (f : Files) : Nat × Files :=
  match f.tmp with
  | some n => (n, f.put n none)
  | none => (f.fresh, { f.put f.fresh none with tmp := some f.fresh, fresh := f.fresh + 1 })

/-- Rename the temporary path over the state file; without one this fails. -/
def Files.replace (f : Files) : Files :=
  match f.tmp with
  | some n => { f with stateFile := some n, tmp := none }
  | none => f

/-! ## One save -/

/-- Where a thread stands within a save. -/
inductive Saver where
  | idle
  | dumping (snap : Snapshot) (devices counters : List Text)
  | halfRead (snap : Snapshot) (name : Text) (acc : ℚ) (counters : List Text)
  | opened (snap : Snapshot) (file : Nat)
  | written

/-- The single operations of a save. -/
inductive SaverMove where
  | start
  | device
  | acc
  | last
  | openTmp
  | write (whole : Bool)
  | replace
  | fail
deriving DecidableEq

/-- One operation of a save.  A counter's accumulator and time are two reads, and a
write may be mixed with that of another saver on the shared temporary path. -/
def Saver.step (p : Process) (files : Files) : Saver → SaverMove → Option (Saver × Files)
  | .idle, .start =>
      some (.dumping ⟨p.start, .empty, .empty⟩ p.devices.keys p.counters.keys, files)
  | .dumping snap (d :: ds) cs, .device =>
      (p.devices.get d).map fun state =>
        (.dumping { snap with devices := snap.devices.set d state } ds cs, files)
  | .dumping snap [] (c :: cs), .acc =>
      (p.counters.get c).map fun counter => (.halfRead snap c counter.acc cs, files)
  | .halfRead snap c acc cs, .last =>
      (p.counters.get c).map fun counter =>
        (.dumping { snap with counters := snap.counters.set c (acc, counter.last) } [] cs, files)
  | .dumping snap [] [], .openTmp => some (.opened snap files.openTmp.1, files.openTmp.2)
  | .opened snap n, .write whole =>
      some (.written, files.put n (if whole then some snap else none))
  | .written, .replace => some (.idle, files.replace)
  | .idle, .fail => none
  | _, .fail => some (.idle, files)
  | _, _ => none

/-! ## Runs of the simulator -/

/-- The clock, the running process if there is one, its savers, the files, and the
values emitted so far, newest first. -/
structure Sim where
  now : ℚ
  process : Option Process
  savers : Nat → Saver
  files : Files
  emitted : List (Text × ℤ)

/-- The transitions: time passes, a poll samples a counter with a clock value read
at most now, a device is toggled, saver `i` moves, the process dies or starts. -/
inductive Label where
  | clock (d : ℚ≥0)
  | sample (name : Text) (rate : ℚ) (cap : Option ℚ) (raw at_ : ℚ)
  | toggle (short : Text) (value : Incident)
  | save (i : Nat) (move : SaverMove)
  | kill
  | restart

/-- One transition of the simulator. -/
def Sim.step (asm : Assembly) (s : Sim) : Label → Option Sim
  | .clock d => some { s with now := s.now + d }
  | .sample name rate cap raw at_ => do
      let p ← s.process
      let c ← p.counters.get name
      if at_ ≤ s.now then
        let c' := c.sample rate cap raw at_
        some { s with
          process := some { p with counters := p.counters.set name c' }
          emitted := (name, c'.value) :: s.emitted }
      else none
  | .toggle short value => do
      let p ← s.process
      let state ← p.devices.get short
      some { s with
        process := some { p with devices := p.devices.set short (state.set value s.now) } }
  | .save i move => do
      let p ← s.process
      let (saver, files) ← (s.savers i).step p s.files move
      some { s with
        savers := fun j => if j = i then saver else s.savers j
        files := files }
  | .kill => do
      let _ ← s.process
      some { s with process := none, savers := fun _ => .idle }
  | .restart =>
      match s.process with
      | some _ => none
      | none => some { s with process := some (Process.launch asm s.now s.files.read) }

/-- A simulator that is not running. -/
def Sim.off (now : ℚ) (files : Files) : Sim where
  now := now
  process := none
  savers := fun _ => .idle
  files := files
  emitted := []

/-- No counter's later value is below an earlier one. -/
def Ascending (emitted : List (Text × ℤ)) : Prop :=
  emitted.Pairwise fun later earlier => later.1 = earlier.1 → earlier.2 ≤ later.2

/-- A start at this moment would bring every counter of the process back with at
least its integer part. -/
def Recoverable (asm : Assembly) (s : Sim) (p : Process) : Prop :=
  ∀ e ∈ p.counters.entries,
    ∃ c ∈ (Process.launch asm s.now s.files.read).counters.get e.1, e.2.value ≤ c.value

/-- Rates and caps are not negative, and the process is killed only while a start
would recover its counters. -/
def Durable (asm : Assembly) (s : Sim) : Label → Prop
  | .sample _ rate cap _ _ => 0 ≤ rate ∧ ∀ m ∈ cap, 0 ≤ m
  | .kill => ∀ p ∈ s.process, Recoverable asm s p
  | _ => True

instance (asm : Assembly) (s : Sim) (p : Process) : Decidable (Recoverable asm s p) := by
  unfold Recoverable
  infer_instance

instance (asm : Assembly) (s : Sim) (l : Label) : Decidable (Durable asm s l) := by
  cases l <;> unfold Durable <;> infer_instance

/-! ## The invariant -/

/-- The process, or the one a start would bring up. -/
def Sim.current (asm : Assembly) (s : Sim) : Process :=
  s.process.getD (Process.launch asm s.now s.files.read)

/-- Every emitted value is at most the counter's present or recoverable value. -/
structure Inv (asm : Assembly) (s : Sim) : Prop where
  ascending : Ascending s.emitted
  below : ∀ e ∈ s.emitted, ∃ c, (s.current asm).counters.get e.1 = some c ∧ e.2 ≤ c.value

/-- A start restores the same accumulators whenever it takes place. -/
theorem launch_value (asm : Assembly) (saved : Option Snapshot) (t t' : ℚ) (name : Text) :
    ((Process.launch asm t saved).counters.get name).map Counter.value =
      ((Process.launch asm t' saved).counters.get name).map Counter.value := by
  cases saved with
  | none =>
      simp only [Process.launch, loadState, Process.assemble, Dict.get_mapValues, Option.map_map]
      rfl
  | some snap =>
      simp only [Process.launch, loadState, Process.assemble, Dict.get_mapValues, Option.map_map]
      congr 1
      funext spec
      simp only [Function.comp, Snapshot.restoreCounter]
      split <;> rfl

/-- A state with the same emissions and no smaller counters satisfies the invariant. -/
theorem Inv.of_current {asm : Assembly} {s s' : Sim} (h : Inv asm s)
    (hemitted : s'.emitted = s.emitted)
    (hcurrent : ∀ name c, (s.current asm).counters.get name = some c →
      ∃ c', (s'.current asm).counters.get name = some c' ∧ c.value ≤ c'.value) : Inv asm s' where
  ascending := hemitted ▸ h.ascending
  below := by
    intro e he
    rcases h.below e (hemitted ▸ he) with ⟨c, hc, hle⟩
    rcases hcurrent e.1 c hc with ⟨c', hc', hle'⟩
    exact ⟨c', hc', hle.trans hle'⟩

theorem inv_clock {asm : Assembly} {s : Sim} (h : Inv asm s) (d : ℚ≥0) :
    Inv asm { s with now := s.now + d } := by
  refine h.of_current rfl fun name c hc => ?_
  cases hp : s.process with
  | some p =>
      rw [Sim.current, hp] at hc
      exact ⟨c, by simpa [Sim.current, hp] using hc, le_rfl⟩
  | none =>
      rw [Sim.current, hp] at hc
      have hvalue := launch_value asm s.files.read (s.now + d) s.now name
      rw [Option.getD_none] at hc
      rw [hc] at hvalue
      rcases Option.map_eq_some_iff.mp hvalue with ⟨c', hc', heq⟩
      exact ⟨c', by simpa [Sim.current, hp] using hc', heq.ge⟩

theorem inv_sample {asm : Assembly} {s : Sim} (h : Inv asm s) {p : Process}
    (hp : s.process = some p) {name : Text} {c : Counter} (hc : p.counters.get name = some c)
    {rate : ℚ} {cap : Option ℚ} (hrate : 0 ≤ rate) (hcap : ∀ m ∈ cap, 0 ≤ m) (raw at_ : ℚ) :
    Inv asm { s with
      process := some { p with counters := p.counters.set name (c.sample rate cap raw at_) }
      emitted := (name, (c.sample rate cap raw at_).value) :: s.emitted } := by
  have hgrow := c.value_le_sample hrate hcap raw at_
  have hbelow : ∀ e ∈ s.emitted, ∃ c', p.counters.get e.1 = some c' ∧ e.2 ≤ c'.value := by
    intro e he
    simpa [Sim.current, hp] using h.below e he
  have hname : ∀ e ∈ s.emitted, name = e.1 → e.2 ≤ (c.sample rate cap raw at_).value := by
    rintro e he rfl
    rcases hbelow e he with ⟨c', hc', hle⟩
    rw [hc, Option.some.injEq] at hc'
    exact (hc' ▸ hle).trans hgrow
  refine { ascending := List.pairwise_cons.mpr ⟨hname, h.ascending⟩, below := ?_ }
  intro e he
  simp only [Sim.current, Option.getD_some]
  rcases List.mem_cons.mp he with rfl | he
  · exact ⟨_, Dict.get_set_self _ _ _, le_rfl⟩
  · by_cases hk : name = e.1
    · rw [Dict.get_set, if_pos hk]
      exact ⟨_, rfl, hname e he hk⟩
    · rw [Dict.get_set_of_ne _ _ hk]
      exact hbelow e he

theorem inv_kill {asm : Assembly} {s : Sim} (h : Inv asm s) {p : Process}
    (hp : s.process = some p) (hrec : Recoverable asm s p) :
    Inv asm { s with process := none, savers := fun _ => .idle } := by
  refine h.of_current rfl fun name c hc => ?_
  simp only [Sim.current, hp, Option.getD_some] at hc
  rcases hrec (name, c) (Dict.get_eq_some_iff.mp hc) with ⟨c', hc', hle⟩
  exact ⟨c', hc', hle⟩

/-- One transition that meets the condition preserves the invariant. -/
theorem inv_step {asm : Assembly} {s s' : Sim} {l : Label} (h : Inv asm s)
    (hstep : s.step asm l = some s') (hdurable : Durable asm s l) : Inv asm s' := by
  cases l with
  | clock d =>
      cases hstep
      exact inv_clock h d
  | sample name rate cap raw at_ =>
      simp only [Sim.step, Option.bind_eq_bind, Option.bind_eq_some_iff,
        Option.ite_none_right_eq_some, Option.some.injEq] at hstep
      rcases hstep with ⟨p, hp, c, hc, -, rfl⟩
      exact inv_sample h hp hc hdurable.1 hdurable.2 raw at_
  | toggle short value =>
      simp only [Sim.step, Option.bind_eq_bind, Option.bind_eq_some_iff,
        Option.some.injEq] at hstep
      rcases hstep with ⟨p, hp, state, -, rfl⟩
      refine h.of_current rfl fun name c hc => ⟨c, ?_, le_rfl⟩
      simpa [Sim.current, hp] using hc
  | save i move =>
      simp only [Sim.step, Option.bind_eq_bind, Option.bind_eq_some_iff,
        Option.some.injEq] at hstep
      rcases hstep with ⟨p, hp, ⟨saver, files⟩, -, rfl⟩
      refine h.of_current rfl fun name c hc => ⟨c, ?_, le_rfl⟩
      simpa [Sim.current, hp] using hc
  | kill =>
      simp only [Sim.step, Option.bind_eq_bind, Option.bind_eq_some_iff,
        Option.some.injEq] at hstep
      rcases hstep with ⟨p, hp, rfl⟩
      exact inv_kill h hp (hdurable p hp)
  | restart =>
      simp only [Sim.step] at hstep
      split at hstep
      · cases hstep
      · rename_i hp
        cases hstep
        refine h.of_current rfl fun name c hc => ⟨c, ?_, le_rfl⟩
        simpa [Sim.current, hp] using hc

/-! ## Whole runs -/

/-- **Durable runs are ascending.**  If rates and caps are not negative and every
kill finds in the state file at least the integer parts that memory holds, then no
counter's emitted values ever decrease, across any number of restarts. -/
theorem ascending_of_durable (asm : Assembly) (now : ℚ) (files : Files) {ls : List Label}
    {s : Sim} (hrun : Run (Meeting (Graph (Sim.step asm)) (Durable asm)) (Sim.off now files) ls s) :
    Ascending s.emitted := by
  have hinit : Inv asm (Sim.off now files) :=
    { ascending := List.Pairwise.nil
      below := by simp [Sim.off] }
  have hinv : Inv asm s :=
    hrun.invariant (fun u l t hu hstep => inv_step hu hstep.1 hstep.2) hinit
  exact hinv.ascending

/-- A simulator with one interface counter. -/
def uplinkAssembly : Assembly where
  devices := ["sw-core-01".toList]
  counters := [⟨"sw-core-01.if1.in_oct".toList, 0, 3 / 10, three_tenths_nonneg, three_tenths_le_one⟩]

/-- No file has been written yet. -/
def noFiles : Files where
  content := fun _ => none
  fresh := 0
  tmp := none
  stateFile := none

/-- All operations of one undisturbed save of the single device and counter. -/
def saveMoves : List Label :=
  [.save 0 .start, .save 0 .device, .save 0 .acc, .save 0 .last, .save 0 .openTmp,
   .save 0 (.write true), .save 0 .replace]

/-- A poll of the counter at an octet rate of 100 per second. -/
def pollUplink (raw at_ : ℚ) : Label :=
  .sample "sw-core-01.if1.in_oct".toList 100 none raw at_

/-- A run that is killed right after a save. -/
theorem ascending_of_durable_uplink :
    ∃ s : Sim, s.emitted.map Prod.snd = [1370, 1300] ∧ Ascending s.emitted := by
  have hsome : (execute (guarded (Sim.step uplinkAssembly) (Durable uplinkAssembly))
      (Sim.off 0 noFiles)
      ([.restart, .clock 10, pollUplink 1 10] ++ saveMoves ++
        [.kill, .restart, .clock 1, pollUplink (-1) 11])).map
      (fun s : Sim => s.emitted.map Prod.snd) = some [1370, 1300] := by decide +kernel
  rcases Option.map_eq_some_iff.mp hsome with ⟨s, hs, hvalues⟩
  exact ⟨s, hvalues, ascending_of_durable uplinkAssembly 0 noFiles (meeting_of_execute hs)⟩

/-- A poll between the last save and the kill is not recovered, and the poll after
the restart returns a smaller value. -/
theorem not_ascending_across_kill :
    ¬ ∀ (asm : Assembly) (now : ℚ) (files : Files) (ls : List Label) (s : Sim),
      Run (Graph (Sim.step asm)) (Sim.off now files) ls s → Ascending s.emitted := by
  intro h
  have hsome : (execute (Sim.step uplinkAssembly) (Sim.off 0 noFiles)
      ([.restart] ++ saveMoves ++
        [.clock 10, pollUplink 1 10, .kill, .restart, .clock 1, pollUplink (-1) 11])).map
      (fun s : Sim => s.emitted) =
        some [("sw-core-01.if1.in_oct".toList, 770), ("sw-core-01.if1.in_oct".toList, 1300)] := by
    decide +kernel
  rcases Option.map_eq_some_iff.mp hsome with ⟨s, hs, hemitted⟩
  have hascending := h uplinkAssembly 0 noFiles _ s (run_of_execute hs)
  rw [hemitted] at hascending
  exact absurd (List.pairwise_cons.mp hascending).1 (by simp)

end Netsim
end DemoEstate
