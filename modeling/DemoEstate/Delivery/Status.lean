import Mathlib.Data.List.Nodup
import Mathlib.Data.List.Perm.Subperm
import DemoEstate.Library.Round
import DemoEstate.Library.Transition
import DemoEstate.Delivery.Cascade

/-!
# The cascade's status report over restarts

The report judges completion by counting the recorded steps and marks each step by its
own key.  A new process may carry another selection of hosts and load the record of the
process before it.  The two views agree as long as every record that is loaded armed
either holds keys of the new steps only or holds all of them.

Main definitions:

- Definition {lit}`Cascade.status`: the report.
- Definition {lit}`Process.step`: the transitions of a shell and its restarts.

Main results:

- Theorem {lit}`Accounted.truthful`: when the two views agree.
- Theorem {lit}`truthful_of_resumable`: every report of a run whose loads meet the
  condition is truthful.
- Theorem {lit}`not_truthful_other_selection`: a record of another selection makes the
  report complete over an unfired step.
-/

namespace DemoEstate
namespace Delivery

open Transition

/-! ## The report -/

/-- One entry of a report's list of steps. -/
inductive StepReport where
  | carried (atS : ℤ) (host : Text) (action : Action) (why : Text) (fired : Bool)
      (etaS : Option ℤ)
  | skipped (atS : ℤ) (host : Text) (action : Action) (why : Text)

/-- What `status` returns. -/
structure Status where
  active : Bool
  complete : Bool
  elapsedS : ℚ
  timeScale : ℚ
  totalS : ℤ
  participants : List Text
  steps : List StepReport

/-- Seconds since the trigger; a start time of zero counts as none. -/
def Cascade.elapsed (c : Cascade) (now : ℚ) : ℚ :=
  match c.active, c.startedAt with
  | true, some t₀ => if t₀ = 0 then 0 else now - t₀
  | _, _ => 0

/-- The entry of a step that applies. -/
def Cascade.stepReport (c : Cascade) (tl : Timeline) (now : ℚ) (i : Nat) (s : CascadeStep) :
    StepReport :=
  .carried (round (tl.scaledDelay s)) s.host s.action s.why (key i s ∈ c.keys)
    (if key i s ∈ c.keys then none
      else if c.active then some (round (tl.scaledDelay s - c.elapsed now)) else none)

/-- The report of a scheduler at a moment. -/
def Cascade.status (c : Cascade) (tl : Timeline) (now : ℚ) : Status where
  active := c.active
  complete := c.active && !tl.steps.isEmpty && tl.steps.length ≤ c.fired.length
  elapsedS := roundTenth (c.elapsed now)
  timeScale := tl.timeScale
  totalS :=
    match tl.steps.getLast? with
    | none => 0
    | some s => round (tl.scaledDelay s)
  participants := tl.participants
  steps := tl.steps.zipIdx.map (fun p => c.stepReport tl now p.2 p.1) ++
    tl.skipped.map fun s => .skipped (round (tl.scaledDelay s)) s.host s.action s.why

/-- An entry of a step that applies and is not marked fired. -/
def StepReport.unfired : StepReport → Bool
  | .carried _ _ _ _ fired _ => !fired
  | .skipped .. => false

/-- Complete means active with every step marked fired. -/
def Status.Truthful (st : Status) : Prop :=
  st.complete = true ↔ st.active = true ∧ ∀ r ∈ st.steps, r.unfired = false

/-! ## Counting and marking -/

/-- The keys of the steps. -/
def Timeline.keys (tl : Timeline) : List StepKey :=
  tl.steps.zipIdx.map fun p => key p.2 p.1

theorem Timeline.length_keys (tl : Timeline) : tl.keys.length = tl.steps.length := by
  simp [Timeline.keys]

theorem Timeline.nodup_keys (tl : Timeline) : tl.keys.Nodup := by
  have hindex : (tl.keys.map Prod.fst).Nodup := by
    have hmap : tl.keys.map Prod.fst = List.range tl.steps.length := by
      rw [Timeline.keys, List.map_map, List.range_eq_range', ← List.zipIdx_map_snd]
      rfl
    rw [hmap]
    exact List.nodup_range
  exact List.Nodup.of_map Prod.fst hindex

section Views

variable {c : Cascade} {tl : Timeline} {now : ℚ}

/-- The marks of a report look the keys up. -/
theorem all_fired_iff :
    (∀ r ∈ (c.status tl now).steps, r.unfired = false) ↔ ∀ k ∈ tl.keys, k ∈ c.keys := by
  simp only [Cascade.status, List.mem_append, List.mem_map, Timeline.keys]
  constructor
  · rintro h _ ⟨p, hp, rfl⟩
    have hmark := h _ (Or.inl ⟨p, hp, rfl⟩)
    simpa [Cascade.stepReport, StepReport.unfired] using hmark
  · rintro h _ (⟨p, hp, rfl⟩ | ⟨s, -, rfl⟩)
    · have hfired := h _ ⟨p, hp, rfl⟩
      simp [Cascade.stepReport, StepReport.unfired, hfired]
    · rfl

theorem complete_iff :
    (c.status tl now).complete = true ↔
      c.active = true ∧ tl.steps ≠ [] ∧ tl.keys.length ≤ c.keys.length := by
  simp [Cascade.status, Timeline.length_keys, Cascade.keys, and_assoc]

/-- The record of an armed scheduler belongs to a nonempty list of steps: it holds no
other keys, or it already holds all of theirs. -/
structure Accounted (tl : Timeline) (c : Cascade) : Prop where
  nodup : c.keys.Nodup
  nonempty : c.active = true → tl.steps ≠ []
  own : c.active = true → (∀ k ∈ c.keys, k ∈ tl.keys) ∨ ∀ k ∈ tl.keys, k ∈ c.keys

/-- A count of the steps' own keys is as good as the marks. -/
theorem Accounted.truthful (h : Accounted tl c) (now : ℚ) : (c.status tl now).Truthful := by
  rw [Status.Truthful, all_fired_iff, complete_iff]
  constructor
  · rintro ⟨hactive, -, hlength⟩
    refine ⟨hactive, ?_⟩
    rcases h.own hactive with hown | hall
    · have hperm := (List.subperm_of_subset h.nodup hown).perm_of_length_le hlength
      exact fun k hk => hperm.mem_iff.mpr hk
    · exact hall
  · rintro ⟨hactive, hall⟩
    exact ⟨hactive, h.nonempty hactive,
      (List.subperm_of_subset tl.nodup_keys hall).length_le⟩

/-- The keys of due steps are keys of the steps. -/
theorem mem_keys_of_mem_due {q : StepKey × CascadeStep} (h : q ∈ c.due tl now) :
    q.1 ∈ tl.keys := by
  unfold Cascade.due at h
  split at h
  · rcases List.mem_map.mp h with ⟨p, hp, rfl⟩
    exact List.mem_map.mpr ⟨p, (List.mem_filter.mp hp).1, rfl⟩
  · cases h

/-- Recording a key of the steps keeps the record accounted for. -/
theorem Accounted.record (h : Accounted tl c) {k : StepKey} (hk : k ∈ tl.keys) :
    Accounted tl (c.record k now) := by
  have hkeys : (c.record k now).keys = k :: c.keys.filter (· ≠ k) := by
    simp only [Cascade.record, Cascade.keys, List.map_cons, List.filter_map]
    rfl
  constructor
  · rw [hkeys, List.nodup_cons]
    exact ⟨by simp, h.nodup.filter _⟩
  · exact h.nonempty
  · intro hon
    rw [hkeys]
    rcases h.own hon with hown | hall
    · left
      intro k' hk'
      rcases List.mem_cons.mp hk' with rfl | hk'
      · exact hk
      · exact hown k' (List.mem_filter.mp hk').1
    · right
      intro k' hk'
      by_cases heq : k' = k
      · exact heq ▸ List.mem_cons_self
      · exact List.mem_cons_of_mem k (List.mem_filter.mpr ⟨hall k' hk', by simpa using heq⟩)

/-- Noticing the end of the cascade changes no record. -/
theorem Accounted.logComplete (h : Accounted tl c) : Accounted tl (c.logComplete tl) := by
  unfold Cascade.logComplete
  split
  · exact ⟨h.nodup, h.nonempty, h.own⟩
  · exact h

end Views

/-! ## A shell and its restarts -/

/-- The process of a shell, with the steps that apply to its selection of hosts. -/
structure Process where
  timeline : Timeline
  shell : Shell

/-- A transition of the shell; the same with a failing write of the state file; a new
process for some selection, which may or may not be able to read the file. -/
inductive Move where
  | shell (l : Label)
  | unsaved (l : Label)
  | restart (tl : Timeline) (readable : Bool)

/-- The steps a tick under way has still to record. -/
def Scheduler.toRecord : Scheduler → List (StepKey × CascadeStep)
  | .sleeping => []
  | .firing due => due
  | .recording p due => p :: due
  | .saving due => due

namespace Process

/-- One transition.  A restart keeps the clock and the state file. -/
def step (p : Process) : Move → Option Process
  | .shell l => (p.shell.step p.timeline l).map fun s => { p with shell := s }
  | .unsaved l => (p.shell.step p.timeline l).map fun s =>
      { p with shell := { s with file := p.shell.file } }
  | .restart tl readable =>
      let c := if readable then Cascade.load p.shell.file else .idle
      some ⟨tl, Shell.boot p.shell.now c p.shell.file⟩

/-- The first process, without a state file. -/
def boot (tl : Timeline) (now : ℚ) : Process :=
  ⟨tl, Shell.boot now .idle none⟩

/-- A start needs a step that applies.  A restart may load an armed record when its steps
are not empty and either the record holds their keys only or it holds all of them. -/
def Resumable (p : Process) : Move → Prop
  | .shell (.startLock _) | .unsaved (.startLock _) => p.timeline.steps ≠ []
  | .restart tl true => ∀ c, p.shell.file = some c → c.active = true →
      tl.steps ≠ [] ∧ ((∀ k ∈ c.keys, k ∈ tl.keys) ∨ ∀ k ∈ tl.keys, k ∈ c.keys)
  | _ => True

instance (p : Process) (m : Move) : Decidable (p.Resumable m) := by
  unfold Resumable
  split
  · infer_instance
  · infer_instance
  · exact decidable_of_iff (∀ c ∈ p.shell.file, c.active = true → _) Iff.rfl
  · infer_instance

/-- What every transition under the condition preserves: the keys the scheduler is about
to record are keys of the steps. -/
structure Kept (p : Process) : Prop where
  memory : Accounted p.timeline p.shell.cascade
  file : ∀ c, p.shell.file = some c → c.keys.Nodup
  firing : ∀ q ∈ p.shell.scheduler.toRecord, q.1 ∈ p.timeline.keys

/-! ## One transition -/

variable {p : Process}

/-- The first process has recorded nothing. -/
theorem kept_boot (tl : Timeline) (now : ℚ) : (boot tl now).Kept where
  memory := ⟨List.nodup_nil, nofun, nofun⟩
  file := nofun
  firing := nofun

/-- A new process keeps the record of the file accounted for. -/
theorem Kept.restart (h : p.Kept) {tl : Timeline} {readable : Bool}
    (hcond : p.Resumable (.restart tl readable)) :
    Kept ⟨tl, Shell.boot p.shell.now (if readable then Cascade.load p.shell.file else .idle)
      p.shell.file⟩ where
  memory := by
    cases readable with
    | false => exact ⟨List.nodup_nil, nofun, nofun⟩
    | true =>
        cases hfile : p.shell.file with
        | none => exact ⟨List.nodup_nil, nofun, nofun⟩
        | some c =>
            exact ⟨h.file c hfile, fun hon => (hcond c hfile hon).1,
              fun hon => (hcond c hfile hon).2⟩
  file := h.file
  firing := nofun

/-- A failing write leaves the file as it was. -/
theorem Kept.unsaved (h : p.Kept) {s : Shell} (hs : Kept { p with shell := s }) :
    Kept { p with shell := { s with file := p.shell.file } } where
  memory := hs.memory
  file := h.file
  firing := hs.firing

/-- A transition of the shell keeps the record accounted for. -/
theorem Kept.shell (h : p.Kept) {l : Label} {s : Shell}
    (hstep : p.shell.step p.timeline l = some s) (hcond : p.Resumable (.shell l)) :
    Kept { p with shell := s } := by
  rcases h with ⟨hmemory, hfile, hfiring⟩
  -- a write of the file stores the scheduler object of the moment
  have hsaved : ∀ c, some p.shell.cascade = some c → c.keys.Nodup := by
    intro c hc
    cases hc
    exact hmemory.nodup
  cases Shell.moves_of_step hstep with
  | clock | tickIdle | healToggle | healRaise => exact ⟨hmemory, hfile, hfiring⟩
  | tickArmed => exact ⟨hmemory, hfile, fun q hq => mem_keys_of_mem_due hq⟩
  | fireToggle hsched =>
      rw [hsched] at hfiring
      exact ⟨hmemory, hfile, hfiring⟩
  | fireRaise => exact ⟨hmemory, hfile, nofun⟩
  | fireRecord hsched =>
      rw [hsched] at hfiring
      refine ⟨hmemory.record (hfiring _ List.mem_cons_self), hfile, ?_⟩
      exact fun q hq => hfiring q (List.mem_cons_of_mem _ hq)
  | fireSave hsched =>
      rw [hsched] at hfiring
      exact ⟨hmemory, hsaved, hfiring⟩
  | tickDone => exact ⟨hmemory.logComplete, hfile, nofun⟩
  | startLock => exact ⟨⟨List.nodup_nil, fun _ => hcond, fun _ => Or.inl nofun⟩, hfile, hfiring⟩
  | startSave | healSave => exact ⟨hmemory, hsaved, hfiring⟩
  | healLock => exact ⟨⟨List.nodup_nil, nofun, nofun⟩, hfile, hfiring⟩

/-- A transition under the condition keeps the record accounted for. -/
theorem Kept.step (h : p.Kept) {m : Move} {p' : Process} (hstep : p.step m = some p')
    (hcond : p.Resumable m) : p'.Kept := by
  cases m with
  | shell l =>
      simp only [Process.step, Option.map_eq_some_iff] at hstep
      rcases hstep with ⟨s, hs, rfl⟩
      exact h.shell hs hcond
  | unsaved l =>
      simp only [Process.step, Option.map_eq_some_iff] at hstep
      rcases hstep with ⟨s, hs, rfl⟩
      exact h.unsaved (h.shell hs (by cases l <;> exact hcond))
  | restart tl readable =>
      cases hstep
      exact h.restart hcond

/-! ## Whole runs -/

/-- The status report of a process at a moment. -/
def status (p : Process) (now : ℚ) : Status :=
  p.shell.cascade.status p.timeline now

/-- **Reports over resumable loads are truthful.**  In every interleaving of ticks, starts,
heals, failing writes and restarts under any selections that meet the condition, every
report is complete exactly when the cascade is active and it marks every step fired. -/
theorem truthful_of_resumable (tl : Timeline) (now : ℚ) {moves : List Move} {p : Process}
    (hrun : Run (Meeting (Graph step) Resumable) (boot tl now) moves p) (at_ : ℚ) :
    (p.status at_).Truthful := by
  have hkept : p.Kept :=
    hrun.invariant (fun u m t hu hstep => hu.step hstep.1 hstep.2) (kept_boot tl now)
  exact hkept.memory.truthful at_

/-- The steps of a shell that carries the primary database only. -/
def primaryOnly : Timeline :=
  .ofRoster [⟨"db-postgres-01".toList, []⟩] 1

/-- The steps of a shell that carries both databases. -/
def bothDatabases : Timeline :=
  .ofRoster [⟨"db-postgres-01".toList, []⟩, ⟨"db-postgres-02".toList, []⟩] 1

/-- One step of a tick, toggled, recorded and saved. -/
def fire : List Move :=
  [.shell .fireToggle, .shell .fireRecord, .shell .fireSave]

/-- A cascade of the primary database over a restart. -/
def resumedMoves : List Move :=
  [.shell (.startLock 0), .shell (.startSave 0), .shell .tickDue] ++ fire ++
    [.restart primaryOnly true, .shell (.clock 300), .shell .tickDue] ++ fire ++
    [.shell .tickDone]

/-- The resumed cascade ends complete, with both steps marked. -/
theorem truthful_of_resumable_restart :
    ∃ p, Run (Graph step) (boot primaryOnly 5) resumedMoves p ∧
      (p.status 305).complete = true ∧ (p.status 305).Truthful := by
  have hreport : (execute (guarded step Resumable) (boot primaryOnly 5) resumedMoves).map
      (fun p => (p.status 305).complete) = some true := by decide +kernel
  rcases Option.map_eq_some_iff.mp hreport with ⟨p, hp, hcomplete⟩
  have hrun := meeting_of_execute hp
  exact ⟨p, hrun.mono fun _ _ _ h => h.1, hcomplete,
    truthful_of_resumable primaryOnly 5 hrun 305⟩

/-- Two steps of both databases are fired before a restart with the primary only. -/
def reselectedMoves : List Move :=
  [.shell (.startLock 0), .shell (.startSave 0), .shell (.clock 150), .shell .tickDue] ++
    fire ++ fire ++ [.restart primaryOnly true]

/-- A record of another selection is counted as complete over a step that never fired. -/
theorem not_truthful_other_selection :
    ¬ ∀ (tl : Timeline) (now : ℚ) (moves : List Move) (p : Process),
      Run (Graph step) (boot tl now) moves p → ∀ at_, (p.status at_).Truthful := by
  intro h
  have hreport : (execute step (boot bothDatabases 5) reselectedMoves).map
      (fun p => ((p.status 155).complete, (p.status 155).steps.map StepReport.unfired)) =
        some (true, [false, true, false, false, false, false]) := by
    decide +kernel
  rcases Option.map_eq_some_iff.mp hreport with ⟨p, hp, hstatus⟩
  have htruthful := h bothDatabases 5 reselectedMoves p (run_of_execute hp) 155
  rw [Prod.mk.injEq] at hstatus
  have hfired := (htruthful.mp hstatus.1).2
  have hunfired : true ∈ (p.status 155).steps.map StepReport.unfired := by
    rw [hstatus.2]
    decide
  rcases List.mem_map.mp hunfired with ⟨r, hr, hr'⟩
  exact absurd (hfired r hr) (by simp [hr'])

end Process

end Delivery
end DemoEstate
