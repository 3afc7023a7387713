import Mathlib.Algebra.Order.Ring.Rat
import Mathlib.Data.NNRat.Defs
import Mathlib.Tactic.Linarith
import DemoEstate.Library.Round
import DemoEstate.Library.Text

/-!
# The cross-host cascade of the delivery shell

One trigger starts a scripted timeline of incident toggles.  The scheduler
thread computes the due steps under the lock and fires them outside it, while
the control panel's threads call {lit}`start` and {lit}`heal`.  This module
gives the fields of the scheduler object, the functions that run under its
lock, and the transition system of all its threads: a transition is one
critical section, one toggle sent to a child, or one write of the state file.
A toggle ends with an error that nothing in a tick or in {lit}`heal` catches
when the child breaks off its answer ({lit}`IncompleteRead`, {lit}`BadStatusLine`).

Main definitions:

- Definition {lit}`Timeline.ofRoster`: the steps that apply to a carried roster.
- Definition {lit}`Cascade.due`: the steps a tick is going to fire.
- Definition {lit}`Shell.step`: the transitions of the scheduler and of the
  panel's threads.

Main result:

- Theorem {lit}`Shell.moves_of_step`: what each transition needs and does.
-/

namespace DemoEstate
namespace Delivery

/-! ## Toggles, steps and the timeline of a roster -/

/-- A host's own toggle. -/
inductive Action where
  | degrade
  | break_
  | heal
deriving DecidableEq, Repr

/-- A carried host, as the control panel knows it. -/
structure Child where
  name : Text
  actions : List Action
deriving DecidableEq

/-- One entry of the cascade script; `why` is the note the panel shows. -/
structure CascadeStep where
  delayS : ℚ
  host : Text
  action : Action
  why : Text
deriving DecidableEq

/-- The script of the payments brownout. -/
def cascadeSteps : List CascadeStep :=
  [⟨0, "db-postgres-01".toList, .degrade,
    ("SATA SSD read-retry/ECC storms begin — " ++
      "intermittent latency spikes, SMART still PASSED (root cause, quiet)").toList⟩,
   ⟨120, "db-postgres-02".toList, .degrade,
    "standby replication lag grows as the primary's I/O stalls".toList⟩,
   ⟨180, "app-worker-01".toList, .degrade,
    ("settlement commits to the primary slow down; job queue backs up, " ++
      "JVM heap starts filling").toList⟩,
   ⟨300, "db-postgres-01".toList, .break_,
    ("primary disk fully fails-slow: iowait pegged, query-latency cliff — " ++
      "the storage collapse").toList⟩,
   ⟨360, "payment-api".toList, .break_,
    ("DB writes time out -> payment API returns errors — " ++
      "the customer-facing symptom").toList⟩,
   ⟨420, "app-worker-01".toList, .break_,
    "buffered jobs overflow the heap -> OOM-killed, order-worker.service flaps".toList⟩]

/-- The applicable steps and the time scale of one shell process. -/
structure Timeline where
  steps : List CascadeStep
  skipped : List CascadeStep
  timeScale : ℚ

/-- A step applies when its host is carried and exposes the toggle; a host
without toggles of its own accepts every step. -/
def applies (byName : List Child) (s : CascadeStep) : Bool :=
  match byName.find? fun c => c.name = s.host with
  | none => false
  | some child => child.actions.isEmpty || s.action ∈ child.actions

/-- Sort the script into the steps that apply to a roster and the skipped ones. -/
def Timeline.ofRoster (byName : List Child) (timeScale : ℚ) : Timeline where
  steps := cascadeSteps.filter (applies byName)
  skipped := cascadeSteps.filter fun s => !applies byName s
  timeScale := timeScale

/-- Seconds from the trigger to a step. -/
def Timeline.scaledDelay (tl : Timeline) (s : CascadeStep) : ℚ :=
  s.delayS * tl.timeScale

/-- The distinct hosts of the steps, in script order. -/
def Timeline.participants (tl : Timeline) : List Text :=
  tl.steps.foldl (fun seen s => if s.host ∈ seen then seen else seen ++ [s.host]) []

/-- The stable name of a step: its position, host and toggle. -/
abbrev StepKey := Nat × Text × Action

instance StepKey.instLawfulBEq : LawfulBEq StepKey :=
  inferInstance

/-- The stable name of the step at a position. -/
def key (i : Nat) (s : CascadeStep) : StepKey :=
  (i, s.host, s.action)

/-! ## The fields of the scheduler and its critical sections -/

/-- The fields the lock protects; `fired` lists the step keys with the times
they were recorded at, newest first. -/
structure Cascade where
  active : Bool
  startedAt : Option ℚ
  fired : List (StepKey × ℚ)
  completeLogged : Bool
deriving DecidableEq

/-- The keys of the recorded steps. -/
def Cascade.keys (c : Cascade) : List StepKey :=
  c.fired.map Prod.fst

/-- A freshly constructed scheduler. -/
def Cascade.idle : Cascade where
  active := false
  startedAt := none
  fired := []
  completeLogged := false

/-- The critical section of `start`. -/
def Cascade.start (now : ℚ) : Cascade where
  active := true
  startedAt := some now
  fired := []
  completeLogged := false

/-- The first critical section of `_tick`: the due but unfired steps in order. -/
def Cascade.due (c : Cascade) (tl : Timeline) (now : ℚ) : List (StepKey × CascadeStep) :=
  match c.active, c.startedAt with
  | true, some t₀ =>
      (tl.steps.zipIdx.filter fun p =>
        key p.2 p.1 ∉ c.fired.map Prod.fst ∧ tl.scaledDelay p.1 ≤ now - t₀).map
          fun p => (key p.2 p.1, p.1)
  | _, _ => []

/-- The critical section of `_fire`: record when a step was fired. -/
def Cascade.record (c : Cascade) (k : StepKey) (now : ℚ) : Cascade :=
  { c with fired := (k, now) :: c.fired.filter fun e => e.1 ≠ k }

/-- The last critical section of `_tick`: notice that every step has fired. -/
def Cascade.logComplete (c : Cascade) (tl : Timeline) : Cascade :=
  if c.active ∧ tl.steps ≠ [] ∧ tl.steps.length ≤ c.fired.length then
    { c with completeLogged := true }
  else c

/-- The persisted fields of the scheduler. -/
def Cascade.saved (c : Cascade) : Cascade :=
  { c with completeLogged := false }

/-- What a new process loads; without a state file it starts idle. -/
def Cascade.load : Option Cascade → Cascade
  | none => .idle
  | some c => c.saved

/-- A due step is a step of the timeline under its own key, and its delay has elapsed. -/
theorem mem_due {c : Cascade} {tl : Timeline} {now t₀ : ℚ} {k : StepKey} {s : CascadeStep}
    (hstarted : c.startedAt = some t₀) (h : (k, s) ∈ c.due tl now) :
    tl.steps[k.1]? = some s ∧ t₀ + tl.scaledDelay s ≤ now := by
  unfold Cascade.due at h
  rw [hstarted] at h
  split at h
  · rename_i t₁ _ hsome
    simp only [Option.some.injEq] at hsome
    subst hsome
    simp only [List.mem_map, List.mem_filter, Prod.mk.injEq, decide_eq_true_eq] at h
    rcases h with ⟨⟨s', i⟩, ⟨hmem, -, hdelay⟩, hkey, rfl⟩
    subst hkey
    refine ⟨List.mem_zipIdx_iff_getElem?.mp hmem, ?_⟩
    linarith only [hdelay]
  · simp at h

/-! ## The threads of the shell -/

/-- Where the scheduler thread stands within `_tick`. -/
inductive Scheduler where
  | sleeping
  | firing (due : List (StepKey × CascadeStep))
  | recording (fired : StepKey × CascadeStep) (due : List (StepKey × CascadeStep))
  | saving (due : List (StepKey × CascadeStep))

/-- Where a panel thread stands within `start` or `heal`. -/
inductive HttpCall where
  | idle
  | starting
  | healing (hosts : List Text)
deriving DecidableEq

/-- What the rest of the estate sees of the shell, and the calls that end. -/
inductive Event where
  | started (at_ : ℚ)
  | healReturned
  | toggled (key : StepKey) (at_ : ℚ)
  | healSent (host : Text)
deriving DecidableEq

/-- The shell's clock, scheduler object, state file and threads, and the events
so far, newest first. -/
structure Shell where
  now : ℚ
  cascade : Cascade
  file : Option Cascade
  scheduler : Scheduler
  http : Nat → HttpCall
  events : List Event

/-- The transitions: time passes, the scheduler ticks, panel thread `i` moves.  A toggle
returns, or it raises what `Child.toggle` does not catch. -/
inductive Label where
  | clock (d : ℚ≥0)
  | tickDue
  | fireToggle
  | fireRaise
  | fireRecord
  | fireSave
  | tickDone
  | startLock (i : Nat)
  | startSave (i : Nat)
  | healLock (i : Nat)
  | healToggle (i : Nat)
  | healRaise (i : Nat)
  | healSave (i : Nat)
deriving DecidableEq

/-- Move one panel thread. -/
def Shell.setHttp (s : Shell) (i : Nat) (call : HttpCall) : Shell :=
  { s with http := fun j => if j = i then call else s.http j }

/-- One transition of the shell. -/
def Shell.step (tl : Timeline) (s : Shell) : Label → Option Shell
  | .clock d => some { s with now := s.now + d }
  | .tickDue =>
      match s.scheduler with
      | .sleeping =>
          -- an unarmed cascade leaves the tick at once
          if s.cascade.active ∧ s.cascade.startedAt ≠ none then
            some { s with scheduler := .firing (s.cascade.due tl s.now) }
          else some s
      | _ => none
  | .fireToggle =>
      match s.scheduler with
      | .firing (p :: due) =>
          some { s with
            scheduler := .recording p due
            events := .toggled p.1 s.now :: s.events }
      | _ => none
  | .fireRaise =>
      match s.scheduler with
      -- the child broke off its answer: neither `_fire` nor `_tick` goes on, the loop sleeps
      | .firing (p :: _) =>
          some { s with
            scheduler := .sleeping
            events := .toggled p.1 s.now :: s.events }
      | _ => none
  | .fireRecord =>
      match s.scheduler with
      | .recording p due =>
          some { s with
            scheduler := .saving due
            cascade := s.cascade.record p.1 s.now }
      | _ => none
  | .fireSave =>
      match s.scheduler with
      | .saving due => some { s with scheduler := .firing due, file := some s.cascade }
      | _ => none
  | .tickDone =>
      match s.scheduler with
      | .firing [] =>
          some { s with
            scheduler := .sleeping
            cascade := s.cascade.logComplete tl }
      | _ => none
  | .startLock i =>
      match s.http i with
      | .idle =>
          some ({ s with
            cascade := Cascade.start s.now
            events := .started s.now :: s.events }.setHttp i .starting)
      | _ => none
  | .startSave i =>
      match s.http i with
      | .starting => some ({ s with file := some s.cascade }.setHttp i .idle)
      | _ => none
  | .healLock i =>
      match s.http i with
      | .idle =>
          some ({ s with cascade := Cascade.idle }.setHttp i (.healing tl.participants))
      | _ => none
  | .healToggle i =>
      match s.http i with
      | .healing (host :: hosts) =>
          some ({ s with events := .healSent host :: s.events }.setHttp i (.healing hosts))
      | _ => none
  | .healRaise i =>
      match s.http i with
      -- `heal` is left before it saves
      | .healing (host :: _) =>
          some ({ s with events := .healSent host :: s.events }.setHttp i .idle)
      | _ => none
  | .healSave i =>
      match s.http i with
      | .healing [] =>
          some ({ s with
            file := some s.cascade
            events := .healReturned :: s.events }.setHttp i .idle)
      | _ => none

/-- What a shell does in one transition, with the place where the thread stands before it. -/
inductive Shell.Moves (tl : Timeline) (s : Shell) : Label → Shell → Prop where
  | clock (d : ℚ≥0) : s.Moves tl (.clock d) { s with now := s.now + d }
  | tickArmed (hsched : s.scheduler = .sleeping)
      (harmed : s.cascade.active ∧ s.cascade.startedAt ≠ none) :
      s.Moves tl .tickDue { s with scheduler := .firing (s.cascade.due tl s.now) }
  | tickIdle (hsched : s.scheduler = .sleeping)
      (harmed : ¬ (s.cascade.active ∧ s.cascade.startedAt ≠ none)) : s.Moves tl .tickDue s
  | fireToggle {p : StepKey × CascadeStep} {due : List (StepKey × CascadeStep)}
      (hsched : s.scheduler = .firing (p :: due)) :
      s.Moves tl .fireToggle { s with
        scheduler := .recording p due
        events := .toggled p.1 s.now :: s.events }
  | fireRaise {p : StepKey × CascadeStep} {due : List (StepKey × CascadeStep)}
      (hsched : s.scheduler = .firing (p :: due)) :
      s.Moves tl .fireRaise { s with
        scheduler := .sleeping
        events := .toggled p.1 s.now :: s.events }
  | fireRecord {p : StepKey × CascadeStep} {due : List (StepKey × CascadeStep)}
      (hsched : s.scheduler = .recording p due) :
      s.Moves tl .fireRecord { s with
        scheduler := .saving due
        cascade := s.cascade.record p.1 s.now }
  | fireSave {due : List (StepKey × CascadeStep)} (hsched : s.scheduler = .saving due) :
      s.Moves tl .fireSave { s with scheduler := .firing due, file := some s.cascade }
  | tickDone (hsched : s.scheduler = .firing []) :
      s.Moves tl .tickDone { s with scheduler := .sleeping, cascade := s.cascade.logComplete tl }
  | startLock {i : Nat} (hhttp : s.http i = .idle) :
      s.Moves tl (.startLock i) ({ s with
        cascade := Cascade.start s.now
        events := .started s.now :: s.events }.setHttp i .starting)
  | startSave {i : Nat} (hhttp : s.http i = .starting) :
      s.Moves tl (.startSave i) ({ s with file := some s.cascade }.setHttp i .idle)
  | healLock {i : Nat} (hhttp : s.http i = .idle) :
      s.Moves tl (.healLock i)
        ({ s with cascade := Cascade.idle }.setHttp i (.healing tl.participants))
  | healToggle {i : Nat} {host : Text} {hosts : List Text}
      (hhttp : s.http i = .healing (host :: hosts)) :
      s.Moves tl (.healToggle i)
        ({ s with events := .healSent host :: s.events }.setHttp i (.healing hosts))
  | healRaise {i : Nat} {host : Text} {hosts : List Text}
      (hhttp : s.http i = .healing (host :: hosts)) :
      s.Moves tl (.healRaise i)
        ({ s with events := .healSent host :: s.events }.setHttp i .idle)
  | healSave {i : Nat} (hhttp : s.http i = .healing []) :
      s.Moves tl (.healSave i) ({ s with
        file := some s.cascade
        events := .healReturned :: s.events }.setHttp i .idle)

theorem Shell.moves_of_step {tl : Timeline} {s s' : Shell} {l : Label}
    (h : s.step tl l = some s') : s.Moves tl l s' := by
  unfold Shell.step at h
  split at h
  case h_1 d =>
    cases h
    exact .clock d
  case h_2 =>
    split at h
    case h_1 hsched =>
      split at h
      case isTrue harmed =>
        cases h
        exact .tickArmed hsched harmed
      case isFalse harmed =>
        cases h
        exact .tickIdle hsched harmed
    case h_2 => cases h
  all_goals
    split at h
    · cases h
      constructor
      assumption
    · cases h

/-- A shell that has just constructed or loaded its scheduler. -/
def Shell.boot (now : ℚ) (c : Cascade) (file : Option Cascade) : Shell where
  now := now
  cascade := c
  file := file
  scheduler := .sleeping
  http := fun _ => .idle
  events := []

end Delivery
end DemoEstate
