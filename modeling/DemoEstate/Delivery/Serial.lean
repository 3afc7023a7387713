import DemoEstate.Library.Transition
import DemoEstate.Delivery.Cascade

/-!
# The timeline of a cascade with restarts

Events that do not overlap: one panel thread starts and heals, ticks run between its
calls, and the shell may crash at any point and load the state file again.  A log of
what happened, newest first, says what the operator is owed.  A toggle that raises ends
its tick before the step is recorded, and the next tick sends it again.

Main definitions:

- Definition {lit}`Serial.step`: the shell's transitions without overlap, and crashes.
- Definition {lit}`Serial.Returns`: the condition on a run: every toggle returns.
- Definition {lit}`Punctual`: what every toggle and every tick of a log satisfy.

Main results:

- Theorem {lit}`Serial.Inv.step`: one transition under the condition preserves the invariant.
- Theorem {lit}`Serial.punctual_of_returns`: the log of every run under it is punctual.
- Theorem {lit}`Serial.not_punctual_raised`: a toggle that raises makes its tick miss the
  step behind it.
-/

namespace DemoEstate
namespace Delivery

open Transition

/-! ## Runs without overlap -/

/-- What the log of a run keeps. -/
inductive Mark where
  | started (at_ : ℚ)
  | healed
  | ticked (at_ : ℚ)
  | toggled (key : StepKey) (at_ : ℚ)
  | saved
  | crashed
deriving DecidableEq

/-- The shell, the time of the last tick, and the log, newest first. -/
structure Serial where
  shell : Shell
  tickedAt : ℚ
  log : List Mark

/-- A transition of the shell, or the end of its process and a new one. -/
inductive Act where
  | move (l : Label)
  | crash

namespace Serial

/-- No tick is under way. -/
def resting (s : Shell) : Bool :=
  match s.scheduler with
  | .sleeping => true
  | _ => false

theorem resting_iff {s : Shell} : resting s = true ↔ s.scheduler = .sleeping := by
  unfold resting
  split <;> simp_all

/-- A call or a tick begins only when none is under way; only one panel thread calls. -/
def Admits (s : Shell) : Label → Prop
  | .tickDue => s.http 0 = .idle
  | .startLock i => i = 0 ∧ resting s = true
  | .healLock i => i = 0 ∧ resting s = true
  | .startSave i => i = 0
  | .healToggle i => i = 0
  | .healRaise i => i = 0
  | .healSave i => i = 0
  | _ => True

instance (s : Shell) (l : Label) : Decidable (Admits s l) :=
  match l with
  | .tickDue => inferInstanceAs (Decidable (s.http 0 = .idle))
  | .startLock i | .healLock i => inferInstanceAs (Decidable (i = 0 ∧ resting s = true))
  | .startSave i | .healToggle i | .healRaise i | .healSave i =>
      inferInstanceAs (Decidable (i = 0))
  | .clock _ | .fireToggle | .fireRaise | .fireRecord | .fireSave | .tickDone => .isTrue trivial

/-- What a transition adds to the log; a tick or a heal that raises ends like any other. -/
def marks (s : Serial) : Label → List Mark
  | .startSave _ => (s.shell.cascade.startedAt.map Mark.started).toList
  | .healSave _ | .healRaise _ => [.healed]
  | .tickDue =>
      if s.shell.cascade.active ∧ s.shell.cascade.startedAt ≠ none then []
      else [.ticked s.shell.now]
  | .tickDone => [.ticked s.tickedAt]
  | .fireToggle =>
      match s.shell.scheduler with
      | .firing (p :: _) => [.toggled p.1 s.shell.now]
      | _ => []
  | .fireRaise =>
      match s.shell.scheduler with
      | .firing (p :: _) => [.ticked s.tickedAt, .toggled p.1 s.shell.now]
      | _ => []
  | .fireSave => [.saved]
  | _ => []

/-- One transition.  A crash keeps the clock and the state file. -/
def step (tl : Timeline) (s : Serial) : Act → Option Serial
  | .move l =>
      if Admits s.shell l then
        (s.shell.step tl l).map fun shell =>
          { shell := shell
            tickedAt := if l = .tickDue then s.shell.now else s.tickedAt
            log := s.marks l ++ s.log }
      else none
  | .crash =>
      some { s with
        shell := Shell.boot s.shell.now (Cascade.load s.shell.file) s.shell.file
        log := .crashed :: s.log }

/-- Every toggle that is sent returns, whether the child has obeyed or not. -/
def Returns (_ : Serial) : Act → Prop
  | .move .fireRaise | .move (.healRaise _) => False
  | _ => True

instance (s : Serial) (a : Act) : Decidable (s.Returns a) := by
  unfold Returns
  split <;> infer_instance

/-- The first process, without a state file. -/
def boot (now : ℚ) : Serial where
  shell := Shell.boot now .idle none
  tickedAt := now
  log := []

end Serial

/-! ## What a log owes the operator -/

/-- The time of the last start that was not healed, and the log since. -/
def openRun : List Mark → Option (ℚ × List Mark)
  | [] => none
  | .started t :: _ => some (t, [])
  | .healed :: _ => none
  | m :: ms => (openRun ms).map fun r => (r.1, m :: r.2)

/-- A step was toggled. -/
def Toggled (k : StepKey) (ms : List Mark) : Prop :=
  ∃ t, Mark.toggled k t ∈ ms

/-- The process crashed right after the mark that `newer` follows. -/
def CrashFirst (newer : List Mark) : Prop :=
  ∃ later, newer = later ++ [.crashed]

/-- A toggle belongs to an open run, comes after the step's delay and after all steps
before it, and repeats an earlier one only when the process crashed between that one
and its save. -/
def OnTime (tl : Timeline) (k : StepKey) (at_ : ℚ) (before : List Mark) : Prop :=
  ∃ t₀ ms s, openRun before = some (t₀, ms) ∧ tl.steps[k.1]? = some s ∧ k = key k.1 s ∧
    t₀ + tl.scaledDelay s ≤ at_ ∧
    (∀ i s', i < k.1 → tl.steps[i]? = some s' → Toggled (key i s') ms) ∧
    ∀ newer t older, ms = newer ++ .toggled k t :: older → CrashFirst newer

/-- A tick leaves no step of the open run behind that was due when it began. -/
def CaughtUp (tl : Timeline) (at_ : ℚ) (before : List Mark) : Prop :=
  ∀ t₀ ms, openRun before = some (t₀, ms) → ∀ i s, tl.steps[i]? = some s →
    t₀ + tl.scaledDelay s ≤ at_ → Toggled (key i s) ms

/-- Every toggle of the log is on time and every tick has caught up. -/
def Punctual (tl : Timeline) : List Mark → Prop
  | [] => True
  | .toggled k t :: ms => OnTime tl k t ms ∧ Punctual tl ms
  | .ticked t :: ms => CaughtUp tl t ms ∧ Punctual tl ms
  | _ :: ms => Punctual tl ms

/-! ## The state file and the log -/

theorem mem_keys_record {c : Cascade} {k k' : StepKey} {at_ : ℚ} :
    k' ∈ (c.record k at_).saved.keys ↔ k' = k ∨ k' ∈ c.keys := by
  by_cases hk : k' = k
  · simp [Cascade.keys, Cascade.record, Cascade.saved, hk]
  · simp [Cascade.keys, Cascade.record, Cascade.saved, hk]

/-- A scheduler state agrees with the log: it is armed when a run is open, it records
only steps toggled in that run, and a toggle it does not record was followed by a
crash, or is the last mark and still in flight. -/
structure Agrees (c : Cascade) (flight : Option StepKey) (log : List Mark) : Prop where
  idle : openRun log = none → c.active = false
  armed : ∀ t₀ ms, openRun log = some (t₀, ms) → c.active = true ∧ c.startedAt = some t₀
  recorded : ∀ t₀ ms, openRun log = some (t₀, ms) → ∀ k ∈ c.keys, Toggled k ms
  accounted : ∀ t₀ ms, openRun log = some (t₀, ms) → ∀ newer k t older,
    ms = newer ++ .toggled k t :: older →
      CrashFirst newer ∨ k ∈ c.keys ∨ (newer = [] ∧ flight = some k)

theorem Toggled.cons {k : StepKey} {ms : List Mark} (h : Toggled k ms) (m : Mark) :
    Toggled k (m :: ms) := by
  rcases h with ⟨t, ht⟩
  exact ⟨t, List.mem_cons_of_mem m ht⟩

theorem CrashFirst.cons {newer : List Mark} (h : CrashFirst newer) (m : Mark) :
    CrashFirst (m :: newer) := by
  rcases h with ⟨later, rfl⟩
  exact ⟨m :: later, rfl⟩

/-- A mark that neither opens nor closes a run extends it. -/
def Mark.Extends (m : Mark) : Prop :=
  ∀ ms, openRun (m :: ms) = (openRun ms).map fun r => (r.1, m :: r.2)

theorem openRun_cons {m : Mark} (hm : m.Extends) {ms run : List Mark} {t₀ : ℚ}
    (h : openRun (m :: ms) = some (t₀, run)) :
    ∃ rest, openRun ms = some (t₀, rest) ∧ run = m :: rest := by
  rw [hm, Option.map_eq_some_iff] at h
  rcases h with ⟨⟨t, rest⟩, hrest, heq⟩
  cases heq
  exact ⟨rest, hrest, rfl⟩

theorem openRun_extend {m : Mark} (hm : m.Extends) {ms run : List Mark} {t₀ : ℚ}
    (h : openRun ms = some (t₀, run)) : openRun (m :: ms) = some (t₀, m :: run) := by
  rw [hm, h]
  rfl

namespace Agrees

variable {c : Cascade} {flight : Option StepKey} {log : List Mark}

/-- Extending the open run keeps the agreement, once the toggle in flight is settled. -/
theorem extend (h : Agrees c flight log) {m : Mark} (hm : m.Extends) {flight' : Option StepKey}
    (hflight : ∀ k, flight = some k → m = .crashed ∨ k ∈ c.keys)
    (htoggle : ∀ k t, m = .toggled k t → flight' = some k) : Agrees c flight' (m :: log) where
  idle hnone := by
    rw [hm, Option.map_eq_none_iff] at hnone
    exact h.idle hnone
  armed t₀ ms hrun := by
    rcases openRun_cons hm hrun with ⟨rest, hrest, rfl⟩
    exact h.armed t₀ rest hrest
  recorded t₀ ms hrun k hk := by
    rcases openRun_cons hm hrun with ⟨rest, hrest, rfl⟩
    exact (h.recorded t₀ rest hrest k hk).cons m
  accounted t₀ ms hrun newer k t older hms := by
    rcases openRun_cons hm hrun with ⟨rest, hrest, rfl⟩
    cases newer with
    | nil =>
        rw [List.nil_append, List.cons.injEq] at hms
        exact Or.inr (Or.inr ⟨rfl, htoggle k t hms.1⟩)
    | cons m' newer =>
        rw [List.cons_append, List.cons.injEq] at hms
        rcases hms with ⟨rfl, hrest'⟩
        rcases h.accounted t₀ rest hrest newer k t older hrest' with hcrash | hk | ⟨rfl, hk⟩
        · exact Or.inl (hcrash.cons m)
        · exact Or.inr (Or.inl hk)
        · rcases hflight k hk with rfl | hk
          · exact Or.inl ⟨[], rfl⟩
          · exact Or.inr (Or.inl hk)

/-- Recording the toggle in flight settles it. -/
theorem record (h : Agrees c flight log) {k : StepKey} {at_ : ℚ} {c' : Cascade}
    (hc' : c' = (c.record k at_).saved)
    (htoggled : ∀ t₀ ms, openRun log = some (t₀, ms) → Toggled k ms) (hflight : flight = some k) :
    Agrees c' none log := by
  have hkeys : ∀ k', k' ∈ c'.keys ↔ k' = k ∨ k' ∈ c.keys := by
    intro k'
    rw [hc']
    exact mem_keys_record
  subst hc'
  exact {
    idle := h.idle
    armed := h.armed
    recorded := fun t₀ ms hrun k' hk' => by
      rcases (hkeys k').mp hk' with rfl | hk'
      · exact htoggled t₀ ms hrun
      · exact h.recorded t₀ ms hrun k' hk'
    accounted := fun t₀ ms hrun newer k' t older hms => by
      rcases h.accounted t₀ ms hrun newer k' t older hms with hcrash | hk' | ⟨-, hk'⟩
      · exact Or.inl hcrash
      · exact Or.inr (Or.inl ((hkeys k').mpr (Or.inr hk')))
      · rw [hflight, Option.some.injEq] at hk'
        exact Or.inr (Or.inl ((hkeys k').mpr (Or.inl hk'.symm))) }

end Agrees

/-! ## The invariant -/

/-- A tick found its steps due at `at_` in the open run: what it still has to fire is due
and not recorded, in list order, and every other step due then was toggled. -/
structure InTick (tl : Timeline) (recorded : List StepKey) (at_ t₀ : ℚ) (ms : List Mark)
    (due : List (StepKey × CascadeStep)) : Prop where
  step : ∀ p ∈ due, tl.steps[p.1.1]? = some p.2 ∧ p.1 = key p.1.1 p.2 ∧
    t₀ + tl.scaledDelay p.2 ≤ at_
  ordered : due.Pairwise fun p q => p.1.1 < q.1.1
  fresh : ∀ p ∈ due, p.1 ∉ recorded
  covered : ∀ i s, tl.steps[i]? = some s → t₀ + tl.scaledDelay s ≤ at_ →
    Toggled (key i s) ms ∨ (key i s, s) ∈ due

/-- A step was toggled in the tick under way, before the steps it still has to fire. -/
structure InFlight (p : StepKey) (ms : List Mark) (due : List (StepKey × CascadeStep)) :
    Prop where
  toggled : Toggled p ms
  before : ∀ q ∈ due, q.1 ≠ p

/-- What the shell's threads, its memory and its state file have in common. -/
def Coherent (tl : Timeline) (s : Serial) : Prop :=
  match s.shell.scheduler, s.shell.http 0 with
  | .sleeping, .idle =>
      s.shell.cascade.saved = .load s.shell.file ∧ Agrees (.load s.shell.file) none s.log
  | .sleeping, .starting =>
      (∃ t₀, s.shell.cascade = .start t₀) ∧ Agrees (.load s.shell.file) none s.log
  | .sleeping, .healing _ =>
      s.shell.cascade = .idle ∧ Agrees (.load s.shell.file) none s.log
  | .firing due, .idle =>
      s.shell.cascade.saved = .load s.shell.file ∧ Agrees (.load s.shell.file) none s.log ∧
      ∃ t₀ ms, openRun s.log = some (t₀, ms) ∧
        InTick tl (Cascade.load s.shell.file).keys s.tickedAt t₀ ms due
  | .recording p due, .idle =>
      s.shell.cascade.saved = .load s.shell.file ∧
      Agrees (.load s.shell.file) (some p.1) s.log ∧
      ∃ t₀ ms, openRun s.log = some (t₀, ms) ∧ InFlight p.1 ms due ∧
        InTick tl (Cascade.load s.shell.file).keys s.tickedAt t₀ ms due
  | .saving due, .idle =>
      ∃ k t, s.shell.cascade.saved = ((Cascade.load s.shell.file).record k t).saved ∧
        Agrees (.load s.shell.file) (some k) s.log ∧
        ∃ t₀ ms, openRun s.log = some (t₀, ms) ∧ InFlight k ms due ∧
          InTick tl (Cascade.load s.shell.file).keys s.tickedAt t₀ ms due
  | _, _ => False

/-- What every transition without overlap preserves. -/
structure Serial.Inv (tl : Timeline) (s : Serial) : Prop where
  punctual : Punctual tl s.log
  clock : s.tickedAt ≤ s.shell.now
  coherent : Coherent tl s

/-- A tick under way overlaps no call. -/
theorem Coherent.http_idle {tl : Timeline} {s : Serial} (h : Coherent tl s)
    (hsched : s.shell.scheduler ≠ .sleeping) : s.shell.http 0 = .idle := by
  unfold Coherent at h
  split at h
  · exact absurd ‹_› hsched
  · exact absurd ‹_› hsched
  · exact absurd ‹_› hsched
  · assumption
  · assumption
  · assumption
  · exact h.elim

/-- A call under way overlaps no tick. -/
theorem Coherent.sleeping {tl : Timeline} {s : Serial} (h : Coherent tl s)
    (hhttp : s.shell.http 0 ≠ .idle) : s.shell.scheduler = .sleeping := by
  by_contra hsched
  exact hhttp (h.http_idle hsched)

/-- In every phase the state file agrees with the log. -/
theorem Coherent.agrees {tl : Timeline} {s : Serial} (h : Coherent tl s) :
    ∃ flight, Agrees (.load s.shell.file) flight s.log := by
  unfold Coherent at h
  split at h
  · exact ⟨none, h.2⟩
  · exact ⟨none, h.2⟩
  · exact ⟨none, h.2⟩
  · exact ⟨none, h.2.1⟩
  · exact ⟨_, h.2.1⟩
  · rcases h with ⟨k, -, -, hagrees, -⟩
    exact ⟨some k, hagrees⟩
  · exact h.elim

/-! ## What a tick finds due -/

section Due

variable {c : Cascade} {tl : Timeline} {now t₀ : ℚ}

theorem due_eq (hactive : c.active = true) (hstarted : c.startedAt = some t₀) :
    c.due tl now = (tl.steps.zipIdx.filter fun p =>
      key p.2 p.1 ∉ c.keys ∧ tl.scaledDelay p.1 ≤ now - t₀).map
        fun p => (key p.2 p.1, p.1) := by
  unfold Cascade.due
  rw [hactive, hstarted]
  rfl

/-- A step is due when its delay has elapsed and it is not recorded. -/
theorem mem_due_iff (hactive : c.active = true) (hstarted : c.startedAt = some t₀)
    {k : StepKey} {s : CascadeStep} :
    (k, s) ∈ c.due tl now ↔
      tl.steps[k.1]? = some s ∧ k = key k.1 s ∧ k ∉ c.keys ∧ t₀ + tl.scaledDelay s ≤ now := by
  rw [due_eq hactive hstarted]
  simp only [List.mem_map, List.mem_filter, Prod.mk.injEq, decide_eq_true_eq, Prod.exists]
  constructor
  · rintro ⟨s', i, ⟨hmem, hfresh, hdelay⟩, rfl, rfl⟩
    refine ⟨List.mem_zipIdx_iff_getElem?.mp hmem, rfl, hfresh, ?_⟩
    linarith only [hdelay]
  · rintro ⟨hstep, hkey, hfresh, hdelay⟩
    refine ⟨s, k.1, ⟨List.mem_zipIdx_iff_getElem?.mpr hstep, ?_, ?_⟩, hkey.symm, rfl⟩
    · rwa [← hkey]
    · linarith only [hdelay]

theorem pairwise_zipIdx {α : Type} (xs : List α) (n : Nat) :
    (xs.zipIdx n).Pairwise fun p q => p.2 < q.2 := by
  induction xs generalizing n with
  | nil => exact List.Pairwise.nil
  | cons x xs ih =>
      rw [List.zipIdx_cons, List.pairwise_cons]
      refine ⟨fun q hq => ?_, ih (n + 1)⟩
      have hle := List.le_snd_of_mem_zipIdx hq
      simp only
      omega

/-- The due steps are in list order. -/
theorem pairwise_due (hactive : c.active = true) (hstarted : c.startedAt = some t₀) :
    (c.due tl now).Pairwise fun p q => p.1.1 < q.1.1 := by
  rw [due_eq hactive hstarted, List.pairwise_map]
  exact (pairwise_zipIdx tl.steps 0).filter _

end Due

/-! ## One transition -/

section Step

variable {tl : Timeline} {s : Serial}

/-- A new process is coherent with the file it loads. -/
theorem Serial.Inv.crash (h : s.Inv tl) :
    Serial.Inv tl { s with
      shell := Shell.boot s.shell.now (Cascade.load s.shell.file) s.shell.file
      log := .crashed :: s.log } where
  punctual := h.punctual
  clock := h.clock
  coherent := by
    rcases h.coherent.agrees with ⟨flight, hagrees⟩
    refine ⟨?_, hagrees.extend (fun _ => rfl) (fun _ _ => Or.inl rfl) nofun⟩
    cases hfile : s.shell.file with
    | none => rfl
    | some c => rfl

/-- Time passes. -/
theorem Serial.Inv.advance (h : s.Inv tl) (d : ℚ≥0) :
    Serial.Inv tl { s with shell := { s.shell with now := s.shell.now + d } } where
  punctual := h.punctual
  clock := by
    have hd : (0 : ℚ) ≤ d := d.2
    have hclock := h.clock
    simp only
    linarith only [hd, hclock]
  coherent := h.coherent

/-- The state of an armed scheduler that agrees with the log is that of the open run. -/
theorem Agrees.exists_run {c : Cascade} {flight : Option StepKey} {log : List Mark}
    (h : Agrees c flight log) (hactive : c.active = true) :
    ∃ t₀ ms, openRun log = some (t₀, ms) ∧ c.startedAt = some t₀ := by
  cases hrun : openRun log with
  | none =>
      have hoff := h.idle hrun
      rw [hactive] at hoff
      cases hoff
  | some run => exact ⟨run.1, run.2, rfl, (h.armed run.1 run.2 hrun).2⟩

/-- Memory that differs from the file only in the completion flag arms the same run. -/
theorem Cascade.saved_eq {c d : Cascade} (h : c.saved = d) :
    c.active = d.active ∧ c.startedAt = d.startedAt ∧ c.keys = d.keys := by
  subst h
  exact ⟨rfl, rfl, rfl⟩

/-- A tick finds what is due in the open run. -/
theorem Serial.Inv.tickDue (h : s.Inv tl) (hsched : s.shell.scheduler = .sleeping)
    (hidle : s.shell.http 0 = .idle)
    (harmed : s.shell.cascade.active = true ∧ s.shell.cascade.startedAt ≠ none) :
    Serial.Inv tl { s with
      shell := { s.shell with scheduler := .firing (s.shell.cascade.due tl s.shell.now) }
      tickedAt := s.shell.now } where
  punctual := h.punctual
  clock := le_refl _
  coherent := by
    have hcoherent := h.coherent
    rw [Coherent, hsched, hidle] at hcoherent
    rcases hcoherent with ⟨hsaved, hagrees⟩
    rcases Cascade.saved_eq hsaved with ⟨hactive, hstarted, hkeys⟩
    rcases hagrees.exists_run (hactive ▸ harmed.1) with ⟨t₀, ms, hrun, ht₀⟩
    have hmem := fun k st => @mem_due_iff _ tl s.shell.now _ harmed.1 (hstarted.trans ht₀) k st
    rw [Coherent]
    simp only [hidle]
    refine ⟨hsaved, hagrees, t₀, ms, hrun, ?_⟩
    constructor
    · intro p hp
      rcases (hmem p.1 p.2).mp hp with ⟨hstep, hkey, -, hdelay⟩
      exact ⟨hstep, hkey, hdelay⟩
    · exact pairwise_due harmed.1 (hstarted.trans ht₀)
    · intro p hp
      rcases (hmem p.1 p.2).mp hp with ⟨-, -, hfresh, -⟩
      rwa [← hkeys]
    · intro i st hstep hdelay
      by_cases hfired : key i st ∈ s.shell.cascade.keys
      · exact Or.inl (hagrees.recorded t₀ ms hrun _ (hkeys ▸ hfired))
      · exact Or.inr ((hmem _ _).mpr ⟨hstep, rfl, hfired, hdelay⟩)

/-- A tick of an idle shell has nothing to catch up with. -/
theorem Serial.Inv.tickIdle (h : s.Inv tl) (hsched : s.shell.scheduler = .sleeping)
    (hidle : s.shell.http 0 = .idle)
    (harmed : ¬ (s.shell.cascade.active = true ∧ s.shell.cascade.startedAt ≠ none)) :
    Serial.Inv tl { s with
      tickedAt := s.shell.now
      log := .ticked s.shell.now :: s.log } := by
  have hcoherent := h.coherent
  rw [Coherent, hsched, hidle] at hcoherent
  rcases hcoherent with ⟨hsaved, hagrees⟩
  rcases Cascade.saved_eq hsaved with ⟨hactive, hstarted, -⟩
  constructor
  · refine ⟨fun t₀ ms hrun => ?_, h.punctual⟩
    rcases hagrees.armed t₀ ms hrun with ⟨hon, ht₀⟩
    exact absurd ⟨hactive.trans hon, by rw [hstarted, ht₀]; exact Option.some_ne_none t₀⟩ harmed
  · exact le_refl _
  · rw [Coherent]
    simp only [hsched, hidle]
    exact ⟨hsaved, hagrees.extend (fun _ => rfl) nofun nofun⟩

/-- An extended run keeps what a tick has still to fire. -/
theorem InTick.cons {recorded : List StepKey} {at_ t₀ : ℚ} {ms : List Mark}
    {due : List (StepKey × CascadeStep)} (h : InTick tl recorded at_ t₀ ms due) (m : Mark) :
    InTick tl recorded at_ t₀ (m :: ms) due where
  step := h.step
  ordered := h.ordered
  fresh := h.fresh
  covered i st hstep hdelay := (h.covered i st hstep hdelay).imp_left (·.cons m)

/-- With non-decreasing delays, every step before one that is due is due as well. -/
theorem delay_le_of_lt (hsteps : tl.steps.Pairwise fun a b => a.delayS ≤ b.delayS)
    (hscale : 0 ≤ tl.timeScale) {i j : Nat} {a b : CascadeStep} (hij : i < j)
    (ha : tl.steps[i]? = some a) (hb : tl.steps[j]? = some b) :
    tl.scaledDelay a ≤ tl.scaledDelay b := by
  rcases List.getElem?_eq_some_iff.mp ha with ⟨hi, rfl⟩
  rcases List.getElem?_eq_some_iff.mp hb with ⟨hj, rfl⟩
  have hle := List.pairwise_iff_getElem.mp hsteps i j hi hj hij
  exact mul_le_mul_of_nonneg_right hle hscale

/-- The first step a tick has still to fire is toggled on time. -/
theorem InTick.onTime (hsteps : tl.steps.Pairwise fun a b => a.delayS ≤ b.delayS)
    (hscale : 0 ≤ tl.timeScale) {c : Cascade} {log ms : List Mark} {at_ now t₀ : ℚ}
    {p : StepKey × CascadeStep} {due : List (StepKey × CascadeStep)}
    (h : InTick tl c.keys at_ t₀ ms (p :: due)) (hagrees : Agrees c none log)
    (hrun : openRun log = some (t₀, ms)) (hnow : at_ ≤ now) : OnTime tl p.1 now log := by
  rcases h.step p List.mem_cons_self with ⟨hstep, hkey, hdelay⟩
  refine ⟨t₀, ms, p.2, hrun, hstep, hkey, hdelay.trans hnow, ?_, ?_⟩
  · intro i st hi hst
    have hle := delay_le_of_lt hsteps hscale hi hst hstep
    rcases h.covered i st hst (by linarith only [hle, hdelay]) with htoggled | hdue
    · exact htoggled
    · -- an earlier step is not among the due ones behind the first
      rcases List.mem_cons.mp hdue with hp | hdue
      · rw [← hp] at hi
        exact absurd hi (lt_irrefl i)
      · exact absurd hi (Nat.not_lt.mpr (List.rel_of_pairwise_cons h.ordered hdue).le)
  · intro newer t older hms
    rcases hagrees.accounted t₀ ms hrun newer p.1 t older hms with hcrash | hrec | ⟨-, hnone⟩
    · exact hcrash
    · exact absurd hrec (h.fresh p List.mem_cons_self)
    · cases hnone

/-- A toggle is sent on time, and is in flight until it is saved. -/
theorem Serial.Inv.fireToggle (hsteps : tl.steps.Pairwise fun a b => a.delayS ≤ b.delayS)
    (hscale : 0 ≤ tl.timeScale) (h : s.Inv tl) {p : StepKey × CascadeStep}
    {due : List (StepKey × CascadeStep)} (hsched : s.shell.scheduler = .firing (p :: due))
    (events : List Event) :
    Serial.Inv tl { s with
      shell := { s.shell with scheduler := .recording p due, events := events }
      log := .toggled p.1 s.shell.now :: s.log } := by
  have hidle := h.coherent.http_idle (by rw [hsched]; simp)
  have hcoherent := h.coherent
  rw [Coherent, hsched, hidle] at hcoherent
  rcases hcoherent with ⟨hsaved, hagrees, t₀, ms, hrun, htick⟩
  constructor
  · exact ⟨htick.onTime hsteps hscale hagrees hrun h.clock, h.punctual⟩
  · exact h.clock
  · rw [Coherent]
    simp only [hidle]
    refine ⟨hsaved, ?_, t₀, _, openRun_extend (fun _ => rfl) hrun, ?_, ?_⟩
    · apply hagrees.extend (fun _ => rfl) nofun
      intro k t hm
      cases hm
      rfl
    · refine ⟨⟨_, List.mem_cons_self⟩, fun q hq heq => ?_⟩
      have hlt := List.rel_of_pairwise_cons htick.ordered hq
      rw [heq] at hlt
      exact absurd hlt (lt_irrefl _)
    · constructor
      · exact fun q hq => htick.step q (List.mem_cons_of_mem p hq)
      · exact htick.ordered.of_cons
      · exact fun q hq => htick.fresh q (List.mem_cons_of_mem p hq)
      · intro i st hstep hdelay
        rcases htick.covered i st hstep hdelay with htoggled | hdue
        · exact Or.inl (htoggled.cons _)
        · rcases List.mem_cons.mp hdue with rfl | hdue
          · exact Or.inl ⟨_, List.mem_cons_self⟩
          · exact Or.inr hdue

/-- Recording the step in flight changes memory only. -/
theorem Serial.Inv.fireRecord (h : s.Inv tl) {p : StepKey × CascadeStep}
    {due : List (StepKey × CascadeStep)} (hsched : s.shell.scheduler = .recording p due) :
    Serial.Inv tl { s with
      shell := { s.shell with
        scheduler := .saving due
        cascade := s.shell.cascade.record p.1 s.shell.now } } where
  punctual := h.punctual
  clock := h.clock
  coherent := by
    have hidle := h.coherent.http_idle (by rw [hsched]; simp)
    have hcoherent := h.coherent
    rw [Coherent, hsched, hidle] at hcoherent
    rcases hcoherent with ⟨hsaved, hagrees, hrun⟩
    rw [Coherent]
    simp only [hidle]
    refine ⟨p.1, s.shell.now, ?_, hagrees, hrun⟩
    rw [← hsaved]
    rfl

/-- Saving settles the toggle in flight. -/
theorem Serial.Inv.fireSave (h : s.Inv tl) {due : List (StepKey × CascadeStep)}
    (hsched : s.shell.scheduler = .saving due) :
    Serial.Inv tl { s with
      shell := { s.shell with scheduler := .firing due, file := some s.shell.cascade }
      log := .saved :: s.log } where
  punctual := h.punctual
  clock := h.clock
  coherent := by
    have hidle := h.coherent.http_idle (by rw [hsched]; simp)
    have hcoherent := h.coherent
    rw [Coherent, hsched, hidle] at hcoherent
    rcases hcoherent with ⟨k, t, hsaved, hagrees, t₀, ms, hrun, hflight, htick⟩
    have hrecord : Agrees s.shell.cascade.saved none s.log := by
      apply hagrees.record hsaved _ rfl
      intro t₀' ms' hrun'
      rw [hrun] at hrun'
      cases hrun'
      exact hflight.toggled
    rw [Coherent]
    simp only [hidle]
    refine ⟨rfl, hrecord.extend (fun _ => rfl) nofun nofun, t₀, _,
      openRun_extend (fun _ => rfl) hrun, ?_⟩
    constructor
    · exact htick.step
    · exact htick.ordered
    · intro q hq hmem
      rw [Cascade.load, hsaved, mem_keys_record] at hmem
      rcases hmem with hk | hmem
      · exact hflight.before q hq hk
      · exact htick.fresh q hq hmem
    · exact (htick.cons .saved).covered

/-- A tick that has nothing left to fire has caught up. -/
theorem Serial.Inv.tickDone (h : s.Inv tl) (hsched : s.shell.scheduler = .firing []) :
    Serial.Inv tl { s with
      shell := { s.shell with
        scheduler := .sleeping
        cascade := s.shell.cascade.logComplete tl }
      log := .ticked s.tickedAt :: s.log } := by
  have hidle := h.coherent.http_idle (by rw [hsched]; simp)
  have hcoherent := h.coherent
  rw [Coherent, hsched, hidle] at hcoherent
  rcases hcoherent with ⟨hsaved, hagrees, t₀, ms, hrun, htick⟩
  have hcomplete : (s.shell.cascade.logComplete tl).saved = s.shell.cascade.saved := by
    unfold Cascade.logComplete
    split <;> rfl
  constructor
  · refine ⟨fun t₀' ms' hrun' i st hstep hdelay => ?_, h.punctual⟩
    rw [hrun] at hrun'
    cases hrun'
    rcases htick.covered i st hstep hdelay with htoggled | hdue
    · exact htoggled
    · cases hdue
  · exact h.clock
  · rw [Coherent]
    simp only [hidle]
    exact ⟨hcomplete.trans hsaved, hagrees.extend (fun _ => rfl) nofun nofun⟩

/-- While the scheduler rests and a panel thread is idle, the file holds the memory. -/
theorem Coherent.resting (h : Coherent tl s) (hsched : s.shell.scheduler = .sleeping) :
    Agrees (.load s.shell.file) none s.log := by
  cases hhttp : s.shell.http 0 <;>
    (rw [Coherent, hsched, hhttp] at h
     exact h.2)

/-- A call has taken the lock: memory is new, file and log are not. -/
theorem Serial.Inv.lock (h : s.Inv tl) (hsched : s.shell.scheduler = .sleeping) {c : Cascade}
    {call : HttpCall} (hcall : call = .starting ∧ (∃ t₀, c = .start t₀) ∨
      (∃ hosts, call = .healing hosts) ∧ c = .idle) (events : List Event) :
    Serial.Inv tl { s with
      shell := { s.shell with cascade := c, events := events }.setHttp 0 call } where
  punctual := h.punctual
  clock := h.clock
  coherent := by
    have hagrees := h.coherent.resting hsched
    rw [Coherent]
    simp only [Shell.setHttp, hsched, if_true]
    rcases hcall with ⟨rfl, hc⟩ | ⟨⟨hosts, rfl⟩, hc⟩
    · exact ⟨hc, hagrees⟩
    · exact ⟨hc, hagrees⟩

/-- A start that has saved opens a run. -/
theorem Serial.Inv.startSave (h : s.Inv tl) (hhttp : s.shell.http 0 = .starting) :
    Serial.Inv tl { s with
      shell := { s.shell with file := some s.shell.cascade }.setHttp 0 .idle
      log := (s.shell.cascade.startedAt.map Mark.started).toList ++ s.log } := by
  have hsched := h.coherent.sleeping (by rw [hhttp]; simp)
  have hcoherent := h.coherent
  rw [Coherent, hsched, hhttp] at hcoherent
  rcases hcoherent with ⟨⟨t₀, hstart⟩, -⟩
  constructor
  · rw [hstart]
    exact h.punctual
  · exact h.clock
  · rw [Coherent]
    simp only [Shell.setHttp, hsched, if_true, hstart]
    refine ⟨rfl, ?_⟩
    constructor
    · intro hnone
      cases hnone
    · intro t ms hrun
      cases hrun
      exact ⟨rfl, rfl⟩
    · intro t ms hrun k hk
      cases hk
    · intro t ms hrun newer k t' older hms
      cases hrun
      exact absurd hms (by simp)

/-- The host toggles of a heal change no field of the scheduler. -/
theorem Serial.Inv.healToggle (h : s.Inv tl) {hosts : List Text}
    (hhttp : s.shell.http 0 = .healing hosts) (rest : List Text) (events : List Event) :
    Serial.Inv tl { s with
      shell := { s.shell with events := events }.setHttp 0 (.healing rest) } where
  punctual := h.punctual
  clock := h.clock
  coherent := by
    have hsched := h.coherent.sleeping (by rw [hhttp]; simp)
    have hcoherent := h.coherent
    rw [Coherent, hsched, hhttp] at hcoherent
    rw [Coherent]
    simp only [Shell.setHttp, hsched, if_true]
    exact hcoherent

/-- A heal that has saved closes the run. -/
theorem Serial.Inv.healSave (h : s.Inv tl) {hosts : List Text}
    (hhttp : s.shell.http 0 = .healing hosts) (events : List Event) :
    Serial.Inv tl { s with
      shell := { s.shell with
        file := some s.shell.cascade, events := events }.setHttp 0 .idle
      log := .healed :: s.log } := by
  have hsched := h.coherent.sleeping (by rw [hhttp]; simp)
  have hcoherent := h.coherent
  rw [Coherent, hsched, hhttp] at hcoherent
  rcases hcoherent with ⟨hidle, -⟩
  constructor
  · exact h.punctual
  · exact h.clock
  · rw [Coherent]
    simp only [Shell.setHttp, hsched, if_true, hidle]
    exact ⟨rfl, fun _ => rfl, nofun, nofun, nofun⟩

/-- A process that has just started agrees with its empty log. -/
theorem Serial.inv_boot (tl : Timeline) (now : ℚ) : (Serial.boot now).Inv tl where
  punctual := trivial
  clock := le_refl now
  coherent := ⟨rfl, fun _ => rfl, nofun, nofun, nofun⟩

/-- One transition without overlap preserves the invariant. -/
theorem Serial.Inv.move (hsteps : tl.steps.Pairwise fun a b => a.delayS ≤ b.delayS)
    (hscale : 0 ≤ tl.timeScale) (h : s.Inv tl) {l : Label} {s' : Serial}
    (hstep : s.step tl (.move l) = some s') (hreturns : s.Returns (.move l)) : s'.Inv tl := by
  simp only [Serial.step, Option.ite_none_right_eq_some, Option.map_eq_some_iff] at hstep
  rcases hstep with ⟨hadmits, shell, hshell, rfl⟩
  cases Shell.moves_of_step hshell with
  | clock d => exact h.advance d
  | tickArmed hsched harmed => simpa [Serial.marks, harmed] using h.tickDue hsched hadmits harmed
  | tickIdle hsched harmed => simpa [Serial.marks, harmed] using h.tickIdle hsched hadmits harmed
  | fireToggle hsched => simpa [Serial.marks, hsched] using h.fireToggle hsteps hscale hsched _
  | fireRaise => exact hreturns.elim
  | fireRecord hsched => exact h.fireRecord hsched
  | fireSave hsched => exact h.fireSave hsched
  | tickDone hsched => exact h.tickDone hsched
  | startLock =>
      rcases hadmits with ⟨rfl, hrest⟩
      exact h.lock (resting_iff.mp hrest) (Or.inl ⟨rfl, _, rfl⟩) _
  | startSave hhttp =>
      cases hadmits
      exact h.startSave hhttp
  | healLock =>
      rcases hadmits with ⟨rfl, hrest⟩
      exact h.lock (resting_iff.mp hrest) (Or.inr ⟨⟨_, rfl⟩, rfl⟩) s.shell.events
  | healToggle hhttp =>
      cases hadmits
      exact h.healToggle hhttp _ _
  | healRaise => exact hreturns.elim
  | healSave hhttp =>
      cases hadmits
      exact h.healSave hhttp _

/-- One transition or crash under the condition preserves the invariant. -/
theorem Serial.Inv.step (hsteps : tl.steps.Pairwise fun a b => a.delayS ≤ b.delayS)
    (hscale : 0 ≤ tl.timeScale) (h : s.Inv tl) {a : Act} {s' : Serial}
    (hstep : s.step tl a = some s') (hreturns : s.Returns a) : s'.Inv tl := by
  cases a with
  | move l => exact h.move hsteps hscale hstep hreturns
  | crash =>
      cases hstep
      exact h.crash

end Step

/-! ## Whole runs -/

/-- **Runs whose toggles return are punctual.**  Whatever starts, heals, ticks and crashes
follow one another: no step is toggled early, out of order or after a heal, every tick
catches up with the clock, and only a crash before the save toggles a step again. -/
theorem Serial.punctual_of_returns (tl : Timeline)
    (hsteps : tl.steps.Pairwise fun a b => a.delayS ≤ b.delayS) (hscale : 0 ≤ tl.timeScale)
    (now : ℚ) {acts : List Act} {s : Serial}
    (hrun : Run (Meeting (Graph (Serial.step tl)) Serial.Returns) (Serial.boot now) acts s) :
    Punctual tl s.log := by
  have hinv : s.Inv tl :=
    hrun.invariant (fun u l t hu hstep => hu.step hsteps hscale hstep.1 hstep.2)
      (Serial.inv_boot tl now)
  exact hinv.punctual

/-- The timeline of a shell that carries the primary database only. -/
def databaseOnly : Timeline :=
  .ofRoster [⟨"db-postgres-01".toList, [.degrade, .break_, .heal]⟩] 1

/-- A trigger, a crash between a toggle and its save, and the tick that catches up. -/
def crashSchedule : List Act :=
  [.move (.startLock 0), .move (.startSave 0), .move (.clock 3), .move .tickDue,
   .move .fireToggle, .move .fireRecord, .crash, .move (.clock 120), .move .tickDue,
   .move .fireToggle, .move .fireRecord, .move .fireSave, .move .tickDone]

/-- The database step of the crash schedule is toggled twice, once on each side of the
crash, and its log is punctual. -/
theorem Serial.punctual_of_returns_crash :
    ∃ s, Run (Graph (Serial.step databaseOnly)) (Serial.boot 0) crashSchedule s ∧
      Punctual databaseOnly s.log ∧
      s.log = [.ticked 123, .saved, .toggled (0, "db-postgres-01".toList, .degrade) 123,
        .crashed, .toggled (0, "db-postgres-01".toList, .degrade) 3, .started 0] := by
  have hlog : (execute (guarded (Serial.step databaseOnly) Serial.Returns) (Serial.boot 0)
      crashSchedule).map (fun s => s.log) = some [.ticked 123, .saved,
        .toggled (0, "db-postgres-01".toList, .degrade) 123, .crashed,
        .toggled (0, "db-postgres-01".toList, .degrade) 3, .started 0] := by decide +kernel
  rcases Option.map_eq_some_iff.mp hlog with ⟨s, hs, hmarks⟩
  have hrun := meeting_of_execute hs
  exact ⟨s, hrun.mono fun _ _ _ h => h.1, Serial.punctual_of_returns databaseOnly
    (by decide +kernel) (by decide +kernel) 0 hrun, hmarks⟩

/-- Both steps of the database are due when its first toggle raises. -/
def raisedSchedule : List Act :=
  [.move (.startLock 0), .move (.startSave 0), .move (.clock 400), .move .tickDue,
   .move .fireRaise]

/-- The tick whose first toggle raises misses the second step. -/
theorem Serial.not_punctual_raised :
    ¬ ∀ (tl : Timeline) (now : ℚ) (acts : List Act) (s : Serial),
      tl.steps.Pairwise (fun a b => a.delayS ≤ b.delayS) → 0 ≤ tl.timeScale →
      Run (Graph (Serial.step tl)) (Serial.boot now) acts s → Punctual tl s.log := by
  intro hclaim
  have hlog : (execute (Serial.step databaseOnly) (Serial.boot 0) raisedSchedule).map
      (fun s => s.log) = some [.ticked 400,
        .toggled (0, "db-postgres-01".toList, .degrade) 400, .started 0] := by decide +kernel
  rcases Option.map_eq_some_iff.mp hlog with ⟨s, hs, hmarks⟩
  have hpunctual := hclaim databaseOnly 0 raisedSchedule s (by decide +kernel) (by decide +kernel)
    (run_of_execute hs)
  rw [hmarks] at hpunctual
  have hsecond : ∃ step, databaseOnly.steps[1]? = some step ∧
      0 + databaseOnly.scaledDelay step ≤ 400 := ⟨_, rfl, by decide +kernel⟩
  rcases hsecond with ⟨step, hstep, hdue⟩
  -- only the first step has been toggled
  rcases hpunctual.1 0 _ rfl 1 step hstep hdue with ⟨t, ht⟩
  simp [key] at ht

end Delivery
end DemoEstate
