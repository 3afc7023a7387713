import Mathlib.Algebra.Order.Ring.Rat
import Mathlib.Data.NNRat.Defs
import Mathlib.Data.Rat.Floor
import DemoEstate.Library.Files
import DemoEstate.Library.Round
import DemoEstate.Library.Transition

/-!
# The state file of the dying database host

Agent polls, toggles and the watchdog save the host's state from threads of their own.  A
save takes its snapshot under the lock, and writes it through one temporary path that all
saves share.  A run interleaves the critical sections, the opens, the single writes and
the renames of any number of threads.

Main definitions:

- Definition {lit}`Snapshot.json`: the text of a snapshot.
- Definition {lit}`Host.step`: the transitions of the host's threads.
- Definition {lit}`Host.Durable`: what the state file owes when no save is under way.

Main results:

- Theorem {lit}`Host.Inv.step`: one transition that meets the condition preserves the
  invariant.
- Theorem {lit}`Host.durable_of_alone`: runs in which no snapshot is taken while another
  thread is within {lit}`set_state` or {lit}`save_state` keep the state file durable.
- Theorem {lit}`Host.not_durable_overtaken`: a poll that took its snapshot before a toggle
  and renames after it undoes the toggle in the file.
-/

namespace DemoEstate
namespace Hosts

open Files
open Transition

/-! ## The incident state and its snapshot -/

/-- The state of the host. -/
inductive State where
  | healthy
  | degraded
  | broken
deriving DecidableEq

/-- The name of a state. -/
def State.name : State → Text
  | .healthy => "healthy".toList
  | .degraded => "degraded".toList
  | .broken => "broken".toList

/-- The incident state and its timestamps. -/
structure Incident where
  state : State
  degradedSince : Option ℚ
  brokenSince : Option ℚ
  stateSince : ℚ
deriving DecidableEq

/-- The critical section of `set_state`. -/
def Incident.set (inc : Incident) (value : State) (now : ℚ) : Incident where
  stateSince := if value ≠ inc.state then now else inc.stateSince
  state := value
  degradedSince :=
    if value = .healthy then none
    else if inc.degradedSince = none then some now else inc.degradedSince
  brokenSince :=
    if value = .broken then
      if inc.brokenSince = none then some now else inc.brokenSince
    else none

/-- The data of a save; a counter is its name, its accumulator and its last time. -/
structure Snapshot where
  start : ℚ
  incident : Incident
  counters : List (Text × ℚ × ℚ)
deriving DecidableEq

/-- A quoted string; no name in a snapshot holds a character that is escaped. -/
def quoted (s : Text) : Text :=
  '"' :: s ++ ['"']

/-- Items separated by a comma and a blank. -/
def commaSep : List Text → Text
  | [] => []
  | [item] => item
  | item :: items => item ++ ", ".toList ++ commaSep items

section Json

variable (repr : ℚ → Text)

/-- A number or null. -/
def orNull : Option ℚ → Text
  | none => "null".toList
  | some q => repr q

/-- The text of a snapshot; `repr` prints a number. -/
def Snapshot.json (snap : Snapshot) : Text :=
  "\x7b\"version\": 1, \"start\": ".toList ++ repr snap.start ++
  ", \"state\": ".toList ++ quoted snap.incident.state.name ++
  ", \"degraded_since\": ".toList ++ orNull repr snap.incident.degradedSince ++
  ", \"broken_since\": ".toList ++ orNull repr snap.incident.brokenSince ++
  ", \"state_since\": ".toList ++ repr snap.incident.stateSince ++
  ", \"counters\": \x7b".toList ++
  commaSep (snap.counters.map fun c =>
    quoted c.1 ++ ": [".toList ++ repr c.2.1 ++ ", ".toList ++ repr c.2.2 ++ "]".toList) ++
  "\x7d\x7d".toList

end Json

/-! ## The threads of the host -/

/-- The state file and the temporary path beside it. -/
inductive Path where
  | stateFile
  | tmp
deriving DecidableEq

/-- Where a thread stands: a toggle that has left its critical section, a save with its
snapshot, and a save that has opened the temporary path, with its file, its offset and what
it has still to write.  A save of a toggle remembers what the toggle set. -/
inductive Thread where
  | idle
  | entered (inc : Incident)
  | dumping (snap : Snapshot) (setting : Option Incident)
  | writing (snap : Snapshot) (setting : Option Incident) (file offset : Nat) (rest : Text)
deriving DecidableEq

/-- The thread is within `save_state`. -/
def Thread.saving : Thread → Bool
  | .idle | .entered _ => false
  | .dumping .. | .writing .. => true

/-- What the toggle a thread is saving had set. -/
def Thread.setting : Thread → Option Incident
  | .idle | .entered _ => none
  | .dumping _ setting | .writing _ setting .. => setting

/-- The clock, the memory and the threads of the host, and its files.  Two fields are kept
for the statements: the snapshots taken so far, and what the `set_state` call that
completed last had set. -/
structure Host where
  now : ℚ
  start : ℚ
  incident : Incident
  disk : Disk Path
  threads : List Thread
  taken : List Snapshot
  completed : Option Incident

/-- The transitions: time passes, thread `w` moves.  The counters of a snapshot are read
while polls advance them, and a write may take any part of what is left. -/
inductive Label where
  | clock (d : ℚ≥0)
  | setState (w : Nat) (value : State)
  | snapshot (w : Nat) (counters : List (Text × ℚ × ℚ))
  | openTmp (w : Nat)
  | write (w n : Nat)
  | replace (w : Nat)

namespace Host

/-- Move one thread. -/
def setThread (h : Host) (w : Nat) (t : Thread) : Host :=
  { h with threads := h.threads.set w t }

/-- Take a snapshot. -/
def take (h : Host) (counters : List (Text × ℚ × ℚ)) : Snapshot :=
  ⟨h.start, h.incident, counters⟩

/-- One transition. -/
def step (repr : ℚ → Text) (h : Host) : Label → Option Host
  | .clock d => some { h with now := h.now + d }
  | .setState w value =>
      match h.threads[w]? with
      | some .idle =>
          let inc := h.incident.set value h.now
          some ({ h with incident := inc }.setThread w (.entered inc))
      | _ => none
  | .snapshot w counters =>
      match h.threads[w]? with
      | some .idle =>
          some ({ h with taken := h.take counters :: h.taken }.setThread w
            (.dumping (h.take counters) none))
      | some (.entered inc) =>
          some ({ h with taken := h.take counters :: h.taken }.setThread w
            (.dumping (h.take counters) (some inc)))
      | _ => none
  | .openTmp w =>
      match h.threads[w]? with
      | some (.dumping snap setting) =>
          let opened := h.disk.openWrite .tmp
          some ({ h with disk := opened.2 }.setThread w
            (.writing snap setting opened.1 0 (snap.json repr)))
      | _ => none
  | .write w n =>
      match h.threads[w]? with
      | some (.writing snap setting file offset (c :: rest)) =>
          let chunk := (c :: rest).take (n + 1)
          some ({ h with disk := h.disk.write file offset chunk }.setThread w
            (.writing snap setting file (offset + chunk.length) ((c :: rest).drop (n + 1))))
      | _ => none
  | .replace w =>
      match h.threads[w]? with
      | some (.writing _ setting _ _ []) =>
          -- a rename that fails is reported and leaves the files as they are
          some ({ h with
            disk := (h.disk.rename .tmp .stateFile).getD h.disk
            completed := setting.or h.completed }.setThread w .idle)
      | _ => none

/-- A host that has just loaded its state, with `n` threads at rest. -/
def boot (n : Nat) (now start : ℚ) (inc : Incident) (disk : Disk Path) : Host where
  now := now
  start := start
  incident := inc
  disk := disk
  threads := List.replicate n .idle
  taken := []
  completed := none

/-- When no save is under way and a toggle has completed, the state file holds one whole
snapshot, with the incident state and the timestamps the last completed toggle set. -/
def Durable (repr : ℚ → Text) (h : Host) : Prop :=
  (∀ t ∈ h.threads, t.saving = false) → ∀ inc, h.completed = some inc →
    ∃ snap ∈ h.taken, h.disk.read .stateFile = some (snap.json repr) ∧ snap.incident = inc

/-- A save takes its snapshot only when every other thread is outside `set_state` and
`save_state`. -/
def Alone (h : Host) : Label → Prop
  | .snapshot w _ => ∀ v < h.threads.length, v ≠ w → h.threads[v]? = some .idle
  | _ => True

instance (h : Host) (l : Label) : Decidable (Alone h l) := by
  unfold Alone
  cases l <;> infer_instance

/-! ## The invariant -/

/-- Where a thread stands; one that does not exist is at rest. -/
def thread (h : Host) (w : Nat) : Thread :=
  (h.threads[w]?).getD .idle

/-- What the save of a thread is going to leave as the last completed toggle. -/
def leaves (h : Host) (w : Nat) : Option Incident :=
  (h.thread w).setting.or h.completed

/-- What every transition that meets the condition preserves.  At most one thread saves;
its snapshot holds what it is going to leave, and the temporary file what it has written.
The memory holds what the last toggle set: the one that has entered, else the one being
saved, else the last completed one. -/
structure Inv (repr : ℚ → Text) (h : Host) : Prop where
  durable : Durable repr h
  only : ∀ w, (h.thread w).saving = true → ∀ v ≠ w, (h.thread v).saving = false
  dumping : ∀ w snap setting, h.thread w = .dumping snap setting →
    snap ∈ h.taken ∧ ∀ c, h.leaves w = some c → snap.incident = c
  writing : ∀ w snap setting file offset rest,
    h.thread w = .writing snap setting file offset rest →
      snap ∈ h.taken ∧ (∀ c, h.leaves w = some c → snap.incident = c) ∧
      h.disk.links .tmp = some file ∧ offset = (h.disk.content file).length ∧
      h.disk.content file ++ rest = snap.json repr
  entered : ∀ w inc, h.thread w = .entered inc →
    (∀ v ≠ w, ∀ inc', h.thread v ≠ .entered inc') → h.incident = inc
  settled : (∀ v inc, h.thread v ≠ .entered inc) → ∀ w,
    (∀ v ≠ w, (h.thread v).saving = false) → ∀ c, h.leaves w = some c → h.incident = c

section Threads

variable {h : Host} {w : Nat} {t u : Thread}

theorem thread_of_getElem? (ht : h.threads[w]? = some t) : h.thread w = t := by
  rw [thread, ht]
  rfl

theorem thread_setThread (ht : h.threads[w]? = some t) (v : Nat) :
    (h.setThread w u).thread v = if v = w then u else h.thread v := by
  rcases List.getElem?_eq_some_iff.mp ht with ⟨hw, -⟩
  unfold thread setThread
  by_cases hv : v = w
  · simp [hv, hw]
  · simp [hv, List.getElem?_set_ne (Ne.symm hv)]

theorem forall_not_saving_iff :
    (∀ t ∈ h.threads, t.saving = false) ↔ ∀ v, (h.thread v).saving = false := by
  constructor
  · intro hquiet v
    unfold thread
    cases hv : h.threads[v]? with
    | none => rfl
    | some t => exact hquiet t (List.mem_of_getElem? hv)
  · intro hquiet t ht
    rcases List.mem_iff_getElem?.mp ht with ⟨v, hv⟩
    rw [← thread_of_getElem? hv]
    exact hquiet v

theorem alone_iff {counters : List (Text × ℚ × ℚ)} :
    Alone h (.snapshot w counters) ↔ ∀ v ≠ w, h.thread v = .idle := by
  constructor
  · intro halone v hv
    unfold thread
    cases ht : h.threads[v]? with
    | none => rfl
    | some t =>
        rcases List.getElem?_eq_some_iff.mp ht with ⟨hlt, -⟩
        have hidle := halone v hlt hv
        rw [ht] at hidle
        cases hidle
        rfl
  · intro halone v hlt hv
    have hidle := halone v hv
    rw [thread, List.getElem?_eq_getElem hlt] at hidle
    rw [List.getElem?_eq_getElem hlt]
    exact congrArg some hidle

end Threads

/-! ## One transition -/

section Step

variable {repr : ℚ → Text} {h : Host}

/-- Threads at rest, with nothing taken and nothing completed. -/
theorem inv_boot (repr : ℚ → Text) (n : Nat) (now start : ℚ) (inc : Incident)
    (disk : Disk Path) : (boot n now start inc disk).Inv repr := by
  have hidle : ∀ v, (boot n now start inc disk).thread v = .idle := by
    intro v
    unfold thread boot
    simp only
    cases hv : (List.replicate n Thread.idle)[v]? with
    | none => rfl
    | some t => exact List.eq_of_mem_replicate (List.mem_of_getElem? hv)
  constructor
  · intro _ c hc
    cases hc
  · intro w hw
    rw [hidle] at hw
    cases hw
  · intro w snap setting hw
    rw [hidle] at hw
    cases hw
  · intro w snap setting file offset rest hw
    rw [hidle] at hw
    cases hw
  · intro w inc' hw
    rw [hidle] at hw
    cases hw
  · intro _ w _ c hc
    rw [leaves, hidle] at hc
    cases hc

/-- A toggle enters: memory holds what it set. -/
theorem Inv.setState (hinv : h.Inv repr) {w : Nat} (ht : h.threads[w]? = some .idle)
    (inc : Incident) :
    ({ h with incident := inc }.setThread w (.entered inc)).Inv repr := by
  have hidle := thread_of_getElem? ht
  have hthread : ∀ v, ({ h with incident := inc }.setThread w (.entered inc)).thread v =
      if v = w then .entered inc else h.thread v :=
    thread_setThread (h := { h with incident := inc }) ht
  have hsaving : ∀ v, (({ h with incident := inc }.setThread w (.entered inc)).thread v).saving =
      (h.thread v).saving := by
    intro v
    rw [hthread]
    split
    · subst v
      rw [hidle]
      rfl
    · rfl
  have hleaves : ∀ v, ({ h with incident := inc }.setThread w (.entered inc)).leaves v =
      h.leaves v := by
    intro v
    unfold leaves
    rw [hthread]
    split
    · subst v
      rw [hidle]
      rfl
    · rfl
  constructor
  · intro hquiet
    apply hinv.durable
    rw [forall_not_saving_iff] at hquiet ⊢
    exact fun v => (hsaving v).symm.trans (hquiet v)
  · intro v hv v' hne
    rw [hsaving] at hv ⊢
    exact hinv.only v hv v' hne
  · intro v snap setting hv
    rw [hthread] at hv
    rw [hleaves]
    split at hv
    · cases hv
    · exact hinv.dumping v snap setting hv
  · intro v snap setting file offset rest hv
    rw [hthread] at hv
    rw [hleaves]
    split at hv
    · cases hv
    · exact hinv.writing v snap setting file offset rest hv
  · intro v inc' hv hothers
    rw [hthread] at hv
    split at hv
    · cases hv
      rfl
    · exact absurd (by rw [hthread, if_pos rfl]) (hothers w (Ne.symm ‹_›) inc)
  · intro hnone
    exact absurd (by rw [hthread, if_pos rfl]) (hnone w inc)

/-- A save takes its snapshot alone: the memory holds what the save is going to leave. -/
theorem Inv.snapshot (hinv : h.Inv repr) {w : Nat} {t : Thread} {setting : Option Incident}
    (ht : h.threads[w]? = some t) (halone : ∀ v ≠ w, h.thread v = .idle)
    (hsetting : t = .idle ∧ setting = none ∨ ∃ inc, t = .entered inc ∧ setting = some inc)
    (counters : List (Text × ℚ × ℚ)) :
    ({ h with taken := h.take counters :: h.taken }.setThread w
      (.dumping (h.take counters) setting)).Inv repr := by
  have hw := thread_of_getElem? ht
  have hthread := fun v => thread_setThread (h := { h with taken := h.take counters :: h.taken })
    (u := .dumping (h.take counters) setting) ht v
  have hidle : ∀ v ≠ w, ({ h with taken := h.take counters :: h.taken }.setThread w
      (.dumping (h.take counters) setting)).thread v = .idle := by
    intro v hv
    rw [hthread, if_neg hv]
    exact halone v hv
  have hmemory : ∀ c, setting.or h.completed = some c → h.incident = c := by
    intro c hc
    rcases hsetting with ⟨rfl, rfl⟩ | ⟨inc, rfl, rfl⟩
    · apply hinv.settled
      · intro v inc hv
        by_cases hvw : v = w
        · rw [hvw, hw] at hv
          cases hv
        · rw [halone v hvw] at hv
          cases hv
      · intro v hv
        rw [halone v hv]
        rfl
      · rw [leaves, hw]
        exact hc
    · cases hc
      apply hinv.entered w _ hw
      intro v hv inc' hv'
      rw [halone v hv] at hv'
      cases hv'
  constructor
  · intro hquiet
    rw [forall_not_saving_iff] at hquiet
    have hsaving := hquiet w
    rw [hthread, if_pos rfl] at hsaving
    cases hsaving
  · intro v hv v' hne
    by_cases hvw : v = w
    · rw [hidle v' (hvw ▸ hne)]
      rfl
    · rw [hidle v hvw] at hv
      cases hv
  · intro v snap setting' hv
    by_cases hvw : v = w
    · subst v
      rw [hthread, if_pos rfl] at hv
      cases hv
      refine ⟨List.mem_cons_self, fun c hc => hmemory c ?_⟩
      rw [leaves, hthread, if_pos rfl] at hc
      exact hc
    · rw [hidle v hvw] at hv
      cases hv
  · intro v snap setting' file offset rest hv
    rw [hthread] at hv
    split at hv
    · cases hv
    · have hne : v ≠ w := ‹_›
      have hrest : h.thread v = _ := hv
      rw [halone v hne] at hrest
      cases hrest
  · intro v inc hv
    rw [hthread] at hv
    split at hv
    · cases hv
    · have hne : v ≠ w := ‹_›
      have hrest : h.thread v = _ := hv
      rw [halone v hne] at hrest
      cases hrest
  · intro _ v hothers c hc
    by_cases hvw : v = w
    · subst v
      rw [leaves, hthread, if_pos rfl] at hc
      exact hmemory c hc
    · have hsaving := hothers w (Ne.symm hvw)
      rw [hthread, if_pos rfl] at hsaving
      cases hsaving

/-- A save goes on: it has opened the temporary path, or written a part of its text. -/
theorem Inv.advance (hinv : h.Inv repr) {w : Nat} {t : Thread} {snap : Snapshot}
    {setting : Option Incident} {file offset : Nat} {rest : Text} {disk : Disk Path}
    (ht : h.threads[w]? = some t) (hsaving : t.saving = true) (hsetting : t.setting = setting)
    (htaken : snap ∈ h.taken) (hleaves : ∀ c, h.leaves w = some c → snap.incident = c)
    (hlink : disk.links .tmp = some file) (hoffset : offset = (disk.content file).length)
    (htext : disk.content file ++ rest = snap.json repr) :
    ({ h with disk := disk }.setThread w (.writing snap setting file offset rest)).Inv repr := by
  have hw := thread_of_getElem? ht
  have hthread := fun v => thread_setThread (h := { h with disk := disk })
    (u := .writing snap setting file offset rest) ht v
  have hothers : ∀ v ≠ w, (h.thread v).saving = false := by
    apply hinv.only w
    rw [hw]
    exact hsaving
  have hleaves' : ∀ v, ({ h with disk := disk }.setThread w
      (.writing snap setting file offset rest)).leaves v = h.leaves v := by
    intro v
    unfold leaves
    rw [hthread]
    split
    · subst v
      rw [hw, hsetting]
      rfl
    · rfl
  have hmatch : ∀ v, ({ h with disk := disk }.setThread w
      (.writing snap setting file offset rest)).thread v = .writing snap setting file offset rest ∧
        v = w ∨ ({ h with disk := disk }.setThread w
      (.writing snap setting file offset rest)).thread v = h.thread v ∧ v ≠ w := by
    intro v
    rw [hthread]
    split
    · exact Or.inl ⟨rfl, ‹_›⟩
    · exact Or.inr ⟨rfl, ‹_›⟩
  constructor
  · intro hquiet
    rw [forall_not_saving_iff] at hquiet
    have hbusy := hquiet w
    rw [hthread, if_pos rfl] at hbusy
    cases hbusy
  · intro v hv v' hne
    rcases hmatch v with ⟨-, rfl⟩ | ⟨heq, hvw⟩
    · rcases hmatch v' with ⟨-, rfl⟩ | ⟨heq', hvw'⟩
      · exact absurd rfl hne
      · rw [heq']
        exact hothers v' hvw'
    · rw [heq, hothers v hvw] at hv
      cases hv
  · intro v snap' setting' hv
    rcases hmatch v with ⟨heq, rfl⟩ | ⟨heq, hvw⟩
    · rw [heq] at hv
      cases hv
    · have hquiet := hothers v hvw
      rw [← heq, hv] at hquiet
      cases hquiet
  · intro v snap' setting' file' offset' rest' hv
    rw [hleaves']
    rcases hmatch v with ⟨heq, rfl⟩ | ⟨heq, hvw⟩
    · rw [heq] at hv
      cases hv
      exact ⟨htaken, hleaves, hlink, hoffset, htext⟩
    · have hquiet := hothers v hvw
      rw [← heq, hv] at hquiet
      cases hquiet
  · intro v inc hv hnone
    rcases hmatch v with ⟨heq, rfl⟩ | ⟨heq, hvw⟩
    · rw [heq] at hv
      cases hv
    · apply hinv.entered v inc (heq ▸ hv)
      intro v' hne inc' hv'
      rcases hmatch v' with ⟨-, rfl⟩ | ⟨heq', -⟩
      · rw [hw] at hv'
        rw [hv'] at hsaving
        cases hsaving
      · exact hnone v' hne inc' (heq'.trans hv')
  · intro hnone v hquiet c hc
    rw [hleaves'] at hc
    by_cases hvw : v = w
    · subst v
      apply hinv.settled _ w hothers c hc
      intro v' inc' hv'
      rcases hmatch v' with ⟨-, rfl⟩ | ⟨heq', -⟩
      · rw [hw] at hv'
        rw [hv'] at hsaving
        cases hsaving
      · exact hnone v' inc' (heq'.trans hv')
    · have hbusy := hquiet w (Ne.symm hvw)
      rw [hthread, if_pos rfl] at hbusy
      cases hbusy

/-- A save ends: the state file holds its snapshot, and its toggle has completed. -/
theorem Inv.replace (hinv : h.Inv repr) {w : Nat} {snap : Snapshot}
    {setting : Option Incident} {file offset : Nat}
    (ht : h.threads[w]? = some (.writing snap setting file offset [])) :
    ({ h with
      disk := (h.disk.rename .tmp .stateFile).getD h.disk
      completed := setting.or h.completed }.setThread w .idle).Inv repr := by
  have hw := thread_of_getElem? ht
  rcases hinv.writing w snap setting file offset [] hw with ⟨htaken, hincident, hlink, -, htext⟩
  rcases Disk.read_rename (by simp : Path.stateFile ≠ .tmp) hlink with ⟨disk, hrename, hread⟩
  rw [hrename, Option.getD_some]
  have hthread := fun v => thread_setThread
    (h := { h with disk := disk, completed := setting.or h.completed }) (u := .idle) ht v
  have hothers : ∀ v ≠ w, (h.thread v).saving = false := by
    apply hinv.only w
    rw [hw]
    rfl
  have hleaves : h.leaves w = setting.or h.completed := by
    rw [leaves, hw]
    rfl
  have hquiet : ∀ v, (({ h with
      disk := disk, completed := setting.or h.completed }.setThread w .idle).thread v).saving =
        false := by
    intro v
    rw [hthread]
    split
    · rfl
    · exact hothers v ‹_›
  have hentered : ∀ v inc, ({ h with
      disk := disk, completed := setting.or h.completed }.setThread w .idle).thread v =
        .entered inc ↔ h.thread v = .entered inc := by
    intro v inc
    rw [hthread]
    split
    · subst v
      rw [hw]
      simp
    · exact Iff.rfl
  constructor
  · intro _ c hc
    refine ⟨snap, htaken, ?_, hincident c (hleaves.trans hc)⟩
    rw [← htext, List.append_nil]
    exact hread
  · exact fun v hv v' hne => hquiet v'
  · intro v snap' setting' hv
    have hsaving := hquiet v
    rw [hv] at hsaving
    cases hsaving
  · intro v snap' setting' file' offset' rest' hv
    have hsaving := hquiet v
    rw [hv] at hsaving
    cases hsaving
  · intro v inc hv hnone
    apply hinv.entered v inc ((hentered v inc).mp hv)
    exact fun v' hne inc' hv' => hnone v' hne inc' ((hentered v' inc').mpr hv')
  · intro hnone v _ c hc
    apply hinv.settled (fun v' inc' hv' => hnone v' inc' ((hentered v' inc').mpr hv')) w hothers
    rw [hleaves, ← hc, leaves]
    have hsaving := hquiet v
    generalize ({ h with disk := disk, completed := setting.or h.completed }.setThread w
      .idle).thread v = u at hsaving
    cases u with
    | idle | entered => rfl
    | dumping | writing => cases hsaving

/-- One transition that meets the condition preserves the invariant. -/
theorem Inv.step (hinv : h.Inv repr) {l : Label} {h' : Host} (hstep : h.step repr l = some h')
    (halone : Alone h l) : h'.Inv repr := by
  cases l with
  | clock d =>
      cases hstep
      exact ⟨hinv.durable, hinv.only, hinv.dumping, hinv.writing, hinv.entered, hinv.settled⟩
  | setState w value =>
      simp only [Host.step] at hstep
      split at hstep
      case h_1 ht =>
        cases hstep
        exact hinv.setState ht _
      case h_2 => cases hstep
  | snapshot w counters =>
      rw [alone_iff] at halone
      simp only [Host.step] at hstep
      split at hstep
      case h_1 ht =>
        cases hstep
        exact hinv.snapshot ht halone (Or.inl ⟨rfl, rfl⟩) counters
      case h_2 inc ht =>
        cases hstep
        exact hinv.snapshot ht halone (Or.inr ⟨inc, rfl, rfl⟩) counters
      case h_3 => cases hstep
  | openTmp w =>
      simp only [Host.step] at hstep
      split at hstep
      case h_1 snap setting ht =>
        cases hstep
        rcases hinv.dumping w snap setting (thread_of_getElem? ht) with ⟨htaken, hleaves⟩
        rcases h.disk.openWrite_spec .tmp with ⟨hlink, hempty⟩
        apply hinv.advance ht rfl rfl htaken hleaves hlink
        · rw [hempty]
          rfl
        · rw [hempty]
          rfl
      case h_2 => cases hstep
  | write w n =>
      simp only [Host.step] at hstep
      split at hstep
      case h_1 snap setting file offset c rest ht =>
        cases hstep
        rcases hinv.writing w snap setting file offset _ (thread_of_getElem? ht) with
          ⟨htaken, hleaves, hlink, rfl, htext⟩
        have hcontent : (h.disk.write file (h.disk.content file).length
            ((c :: rest).take (n + 1))).content file =
              h.disk.content file ++ (c :: rest).take (n + 1) := by
          rw [Disk.write, Disk.content_put, overwrite_end]
        have hlink' : (h.disk.write file (h.disk.content file).length
            ((c :: rest).take (n + 1))).links .tmp = some file := hlink
        apply hinv.advance ht rfl rfl htaken hleaves hlink'
        · rw [hcontent, List.length_append]
        · rw [hcontent, List.append_assoc, List.take_append_drop, htext]
      case h_2 => cases hstep
  | replace w =>
      simp only [Host.step] at hstep
      split at hstep
      case h_1 ht =>
        cases hstep
        exact hinv.replace ht
      case h_2 => cases hstep

end Step

/-! ## Whole runs -/

/-- **Saves that are alone are durable.**  In every interleaving in which a save takes its
snapshot only while no other thread is within `set_state` or `save_state`, whenever no save
is under way the state file holds a whole snapshot of what the last completed toggle set. -/
theorem durable_of_alone (repr : ℚ → Text) (n : Nat) (now start : ℚ) (inc : Incident)
    (disk : Disk Path) {ls : List Label} {h : Host}
    (hrun : Run (Meeting (Graph (step repr)) Alone) (boot n now start inc disk) ls h) :
    Durable repr h := by
  have hinv : h.Inv repr :=
    hrun.invariant (fun u l t hu hstep => hu.step hstep.1 hstep.2)
      (inv_boot repr n now start inc disk)
  exact hinv.durable

/-! ## A poll and a toggle -/

/-- A disk without files. -/
def emptyDisk : Disk Path where
  content := fun _ => []
  fresh := 0
  links := fun _ => none
  linked := nofun

/-- A healthy host that has just started, with two threads. -/
def fresh : Host :=
  boot 2 1 1 ⟨.healthy, none, none, 1⟩ emptyDisk

/-- Numbers printed with one decimal place. -/
def tenths (q : ℚ) : Text :=
  Text.str ⌊q⌋ ++ ['.'] ++ Text.str (⌊q * 10⌋ % 10)

/-- The opens, writes and the rename of a save. -/
def finish (w : Nat) : List Label :=
  [.openTmp w, .write w 200, .replace w]

/-- A poll saves, then a toggle enters and saves. -/
def inTurn : List Label :=
  [.snapshot 0 []] ++ finish 0 ++ [.clock 1, .setState 1 .broken, .snapshot 1 []] ++ finish 1

/-- The poll takes its snapshot before the toggle and writes it afterwards. -/
def overtaken : List Label :=
  [.snapshot 0 [], .clock 1, .setState 1 .broken, .snapshot 1 []] ++ finish 1 ++ finish 0

/-- One save after the other leaves the toggle in the file. -/
theorem durable_of_alone_inTurn :
    ∃ h, Run (Graph (step tenths)) fresh inTurn h ∧ Durable tenths h ∧
      h.completed = some ⟨.broken, some 2, some 2, 2⟩ := by
  have hexec : (execute (guarded (step tenths) Alone) fresh inTurn).map
      (fun h => h.completed) = some (some ⟨.broken, some 2, some 2, 2⟩) := by
    decide +kernel
  rcases Option.map_eq_some_iff.mp hexec with ⟨h, hh, hcompleted⟩
  have hrun := meeting_of_execute hh
  exact ⟨h, hrun.mono fun _ _ _ hs => hs.1, durable_of_alone tenths 2 1 1 _ emptyDisk hrun,
    hcompleted⟩

/-- A poll that is overtaken by a toggle writes the state before the toggle back. -/
theorem not_durable_overtaken :
    ¬ ∀ (repr : ℚ → Text) (n : Nat) (now start : ℚ) (inc : Incident) (disk : Disk Path)
      (ls : List Label) (h : Host), Run (Graph (step repr)) (boot n now start inc disk) ls h →
        Durable repr h := by
  intro hall
  have hexec : (execute (step tenths) fresh overtaken).map
      (fun h => (h.threads.any Thread.saving, h.completed,
        h.taken.map fun snap => (snap.incident.state,
          decide (h.disk.read .stateFile = some (snap.json tenths))))) =
      some (false, some ⟨.broken, some 2, some 2, 2⟩, [(.broken, false), (.healthy, true)]) := by
    decide +kernel
  rcases Option.map_eq_some_iff.mp hexec with ⟨h, hh, hstate⟩
  simp only [Prod.mk.injEq] at hstate
  rcases hstate with ⟨hquiet, hcompleted, htaken⟩
  have hdurable := hall tenths 2 1 1 _ emptyDisk overtaken h (run_of_execute hh)
  have hidle : ∀ t ∈ h.threads, t.saving = false := by simpa using hquiet
  rcases hdurable hidle _ hcompleted with ⟨snap, hsnap, hfile, hincident⟩
  have hmem := List.mem_map_of_mem (f := fun snap : Snapshot => (snap.incident.state,
    decide (h.disk.read .stateFile = some (snap.json tenths)))) hsnap
  rw [htaken, hincident, decide_eq_true hfile] at hmem
  exact absurd hmem (by decide)

end Host

end Hosts
end DemoEstate
