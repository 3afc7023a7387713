import Mathlib.Data.NNRat.Defs
import DemoEstate.Library.Transition
import DemoEstate.Netsim.TableFor

/-!
# The worker threads of the responder

A pool of workers serves one device.  Each worker looks the device's table up,
builds it or refreshes it when it is too old, and answers from it; nothing locks
the cache or the table.  A run interleaves the workers' steps with the clock and
with changes of the device's incident state.

Main definitions:

- Definition {lit}`Shared.handler`: one atomic operation of a rendering.
- Definition {lit}`Memory.advance`: one step of one worker.
- Definition {lit}`Responder.step`: the transitions of the pool.
- Definition {lit}`Responder.Alone`: no worker starts a table while another works on one.
-/

namespace DemoEstate
namespace Netsim

open Interaction
open Snmp (Row Oid Table Bytes)

/-! ## The state the renderings share -/

namespace DeviceState

def degradedMinutes (s : DeviceState) (now : ℚ) : ℚ :=
  match s.degradedSince with
  | none => 0
  | some since => (now - since) / 60

def brokenSeconds (s : DeviceState) (now : ℚ) : ℚ :=
  match s.brokenSince with
  | none => 0
  | some since => now - since

/-- From zero to one over some minutes since the break. -/
def ramp (s : DeviceState) (minutes now : ℚ) : ℚ :=
  if minutes ≤ 0 then 1 else min 1 (s.brokenSeconds now / (minutes * 60))

end DeviceState

/-- The clock and what the renderings of the device read and write. -/
structure Shared where
  now : ℚ
  counters : Text → Counter
  incident : DeviceState
  oper : Nat → Nat
  attrs : Attr → Nat → ℚ≥0
  ident : Dict Text Text

/-- Perform one operation; `raw` is the wobble before its clamp.  Timestamps lie in
the past, so the times since them are not negative. -/
def Shared.handler (raw : ℚ) : Program.Handler Shared Op Ans
  | s, .sample name rate cap =>
      let c := (s.counters name).sample rate (cap.map NNRat.cast) raw s.now
      some (c.value, { s with counters := Function.update s.counters name c })
  | s, .gauge _ base amp => some (base + amp * wobble raw, s)
  | s, .getState => some (s.incident.state, s)
  | s, .degradedMinutes => some ((s.incident.degradedMinutes s.now).toNNRat, s)
  | s, .ramp minutes => some ((s.incident.ramp minutes s.now).toNNRat, s)
  | s, .loadOper index => some (s.oper index, s)
  | s, .storeOper index value => some ((), { s with oper := Function.update s.oper index value })
  | s, .load attr index => some (s.attrs attr index, s)
  | s, .store attr index value =>
      some ((), { s with
        attrs := Function.update s.attrs attr (Function.update (s.attrs attr) index value) })
  | s, .getIdent oid => some (s.ident.get oid, s)
  | s, .setIdent oid value => some ((), { s with ident := s.ident.set oid value })
  | _, .raise => none

/-! ## One worker -/

/-- The age at which a table is refreshed. -/
def tableTtl : ℚ := 15

/-- Compile the table from a full walk. -/
def buildTable (pf : Platform) (dev : Device) (now : ℚ) : Render Table := do
  let text ← dev.walk pf now
  Render.ofResult (Table.ofRows (walkRows text))

/-- Where a worker stands between two requests. -/
inductive Phase where
  | idle
  | timed (now : ℚ)
  | building (now : ℚ) (p : Render Table)
  | fetching
  | found (now : ℚ) (entry : Nat)
  | refreshing (now : ℚ) (entry : Nat) (p : Render (List Row))
  | ready (entry : Nat)

/-- A table is being rendered or stored. -/
def Phase.busy : Phase → Bool
  | .building .. => true
  | .refreshing .. => true
  | _ => false

/-- What the workers share: the cache names one of the entries made so far, each a
timestamp and a table; the values answered so far stand newest first. -/
structure Memory where
  shared : Shared
  cache : Option Nat
  entries : List (ℚ × Table)
  answers : List (Oid × Option Bytes)

/-- The single steps of a worker. -/
inductive Act where
  | call
  | lookup
  | compare
  | render (raw : ℚ)
  | store
  | stamp
  | fetch
  | answer (oid : Oid)
  | finish
  | drop
deriving DecidableEq

namespace Memory

/-- One step of a worker.  An exception drops the request. -/
def advance (pf : Platform) (dev : Device) (m : Memory) : Phase → Act → Option (Memory × Phase)
  | .idle, .call => some (m, .timed m.shared.now)
  | .timed now, .lookup =>
      match m.cache with
      | none => some (m, .building now (buildTable pf dev now))
      | some e => some (m, .found now e)
  | .building now (.ask op next), .render raw =>
      (Shared.handler raw m.shared op).map fun r =>
        ({ m with shared := r.2 }, .building now (next r.1))
  | .building now (.done t), .store =>
      some ({ m with cache := some m.entries.length, entries := m.entries ++ [(now, t)] }, .fetching)
  | .building _ (.ask .raise _), .drop => some (m, .idle)
  -- the entry is read again from the cache
  | .fetching, .fetch => m.cache.map fun e => (m, .ready e)
  | .found now e, .compare =>
      m.entries[e]?.map fun entry =>
        (m, if tableTtl ≤ now - entry.1 then .refreshing now e (dev.dynamicRows pf now) else .ready e)
  | .refreshing now e (.ask op next), .render raw =>
      (Shared.handler raw m.shared op).map fun r =>
        ({ m with shared := r.2 }, .refreshing now e (next r.1))
  | .refreshing now e (.done (row :: rows)), .store => do
      let entry ← m.entries[e]?
      let t ← (entry.2.patchRow row).toOption
      some ({ m with entries := m.entries.set e (entry.1, t) }, .refreshing now e (.done rows))
  | .refreshing now e (.done []), .stamp =>
      m.entries[e]?.map fun entry =>
        ({ m with entries := m.entries.set e (now, entry.2) }, .ready e)
  | .refreshing _ _ (.ask .raise _), .drop => some (m, .idle)
  | .refreshing _ _ (.done (row :: _)), .drop =>
      match Table.encodeRow row with
      | .error _ => some (m, .idle)
      | .ok _ => none
  | .ready e, .answer oid =>
      m.entries[e]?.map fun entry =>
        ({ m with answers := (oid, entry.2.get oid) :: m.answers }, .ready e)
  | .ready _, .finish => some (m, .idle)
  | _, _ => none

/-- The step after which a worker builds or refreshes a table. -/
def starts (m : Memory) : Phase → Act → Bool
  | .timed _, .lookup => m.cache.isNone
  | .found now e, .compare => m.entries[e]?.any fun entry => tableTtl ≤ now - entry.1
  | _, _ => false

end Memory

/-- The answer for a number. -/
def numberTlv (n : ℤ) : Bytes :=
  Snmp.encOctetStr (Snmp.encodeValue (Text.str n))

/-! ## The pool -/

/-- The shared memory and where each worker stands. -/
structure Responder where
  memory : Memory
  workers : List Phase

namespace Responder

/-- The transitions: time passes, the incident state changes, worker `w` acts. -/
inductive Label where
  | clock (d : ℚ≥0)
  | toggle (value : Incident)
  | work (w : Nat) (act : Act)

/-- One transition of the pool. -/
def step (pf : Platform) (dev : Device) (r : Responder) : Label → Option Responder
  | .clock d =>
      let shared := r.memory.shared
      some { r with memory := { r.memory with shared := { shared with now := shared.now + d } } }
  | .toggle value =>
      let shared := r.memory.shared
      some { r with memory := { r.memory with
        shared := { shared with incident := shared.incident.set value shared.now } } }
  | .work w act => do
      let phase ← r.workers[w]?
      let (memory, phase') ← r.memory.advance pf dev phase act
      some { memory := memory, workers := r.workers.set w phase' }

/-- A freshly started pool: nothing is cached and no identity is remembered. -/
def boot (workers : Nat) (shared : Shared) : Responder where
  memory := {
    shared := { shared with ident := .empty }
    cache := none
    entries := []
    answers := [] }
  workers := List.replicate workers .idle

/-- A worker starts to build or refresh a table only while no other works on one. -/
def Alone (r : Responder) : Label → Prop
  | .work w act =>
      (r.workers[w]?.any fun phase => r.memory.starts phase act) = true →
        ∀ phase ∈ r.workers, phase.busy = false
  | _ => True

instance (r : Responder) (l : Label) : Decidable (Alone r l) := by
  unfold Alone
  cases l <;> infer_instance

/-! ## The values answered -/

/-- The numbers answered under an OID, newest first, never decrease over time. -/
def Ascending (oid : Oid) (answers : List (Oid × Option Bytes)) : Prop :=
  answers.Pairwise fun later earlier =>
    later.1 = oid → earlier.1 = oid →
      ∀ n m, later.2 = some (numberTlv n) → earlier.2 = some (numberTlv m) → m ≤ n

end Responder

end Netsim
end DemoEstate
