import DemoEstate.Library.Transition
import DemoEstate.Netsim.TableFor
import DemoEstate.Snmp.Subtree

/-!
# A walk of a live device

A client walks a subtree of a device while the responder's workers refresh the table of the device:
rows may be stored before, between and during the exchanges, with the values of any moment and any
incident state.  Once the table is built its OIDs stay, so the walk is complete all the same.

Main definitions:

- Structure {lit}`Session`: the table of a device and a client that walks it.
- Inductive {lit}`Session.Step`: rows that are stored, requests and replies.
- Structure {lit}`Session.Inv`: what the client has got, and what is left.

Main results:

- Theorem {lit}`Session.Inv.step`: one step keeps the invariant.
- Theorem {lit}`walked_of_run`: where the encoding can carry the OIDs, in every run each request
  is answered, and the walk collects the OIDs of the subtree in order, none twice, each with a
  value of its exchange.
-/

namespace DemoEstate
namespace Netsim

open Interaction
open Snmp (Row Oid Table Binding Delivers Mixes subtree taken)
open Transition (Run)

/-- What the client asks for. -/
structure Query where
  root : Oid
  requestId : ℤ
  community : Snmp.Bytes
  maxRepetitions : Nat

/-- The client sends requests until it has reached the end of the subtree. -/
inductive Progress
  | going
  | done
  | failed
deriving DecidableEq

/-- The table of the device and the client.  While a request is in work, the tables since it was
sent are kept; each binding the client got stands with those of its exchange. -/
structure Session where
  table : Table
  seen : Option (List Table)
  progress : Progress
  cur : Oid
  exchanges : Nat
  got : List (List Table × Binding)

namespace Session

/-- The walk begins at its root. -/
def start (q : Query) (t : Table) : Session where
  table := t
  seen := none
  progress := .going
  cur := q.root
  exchanges := 0
  got := []

/-- The client takes what a reply has of the subtree, and stops if that is not all of it. -/
def receive (q : Query) (s : Session) (ts : List Table) : Option (List Binding) → Session
  | none => { s with seen := none, progress := .failed, exchanges := s.exchanges + 1 }
  | some bindings =>
      let new := taken q.root bindings
      { s with
        seen := none
        progress := if new.length < bindings.length then .done else .going
        cur := (new.getLast?.map Binding.oid).getD s.cur
        exchanges := s.exchanges + 1
        got := s.got ++ new.map fun b => (ts, b) }

inductive Event
  | store
  | ask
  | lost
  | reply

/-- A worker stores a row of a refresh, the client sends a request, it gives up waiting for the reply
to its request, or it receives that reply, which the responder has read from the table while it may
have been refreshed. -/
inductive Step (pf : Platform) (dev : Device) (q : Query) (s : Session) : Event → Session → Prop
  | store {σ : Type} {env : Program.Env σ Op Ans} {now : ℚ} {shared shared' : σ} {rows : List Row}
      {row : Row} {t : Table} (hrows : (dev.dynamicRows pf now).Runs env shared rows shared')
      (hrow : row ∈ rows) (ht : s.table.patchRow row = .ok t) :
      Step pf dev q s .store { s with table := t, seen := s.seen.map (t :: ·) }
  | ask (hgoing : s.progress = .going) (hseen : s.seen = none) :
      Step pf dev q s .ask { s with seen := some [s.table] }
  | lost (hseen : s.seen ≠ none) : Step pf dev q s .lost { s with seen := none }
  | reply {ts : List Table} {m : Table} (hseen : s.seen = some ts) (hmixes : Mixes ts m)
      (hfits : Snmp.FitsMemory m q.requestId q.community q.maxRepetitions q.root) :
      Step pf dev q s .reply (s.receive q ts
        (Snmp.bulkStep (fun request => Snmp.handleMessage request m none) q.requestId q.community
          q.maxRepetitions s.cur))

/-! ## The invariant -/

/-- The client has got what lies in front of its OID, a full batch from every exchange. -/
structure Ahead (q : Query) (s : Session) : Prop where
  mem : s.cur ∈ q.root :: s.table.oids
  above : q.root ≤ s.cur
  split : s.got.map (·.2.oid) ++ s.table.left q.root s.cur = subtree s.table.oids q.root
  full : s.got.length = s.exchanges * q.maxRepetitions

/-- The client has got the subtree. -/
structure Finished (q : Query) (s : Session) : Prop where
  all : s.got.map (·.2.oid) = subtree s.table.oids q.root
  full : s.exchanges * q.maxRepetitions ≤ s.got.length + q.maxRepetitions

structure Inv (pf : Platform) (dev : Device) (q : Query) (oids : List Oid) (s : Session) : Prop where
  table : Reachable pf dev s.table
  stored : s.table.oids = oids
  seen : ∀ ts, s.seen = some ts →
    s.progress = .going ∧ ts ≠ [] ∧ ∀ t ∈ ts, Reachable pf dev t ∧ t.oids = oids
  current : ∀ x ∈ s.got, ∃ t ∈ x.1, Reachable pf dev t ∧ Delivers t x.2.oid x.2
  going : s.progress = .going → s.Ahead q
  done : s.progress = .done → s.Finished q
  answered : s.progress ≠ .failed

variable {pf : Platform} {dev : Device} {q : Query} {s s' : Session} {oids : List Oid} {e : Event}
  {t₀ : Table}

theorem inv_start (ht : Reachable pf dev t₀) : Inv pf dev q t₀.oids (start q t₀) where
  table := ht
  stored := rfl
  seen := fun _ hseen => by cases hseen
  current := fun _ hx => by cases hx
  going := fun _ => by
    refine ⟨List.mem_cons_self, le_rfl, ?_, (Nat.zero_mul _).symm⟩
    exact Table.left_root ht.wellFormed q.root
  done := fun hdone => by cases hdone
  answered := fun hfailed => by cases hfailed

/-- What the client stands at depends on the OIDs of the table only. -/
theorem Ahead.of_table (h : s.Ahead q) (hoids : s'.table.oids = s.table.oids)
    (hcur : s'.cur = s.cur) (hgot : s'.got = s.got) (hexchanges : s'.exchanges = s.exchanges) :
    s'.Ahead q := by
  constructor
  · rw [hcur, hoids]
    exact h.mem
  · rw [hcur]
    exact h.above
  · rw [hgot, hoids, hcur, Table.left, Table.above_congr hoids]
    exact h.split
  · rw [hgot, hexchanges]
    exact h.full

/-- The values of a mixed table are those of tables of the exchange. -/
theorem current_of_delivers {ts : List Table} {m : Table} (hmixes : Mixes ts m)
    (hts : ∀ t ∈ ts, Reachable pf dev t) {picked : List Oid} {new : List Binding}
    (hmem : ∀ oid ∈ picked, oid ∈ m.oids) (h : List.Forall₂ (Delivers m) picked new) :
    ∀ x ∈ new.map (fun b => (ts, b)), ∃ t ∈ x.1, Reachable pf dev t ∧ Delivers t x.2.oid x.2 := by
  induction h with
  | nil => exact fun _ hx => absurd hx List.not_mem_nil
  | @cons oid b picked new hb _ ih =>
      intro x hx
      rcases List.mem_cons.mp hx with rfl | hx
      · rcases hmixes.value oid (hmem oid List.mem_cons_self) with ⟨t, ht, hvalue⟩
        refine ⟨t, ht, hts t ht, rfl, hb.2.1, ?_⟩
        rw [hb.1, ← hvalue]
        exact hb.2.2
      · exact ih (fun oid hoid => hmem oid (List.mem_cons_of_mem _ hoid)) x hx

/-- The client stands at the last OID of the batch it has taken. -/
theorem cur_of_delivers {m : Table} {picked : List Oid} {new : List Binding} (hne : picked ≠ [])
    (h : List.Forall₂ (Delivers m) picked new) (cur : Oid) :
    (new.getLast?.map Binding.oid).getD cur = picked.getLast hne := by
  rw [← List.getLast?_map, Snmp.map_oid_of_delivers h, List.getLast?_eq_some_getLast hne]
  rfl

theorem map_oid_receive {ts : List Table} {new : List Binding} (got : List (List Table × Binding)) :
    (got ++ new.map fun b => (ts, b)).map (·.2.oid) =
      got.map (·.2.oid) ++ new.map Binding.oid := by
  rw [List.map_append, List.map_map]
  rfl

/-- A reply is the next batch of the subtree, or the rest of it. -/
theorem Inv.reply (h : Inv pf dev q oids s) (hn : 1 ≤ q.maxRepetitions)
    (hserved : ∀ oid ∈ oids, Snmp.Served oid) (hroot : Snmp.Askable q.root) {ts : List Table}
    {m : Table} (hseen : s.seen = some ts) (hmixes : Mixes ts m)
    (hfits : Snmp.FitsMemory m q.requestId q.community q.maxRepetitions q.root) :
    Inv pf dev q oids (s.receive q ts
      (Snmp.bulkStep (fun request => Snmp.handleMessage request m none) q.requestId q.community
        q.maxRepetitions s.cur)) := by
  rcases h.seen ts hseen with ⟨hgoing, hne, hts⟩
  have hahead := h.going hgoing
  have hwf := hmixes.wellFormed
  have hoids : m.oids = s.table.oids := by
    rcases List.exists_mem_of_ne_nil ts hne with ⟨t, ht⟩
    rw [hmixes.oids t ht, (hts t ht).2, h.stored]
  have habove := Table.above_congr hoids s.cur
  have hleft : m.left q.root s.cur = s.table.left q.root s.cur := by
    rw [Table.left, Table.left, habove]
  have hmem : ∀ oid ∈ (m.above s.cur), oid ∈ m.oids := fun _ => Table.mem_oids_of_mem_above
  have hserved' : ∀ oid ∈ m.oids, Snmp.Served oid := by
    rw [hoids, h.stored]
    exact hserved
  have hcur : s.cur ∈ q.root :: m.oids := by
    rw [hoids]
    exact hahead.mem
  have hask : Snmp.Askable s.cur := by
    rcases List.mem_cons.mp hcur with hcur | hcur
    · rw [hcur]
      exact hroot
    · exact (hserved' _ hcur).askable
  rcases Snmp.exchange_cases hwf hserved' hfits hcur hask with
    ⟨bindings, hstep, ⟨hall, hlength, hinside, hnew⟩ | ⟨hcut, hnew⟩⟩
  · -- the whole reply lies in the subtree, and the walk goes on from its last OID
    rw [hstep]
    have hcurrent := current_of_delivers hmixes (fun t ht => (hts t ht).1)
      (fun oid hoid => hmem oid (List.mem_of_mem_take hoid)) hnew
    have hnil : (m.above s.cur).take q.maxRepetitions ≠ [] := by
      intro hnil
      rw [hnil] at hnew
      have := hnew.length_eq
      rw [List.length_nil] at this
      omega
    have hlast := cur_of_delivers hnil hnew s.cur
    have hsplit := (List.take_append_drop q.maxRepetitions (m.above s.cur)).symm
    have hnext := Table.above_getLast hwf hnil hsplit
    have hstored := List.mem_of_mem_take (List.getLast_mem hnil)
    refine { table := h.table, stored := h.stored, seen := ?_, current := ?_, going := fun _ => ?_,
             done := ?_, answered := ?_ }
    · exact fun _ hnone => by cases hnone
    · intro x hx
      rcases List.mem_append.mp hx with hx | hx
      · exact h.current x hx
      · exact hcurrent x hx
    · constructor
      · rw [receive, hlast]
        refine List.mem_cons_of_mem _ ?_
        rw [← hoids]
        exact hmem _ hstored
      · rw [receive, hlast]
        have hlt : s.cur < ((m.above s.cur).take q.maxRepetitions).getLast hnil := by
          exact of_decide_eq_true (List.mem_filter.mp hstored).2
        exact hahead.above.trans hlt.le
      · -- the batch is the front of what was left
        rw [receive]
        dsimp only
        rw [map_oid_receive, Snmp.map_oid_of_delivers hnew, hlast, Table.left,
          ← Table.above_congr hoids, hnext, List.append_assoc, ← hinside, hleft]
        exact hahead.split
      · rw [receive]
        dsimp only
        rw [List.length_append, List.length_map, hall, hlength, hahead.full, Nat.succ_mul]
    · intro hdone
      rw [receive, if_neg (by omega)] at hdone
      cases hdone
    · intro hfailed
      rw [receive, if_neg (by omega)] at hfailed
      cases hfailed
  · -- the reply leaves the subtree or ends the view
    rw [hstep]
    have hcurrent := current_of_delivers hmixes (fun t ht => (hts t ht).1)
      (fun oid hoid => hmem oid ((List.takeWhile_sublist _).subset hoid)) hnew
    refine { table := h.table, stored := h.stored, seen := ?_, current := ?_, going := ?_,
             done := fun _ => ?_, answered := ?_ }
    · exact fun _ hnone => by cases hnone
    · intro x hx
      rcases List.mem_append.mp hx with hx | hx
      · exact h.current x hx
      · exact hcurrent x hx
    · intro hgoing'
      rw [receive, if_pos hcut] at hgoing'
      cases hgoing'
    · constructor
      · rw [receive]
        dsimp only
        rw [map_oid_receive, Snmp.map_oid_of_delivers hnew, hleft]
        exact hahead.split
      · rw [receive]
        dsimp only
        rw [List.length_append, hahead.full, Nat.succ_mul]
        omega
    · intro hfailed
      rw [receive, if_pos hcut] at hfailed
      cases hfailed

/-- One step keeps the invariant. -/
theorem Inv.step (h : Inv pf dev q oids s) (hn : 1 ≤ q.maxRepetitions)
    (hserved : ∀ oid ∈ oids, Snmp.Served oid) (hroot : Snmp.Askable q.root)
    (hstep : Step pf dev q s e s') : Inv pf dev q oids s' := by
  cases hstep with
  | @store _ _ _ _ _ _ _ t hrows hrow ht =>
      have htable := h.table.store hrows hrow ht
      have hoids : t.oids = s.table.oids := by
        rcases Table.patchRow_eq_ok ht with ⟨oid, -, rfl⟩
        rfl
      refine { table := htable, stored := hoids.trans h.stored, seen := ?_, current := h.current,
               going := ?_, done := ?_, answered := h.answered }
      · intro ts hts
        rcases Option.map_eq_some_iff.mp hts with ⟨ts', hts', rfl⟩
        rcases h.seen ts' hts' with ⟨hgoing, -, htables⟩
        refine ⟨hgoing, List.cons_ne_nil _ _, fun t' ht' => ?_⟩
        rcases List.mem_cons.mp ht' with rfl | ht'
        · exact ⟨htable, hoids.trans h.stored⟩
        · exact htables t' ht'
      · exact fun hgoing => (h.going hgoing).of_table hoids rfl rfl rfl
      · intro hdone
        rcases h.done hdone with ⟨hall, hfull⟩
        refine ⟨?_, hfull⟩
        rw [hall]
        exact congrArg (subtree · q.root) hoids.symm
  | ask hgoing hseen =>
      refine { h with seen := fun ts hts => ?_, going := fun hgoing' => ?_, done := fun hdone => ?_ }
      · cases hts
        refine ⟨hgoing, List.cons_ne_nil _ _, fun t ht => ?_⟩
        rw [List.mem_singleton.mp ht]
        exact ⟨h.table, h.stored⟩
      · exact (h.going hgoing).of_table rfl rfl rfl rfl
      · exact ⟨(h.done hdone).all, (h.done hdone).full⟩
  | lost hseen =>
      refine { h with seen := fun ts hts => ?_, going := fun hgoing => ?_, done := fun hdone => ?_ }
      · cases hts
      · exact (h.going hgoing).of_table rfl rfl rfl rfl
      · exact ⟨(h.done hdone).all, (h.done hdone).full⟩
  | reply hseen hmixes hfits => exact h.reply hn hserved hroot hseen hmixes hfits

/-! ## Whole walks -/

/-- Every request is answered; the walk has collected the OIDs of the subtree in order, all of them
when it is done, each with a value that the table had during its exchange; and every exchange but
the last one brought a full batch. -/
structure Walked (pf : Platform) (dev : Device) (q : Query) (oids : List Oid) (s : Session) :
    Prop where
  answered : s.progress ≠ .failed
  ordered : s.got.map (·.2.oid) <+: subtree oids q.root
  complete : s.progress = .done → s.got.map (·.2.oid) = subtree oids q.root
  current : ∀ x ∈ s.got, ∃ t ∈ x.1, Reachable pf dev t ∧ Delivers t x.2.oid x.2
  brief : s.exchanges * q.maxRepetitions ≤ (subtree oids q.root).length + q.maxRepetitions

theorem Inv.walked (h : Inv pf dev q oids s) : Walked pf dev q oids s := by
  cases hprogress : s.progress with
  | going =>
      have hahead := h.going hprogress
      rw [← h.stored]
      have hprefix : s.got.map (·.2.oid) <+: subtree s.table.oids q.root :=
        ⟨_, hahead.split⟩
      refine ⟨h.answered, hprefix, ?_, h.current, ?_⟩
      · intro hdone
        rw [hprogress] at hdone
        cases hdone
      · have hle := hprefix.length_le
        rw [List.length_map] at hle
        rw [← hahead.full]
        omega
  | done =>
      have hdone := h.done hprogress
      rw [← h.stored]
      refine ⟨h.answered, ?_, fun _ => hdone.all, h.current, ?_⟩
      · rw [hdone.all]
      · rw [← hdone.all, List.length_map]
        exact hdone.full
  | failed => exact absurd hprogress h.answered

/-- One OID a request. -/
def oneByOne : Query where
  root := [1, 3]
  requestId := 7
  community := [112]
  maxRepetitions := 1

theorem reply_twoRows (dev : Device) {s s' : Session}
    (hseen : s.seen = some [twoRowsTable]) {bindings : List Binding}
    (hstep : Snmp.bulkStep (fun request => Snmp.handleMessage request twoRowsTable none) 7 [112] 1
      s.cur = some bindings)
    (hs' : s.receive oneByOne [twoRowsTable] (some bindings) = s') (hwf : twoRowsTable.WellFormed) :
    Step Platform.still dev oneByOne s .reply s' := by
  rw [← hs', ← hstep]
  refine .reply hseen (Mixes.self hwf List.mem_cons_self fun t ht => ?_) fitsMemory_twoRows
  rw [List.mem_singleton.mp ht]

end Session

end Netsim
end DemoEstate
