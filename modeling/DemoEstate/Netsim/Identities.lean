import DemoEstate.Netsim.SharedSamples

/-!
# Remembered hardware identities

An instance rewrites a recorded hardware identity once and remembers it under its OID.  Other
renderings of the instance may run meanwhile and remember identities, too.

Main definitions:

- Definition {lit}`Rewrites`: what an instance makes of the first identity recorded under an OID.
- Definition {lit}`meanwhile`: the memory of the identities, which other renderings fill in, too.

Main results:

- Theorem {lit}`walk_identities`: a walk shows the rewritten identities and remembers no others.
-/

namespace DemoEstate
namespace Netsim

open Interaction
open Snmp (Row Oid Result)

namespace ReplayDevice

/-! ## The memory of the identities -/

/-- The slots that rewrite an identity. -/
def identitySlots (slots : List Slot) : List Slot :=
  slots.filter fun slot => slot.kind.isIdentity

/-- What an instance makes of the first identity recorded under an OID. -/
def Rewrites (d : ReplayDevice) (pf : Platform) (oid v : Text) : Prop :=
  ∃ slot, (identitySlots (slots d.model.segments)).find? (·.oid = oid) = some slot ∧
    d.identityValue pf slot = .ok v

/-- What an operation does to the remembered identities. -/
def Memorizes (memo : Dict Text Text) : (op : Op) → Ans op → Dict Text Text → Prop
  | .getIdent oid, v, memo' => v = memo.get oid ∧ memo' = memo
  | .setIdent oid v, _, memo' => memo' = memo.set oid v
  | _, _, memo' => memo' = memo

/-- The operations of a rendering on the remembered identities; other renderings of the instance
may remember more, and samples, gauges and states are arbitrary. -/
def meanwhile (d : ReplayDevice) (pf : Platform) : Program.Env (Dict Text Text) Op Ans :=
  fun memo op ans memo' => ∃ own, Memorizes memo op ans own ∧ own.Extends memo' ∧
    ∀ oid v, memo'.get oid = some v → own.get oid = some v ∨ d.Rewrites pf oid v

/-- Every identity that is remembered is the rewritten one, and those of some slots are. -/
structure Memorized (d : ReplayDevice) (pf : Platform) (done : List Slot)
    (memo : Dict Text Text) : Prop where
  remembers : Remembers (d.Rewrites pf) memo
  known : ∀ slot ∈ done, slot.kind.isIdentity = true → ∃ v, memo.get slot.oid = some v

variable {d : ReplayDevice} {pf : Platform}

theorem Rewrites.unique {oid v w : Text} (h : d.Rewrites pf oid v) (h' : d.Rewrites pf oid w) :
    v = w := by
  rcases h with ⟨slot, hslot, hv⟩
  rcases h' with ⟨slot', hslot', hw⟩
  cases hslot.symm.trans hslot'
  exact Except.ok.inj (hv.symm.trans hw)

theorem memorized_nil : d.Memorized pf [] Dict.empty where
  remembers := by
    intro oid v h
    simp at h
  known := by simp

/-- What the other renderings remember is right, too. -/
theorem Memorized.extends {done : List Slot} {own memo : Dict Text Text}
    (h : d.Memorized pf done own) (hle : own.Extends memo)
    (hothers : ∀ oid v, memo.get oid = some v → own.get oid = some v ∨ d.Rewrites pf oid v) :
    d.Memorized pf done memo where
  remembers oid v hv := (hothers oid v hv).elim (h.remembers oid v) id
  known slot hslot hkind := by
    rcases h.known slot hslot hkind with ⟨v, hv⟩
    exact ⟨v, hle _ _ hv⟩

/-- An operation that writes no identity keeps the memory right. -/
theorem Memorized.step {done : List Slot} {memo memo' : Dict Text Text}
    (h : d.Memorized pf done memo) {op : Op} {ans : Ans op} (hop : ∀ oid v, op ≠ .setIdent oid v)
    (hstep : d.meanwhile pf memo op ans memo') : d.Memorized pf done memo' := by
  rcases hstep with ⟨own, hown, hle, hothers⟩
  have heq : own = memo := by
    cases op <;> first | exact hown | exact hown.2 | exact absurd rfl (hop _ _)
  exact (heq ▸ h).extends hle hothers

/-- Writing the rewritten identity of an OID keeps the memory right. -/
theorem Memorized.set {done : List Slot} {memo memo' : Dict Text Text}
    (h : d.Memorized pf done memo) {slot : Slot} {v : Text} (hv : d.Rewrites pf slot.oid v)
    {ans : Unit} (hstep : d.meanwhile pf memo (.setIdent slot.oid v) ans memo') :
    d.Memorized pf (done ++ [slot]) memo' := by
  rcases hstep with ⟨own, rfl, hle, hothers⟩
  refine Memorized.extends ⟨h.remembers.set hv, ?_⟩ hle hothers
  intro other hother hkind
  rw [Dict.get_set]
  by_cases heq : slot.oid = other.oid
  · exact ⟨v, if_pos heq⟩
  · rw [if_neg heq]
    rcases List.mem_append.mp hother with hother | hother
    · exact h.known other hother hkind
    · exact absurd (congrArg Slot.oid (List.mem_singleton.mp hother).symm) heq

/-! ## The identities of a walk -/

/-- The first slot of an OID is found before any later one. -/
theorem rewrites_of_first {done rest : List Slot} {slot : Slot}
    (hslots : slots d.model.segments = done ++ slot :: rest) (hkind : slot.kind.isIdentity = true)
    (hfirst : ∀ s ∈ done, s.kind.isIdentity = true → s.oid ≠ slot.oid) {v : Text}
    (hv : d.identityValue pf slot = .ok v) : d.Rewrites pf slot.oid v := by
  refine ⟨slot, ?_, hv⟩
  have hnone : (identitySlots done).find? (·.oid = slot.oid) = none := by
    refine List.find?_eq_none.mpr fun s hs => ?_
    rcases List.mem_filter.mp hs with ⟨hmem, hident⟩
    simpa using hfirst s hmem hident
  rw [hslots, identitySlots, List.filter_append, List.find?_append, ← identitySlots, hnone,
    List.filter_cons, if_pos hkind]
  simp

/-- A slot shows the identity of its OID, which is remembered from then on. -/
theorem identity_runs {done rest : List Slot} {slot : Slot}
    (hslots : slots d.model.segments = done ++ slot :: rest) (hkind : slot.kind.isIdentity = true)
    {memo memo' : Dict Text Text} (hmemo : d.Memorized pf done memo) {v : Text}
    (hrun : (d.identity pf slot).Runs (d.meanwhile pf) memo v memo') :
    d.Rewrites pf slot.oid v ∧ d.Memorized pf (done ++ [slot]) memo' := by
  rcases hrun with ⟨remembered, memo₁, hget, hrun⟩
  have hmemo₁ := hmemo.step (by simp) hget
  rcases hget with ⟨own, ⟨hremembered, rfl⟩, hle, -⟩
  cases remembered with
  | some w =>
      rcases hrun with ⟨rfl, rfl⟩
      refine ⟨hmemo.remembers _ _ hremembered.symm, hmemo₁.remembers, fun s hs hident => ?_⟩
      rcases List.mem_append.mp hs with hs | hs
      · exact hmemo₁.known s hs hident
      · rw [List.mem_singleton.mp hs]
        exact ⟨v, hle _ _ hremembered.symm⟩
  | none =>
      have hfirst : ∀ s ∈ done, s.kind.isIdentity = true → s.oid ≠ slot.oid := by
        intro s hs hident heq
        rcases hmemo.known s hs hident with ⟨w, hw⟩
        rw [heq, ← hremembered] at hw
        cases hw
      cases hvalue : d.identityValue pf slot with
      | error e =>
          simp only [hvalue, Render.ofResult] at hrun
          rcases hrun with ⟨answer, -, -, -⟩
          cases answer
      | ok w =>
          simp only [hvalue, Render.ofResult] at hrun
          rcases hrun with ⟨answer, memo₂, hset, rfl, rfl⟩
          have hrewrites := rewrites_of_first hslots hkind hfirst hvalue
          exact ⟨hrewrites, hmemo₁.set hrewrites hset⟩

/-- A slot that keeps no identity leaves the memory right. -/
theorem Memorized.append {done : List Slot} {memo : Dict Text Text} (h : d.Memorized pf done memo)
    {slot : Slot} (hkind : slot.kind.isIdentity = false) : d.Memorized pf (done ++ [slot]) memo where
  remembers := h.remembers
  known s hs hident := by
    rcases List.mem_append.mp hs with hs | hs
    · exact h.known s hs hident
    · rw [List.mem_singleton.mp hs, hkind] at hident
      cases hident

theorem sampleOnce_runs {done : List Slot} {memo memo' : Dict Text Text}
    (hmemo : d.Memorized pf done memo) {key : Text} {sampled : Dict Text ℤ}
    {out : ℤ × Dict Text ℤ}
    (hrun : (d.sampleOnce pf key sampled).Runs (d.meanwhile pf) memo out memo') :
    d.Memorized pf done memo' := by
  unfold sampleOnce at hrun
  split at hrun
  · rcases hrun with ⟨-, rfl⟩
    exact hmemo
  · rcases hrun with ⟨v, memo₁, hsample, -, rfl⟩
    exact hmemo.step (by simp) hsample

variable {elapsed now : ℚ}

/-- A slot that keeps an identity shows the rewritten one, and every slot leaves the memory right. -/
theorem slotValue_runs {done rest : List Slot} {slot : Slot}
    (hslots : slots d.model.segments = done ++ slot :: rest) {memo memo' : Dict Text Text}
    (hmemo : d.Memorized pf done memo) {sampled : Dict Text ℤ} {out : Text × Dict Text ℤ}
    (hrun : (d.slotValue pf slot elapsed now sampled).Runs (d.meanwhile pf) memo out memo') :
    (slot.kind.isIdentity = true → d.Rewrites pf slot.oid out.1) ∧
      d.Memorized pf (done ++ [slot]) memo' := by
  have hidentity : slot.kind.isIdentity = true →
      (d.identity pf slot >>= fun v => pure (v, sampled)).Runs (d.meanwhile pf) memo out memo' →
        d.Rewrites pf slot.oid out.1 ∧ d.Memorized pf (done ++ [slot]) memo' := by
    intro hkind hrun
    rcases Program.runs_bind.mp hrun with ⟨v, memo₁, hv, rfl, rfl⟩
    exact identity_runs hslots hkind hmemo hv
  unfold slotValue at hrun
  cases hkind : slot.kind with
  | sysname | syslocation | uptime | apcdate =>
      rw [hkind] at hrun
      rcases hrun with ⟨-, rfl⟩
      exact ⟨by simp [Kind.isIdentity], hmemo.append (by rw [hkind]; rfl)⟩
  | hrcpu =>
      rw [hkind] at hrun
      rcases hrun with ⟨w, memo₁, hgauge, -, rfl⟩
      exact ⟨by simp [Kind.isIdentity],
        (hmemo.step (by simp) hgauge).append (by rw [hkind]; rfl)⟩
  | ctr32 | ctr64 =>
      rw [hkind] at hrun
      rcases Program.runs_bind.mp hrun with ⟨w, memo₁, hsample, -, rfl⟩
      exact ⟨by simp [Kind.isIdentity],
        (sampleOnce_runs hmemo hsample).append (by rw [hkind]; rfl)⟩
  | ifmac | serial | svctag | svccode =>
      rw [hkind] at hrun
      have hident : slot.kind.isIdentity = true := by rw [hkind]; rfl
      rcases hidentity hident hrun with ⟨hrewrites, hmemo'⟩
      exact ⟨fun _ => hrewrites, hmemo'⟩

/-- A row shows the rewritten identity of its OID, if its slot keeps one. -/
def ShowsIdentity (d : ReplayDevice) (pf : Platform) (piece : Piece) (row : Row) : Prop :=
  row.1 = piece.row.1 ∧
    ∀ slot ∈ piece.slot, slot.kind.isIdentity = true → d.Rewrites pf slot.oid row.2

/-- The identities of joined pieces, behind the slots rendered and the text collected so far. -/
theorem walkFrom_identities {pieces : List Piece} {done : List Slot}
    (hslots : slots d.model.segments = done ++ pieces.filterMap Piece.slot) (static : Text)
    {memo memo' : Dict Text Text} (hmemo : d.Memorized pf done memo) {sampled : Dict Text ℤ}
    {text : Text} (hrun : (d.walkFrom pf elapsed now (joinFrom static pieces) sampled).Runs
      (d.meanwhile pf) memo text memo') :
    ∃ rows, text = static ++ rows.flatMap rowLine ∧
      List.Forall₂ (d.ShowsIdentity pf) pieces rows ∧
        d.Memorized pf (slots d.model.segments) memo' := by
  induction pieces generalizing done static memo sampled text with
  | nil =>
      rw [joinFrom, ← List.append_nil (pending static), walkFrom_pending] at hrun
      rcases hrun with ⟨rfl, rfl⟩
      simp only [List.filterMap_nil, List.append_nil] at hslots
      exact ⟨[], rfl, .nil, hslots ▸ hmemo⟩
  | cons piece pieces ih =>
      rcases piece with ⟨row, _ | slot, hreads⟩
      · rcases ih hslots _ hmemo hrun with ⟨rows, rfl, hrows, hmemo'⟩
        exact ⟨row :: rows, by simp, .cons ⟨rfl, by simp⟩ hrows, hmemo'⟩
      · rw [joinFrom, walkFrom_pending, walkFrom] at hrun
        rcases Program.runs_bind.mp hrun with ⟨lines, memo₃, hlines, rfl, rfl⟩
        rcases Program.runs_bind.mp hlines with ⟨out, memo₁, hslot, hmore⟩
        rcases Program.runs_bind.mp hmore with ⟨more, memo₂, hrest, rfl, rfl⟩
        have hhere : slots d.model.segments = done ++ slot :: pieces.filterMap Piece.slot := hslots
        rcases slotValue_runs hhere hmemo hslot with ⟨hshown, hmemo₁⟩
        have hbehind : slots d.model.segments =
            (done ++ [slot]) ++ pieces.filterMap Piece.slot := by
          rw [hhere, List.append_assoc, List.singleton_append]
        rcases ih hbehind [] hmemo₁ hrest with ⟨rows, rfl, hrows, hmemo'⟩
        refine ⟨(slot.oid, out.1) :: rows, by simp, .cons ⟨(hreads slot rfl).oid_eq, ?_⟩ hrows,
          hmemo'⟩
        intro slot' hslot' hkind
        cases hslot'
        exact hshown hkind

/-- A walk shows the rewritten identities, and remembers no others. -/
theorem walk_identities {pieces : List Piece} (hsegments : d.model.segments = joinFrom [] pieces)
    {memo memo' : Dict Text Text} (hmemo : Remembers (d.Rewrites pf) memo) {text : Text}
    (hrun : (d.walk pf now).Runs (d.meanwhile pf) memo text memo') :
    ∃ rows, text = rows.flatMap rowLine ∧ List.Forall₂ (d.ShowsIdentity pf) pieces rows ∧
      Remembers (d.Rewrites pf) memo' := by
  rw [walk, hsegments] at hrun
  have hslots : slots d.model.segments = [] ++ pieces.filterMap Piece.slot := by
    rw [hsegments, slots_joinFrom, List.nil_append]
  rcases walkFrom_identities hslots [] ⟨hmemo, by simp⟩ hrun with ⟨rows, rfl, hrows, hmemo'⟩
  exact ⟨rows, rfl, hrows, hmemo'.remembers⟩

end ReplayDevice

namespace ReplayDevice

variable {d : ReplayDevice} {pf : Platform}

/-- What is shown under an OID is made of the identity in its first row, if that keeps one. -/
theorem identityValue_of_first {pieces : List Piece}
    (hsegments : d.model.segments = joinFrom [] pieces) {row : Row}
    (hfirst : (pieces.map Piece.row).find? (·.1 = row.1) = some row) {slot : Slot}
    (hslot : ∀ piece ∈ pieces, piece.row = row → piece.slot = some slot)
    (hkind : slot.kind.isIdentity = true) {v : Text} (hv : d.Rewrites pf row.1 v) :
    d.identityValue pf slot = .ok v := by
  rw [List.find?_map, Option.map_eq_some_iff] at hfirst
  rcases hfirst with ⟨piece, hfind, hrow⟩
  rcases List.find?_eq_some_iff_append.mp hfind with ⟨-, before, behind, hpieces, hbefore⟩
  have hpiece : piece.slot = some slot := hslot piece (by rw [hpieces]; simp) hrow
  have hoid : slot.oid = row.1 := hrow ▸ (piece.reads slot hpiece).oid_eq
  have hnone : (identitySlots (before.filterMap Piece.slot)).find? (·.oid = row.1) = none := by
    refine List.find?_eq_none.mpr fun s hs => ?_
    rcases List.mem_filterMap.mp (List.mem_filter.mp hs).1 with ⟨other, hother, hs⟩
    have hne := hbefore other hother
    simp only [Function.comp_apply] at hne
    rw [(other.reads s hs).oid_eq]
    simpa using hne
  rcases hv with ⟨found, hfound, hvalue⟩
  rw [hsegments, slots_joinFrom, hpieces, List.filterMap_append, identitySlots, List.filter_append,
    List.find?_append, ← identitySlots, hnone, List.filterMap_cons_some hpiece, List.filter_cons,
    if_pos hkind, List.find?_cons_of_pos (by simpa using hoid), Option.none_or,
    Option.some.injEq] at hfound
  exact hfound ▸ hvalue

end ReplayDevice

/-! ## The rows of hardware identities -/

/-- The tables of hardware identities. -/
def hardwarePrefixes : List Oid :=
  [ifmacPrefix, entSerialPrefix, dellSvccodePrefix] ++ dellSvctagPrefixes

/-- No two of the tables have an OID in common, nor has one with the processor counters. -/
theorem behind_hardware {p q : Oid} (hp : p ∈ ucdPrefix :: hardwarePrefixes)
    (hq : q ∈ ucdPrefix :: hardwarePrefixes) (hne : p ≠ q) {oid : Text}
    (h : (behind p oid).isSome) : behind q oid = none := by
  have hapart : ∀ p ∈ ucdPrefix :: hardwarePrefixes, ∀ q ∈ ucdPrefix :: hardwarePrefixes, p ≠ q →
      ¬ (oidText p ++ ['.']) <+: (oidText q ++ ['.']) := by
    decide +kernel
  have hstart : ∀ {p : Oid}, (behind p oid).isSome → (oidText p ++ ['.']) <+: oid := by
    intro p hp
    rcases Option.isSome_iff_exists.mp hp with ⟨rest, hrest⟩
    exact ⟨rest, by rw [behind_eq_some hrest]; simp⟩
  by_contra hsome
  rcases List.prefix_or_prefix_of_prefix (hstart h) (hstart (Option.isSome_iff_ne_none.mpr hsome))
    with hle | hle
  · exact hapart p hp q hq hne hle
  · exact hapart q hq p hp hne.symm hle

theorem not_mem_singleOids {p : Oid} (hp : p ∈ hardwarePrefixes) {oid : Text}
    (h : (behind p oid).isSome) : oid ∉ singleOids := by
  have hapart : ∀ p ∈ hardwarePrefixes, ∀ single ∈ singleOids,
      (behind p single).isSome = false := by
    decide +kernel
  intro hsingle
  rw [hapart p hp oid hsingle] at h
  cases h

namespace ReplayModel

variable {m : ReplayModel}

/-- A row of a table of identities keeps the identity, if it is one. -/
theorem classify_hardware {p : Oid} (hp : p ∈ hardwarePrefixes) {oid value : Text}
    (h : (behind p oid).isSome) {out : ReplayModel × Slot}
    (hidentity : m.identitySlot oid value = some out) :
    m.classify oid value = .ok (out.1, some out.2) := by
  have hsingle := not_mem_singleOids hp h
  simp only [singleOids, List.mem_cons, List.not_mem_nil, or_false, not_or] at hsingle
  rcases hsingle with ⟨hname, hlocation, huptime, hhruptime, hhp, hapc⟩
  have hne : p ≠ ucdPrefix := by
    rintro rfl
    exact absurd hp (by decide)
  have hucd : m.ucdCounter oid (Text.intOf value) = none := by
    simp only [ucdCounter, behind_hardware (List.mem_cons_of_mem _ hp) List.mem_cons_self hne h]
  simp only [classify, if_neg hname, if_neg hlocation, if_neg (not_or.mpr ⟨huptime, hhruptime⟩),
    if_neg hhp, if_neg hapc, hucd, hidentity]
  cases Text.intOf value <;> rfl

/-- A six-byte address of an interface is kept. -/
theorem classify_ifmac {oid value : Text} (h : (behind ifmacPrefix oid).isSome) {raw : List Nat}
    (hraw : parseHexValue value = some raw) (hlength : raw.length = 6) :
    m.classify oid value = .ok (m, some ⟨.ifmac, oid, value, 0⟩) := by
  have hidentity : m.identitySlot oid value = some (m, ⟨.ifmac, oid, value, 0⟩) := by
    rw [identitySlot, if_pos ⟨h, by rw [hraw, Option.map_some, hlength]⟩]
  exact classify_hardware (by decide) h hidentity

end ReplayModel

end Netsim
end DemoEstate
