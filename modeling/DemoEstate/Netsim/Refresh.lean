import DemoEstate.Netsim.TableFor

/-!
# Refreshing a replayed device

A refresh renders only the slots of the dynamic kinds and stores them in the
table built before.  With the readings of counters and gauges fixed, a rendering
is a function of the time, and every other row does not depend on it.

Main results:

- Theorem {lit}`Shows.eq_shown`: with fixed readings a slot shows one value.
- Theorem {lit}`refresh_eq_rebuild`: refreshing a table gives the same values as
  building it anew.
-/

namespace DemoEstate
namespace Netsim

open Interaction
open Snmp (Row Oid Table parseOid)

/-! ## Fixed readings -/

/-- The values that counters and gauges are read at. -/
structure Readings where
  counter : Text → ℤ
  gauge : Text → ℚ → ℚ → ℚ

/-- Answer a rendering from fixed readings; the state remembers the identities. -/
def Readings.handler (rd : Readings) : Program.Handler (Dict Text Text) Op Ans
  | memo, .sample name _ _ => some (rd.counter name, memo)
  | memo, .gauge name base amp => some (rd.gauge name base amp, memo)
  | memo, .getIdent oid => some (memo.get oid, memo)
  | memo, .setIdent oid v => some ((), memo.set oid v)
  | _, _ => none

/-- What a rendering from fixed readings is answered; `Q` holds of the remembered
identities, and `mayRaise` tells whether it may raise. -/
def Readings.contract (rd : Readings) (Q : Text → Text → Prop) (mayRaise : Prop) :
    Program.Contract Op Ans where
  asks
    | .sample .. | .gauge .. | .getIdent _ => True
    | .setIdent oid v => Q oid v
    | .raise => mayRaise
    | _ => False
  answers
    | .sample name _ _, v => v = rd.counter name
    | .gauge name base amp, v => v = rd.gauge name base amp
    | .getIdent oid, v => ∀ w ∈ v, Q oid w
    | _, _ => True

/-- The handler answers by the contract. -/
theorem Readings.answering (rd : Readings) {Q : Text → Text → Prop} {mayRaise : Prop} :
    ∀ memo op ans memo', Remembers Q memo → (rd.contract Q mayRaise).asks op →
      Program.Answering rd.handler memo op ans memo' →
        (rd.contract Q mayRaise).answers op ans ∧ Remembers Q memo' := by
  intro memo op ans memo' hmemo hasks hans
  cases op
  case raise => exact nomatch ans
  all_goals cases hans
  case sample => exact ⟨rfl, hmemo⟩
  case gauge => exact ⟨rfl, hmemo⟩
  case getIdent oid => exact ⟨fun w hw => hmemo oid w hw, hmemo⟩
  case setIdent oid v => exact ⟨trivial, hmemo.set hasks⟩

/-- Unless it raises, the handler answers whatever may be asked. -/
theorem Readings.answers_all (rd : Readings) {Q : Text → Text → Prop} :
    ∀ memo op, Remembers Q memo → (rd.contract Q False).asks op →
      ∃ ans memo', rd.handler memo op = some (ans, memo') ∧
        (rd.contract Q False).answers op ans ∧ Remembers Q memo' := by
  intro memo op hmemo hasks
  have hsome : ∃ ans memo', rd.handler memo op = some (ans, memo') := by
    cases op <;> first | exact ⟨_, _, rfl⟩ | exact hasks.elim
  rcases hsome with ⟨ans, memo', hans⟩
  exact ⟨ans, memo', hans, rd.answering memo op ans memo' hmemo hasks hans⟩

/-! ## Values at a time -/

namespace ReplayDevice

/-- The identity a slot shows. -/
def identityOf (d : ReplayDevice) (pf : Platform) (slot : Slot) : Text :=
  match d.identityValue pf slot with
  | .ok v => v
  | .error _ => []

/-- The value a slot shows at a time. -/
def shown (d : ReplayDevice) (pf : Platform) (rd : Readings) (now : ℚ) (slot : Slot) : Text :=
  match slot.kind with
  | .sysname => d.short ++ '.' :: pf.domain
  | .syslocation => d.location
  | .uptime => Text.str (int (slot.recorded + d.elapsed pf now * 100) % u32)
  | .hrcpu =>
      let v := rd.gauge (d.short ++ ".hrcpu.".toList ++ slot.key) slot.recorded 3
      Text.str (max 1 (min 97 (round v)))
  | .apcdate => pf.date (now - 37 * 86400)
  | .ctr32 => Text.str (rd.counter (d.short ++ '.' :: slot.key) % u32)
  | .ctr64 => Text.str (rd.counter (d.short ++ '.' :: slot.key))
  | .ifmac | .serial | .svctag | .svccode => d.identityOf pf slot

/-- The value of a piece at a time. -/
def valueAt (d : ReplayDevice) (pf : Platform) (rd : Readings) (now : ℚ) (piece : Piece) : Text :=
  match piece.slot with
  | none => piece.row.2
  | some slot => d.shown pf rd now slot

variable {d : ReplayDevice} {pf : Platform}

/-- With fixed readings a slot shows one value. -/
theorem Shows.eq_shown {rd : Readings} {Q : Text → Text → Prop} {mayRaise : Prop} {now : ℚ}
    {slot : Slot} {v : Text}
    (hident : slot.kind.isIdentity = true → ∀ w, Q slot.oid w → d.identityValue pf slot = .ok w)
    (h : d.Shows pf (rd.contract Q mayRaise) (d.elapsed pf now) now slot v) :
    v = d.shown pf rd now slot := by
  have hidentity : slot.kind.isIdentity = true →
      d.identityValue pf slot = .ok v ∨ (rd.contract Q mayRaise).answers (.getIdent slot.oid)
        (some v) → v = d.identityOf pf slot := by
    intro hkind hv
    have hok : d.identityValue pf slot = .ok v := hv.elim id fun hans =>
      hident hkind v (hans v rfl)
    rw [identityOf, hok]
  unfold Shows at h
  unfold shown
  cases hkind : slot.kind <;> simp only [hkind] at h ⊢
  case hrcpu =>
    rcases h with ⟨w, rfl, rfl⟩
    rfl
  case ctr32 =>
    rcases h with ⟨n, rfl, rfl⟩
    rfl
  case ctr64 =>
    rcases h with ⟨n, rfl, rfl⟩
    rfl
  case ifmac => exact hidentity (by rw [hkind]; rfl) h
  case serial => exact hidentity (by rw [hkind]; rfl) h
  case svctag => exact hidentity (by rw [hkind]; rfl) h
  case svccode => exact hidentity (by rw [hkind]; rfl) h
  all_goals exact h

/-- Only the dynamic kinds depend on the time and the readings. -/
theorem shown_of_not_dynamic {slot : Slot} (h : slot.kind.isDynamic = false) (rd rd' : Readings)
    (now now' : ℚ) : d.shown pf rd now slot = d.shown pf rd' now' slot := by
  unfold shown
  cases hkind : slot.kind <;> simp only [hkind, Kind.isDynamic, reduceCtorEq] at h ⊢

end ReplayDevice

/-! ## Walk files with distinct OIDs -/

/-- The OIDs of the rows that have one can be read and are pairwise distinct. -/
def WalkFile.Distinct (file : WalkFile) : Prop :=
  ∃ oids : List Oid, List.Forall₂ (fun (row : Row) oid => parseOid row.1 = .ok oid)
    (file.rows.filter (·.1 ≠ [])) oids ∧ oids.Nodup

/-- The values have no line breaks. -/
def WalkFile.Plain (file : WalkFile) : Prop :=
  ∀ row ∈ file.rows, Text.Plain row.2

/-- The pieces whose rows have an OID. -/
def kept (pieces : List Piece) : List Piece :=
  pieces.filter (·.row.1 ≠ [])

/-- Has a slot of a dynamic kind. -/
def Piece.isDynamic (piece : Piece) : Bool :=
  piece.slot.any fun slot => slot.kind.isDynamic

/-- The OID of a piece. -/
def Piece.oid (piece : Piece) : Oid :=
  (parseOid piece.row.1).toOption.getD []

/-- The OIDs of the kept pieces are read, and each belongs to one piece. -/
structure Keyed (pieces : List Piece) : Prop where
  parse : ∀ piece ∈ kept pieces, parseOid piece.row.1 = .ok piece.oid
  nodup : ((kept pieces).map Piece.oid).Nodup

theorem WalkFile.Distinct.keyed {file : WalkFile} (h : file.Distinct) {pieces : List Piece}
    (hrows : pieces.map Piece.row = file.rows) : Keyed pieces := by
  rcases h with ⟨oids, hfile, hnodup⟩
  have hread : List.Forall₂ (fun (piece : Piece) oid => parseOid piece.row.1 = .ok oid)
      (kept pieces) oids := by
    rw [← hrows, List.filter_map, List.forall₂_map_left_iff] at hfile
    exact hfile
  have hoid : ∀ (piece : Piece) oid, parseOid piece.row.1 = .ok oid → oid = piece.oid := by
    intro piece oid hoid
    rw [Piece.oid, hoid]
    rfl
  refine ⟨fun piece hpiece => ?_, ?_⟩
  · rcases hread.exists_right hpiece with ⟨oid, -, hparse⟩
    rw [hparse, hoid piece oid hparse]
  · rw [← hread.eq_map fun piece _ oid => hoid piece oid]
    exact hnodup

/-- The piece of an OID is unique, however the OID is written. -/
theorem Keyed.piece_unique {pieces : List Piece} (h : Keyed pieces) {piece piece' : Piece}
    (hpiece : piece ∈ pieces) (hpiece' : piece' ∈ pieces) {oid : Oid}
    (hoid : parseOid piece.row.1 = .ok oid) (hoid' : parseOid piece'.row.1 = .ok oid) :
    piece' = piece := by
  have hkept : ∀ p ∈ pieces, parseOid p.row.1 = .ok oid → p ∈ kept pieces := by
    intro p hp hparse
    refine List.mem_filter.mpr ⟨hp, ?_⟩
    by_contra hnil
    simp only [ne_eq, decide_not, Bool.not_eq_true', decide_eq_false_iff_not, not_not] at hnil
    rw [hnil] at hparse
    cases hparse
  refine List.inj_on_of_nodup_map h.nodup (hkept piece' hpiece' hoid') (hkept piece hpiece hoid) ?_
  rw [Piece.oid, Piece.oid, hoid, hoid']

/-- The slot of an OID is unique. -/
theorem Keyed.slot_unique {pieces : List Piece} (h : Keyed pieces) {slot slot' : Slot}
    (hslot : slot ∈ pieces.filterMap Piece.slot) (hslot' : slot' ∈ pieces.filterMap Piece.slot)
    (hoid : parseOid slot'.oid = parseOid slot.oid) : slot' = slot := by
  rcases List.mem_filterMap.mp hslot with ⟨piece, hpiece, hs⟩
  rcases List.mem_filterMap.mp hslot' with ⟨piece', hpiece', hs'⟩
  have hreads := piece.reads slot hs
  have hkept : piece ∈ kept pieces :=
    List.mem_filter.mpr ⟨hpiece, by simpa using hreads.oid_ne_nil⟩
  have hparse := h.parse piece hkept
  have heq : piece' = piece := by
    refine h.piece_unique hpiece hpiece' hparse ?_
    rw [← (piece'.reads slot' hs').oid_eq, hoid, hreads.oid_eq, hparse]
  rw [heq, hs] at hs'
  exact (Option.some.inj hs').symm

namespace ReplayDevice

variable {d : ReplayDevice} {pf : Platform}

/-- An identity remembered under an OID is that of its slot. -/
def Identities (d : ReplayDevice) (pf : Platform) (oid v : Text) : Prop :=
  ∀ slot ∈ slots d.model.segments, slot.oid = oid → slot.kind.isIdentity = true →
    d.identityValue pf slot = .ok v

theorem allows_contract {pieces : List Piece} (hsegments : d.model.segments = joinFrom [] pieces)
    (hkeyed : Keyed pieces) (rd : Readings) {mayRaise : Prop}
    (hraise : mayRaise ∨ ∀ slot ∈ pieces.filterMap Piece.slot, slot.kind.isIdentity = true →
      ∃ v, d.identityValue pf slot = .ok v) :
    d.Allows pf (rd.contract (d.Identities pf) mayRaise) (pieces.filterMap Piece.slot) where
  sample _ _ _ := trivial
  gauge _ _ _ := trivial
  getIdent _ := trivial
  setIdent slot hslot hkind v hv := by
    intro slot' hslot' hoid hkind'
    rw [hsegments, slots_joinFrom] at hslot'
    rw [hkeyed.slot_unique hslot hslot' (by rw [hoid]), hv]
  raise slot hslot hkind e he := by
    rcases hraise with hraise | hok
    · exact hraise
    · rcases hok slot hslot hkind with ⟨v, hv⟩
      rw [hv] at he
      cases he

/-- The row of a piece at a time. -/
def rowAt (d : ReplayDevice) (pf : Platform) (rd : Readings) (now : ℚ) (piece : Piece) : Row :=
  (piece.row.1, d.valueAt pf rd now piece)

/-- What a table stores of a piece at a time. -/
def storedAt (d : ReplayDevice) (pf : Platform) (rd : Readings) (now : ℚ) (piece : Piece) :
    Oid × Snmp.Bytes :=
  (piece.oid, Snmp.encOctetStr (Snmp.encodeValue (d.valueAt pf rd now piece)))

/-- The rows a walk renders are those of its pieces at that time. -/
theorem rows_eq_rowAt {pieces : List Piece} (hsegments : d.model.segments = joinFrom [] pieces)
    {rd : Readings} {mayRaise : Prop} {now : ℚ} {rows : List Row}
    (h : List.Forall₂ (d.Renders pf (rd.contract (d.Identities pf) mayRaise) (d.elapsed pf now) now)
      pieces rows) : rows = pieces.map (d.rowAt pf rd now) := by
  refine h.eq_map fun piece hpiece row hrow => ?_
  rcases hrow with ⟨hoid, hvalue⟩
  refine Prod.ext hoid ?_
  cases hslot : piece.slot with
  | none => simpa [rowAt, valueAt, hslot] using hvalue
  | some slot =>
      rw [hslot] at hvalue
      have hmem : slot ∈ slots d.model.segments := by
        rw [hsegments, slots_joinFrom]
        exact List.mem_filterMap.mpr ⟨piece, hpiece, hslot⟩
      have hshown := Shows.eq_shown (fun hkind w hw => hw slot hmem rfl hkind) hvalue
      rw [rowAt, valueAt, hslot]
      exact hshown

/-- The rows of a refresh are those of the pieces with a dynamic slot. -/
theorem rows_eq_rowAt_dynamic {pieces : List Piece}
    (hsegments : d.model.segments = joinFrom [] pieces) {rd : Readings} {mayRaise : Prop} {now : ℚ}
    {rows : List Row}
    (h : List.Forall₂ (fun slot row => row.1 = slot.oid ∧
        d.Shows pf (rd.contract (d.Identities pf) mayRaise) (d.elapsed pf now) now slot row.2)
      ((pieces.filterMap Piece.slot).filter fun slot => slot.kind.isDynamic) rows) :
    rows = ((kept pieces).filter Piece.isDynamic).map (d.rowAt pf rd now) := by
  have hrows : rows = ((pieces.filterMap Piece.slot).filter fun slot => slot.kind.isDynamic).map
      fun slot => (slot.oid, d.shown pf rd now slot) := by
    refine h.eq_map fun slot hslot row hrow => Prod.ext hrow.1 ?_
    refine Shows.eq_shown (fun hkind w hw => hw slot ?_ rfl hkind) hrow.2
    rw [hsegments, slots_joinFrom]
    exact (List.mem_filter.mp hslot).1
  rw [hrows]
  clear hrows h hsegments
  induction pieces with
  | nil => rfl
  | cons piece pieces ih =>
      match piece with
      | ⟨row, none, _⟩ =>
          by_cases hne : row.1 = [] <;> simpa [kept, hne, Piece.isDynamic] using ih
      | ⟨row, some slot, hreads⟩ =>
          have hread := hreads slot rfl
          have hne := hread.oid_ne_nil
          by_cases hdynamic : slot.kind.isDynamic = true
          · simpa [kept, hne, Piece.isDynamic, hdynamic, rowAt, valueAt, hread.oid_eq] using ih
          · simpa [kept, hne, Piece.isDynamic, hdynamic] using ih

/-- Every value a piece shows is plain. -/
theorem plain_valueAt {pieces : List Piece} (hrows : pieces.map Piece.row = d.file.rows)
    (hplain : d.file.Plain) {rd : Readings} {mayRaise : Prop} {now : ℚ} {rows : List Row}
    (hsegments : d.model.segments = joinFrom [] pieces)
    (h : List.Forall₂ (d.Renders pf (rd.contract (d.Identities pf) mayRaise) (d.elapsed pf now) now)
      pieces rows) : ∀ row ∈ rows, Numeric row.1 ∧ Text.Plain row.2 := by
  intro row hrow
  rcases h.exists_left hrow with ⟨piece, hpiece, hoid, hvalue⟩
  have hmem : piece.row ∈ d.file.rows := hrows ▸ List.mem_map_of_mem hpiece
  refine ⟨hoid ▸ d.file.numeric _ hmem, ?_⟩
  cases hslot : piece.slot with
  | none =>
      rw [hslot] at hvalue
      exact hvalue ▸ hplain _ hmem
  | some slot =>
      rw [hslot] at hvalue
      have hreads := piece.reads slot hslot
      refine plain_of_shows (fun hkind hident => ?_) hvalue
      have hkey : Text.Plain slot.key := fun c hc => hplain _ hmem c (hreads.key_of_row hkind c hc)
      refine plain_identityValue hkey (hident.elim id fun hans => hans _ rfl slot ?_ rfl hkind)
      rw [hsegments, slots_joinFrom]
      exact List.mem_filterMap.mpr ⟨piece, hpiece, hslot⟩

theorem encodeRow_rowAt (d : ReplayDevice) (pf : Platform) {pieces : List Piece} (hkeyed : Keyed pieces) (rd : Readings) (now : ℚ)
    {some : List Piece} (hsome : some ⊆ kept pieces) :
    List.Forall₂ (fun row pair => Table.encodeRow row = .ok pair)
      (some.map (d.rowAt pf rd now)) (some.map (d.storedAt pf rd now)) := by
  rw [List.forall₂_map_left_iff, List.forall₂_map_right_iff, List.forall₂_same]
  intro piece hpiece
  simp only [Table.encodeRow, rowAt, hkeyed.parse piece (hsome hpiece), bind, Except.bind, pure,
    Except.pure, storedAt]

/-- The table of a rendered walk stores what the kept pieces show. -/
theorem ofRows_walkRows {pieces : List Piece} (hrows : pieces.map Piece.row = d.file.rows)
    (hsegments : d.model.segments = joinFrom [] pieces) (hkeyed : Keyed pieces)
    (hplain : d.file.Plain) {rd : Readings} {mayRaise : Prop} {now : ℚ} {rows : List Row}
    (h : List.Forall₂ (d.Renders pf (rd.contract (d.Identities pf) mayRaise) (d.elapsed pf now) now)
      pieces rows) :
    ∃ t, Table.ofRows (walkRows (rows.flatMap rowLine)) = .ok t ∧
      t.value = Dict.ofRows ((kept pieces).map (d.storedAt pf rd now)) := by
  have hkept : walkRows (rows.flatMap rowLine) = (kept pieces).map (d.rowAt pf rd now) := by
    rw [walkRows_flatMap_rowLine (plain_valueAt hrows hplain hsegments h),
      rows_eq_rowAt hsegments h, List.filter_map]
    rfl
  rw [hkept]
  exact ⟨_, Table.ofRows_of_encodeRow (encodeRow_rowAt d pf hkeyed rd now (List.Subset.refl _)), rfl⟩

/-- A walk shows the identity of every slot. -/
theorem identityValue_of_renders {pieces : List Piece}
    (hsegments : d.model.segments = joinFrom [] pieces) {rd : Readings} {mayRaise : Prop} {now : ℚ}
    {rows : List Row}
    (h : List.Forall₂ (d.Renders pf (rd.contract (d.Identities pf) mayRaise) (d.elapsed pf now) now)
      pieces rows) {slot : Slot} (hslot : slot ∈ pieces.filterMap Piece.slot)
    (hkind : slot.kind.isIdentity = true) : ∃ v, d.identityValue pf slot = .ok v := by
  have hmem : slot ∈ slots d.model.segments := by rwa [hsegments, slots_joinFrom]
  rcases List.mem_filterMap.mp hslot with ⟨piece, hpiece, hpieceSlot⟩
  rcases h.exists_right hpiece with ⟨row, -, -, hvalue⟩
  rw [hpieceSlot] at hvalue
  have hident : d.identityValue pf slot = .ok row.2 ∨
      (rd.contract (d.Identities pf) mayRaise).answers (.getIdent slot.oid) (some row.2) := by
    unfold Shows at hvalue
    cases hk : slot.kind <;> simp only [hk, Kind.isIdentity, reduceCtorEq] at hkind hvalue
    all_goals exact hvalue
  exact ⟨row.2, hident.elim id fun hans => hans _ rfl slot hmem rfl hkind⟩

/-- The identities an instance has remembered after some renderings. -/
inductive Recalls (d : ReplayDevice) (pf : Platform) : Dict Text Text → Prop
  | fresh : Recalls d pf Dict.empty
  | walk {memo memo' : Dict Text Text} {rd : Readings} {now : ℚ} {text : Text}
      (h : Recalls d pf memo) (hrun : (d.walk pf now).run rd.handler memo = some (text, memo')) :
      Recalls d pf memo'
  | refresh {memo memo' : Dict Text Text} {rd : Readings} {now : ℚ} {rows : List Row}
      (h : Recalls d pf memo)
      (hrun : (d.dynamicRows pf now).run rd.handler memo = some (rows, memo')) :
      Recalls d pf memo'

/-- What an instance has remembered are the identities of its slots. -/
theorem Recalls.remembers (hdistinct : d.file.Distinct) {memo : Dict Text Text}
    (h : d.Recalls pf memo) : Remembers (d.Identities pf) memo := by
  rcases ReplayModel.ofRows_segments d.loaded with ⟨pieces, hrows, hsegments⟩
  have hallows : ∀ rd : Readings,
      d.Allows pf (rd.contract (d.Identities pf) True) (pieces.filterMap Piece.slot) := fun rd =>
    allows_contract hsegments (hdistinct.keyed hrows) rd (Or.inl trivial)
  induction h with
  | fresh =>
      intro oid v hget
      simp at hget
  | @walk memo memo' rd now text _ hrun ih =>
      exact ((walk_ensures hsegments (hallows rd)).of_runs rd.answering
        (Program.runs_of_run hrun) ih).2
  | @refresh memo memo' rd now rows _ hrun ih =>
      exact ((dynamicRows_ensures hsegments (hallows rd)).of_runs rd.answering
        (Program.runs_of_run hrun) ih).2

/-- Refreshing a table built from a walk gives the same values as building it anew,
when both read the same counters and gauges. -/
theorem refresh_eq_rebuild (hdistinct : d.file.Distinct) (hplain : d.file.Plain)
    (rd₀ rd₁ : Readings) (t₀ t₁ : ℚ) {memo memo₀ memo₁ : Dict Text Text} {text₀ : Text}
    (hmemo : d.Recalls pf memo) (hmemo₁ : d.Recalls pf memo₁)
    (hwalk : (d.walk pf t₀).run rd₀.handler memo = some (text₀, memo₀)) :
    ∃ built rows refreshed text₁ rebuilt,
      Table.ofRows (walkRows text₀) = .ok built ∧
      ((d.dynamicRows pf t₁).run rd₁.handler memo₀).map Prod.fst = some rows ∧
      built.patch rows = .ok refreshed ∧
      ((d.walk pf t₁).run rd₁.handler memo₁).map Prod.fst = some text₁ ∧
      Table.ofRows (walkRows text₁) = .ok rebuilt ∧
      ∀ oid, refreshed.get oid = rebuilt.get oid := by
  rcases ReplayModel.ofRows_segments d.loaded with ⟨pieces, hrows, hsegments⟩
  have hkeyed := hdistinct.keyed hrows
  -- the walk at `t₀` and, because no identity raised there, both renderings at `t₁`
  have hallows₀ : d.Allows pf (rd₀.contract (d.Identities pf) True) (pieces.filterMap Piece.slot) :=
    allows_contract hsegments hkeyed rd₀ (Or.inl trivial)
  rcases (walk_ensures hsegments hallows₀).of_runs rd₀.answering (Program.runs_of_run hwalk)
    (hmemo.remembers hdistinct) with ⟨⟨rows₀, hrendered₀, rfl⟩, hmemo₀⟩
  have hallows₁ : d.Allows pf (rd₁.contract (d.Identities pf) False) (pieces.filterMap Piece.slot) :=
    allows_contract hsegments hkeyed rd₁ (Or.inr fun slot hslot hkind =>
      identityValue_of_renders hsegments hrendered₀ hslot hkind)
  rcases (dynamicRows_ensures hsegments hallows₁).run rd₁.answers_all hmemo₀ with
    ⟨rows, memo', hrefresh, hshown, -⟩
  rcases (walk_ensures hsegments hallows₁).run rd₁.answers_all
    (hmemo₁.remembers hdistinct) with
    ⟨text₁, memo'', hrebuild, ⟨rows₁, hrendered₁, rfl⟩, -⟩
  rcases ofRows_walkRows hrows hsegments hkeyed hplain hrendered₀ with ⟨built, hbuilt, hvalue₀⟩
  rcases ofRows_walkRows hrows hsegments hkeyed hplain hrendered₁ with ⟨rebuilt, hrebuilt, hvalue₁⟩
  rw [rows_eq_rowAt_dynamic hsegments hshown] at hrefresh
  have hsub : (kept pieces).filter Piece.isDynamic ⊆ kept pieces := List.filter_subset_self _
  have hpatch := Table.patch_of_encodeRow (encodeRow_rowAt d pf hkeyed rd₁ t₁ hsub) built
  refine ⟨built, _, _, _, rebuilt, hbuilt, by rw [hrefresh]; rfl, hpatch, by rw [hrebuild]; rfl,
    hrebuilt, fun oid => ?_⟩
  rw [Table.get, Table.get, hvalue₀, hvalue₁]
  refine Dict.get_update_filter (f := d.storedAt pf rd₀ t₀) (g := d.storedAt pf rd₁ t₁)
    (p := Piece.isDynamic) (fun _ _ => rfl) (fun piece _ hfixed => ?_) ?_ oid
  · refine Prod.ext rfl (congrArg (fun v => Snmp.encOctetStr (Snmp.encodeValue v)) ?_)
    unfold valueAt
    cases hslot : piece.slot with
    | none => rfl
    | some slot =>
        refine shown_of_not_dynamic ?_ rd₀ rd₁ t₀ t₁
        simpa [Piece.isDynamic, hslot] using hfixed
  · exact hkeyed.nodup

end ReplayDevice

/-- A walk of an uptime and a serial number. -/
def uptimeAndSerial : WalkFile where
  content := ".1.3.6.1.2.1.1.3.0 100\n.1.3.6.1.2.1.47.1.1.1.1.11.1 AB12\n".toList
  numeric := by decide +kernel

theorem rows_uptimeAndSerial : uptimeAndSerial.rows =
    [(uptimeOid, "100".toList), (oidText (entSerialPrefix ++ [1]), "AB12".toList)] := by
  decide +kernel

/-- An instance of that walk. -/
def psu01 : ReplayDevice where
  short := "psu-01".toList
  location := "rack".toList
  file := uptimeAndSerial
  model := ReplayModel.parsed uptimeAndSerial.rows
  loaded := ReplayModel.ofRows_eq_parsed (by decide +kernel)
  short_plain := by decide
  location_plain := plain_rack

/-- Counters at zero and gauges at their base. -/
def Readings.flat : Readings where
  counter _ := 0
  gauge _ base _ := base

/-- A refresh of the instance one minute after its first walk. -/
theorem refresh_eq_rebuild_psu01 : ∃ built rows refreshed text₁ rebuilt,
    Table.ofRows (walkRows
      ".1.3.6.1.2.1.1.3.0 100\n.1.3.6.1.2.1.47.1.1.1.1.11.1 AA00\n".toList) = .ok built ∧
    ((psu01.dynamicRows Platform.still 60).run Readings.flat.handler
      (Dict.empty.set (oidText (entSerialPrefix ++ [1])) "AA00".toList)).map Prod.fst = some rows ∧
    built.patch rows = .ok refreshed ∧
    ((psu01.walk Platform.still 60).run Readings.flat.handler Dict.empty).map Prod.fst =
      some text₁ ∧
    Table.ofRows (walkRows text₁) = .ok rebuilt ∧
    ∀ oid, refreshed.get oid = rebuilt.get oid := by
  have hfile : psu01.file.rows =
      [(uptimeOid, "100".toList), (oidText (entSerialPrefix ++ [1]), "AB12".toList)] :=
    rows_uptimeAndSerial
  have hdistinct : psu01.file.Distinct := by
    refine ⟨[[1, 3, 6, 1, 2, 1, 1, 3, 0], entSerialPrefix ++ [1]], ?_, by decide⟩
    have hrows : psu01.file.rows.filter (·.1 ≠ []) =
        [(uptimeOid, "100".toList), (oidText (entSerialPrefix ++ [1]), "AB12".toList)] := by
      rw [hfile]
      decide
    rw [hrows]
    exact .cons (parseOid_oidText _ _) (.cons (parseOid_oidText _ _) .nil)
  have hplain : psu01.file.Plain := by
    intro row hrow
    rw [hfile] at hrow
    simp only [List.mem_cons, List.not_mem_nil, or_false] at hrow
    rcases hrow with rfl | rfl <;> decide
  have hwalk : (psu01.walk Platform.still 0).run Readings.flat.handler Dict.empty =
      some (".1.3.6.1.2.1.1.3.0 100\n.1.3.6.1.2.1.47.1.1.1.1.11.1 AA00\n".toList,
        Dict.empty.set (oidText (entSerialPrefix ++ [1])) "AA00".toList) := by
    decide +kernel
  exact ReplayDevice.refresh_eq_rebuild hdistinct hplain Readings.flat Readings.flat 0 60 .fresh
    .fresh hwalk

end Netsim
end DemoEstate
