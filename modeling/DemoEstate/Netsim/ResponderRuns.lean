import DemoEstate.Netsim.Columns
import DemoEstate.Netsim.Responder

/-!
# The values answered over time

Under a 64-bit interface counter OID the table of a device shows one source.  As long
as no two workers build or refresh it at the same time, its value never falls
behind a value answered before.

Main results:

- Theorem {lit}`Shared.handler_answers`: one operation of a rendering reads the counters
  between their value before it and their value after it.
- Theorem {lit}`Memory.Settled.advance`: one step of one worker preserves the invariant.
- Theorem {lit}`Responder.ascending_of_alone`: in every run whose builds and refreshes do
  not overlap, the values answered never decrease.
- Theorem {lit}`Responder.not_ascending_two_refreshes`: two overlapping refreshes store an
  older sample over a newer one.
-/

namespace DemoEstate
namespace Netsim

open Interaction Transition
open Snmp (Row Oid Table Bytes parseOid)

/-! ## The values of a source -/

theorem numberTlv_injective : Function.Injective numberTlv := by
  have hutf8 : ∀ n, Snmp.encodeValue (Text.str n) = Snmp.utf8 (Text.str n) := by
    intro n
    have hquote : ∀ rest, Text.str n ≠ '"' :: rest := by
      intro rest h
      cases n with
      | ofNat n =>
          have hmem : '"' ∈ Text.decimal n := by
            rw [show Text.decimal n = '"' :: rest from h]
            exact List.mem_cons_self
          exact absurd (Text.isDigit_of_mem_decimal hmem) (by decide)
      | negSucc n => exact absurd (List.cons.inj h).1 (by decide)
    unfold Snmp.encodeValue
    split
    · rename_i rest heq
      exact absurd heq (hquote rest)
    · rfl
  intro n m h
  have hbody := Snmp.tlv_injective _ h
  rw [hutf8, hutf8] at hbody
  exact Text.str_injective (Snmp.utf8_injective hbody)

namespace Source

variable {src : Source} {lo lo' hi hi' : ℤ} {b : Bytes}

/-- The source's counter was between two bounds when it was sampled. -/
def Between (src : Source) (lo hi : ℤ) (name : Text) (n : ℤ) : Prop :=
  src = .counter name → lo ≤ n ∧ n ≤ hi

/-- The encoding of a value the source shows between two bounds. -/
def Encodes (src : Source) (lo hi : ℤ) (b : Bytes) : Prop :=
  ∃ v, src.Shows (src.Between lo hi) v ∧ b = Snmp.encOctetStr (Snmp.encodeValue v)

/-- What the source's counter would return now, without time passing. -/
def reading (src : Source) (s : Shared) : ℤ :=
  match src with
  | .counter name => (s.counters name).value
  | .fixed _ => 0

theorem Shows.mono {v : Text} (hlo : lo' ≤ lo) (hhi : hi ≤ hi')
    (h : src.Shows (src.Between lo hi) v) : src.Shows (src.Between lo' hi') v := by
  cases src with
  | counter name =>
      rcases h with ⟨n, hn, rfl⟩
      refine ⟨n, fun hsrc => ?_, rfl⟩
      have := hn hsrc
      omega
  | fixed value => exact h

/-- A value shown between two bounds stands at one level. -/
theorem Shows.exists_level {v : Text} (hle : lo ≤ hi) (h : src.Shows (src.Between lo hi) v) :
    ∃ T, lo ≤ T ∧ T ≤ hi ∧ src.Shows (src.Between T T) v := by
  cases src with
  | counter name =>
      rcases h with ⟨n, hn, rfl⟩
      rcases hn rfl with ⟨hlo, hhi⟩
      exact ⟨n, hlo, hhi, n, fun _ => ⟨le_rfl, le_rfl⟩, rfl⟩
  | fixed value => exact ⟨lo, le_rfl, hle, h⟩

theorem Encodes.mono (hlo : lo' ≤ lo) (hhi : hi ≤ hi') (h : src.Encodes lo hi b) :
    src.Encodes lo' hi' b := by
  rcases h with ⟨v, hv, rfl⟩
  exact ⟨v, hv.mono hlo hhi, rfl⟩

/-- A number shown at a level is at least every number shown below it. -/
theorem Encodes.le {T n m : ℤ} (hn : src.Encodes T T (numberTlv n))
    (hm : src.Encodes lo T (numberTlv m)) : m ≤ n := by
  rcases hn with ⟨v, hv, hnv⟩
  rcases hm with ⟨w, hw, hmw⟩
  cases src with
  | counter name =>
      rcases hv with ⟨n', hn', rfl⟩
      rcases hw with ⟨m', hm', rfl⟩
      cases numberTlv_injective hnv
      cases numberTlv_injective hmw
      exact (hm' rfl).2.trans (hn' rfl).1
  | fixed value =>
      cases hv
      cases hw
      exact (numberTlv_injective (hmw.trans hnv.symm)).le

end Source

/-! ## One operation of a rendering -/

/-- An operation answers within the bounds, and the counters do not fall. -/
theorem Shared.handler_answers {src : Source} {raw : ℚ} {s s' : Shared} {op : Op} {ans : Ans op}
    {T : ℤ} (hT : T ≤ src.reading s) (hident : Remembers plainIdent s.ident)
    (hasks : ∀ hi, src.reading s ≤ hi → (readings (src.Between T hi) plainIdent).asks op)
    (h : Shared.handler raw s op = some (ans, s')) :
    src.reading s ≤ src.reading s' ∧ Remembers plainIdent s'.ident ∧
      ∀ hi, src.reading s' ≤ hi → (readings (src.Between T hi) plainIdent).answers op ans := by
  cases op with
  | sample name rate cap =>
      cases h
      have hcap : ∀ m ∈ cap.map (NNRat.cast (K := ℚ)), 0 ≤ m := by
        intro m hm
        rcases Option.mem_map.mp hm with ⟨c, -, rfl⟩
        exact c.2
      have hle := (s.counters name).value_le_sample rate.2 hcap raw s.now
      have hreading : ∀ src : Source, src.reading s ≤ src.reading { s with
          counters := Function.update s.counters name
            ((s.counters name).sample rate (cap.map NNRat.cast) raw s.now) } := by
        intro src
        cases src with
        | counter name' =>
            by_cases hname : name' = name
            · subst hname
              simpa [Source.reading] using hle
            · simp [Source.reading, hname]
        | fixed value => exact le_rfl
      refine ⟨hreading src, hident, fun hi hhi hsrc => ?_⟩
      subst hsrc
      simp only [Source.reading, Function.update_self] at hhi hT
      exact ⟨hT.trans hle, hhi⟩
  | getIdent oid =>
      cases h
      exact ⟨le_rfl, hident, fun hi _ w hw => hident oid w hw⟩
  | setIdent oid value =>
      cases h
      exact ⟨le_rfl, hident.set (hasks _ le_rfl), fun hi _ => trivial⟩
  | raise => cases h
  | _ =>
      cases h
      exact ⟨le_rfl, hident, fun hi _ => trivial⟩

/-! ## The invariant -/

/-- The rows still to be stored show the source between two bounds, and once. -/
def RowsWithin (oid : Oid) (src : Source) (lo hi : ℤ) (rows : List Row) : Prop :=
  ShowAt oid src (src.Between lo hi) rows ∧ OneAt oid rows

/-- A table shows the source between two bounds. -/
def TableWithin (oid : Oid) (src : Source) (lo hi : ℤ) (t : Table) : Prop :=
  ∀ b ∈ t.get oid, src.Encodes lo hi b

theorem RowsWithin.tail {oid : Oid} {src : Source} {lo hi : ℤ} {row : Row} {rows : List Row}
    (h : RowsWithin oid src lo hi (row :: rows)) : RowsWithin oid src lo hi rows := by
  constructor
  · intro row' hrow'
    exact h.1 row' (List.mem_cons_of_mem row hrow')
  · intro row₁ hrow₁ row₂ hrow₂
    exact h.2 row₁ (List.mem_cons_of_mem row hrow₁) row₂ (List.mem_cons_of_mem row hrow₂)

namespace Memory

/-- The tables stand at level `T`, above which no value has been answered. -/
structure Settled (oid : Oid) (src : Source) (T : ℤ) (m : Memory) : Prop where
  le_reading : T ≤ src.reading m.shared
  ident : Remembers plainIdent m.shared.ident
  ascending : Responder.Ascending oid m.answers
  answered : ∀ a ∈ m.answers, a.1 = oid → ∀ b ∈ a.2, ∃ lo, src.Encodes lo T b
  stored : ∀ entry ∈ m.entries, TableWithin oid src T T entry.2
  single : m.entries.length ≤ 1
  uncached : m.cache = none → m.entries = []

/-- What a worker still renders and stores lies at least at level `T`; it builds a
table only while there is none. -/
def Allows (oid : Oid) (src : Source) (T : ℤ) (m : Memory) : Phase → Prop
  | .building _ p => m.entries = [] ∧ ∀ hi, src.reading m.shared ≤ hi →
      p.Ensures (readings (src.Between T hi) plainIdent) (TableWithin oid src T hi)
  | .refreshing _ _ p => ∀ hi, src.reading m.shared ≤ hi →
      p.Ensures (readings (src.Between T hi) plainIdent) (RowsWithin oid src T hi)
  | _ => True

variable {oid : Oid} {src : Source} {T T' : ℤ} {m m' : Memory} {phase phase' : Phase}

theorem allows_of_not_busy (h : phase.busy = false) : m.Allows oid src T phase := by
  cases phase with
  | building => cases h
  | refreshing => cases h
  | _ => exact trivial

/-! ## One step of one worker -/

/-- Every walk and every refresh of the device shows the source. -/
def ShownBy (pf : Platform) (dev : Device) (oid : Oid) (src : Source) : Prop :=
  ∀ P now,
    (dev.walk pf now).Ensures (readings P plainIdent) (fun text => ShowAt oid src P (walkRows text)) ∧
    (dev.dynamicRows pf now).Ensures (readings P plainIdent) fun rows =>
      ShowAt oid src P rows ∧ OneAt oid rows

/-- A build renders a table within the bounds its samples satisfy. -/
theorem buildTable_ensures {pf : Platform} {dev : Device} (hdev : ShownBy pf dev oid src)
    (lo hi : ℤ) (now : ℚ) : (buildTable pf dev now).Ensures
      (readings (src.Between lo hi) plainIdent) (TableWithin oid src lo hi) := by
  refine Program.ensures_bind.mpr ((hdev _ now).1.mono fun text htext => ?_)
  cases ht : Table.ofRows (walkRows text) with
  | error e => exact ⟨trivial, fun v => nomatch v⟩
  | ok t =>
      intro b hb
      rcases Table.exists_row_of_get ht hb with ⟨row, hrow, hoid, rfl⟩
      exact ⟨row.2, htext row hrow hoid, rfl⟩

/-- One operation of a rendering keeps the bounds of what is left of it. -/
theorem Settled.render (hm : m.Settled oid src T) {α : Type} {post : ℤ → α → Prop} {op : Op}
    {next : Ans op → Render α} {raw : ℚ} {ans : Ans op} {shared : Shared}
    (hp : ∀ hi, src.reading m.shared ≤ hi → (Program.ask op next).Ensures
      (readings (src.Between T hi) plainIdent) (post hi))
    (h : Shared.handler raw m.shared op = some (ans, shared)) :
    { m with shared := shared }.Settled oid src T ∧
      ∀ hi, src.reading shared ≤ hi →
        (next ans).Ensures (readings (src.Between T hi) plainIdent) (post hi) := by
  rcases Shared.handler_answers hm.le_reading hm.ident (fun hi hhi => (hp hi hhi).1) h with
    ⟨hle, hident, hanswers⟩
  constructor
  · exact { hm with le_reading := hm.le_reading.trans hle, ident := hident }
  · intro hi hhi
    exact (hp hi (hle.trans hhi)).2 ans (hanswers hi hhi)

/-- Raising the level to what the tables now show keeps the invariant. -/
theorem Settled.raise (hm : m.Settled oid src T) (hle : T ≤ T') (hreading : T' ≤ src.reading m.shared)
    {cache : Option Nat} {entries : List (ℚ × Table)}
    (hstored : ∀ entry ∈ entries, TableWithin oid src T' T' entry.2)
    (hsingle : entries.length ≤ 1) (huncached : cache = none → entries = []) :
    { m with cache := cache, entries := entries }.Settled oid src T' where
  le_reading := hreading
  ident := hm.ident
  ascending := hm.ascending
  answered a ha hoid b hb := by
    rcases hm.answered a ha hoid b hb with ⟨lo, hlo⟩
    exact ⟨lo, hlo.mono le_rfl hle⟩
  stored := hstored
  single := hsingle
  uncached := huncached

/-- A table within the bounds stands at a level of its own. -/
theorem exists_level_of_within {hi : ℤ} {t : Table} (hle : T ≤ hi)
    (ht : TableWithin oid src T hi t) :
    ∃ T', T ≤ T' ∧ T' ≤ hi ∧ TableWithin oid src T' T' t := by
  cases hget : t.get oid with
  | none =>
      refine ⟨T, le_rfl, hle, fun b hb => ?_⟩
      rw [hget] at hb
      cases hb
  | some b =>
      rcases ht b hget with ⟨v, hv, rfl⟩
      rcases hv.exists_level hle with ⟨T', hT, hhi, hlevel⟩
      refine ⟨T', hT, hhi, fun b' hb' => ?_⟩
      rw [hget] at hb'
      cases hb'
      exact ⟨v, hlevel, rfl⟩

/-- A finished build is stored at its own level. -/
theorem Settled.storeTable (hm : m.Settled oid src T) {t : Table} (hnone : m.entries = [])
    (ht : TableWithin oid src T (src.reading m.shared) t) (now : ℚ) :
    ∃ T', { m with
      cache := some m.entries.length
      entries := m.entries ++ [(now, t)] }.Settled oid src T' := by
  rcases exists_level_of_within hm.le_reading ht with ⟨T', hT, hreading, ht'⟩
  use T'
  apply hm.raise hT hreading
  · intro entry hentry
    rw [hnone] at hentry
    cases List.mem_singleton.mp hentry
    exact ht'
  · simp [hnone]
  · intro h
    cases h

/-- The only entry there is. -/
theorem Settled.entries_eq (hm : m.Settled oid src T) {e : Nat} {entry : ℚ × Table}
    (hentry : m.entries[e]? = some entry) : m.entries = [entry] ∧ e = 0 := by
  rcases List.getElem?_eq_some_iff.mp hentry with ⟨he, hget⟩
  have hsingle := hm.single
  have he0 : e = 0 := by omega
  subst he0
  rcases List.length_eq_one_iff.mp (by omega : m.entries.length = 1) with ⟨x, hx⟩
  simp only [hx, List.getElem_cons_zero] at hget
  exact ⟨by rw [hx, hget], rfl⟩

/-- A rendered row is stored, and the rows behind it do not fall behind it. -/
theorem Settled.storeRow (hm : m.Settled oid src T) {e : Nat} {entry : ℚ × Table} {t : Table}
    {row : Row} {rows : List Row} (hentry : m.entries[e]? = some entry)
    (hpatch : entry.2.patchRow row = .ok t)
    (hrows : ∀ hi, src.reading m.shared ≤ hi → RowsWithin oid src T hi (row :: rows)) :
    ∃ T', { m with entries := m.entries.set e (entry.1, t) }.Settled oid src T' ∧
      ∀ hi, src.reading m.shared ≤ hi → RowsWithin oid src T' hi rows := by
  rcases hm.entries_eq hentry with ⟨hentries, rfl⟩
  have hstored : TableWithin oid src T T entry.2 := hm.stored entry (by simp [hentries])
  have hkeep : ∀ T', T ≤ T' → T' ≤ src.reading m.shared → TableWithin oid src T' T' t →
      { m with entries := m.entries.set 0 (entry.1, t) }.Settled oid src T' := by
    intro T' hle hreading ht
    apply hm.raise hle hreading
    · intro entry' hentry'
      rw [hentries] at hentry'
      cases List.mem_singleton.mp hentry'
      exact ht
    · simp [hentries]
    · intro hnone
      rw [hm.uncached hnone] at hentries
      cases hentries
  rcases Table.patchRow_eq_ok hpatch with ⟨stored, hparse, rfl⟩
  by_cases hoid : stored = oid
  · -- the level rises to the row's sample, which all rows under this OID repeat
    subst hoid
    have hshows := (hrows _ le_rfl).1 row List.mem_cons_self hparse
    rcases hshows.exists_level hm.le_reading with ⟨T', hle, hreading, hlevel⟩
    refine ⟨T', hkeep T' hle hreading ?_, fun hi hhi => ⟨?_, (hrows hi hhi).tail.2⟩⟩
    · intro b hb
      simp only [Table.get, Dict.get_set_self, Option.mem_some_iff] at hb
      exact ⟨row.2, hlevel, hb.symm⟩
    · intro row' hrow' hoid'
      rw [(hrows hi hhi).2 row' (List.mem_cons_of_mem row hrow') row List.mem_cons_self hoid' hparse]
      exact hlevel.mono le_rfl (hreading.trans hhi)
  · refine ⟨T, hkeep T le_rfl hm.le_reading ?_, fun hi hhi => (hrows hi hhi).tail⟩
    intro b hb
    rw [Table.get, Dict.get_set_of_ne _ _ hoid] at hb
    exact hstored b hb

/-- A new timestamp leaves the tables as they are. -/
theorem Settled.stamp (hm : m.Settled oid src T) {e : Nat} {entry : ℚ × Table}
    (hentry : m.entries[e]? = some entry) (now : ℚ) :
    { m with entries := m.entries.set e (now, entry.2) }.Settled oid src T := by
  rcases hm.entries_eq hentry with ⟨hentries, rfl⟩
  apply hm.raise le_rfl hm.le_reading
  · intro entry' hentry'
    rw [hentries] at hentry'
    cases List.mem_singleton.mp hentry'
    exact hm.stored entry (by simp [hentries])
  · simp [hentries]
  · intro hnone
    rw [hm.uncached hnone] at hentries
    cases hentries

/-- An answer from the table is at least every earlier answer. -/
theorem Settled.answer (hm : m.Settled oid src T) {e : Nat} {entry : ℚ × Table}
    (hentry : m.entries[e]? = some entry) (asked : Oid) :
    { m with answers := (asked, entry.2.get asked) :: m.answers }.Settled oid src T := by
  have hstored := hm.stored entry (List.mem_of_getElem? hentry)
  refine { hm with ascending := ?_, answered := ?_ }
  · apply List.pairwise_cons.mpr
    refine ⟨fun earlier hearlier hasked hoid n k hn hk => ?_, hm.ascending⟩
    simp only at hasked hn
    subst hasked
    rcases hm.answered earlier hearlier hoid _ hk with ⟨lo, hlo⟩
    exact (hstored _ hn).le hlo
  · intro a ha hoid b hb
    rcases List.mem_cons.mp ha with rfl | ha
    · simp only at hoid hb
      subst hoid
      exact ⟨T, hstored b hb⟩
    · exact hm.answered a ha hoid b hb

/-- One step of one worker preserves the invariant, and a step outside a build or a
refresh leaves what the others are allowed. -/
theorem Settled.advance {pf : Platform} {dev : Device} (hdev : ShownBy pf dev oid src)
    (hm : m.Settled oid src T) {act : Act} (hphase : m.Allows oid src T phase)
    (h : m.advance pf dev phase act = some (m', phase')) :
    ∃ T', m'.Settled oid src T' ∧ m'.Allows oid src T' phase' ∧
      (phase.busy = false → ∀ other, m.Allows oid src T other → m'.Allows oid src T' other) := by
  revert h
  -- the steps that only move the worker
  have hmove : ∀ phase', m.Allows oid src T phase' → ∃ T', m.Settled oid src T' ∧
      m.Allows oid src T' phase' ∧
        (phase.busy = false → ∀ other, m.Allows oid src T other → m.Allows oid src T' other) :=
    fun phase' hallows => ⟨T, hm, hallows, fun _ other hother => hother⟩
  fun_cases Memory.advance pf dev m phase act
  case case1 => rintro ⟨⟩; exact hmove _ trivial
  case case2 now hcache =>
      rintro ⟨⟩
      exact hmove _ ⟨hm.uncached hcache, fun hi _ => buildTable_ensures hdev T hi now⟩
  case case3 => rintro ⟨⟩; exact hmove _ trivial
  case case4 now op next raw =>
      rintro h
      rcases Option.map_eq_some_iff.mp h with ⟨⟨ans, shared⟩, hans, ⟨⟩⟩
      rcases hm.render hphase.2 hans with ⟨hsettled, hnext⟩
      exact ⟨T, hsettled, ⟨hphase.1, hnext⟩, fun hbusy => by cases hbusy⟩
  case case5 now t =>
      rintro ⟨⟩
      rcases hm.storeTable hphase.1 (hphase.2 _ le_rfl) now with ⟨T', hsettled⟩
      exact ⟨T', hsettled, trivial, fun hbusy => by cases hbusy⟩
  case case6 => rintro ⟨⟩; exact hmove _ trivial
  case case7 =>
      rintro h
      rcases Option.map_eq_some_iff.mp h with ⟨e, -, ⟨⟩⟩
      exact hmove _ trivial
  case case8 now e =>
      rintro h
      rcases Option.map_eq_some_iff.mp h with ⟨entry, -, ⟨⟩⟩
      apply hmove
      split
      · exact fun hi _ => (hdev _ now).2
      · trivial
  case case9 now e op next raw =>
      rintro h
      rcases Option.map_eq_some_iff.mp h with ⟨⟨ans, shared⟩, hans, ⟨⟩⟩
      rcases hm.render hphase hans with ⟨hsettled, hnext⟩
      exact ⟨T, hsettled, hnext, fun hbusy => by cases hbusy⟩
  case case10 now e row rows =>
      rintro h
      simp only [Option.bind_eq_bind, Option.bind_eq_some_iff, Option.some.injEq] at h
      rcases h with ⟨entry, hentry, t, ht, ⟨⟩⟩
      have hpatch : entry.2.patchRow row = .ok t := by
        cases hresult : entry.2.patchRow row with
        | error e => simp [hresult, Except.toOption] at ht
        | ok t' =>
            simp only [hresult, Except.toOption, Option.some.injEq] at ht
            rw [ht]
      rcases hm.storeRow hentry hpatch hphase with ⟨T', hsettled, hrows⟩
      exact ⟨T', hsettled, hrows, fun hbusy => by cases hbusy⟩
  case case11 now e =>
      rintro h
      rcases Option.map_eq_some_iff.mp h with ⟨entry, hentry, ⟨⟩⟩
      exact ⟨T, hm.stamp hentry now, trivial, fun hbusy => by cases hbusy⟩
  case case12 => rintro ⟨⟩; exact hmove _ trivial
  case case13 => rintro ⟨⟩; exact hmove _ trivial
  case case14 => rintro ⟨⟩
  case case15 e asked =>
      rintro h
      rcases Option.map_eq_some_iff.mp h with ⟨entry, hentry, ⟨⟩⟩
      refine ⟨T, hm.answer hentry asked, trivial, fun _ other hother => ?_⟩
      cases other <;> exact hother
  case case16 => rintro ⟨⟩; exact hmove _ trivial
  case case17 => rintro ⟨⟩

/-- A worker is busy after a step only if it was before, or starts by it. -/
theorem busy_of_advance {pf : Platform} {dev : Device} {act : Act}
    (h : m.advance pf dev phase act = some (m', phase')) (hbusy : phase'.busy = true) :
    phase.busy = true ∨ m.starts phase act = true := by
  revert h
  fun_cases Memory.advance pf dev m phase act
  case case1 => rintro ⟨⟩; cases hbusy
  case case2 now hcache => exact fun _ => Or.inr (by simp [starts, hcache])
  case case3 => rintro ⟨⟩; cases hbusy
  case case7 =>
      rintro h
      rcases Option.map_eq_some_iff.mp h with ⟨e, -, ⟨⟩⟩
      cases hbusy
  case case8 now e =>
      rintro h
      rcases Option.map_eq_some_iff.mp h with ⟨entry, hentry, ⟨⟩⟩
      by_cases hold : tableTtl ≤ now - entry.1
      · exact Or.inr (by simp [starts, hentry, hold])
      · rw [if_neg hold] at hbusy
        cases hbusy
  case case15 e asked =>
      rintro h
      rcases Option.map_eq_some_iff.mp h with ⟨entry, -, ⟨⟩⟩
      cases hbusy
  case case16 => rintro ⟨⟩; cases hbusy
  case case17 => rintro ⟨⟩
  all_goals exact fun _ => Or.inl rfl

end Memory

/-! ## Runs of the pool -/

namespace Responder

/-- The tables are settled, every worker keeps to its bounds, and at most one works
on a table. -/
structure Orderly (oid : Oid) (src : Source) (r : Responder) : Prop where
  settled : ∃ T, r.memory.Settled oid src T ∧ ∀ phase ∈ r.workers, r.memory.Allows oid src T phase
  alone : ∀ (w w' : Nat) (phase phase' : Phase), r.workers[w]? = some phase → r.workers[w']? = some phase' →
    phase.busy = true → phase'.busy = true → w = w'

variable {pf : Platform} {dev : Device} {oid : Oid} {src : Source} {r r' : Responder}

/-- A change of the shared state that leaves the counters and identities keeps the
invariant. -/
theorem Orderly.of_shared (hr : r.Orderly oid src) {shared : Shared}
    (hcounters : shared.counters = r.memory.shared.counters)
    (hident : shared.ident = r.memory.shared.ident) :
    { r with memory := { r.memory with shared := shared } }.Orderly oid src := by
  rcases hr.settled with ⟨T, hsettled, hallows⟩
  have hreading : src.reading shared = src.reading r.memory.shared := by
    cases src with
    | counter name => simp only [Source.reading, hcounters]
    | fixed value => rfl
  refine { hr with settled := ⟨T, ?_, fun phase hphase => ?_⟩ }
  · exact { hsettled with
      le_reading := hreading ▸ hsettled.le_reading
      ident := hident ▸ hsettled.ident }
  · have hphase := hallows phase hphase
    cases phase with
    | building now p => exact ⟨hphase.1, fun hi hhi => hphase.2 hi (hreading ▸ hhi)⟩
    | refreshing now e p => exact fun hi hhi => hphase hi (hreading ▸ hhi)
    | _ => exact trivial

/-- One transition whose starts are alone preserves the invariant. -/
theorem Orderly.step (hdev : Memory.ShownBy pf dev oid src) (hr : r.Orderly oid src) {l : Label}
    (h : Meeting (Graph (Responder.step pf dev)) Alone r l r') : r'.Orderly oid src := by
  rcases h with ⟨hstep, hcond⟩
  cases l with
  | clock d =>
      cases hstep
      exact hr.of_shared rfl rfl
  | toggle value =>
      cases hstep
      exact hr.of_shared rfl rfl
  | work w act =>
      simp only [Transition.Graph, Responder.step, Option.bind_eq_bind, Option.bind_eq_some_iff,
        Option.some.injEq] at hstep
      rcases hstep with ⟨phase, hphase, ⟨memory, phase'⟩, hadvance, rfl⟩
      rcases hr.settled with ⟨T, hsettled, hallows⟩
      rcases hsettled.advance hdev (hallows phase (List.mem_of_getElem? hphase)) hadvance with
        ⟨T', hsettled', hphase', hothers⟩
      -- a worker that is busy now leaves the others idle
      have hquiet : phase.busy = true ∨ phase'.busy = true → ∀ w' other, w' ≠ w →
          r.workers[w']? = some other → other.busy = false := by
        intro hbusy w' other hne hother
        have hwas : phase.busy = true ∨ r.memory.starts phase act = true :=
          hbusy.elim Or.inl (Memory.busy_of_advance hadvance)
        rcases hwas with hwas | hstarts
        · by_contra hnot
          exact hne (hr.alone w' w other phase hother hphase (by simpa using hnot) hwas)
        · exact hcond (by simp [hphase, hstarts]) other (List.mem_of_getElem? hother)
      have hset : ∀ w' other, (r.workers.set w phase')[w']? = some other →
          (w' = w ∧ other = phase') ∨ (w' ≠ w ∧ r.workers[w']? = some other) := by
        intro w' other hother
        rw [List.getElem?_set] at hother
        by_cases hw : w = w'
        · rw [if_pos hw] at hother
          split at hother
          · exact Or.inl ⟨hw.symm, (Option.some.inj hother).symm⟩
          · cases hother
        · rw [if_neg hw] at hother
          exact Or.inr ⟨Ne.symm hw, hother⟩
      constructor
      · refine ⟨T', hsettled', fun other hother => ?_⟩
        rcases List.mem_iff_getElem?.mp hother with ⟨w', hw'⟩
        rcases hset w' other hw' with ⟨-, rfl⟩ | ⟨hne, hother⟩
        · exact hphase'
        · by_cases hbusy : phase.busy = true
          · exact Memory.allows_of_not_busy (hquiet (Or.inl hbusy) w' other hne hother)
          · exact hothers (by simpa using hbusy) other (hallows other (List.mem_of_getElem? hother))
      · intro w₁ w₂ p₁ p₂ h₁ h₂ hbusy₁ hbusy₂
        rcases hset w₁ p₁ h₁ with ⟨rfl, rfl⟩ | ⟨hne₁, hwas₁⟩
        · rcases hset w₂ p₂ h₂ with ⟨rfl, -⟩ | ⟨hne₂, hwas₂⟩
          · rfl
          · rw [hquiet (Or.inr hbusy₁) w₂ p₂ hne₂ hwas₂] at hbusy₂
            cases hbusy₂
        · rcases hset w₂ p₂ h₂ with ⟨rfl, rfl⟩ | ⟨-, hwas₂⟩
          · rw [hquiet (Or.inr hbusy₂) w₁ p₁ hne₁ hwas₁] at hbusy₁
            cases hbusy₁
          · exact hr.alone w₁ w₂ p₁ p₂ hwas₁ hwas₂ hbusy₁ hbusy₂

/-- A freshly started pool is settled at the counter's current value. -/
theorem orderly_boot (oid : Oid) (src : Source) (n : Nat) (shared : Shared) :
    (boot n shared).Orderly oid src := by
  have hidle : ∀ phase ∈ (boot n shared).workers, phase.busy = false := by
    intro phase hphase
    rw [List.eq_of_mem_replicate hphase]
    rfl
  constructor
  · refine ⟨src.reading (boot n shared).memory.shared, ?_, fun phase hphase =>
      Memory.allows_of_not_busy (hidle phase hphase)⟩
    exact {
      le_reading := le_rfl
      ident := fun oid v hget => by simp [boot] at hget
      ascending := List.Pairwise.nil
      answered := fun a ha => by simp [boot] at ha
      stored := fun entry hentry => by simp [boot] at hentry
      single := by simp [boot]
      uncached := fun _ => rfl }
  · intro w w' phase phase' hphase _ hbusy _
    rw [hidle phase (List.mem_of_getElem? hphase)] at hbusy
    cases hbusy

/-- In every run of any number of workers in which a build or a refresh starts only
while no other worker is in one, the values answered under a 64-bit interface counter
OID of a steady device never decrease. -/
theorem ascending_of_alone (hsteady : dev.Steady) {column : Nat} {counter : String}
    (hcounter : hcCounter column = some counter) (index n : Nat) (shared : Shared)
    {ls : List Label} (hrun : Run (Meeting (Graph (step pf dev)) Alone) (boot n shared) ls r) :
    Ascending (hcOid column index) r.memory.answers := by
  rcases dev.exists_source pf hsteady hcounter index with ⟨src, hdev⟩
  have horderly := hrun.invariant (fun _ _ _ hs hstep => Orderly.step hdev hs hstep)
    (orderly_boot (hcOid column index) src n shared)
  rcases horderly.settled with ⟨T, hsettled, -⟩
  exact hsettled.ascending

/-! ## Two workers on one counter -/

/-- A walk of one 64-bit octet counter. -/
def octetsWalk : WalkFile where
  content := ".1.3.6.1.2.1.31.1.1.1.6.1 7776000000\n".toList
  numeric := by decide +kernel

theorem rows_octetsWalk :
    octetsWalk.rows = [(oidText (hcOid 6 1), "7776000000".toList)] := by
  decide +kernel

/-- An instance of that walk. -/
def uplink : ReplayDevice where
  short := "sw-01".toList
  location := "rack".toList
  file := octetsWalk
  model := ReplayModel.parsed octetsWalk.rows
  loaded := ReplayModel.ofRows_eq_parsed (by decide +kernel)
  short_plain := by decide
  location_plain := plain_rack

/-- Its state at the start: the counter at its recorded value. -/
def uplinkShared : Shared where
  now := 0
  counters _ := .still 7776000000 0
  incident := DeviceState.init 0
  oper _ := 1
  attrs _ _ := 1
  ident := .empty

/-- A worker builds the table and answers from it. -/
def firstPoll (w : Nat) : List Label :=
  [.work w .call, .work w .lookup, .work w (.render 0), .work w .store, .work w .fetch,
    .work w (.answer (hcOid 6 1)), .work w .finish]

/-- Two workers find the table too old; the one that samples first stores last. -/
def overlapping : List Label :=
  firstPoll 0 ++
    [.clock 20, .work 0 .call, .work 0 .lookup, .work 0 .compare, .work 1 .call, .work 1 .lookup,
      .work 1 .compare, .work 0 (.render 0), .clock 10, .work 1 (.render 0), .work 1 .store,
      .work 1 .stamp, .work 1 (.answer (hcOid 6 1)), .work 0 .store, .work 0 .stamp,
      .work 0 (.answer (hcOid 6 1))]

/-- The answer after the second store is smaller than the one after the first. -/
theorem not_ascending_two_refreshes : ∃ ls r,
    Run (Graph (step Platform.still (.replay uplink))) (boot 2 uplinkShared) ls r ∧
      ¬ Ascending (hcOid 6 1) r.memory.answers := by
  have hexec : ((execute (step Platform.still (.replay uplink)) (boot 2 uplinkShared)
      overlapping).map fun r => r.memory.answers) =
        some [(hcOid 6 1, some (numberTlv 7776014000)), (hcOid 6 1, some (numberTlv 7776021000)),
          (hcOid 6 1, some (numberTlv 7776000000))] := by
    decide +kernel
  rcases Option.map_eq_some_iff.mp hexec with ⟨r, hr, hanswers⟩
  refine ⟨overlapping, r, run_of_execute hr, fun hascending => ?_⟩
  rw [hanswers] at hascending
  have hle := (List.pairwise_cons.mp hascending).1 _ List.mem_cons_self rfl rfl _ _ rfl rfl
  omega

/-- A worker looks the old table up while another refreshes it, and compares its age
after the refresh. -/
def takingTurns : List Label :=
  firstPoll 0 ++
    [.clock 20, .work 1 .call, .work 1 .lookup, .work 1 .compare, .work 0 .call, .work 0 .lookup,
      .work 1 (.render 0), .clock 10, .work 1 .store, .work 1 .stamp,
      .work 1 (.answer (hcOid 6 1)), .work 0 .compare, .work 0 (.answer (hcOid 6 1))]

theorem ascending_of_alone_uplink :
    ∃ r, Run (Meeting (Graph (step Platform.still (.replay uplink))) Alone) (boot 2 uplinkShared)
        takingTurns r ∧ r.memory.answers.length = 3 ∧ Ascending (hcOid 6 1) r.memory.answers := by
  have hexec : ((execute (guarded (step Platform.still (.replay uplink)) Alone)
      (boot 2 uplinkShared) takingTurns).map fun r => r.memory.answers.length) = some 3 := by
    decide +kernel
  have hsteady : (Device.replay uplink).Steady := by
    constructor
    · refine ⟨[hcOid 6 1], ?_, List.nodup_singleton _⟩
      have hrows : uplink.file.rows.filter (·.1 ≠ []) =
          [(oidText (hcOid 6 1), "7776000000".toList)] := by
        rw [uplink, rows_octetsWalk]
        decide
      rw [hrows]
      exact .cons (parseOid_oidText _ _) .nil
    · intro row hrow
      rw [uplink, rows_octetsWalk] at hrow
      cases List.mem_singleton.mp hrow
      decide
  rcases Option.map_eq_some_iff.mp hexec with ⟨r, hr, hlength⟩
  have hrun := meeting_of_execute hr
  exact ⟨r, hrun, hlength, ascending_of_alone hsteady rfl 1 2 uplinkShared hrun⟩

end Responder

end Netsim
end DemoEstate
