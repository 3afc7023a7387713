import DemoEstate.Netsim.LineRate

/-!
# The counters of a walk in any order of its rows

What a model counts depends on the numbers of the rows under the places of counters, on the line
rates and on the recorded uptime, and not on the order of the rows or on their other values.

Main definitions:

- Definition {lit}`counterAt`: the counter at the place of an OID.
- Structure {lit}`SameNumbers`: two rows under one OID with the same numbers.
- Structure {lit}`CountsAlike`: two models with the same counters.

Main results:

- Theorem {lit}`ReplayModel.Counts.note_comm`: the order of two notes does not matter.
- Theorem {lit}`counts_ofRows`: the counters of a model, as notes of its rows.
- Theorem {lit}`countsAlike_of_perm`: rows with the same numbers, in any order, count alike.
-/

namespace DemoEstate
namespace Netsim

open Snmp (Oid Row)

/-! ## Notes -/

/-- The port whose octets a key counts. -/
def portOf (key : Text) : Option Text :=
  if "ifin.".toList.isPrefixOf key then some (key.drop 5)
  else if "ifout.".toList.isPrefixOf key then some (key.drop 6)
  else none

/-- A slot that samples a counter. -/
def Slot.isCounter (slot : Slot) : Bool :=
  slot.kind.isCounter

namespace ReplayModel

/-- What a model keeps of its counters. -/
@[ext]
structure Counts where
  seeds : Text → Option Nat
  rates : Text → Option ℚ≥0
  caps : Text → Option ℚ≥0

def counts (m : ReplayModel) : Counts where
  seeds := m.seeds.get
  rates := m.rates.get
  caps := m.caps.get

/-- The line rate for a key, zero if it has none. -/
def lineOf (m : ReplayModel) (key : Text) : Nat :=
  ((portOf key).map m.rateOf).getD 0

/-- The base rate of a recorded number. -/
def baseRate (line : Nat) (uptime : ℚ≥0) (recorded : Nat) : ℚ≥0 :=
  min (if line = 0 then 25000000 else 60 / 100 * (line : ℚ≥0) / 8) (recorded / uptime)

/-- Note a counter, for the line rate of its key and the recorded uptime. -/
def Counts.note (line : Text → Nat) (uptime : ℚ≥0) (c : Counts) (slot : Slot) : Counts where
  seeds := Function.update c.seeds slot.key
    (some (max ((c.seeds slot.key).getD 0) slot.recorded))
  rates := Function.update c.rates slot.key
    (some (max ((c.rates slot.key).getD 0) (baseRate (line slot.key) uptime slot.recorded)))
  caps :=
    if line slot.key = 0 then c.caps
    else Function.update c.caps slot.key (some (85 / 100 * (line slot.key : ℚ≥0) / 8))

section Notes

variable {m m' : ReplayModel} {line : Text → Nat} {uptime : ℚ≥0} {c : Counts} {slot slot' : Slot}

theorem update_max_comm {κ α : Type} [DecidableEq κ] [LinearOrder α] (f : κ → Option α) (d : α)
    (k k' : κ) (v v' : α) :
    Function.update (Function.update f k (some (max ((f k).getD d) v))) k'
        (some (max ((Function.update f k (some (max ((f k).getD d) v)) k').getD d) v')) =
      Function.update (Function.update f k' (some (max ((f k').getD d) v'))) k
        (some (max ((Function.update f k' (some (max ((f k').getD d) v')) k).getD d) v)) := by
  by_cases hkey : k = k'
  · subst hkey
    simp only [Function.update_self, Function.update_idem, Option.getD_some]
    rw [max_right_comm]
  · rw [Function.update_of_ne (Ne.symm hkey), Function.update_of_ne hkey,
      Function.update_comm hkey]

/-- The order of two notes does not matter. -/
theorem Counts.note_comm (line : Text → Nat) (uptime : ℚ≥0) (c : Counts) (slot slot' : Slot) :
    (c.note line uptime slot).note line uptime slot' =
      (c.note line uptime slot').note line uptime slot := by
  refine Counts.ext (update_max_comm c.seeds 0 _ _ _ _) (update_max_comm c.rates 0 _ _ _ _) ?_
  simp only [Counts.note]
  by_cases hkey : slot.key = slot'.key
  · rw [hkey]
  · split <;> split <;> first | rfl | exact Function.update_comm hkey _ _ _

theorem mem_octetKeys_of_portOf {key index : Text} (h : portOf key = some index) :
    key ∈ octetKeys index := by
  unfold portOf at h
  split at h
  · rename_i hin
    rcases List.isPrefixOf_iff_prefix.mp hin with ⟨rest, rfl⟩
    cases h
    exact List.mem_cons_self
  · split at h
    · rename_i hout
      rcases List.isPrefixOf_iff_prefix.mp hout with ⟨rest, rfl⟩
      cases h
      exact List.mem_cons_of_mem _ List.mem_cons_self
    · cases h

theorem isSome_portOf {key : Text} :
    (portOf key).isSome = true ↔
      "ifin.".toList.isPrefixOf key = true ∨ "ifout.".toList.isPrefixOf key = true := by
  unfold portOf
  split
  · rename_i hin
    exact iff_of_true rfl (Or.inl hin)
  · rename_i hin
    split
    · rename_i hout
      exact iff_of_true rfl (Or.inr hout)
    · rename_i hout
      exact iff_of_false Bool.false_ne_true (not_or.mpr ⟨hin, hout⟩)

/-- The line rate with which a counter is noted. -/
def noteLine (m : ReplayModel) (key : Text) : Option Text → Nat
  | some index =>
      if "ifin.".toList.isPrefixOf key ∨ "ifout.".toList.isPrefixOf key then m.rateOf index else 0
  | none => 0

/-- A counter of a place is noted with the line rate of its key. -/
theorem noteLine_eq {oid key : Text} {kind : Kind} {ifIndex : Option Text}
    (hplace : CounterPlace oid kind key ifIndex) : m.noteLine key ifIndex = m.lineOf key := by
  rw [lineOf]
  cases hindex : portOf key with
  | some index =>
      rw [hplace.ifIndex_eq (mem_octetKeys_of_portOf hindex)]
      exact if_pos (isSome_portOf.mp (by rw [hindex]; rfl))
  | none =>
      have hno := mt isSome_portOf.mpr (by rw [hindex]; exact Bool.false_ne_true)
      cases ifIndex with
      | some index => exact if_neg hno
      | none => rfl

/-- Noting a counter of a place. -/
theorem counts_noteCounter {oid key : Text} {kind : Kind} {ifIndex : Option Text} {n : Nat}
    (hplace : CounterPlace oid kind key ifIndex) :
    (m.noteCounter key n ifIndex).counts =
      m.counts.note m.lineOf m.uptimeRec ⟨kind, oid, key, n⟩ := by
  have hnote : m.noteCounter key n ifIndex =
      { m with
        seeds := m.seeds.set key (max ((m.seeds.get key).getD 0) n)
        caps := if m.noteLine key ifIndex = 0 then m.caps
          else m.caps.set key (85 / 100 * (m.noteLine key ifIndex : ℚ≥0) / 8)
        rates := m.rates.set key
          ((m.rates.get key).elim (baseRate (m.noteLine key ifIndex) m.uptimeRec n)
            (max · (baseRate (m.noteLine key ifIndex) m.uptimeRec n))) } := by
    unfold noteCounter
    cases m.rates.get key <;> cases ifIndex <;> rfl
  rw [hnote, noteLine_eq hplace]
  apply Counts.ext
  · funext k
    simp only [counts, Counts.note, Dict.get_set, Function.update_apply, eq_comm]
  · funext k
    simp only [counts, Counts.note, Dict.get_set, Function.update_apply, eq_comm]
    split
    · cases m.rates.get key with
      | none => simp
      | some prev => rfl
    · rfl
  · funext k
    simp only [counts, Counts.note]
    split
    · rfl
    · simp only [Dict.get_set, Function.update_apply, eq_comm]

end Notes

/-! ## The counter of a row -/

/-- The counter at the place of an OID, for the number recorded there. -/
def counterAt (oid : Text) (number : Option Nat) : Option Slot :=
  ((empty.ucdCounter oid number <|> empty.tableSlot oid number).map Prod.snd).filter
    Slot.isCounter

/-- No counter stands under the OID. -/
def OffCounters (oid : Text) : Prop :=
  ∀ p ∈ [ucdPrefix, ifTablePrefix, ifXTablePrefix, pagesPrefix], behind p oid = none

instance (oid : Text) : Decidable (OffCounters oid) :=
  inferInstanceAs (Decidable (∀ p ∈ [ucdPrefix, ifTablePrefix, ifXTablePrefix, pagesPrefix],
    behind p oid = none))

section CounterAt

variable {m m' : ReplayModel} {row : Row} {oid value : Text} {number : Option Nat}
  {out : Option Slot}

theorem map_ucdCounter (m : ReplayModel) (oid : Text) (number : Option Nat) :
    (m.ucdCounter oid number).map Prod.snd = (empty.ucdCounter oid number).map Prod.snd := by
  unfold ucdCounter
  split
  · split <;> rfl
  · rfl

theorem map_ifCounter (m : ReplayModel) (kind : Kind) (columns : List (Text × Text)) (oid : Text)
    (number : Option Nat) :
    (m.ifCounter kind columns oid number).map Prod.snd =
      (empty.ifCounter kind columns oid number).map Prod.snd := by
  unfold ifCounter
  split <;> rfl

theorem map_tableSlot (m : ReplayModel) (oid : Text) (number : Option Nat) :
    (m.tableSlot oid number).map Prod.snd = (empty.tableSlot oid number).map Prod.snd := by
  unfold tableSlot
  simp only [Option.orElse_eq_orElse, Option.orElse_eq_or, Option.map_or]
  congr 1
  · split
    · exact map_ifCounter m _ _ _ _
    · rfl
  congr 1
  · split
    · exact map_ifCounter m _ _ _ _
    · rfl
  congr 1
  · split <;> rfl
  · split <;> rfl

theorem counterAt_none (oid : Text) : counterAt oid none = none := by
  simp [counterAt, ucdCounter, tableSlot, ifCounter]

theorem counterAt_of_off (h : OffCounters oid) (number : Option Nat) :
    counterAt oid number = none := by
  have hucd : behind ucdPrefix oid = none := h _ (by simp)
  have h32 : behind ifTablePrefix oid = none := h _ (by simp)
  have hhc : behind ifXTablePrefix oid = none := h _ (by simp)
  have hpages : behind pagesPrefix oid = none := h _ (by simp)
  simp only [counterAt, ucdCounter, tableSlot, hucd, h32, hhc, hpages]
  cases behind hrcpuPrefix oid <;> cases number <;> rfl

/-- Two prefixes of which neither goes on to the other share no OID. -/
theorem behind_none_of_apart {p : Text} {q : Oid} (h : p <+: oid)
    (happart : ¬ p <+: oidText q ++ ['.'] ∧ ¬ oidText q ++ ['.'] <+: p) : behind q oid = none := by
  by_contra hne
  rcases Option.ne_none_iff_exists'.mp hne with ⟨rest, hrest⟩
  have hq : oidText q ++ ['.'] <+: oid := ⟨rest, by rw [behind_eq_some hrest]; simp⟩
  rcases List.prefix_or_prefix_of_prefix h hq with hle | hle
  · exact happart.1 hle
  · exact happart.2 hle

theorem prefix_of_behind {p : Oid} (h : (behind p oid).isSome = true) :
    oidText p ++ ['.'] <+: oid := by
  rcases Option.isSome_iff_exists.mp h with ⟨rest, hrest⟩
  exact ⟨rest, by rw [behind_eq_some hrest]; simp⟩

/-- Neither prefix goes on to the other, for the prefixes of all counters. -/
def Apart (p : Text) : Prop :=
  ∀ q ∈ [ucdPrefix, ifTablePrefix, ifXTablePrefix, pagesPrefix],
    ¬ p <+: oidText q ++ ['.'] ∧ ¬ oidText q ++ ['.'] <+: p

instance (p : Text) : Decidable (Apart p) :=
  inferInstanceAs (Decidable (∀ q ∈ [ucdPrefix, ifTablePrefix, ifXTablePrefix, pagesPrefix],
    ¬ p <+: oidText q ++ ['.'] ∧ ¬ oidText q ++ ['.'] <+: p))

theorem offCounters_of_isPrefix {p : Text} (h : p <+: oid) (happart : Apart p) : OffCounters oid :=
  fun q hq => behind_none_of_apart h (happart q hq)

/-- A quoted value is no number. -/
theorem intOf_of_parseHexValue (h : (parseHexValue value).isSome = true) :
    Text.intOf value = none := by
  unfold parseHexValue at h
  dsimp only at h
  split at h
  · rename_i hquoted
    have hmem : '"' ∈ value := mem_of_mem_strip (List.mem_of_mem_head? hquoted.2.1)
    unfold Text.intOf
    rw [if_neg]
    rintro ⟨-, hall⟩
    exact absurd (List.all_eq_true.mp hall _ hmem) (by decide)
  · cases h

/-- The row of a hardware identity is no counter. -/
theorem counterAt_of_identity {slot : Slot} (h : m.identitySlot oid value = some (m', slot)) :
    counterAt oid (Text.intOf value) = none ∧ slot.isCounter = false := by
  unfold identitySlot at h
  dsimp only at h
  split at h
  · rename_i hmac
    cases h
    have hsome : (parseHexValue value).isSome = true := by
      rw [← Option.isSome_map (f := List.length), hmac.2]
      rfl
    rw [intOf_of_parseHexValue hsome]
    exact ⟨counterAt_none oid, rfl⟩
  split at h
  · rename_i hserial
    cases h
    have happart : Apart (oidText entSerialPrefix ++ ['.']) := by decide
    have hoff := offCounters_of_isPrefix (prefix_of_behind hserial.1) happart
    exact ⟨counterAt_of_off hoff _, rfl⟩
  split at h
  · rename_i htag
    cases h
    rcases List.any_eq_true.mp htag.1 with ⟨p, hp, hbehind⟩
    have happart : ∀ p ∈ dellSvctagPrefixes, Apart (oidText p ++ ['.']) := by decide
    exact ⟨counterAt_of_off (offCounters_of_isPrefix (prefix_of_behind hbehind) (happart p hp)) _,
      rfl⟩
  split at h
  · rename_i hcode
    cases h
    exact ⟨counterAt_of_off (offCounters_of_isPrefix (prefix_of_behind hcode.1) (by decide)) _, rfl⟩
  · cases h

/-- The counter of a row, if it is one: it does not depend on the rows before. -/
def counterOf (row : Row) : Option Slot :=
  counterAt row.1 (Text.intOf row.2)

/-- A row is classified as its counter, if it is one. -/
theorem counter_of_classify (h : m.classify row.1 row.2 = .ok (m', out)) :
    out.filter Slot.isCounter = counterOf row := by
  have hfixed : ∀ oid ∈ [sysNameOid, sysLocationOid, uptimeOid, hruptimeOid, hpCpuOid,
      apcDiagDateOid], OffCounters oid := by decide
  have hoff : row.1 ∈ [sysNameOid, sysLocationOid, uptimeOid, hruptimeOid, hpCpuOid,
      apcDiagDateOid] → counterOf row = none :=
    fun hmem => counterAt_of_off (hfixed _ hmem) _
  unfold classify at h
  dsimp only at h
  split at h
  · rename_i hname
    cases h
    rw [hoff (by simp [hname])]
    rfl
  split at h
  · rename_i hlocation
    cases h
    rw [hoff (by simp [hlocation])]
    rfl
  split at h
  · rename_i huptime
    cases hticks : ticks row.2 with
    | error e => simp [hticks, bind, Except.bind] at h
    | ok t =>
        simp only [hticks, bind, Except.bind, pure, Except.pure, Except.ok.injEq,
          Prod.mk.injEq] at h
        rcases h with ⟨rfl, rfl⟩
        rw [hoff (by rcases huptime with huptime | huptime <;> simp [huptime])]
        rfl
  · split at h
    · rename_i m'' slot hslot
      simp only [pure, Except.pure, Except.ok.injEq, Prod.mk.injEq] at h
      rcases h with ⟨rfl, rfl⟩
      simp only [Option.orElse_eq_orElse, Option.orElse_eq_or, Option.or_eq_some_iff] at hslot
      rcases hslot with h | ⟨-, h | ⟨hucd, h | ⟨-, h | ⟨-, h⟩⟩⟩⟩
      · split at h
        · split at h
          · rename_i hhp
            cases h
            rw [hoff (by simp [hhp])]
            rfl
          · cases h
        · cases h
      · have hmap := map_ucdCounter m row.1 (Text.intOf row.2)
        rw [h, Option.map_some] at hmap
        rw [counterOf, counterAt, Option.orElse_eq_orElse, Option.orElse_eq_or, Option.map_or,
          ← hmap, Option.some_or]
      · split at h
        · rename_i hapc
          cases h
          rw [hoff (by simp [hapc])]
          rfl
        · cases h
      · rcases counterAt_of_identity h with ⟨hnone, hkind⟩
        rw [counterOf, hnone, Option.filter_some_neg hkind]
      · have hmap := map_ucdCounter m row.1 (Text.intOf row.2)
        have hmap' := map_tableSlot m row.1 (Text.intOf row.2)
        rw [hucd, Option.map_none] at hmap
        rw [h, Option.map_some] at hmap'
        rw [counterOf, counterAt, Option.orElse_eq_orElse, Option.orElse_eq_or, Option.map_or,
          ← hmap, Option.none_or, ← hmap']
    · rename_i hslot
      simp only [pure, Except.pure, Except.ok.injEq, Prod.mk.injEq] at h
      rcases h with ⟨rfl, rfl⟩
      simp only [Option.orElse_eq_orElse, Option.orElse_eq_or, Option.or_eq_none_iff] at hslot
      have hmap := map_ucdCounter m row.1 (Text.intOf row.2)
      have hmap' := map_tableSlot m row.1 (Text.intOf row.2)
      rw [hslot.2.1, Option.map_none] at hmap
      rw [hslot.2.2.2.2, Option.map_none] at hmap'
      rw [counterOf, counterAt, Option.orElse_eq_orElse, Option.orElse_eq_or, Option.map_or,
        ← hmap, ← hmap']
      rfl

/-- What a row changes: its counter, if it is one, is noted. -/
theorem counts_of_classify (h : m.classify row.1 row.2 = .ok (m', out)) :
    m'.lineOf = m.lineOf ∧ m'.uptimeRec = m.uptimeRec ∧
      m'.counts = (counterOf row).toList.foldl (Counts.note m.lineOf m.uptimeRec) m.counts := by
  rw [← counter_of_classify h]
  cases classification_of_classify h with
  | static => exact ⟨rfl, rfl, rfl⟩
  | plain _ _ hcounter =>
      rw [Option.filter_some_neg (show Slot.isCounter _ = false from hcounter)]
      exact ⟨rfl, rfl, rfl⟩
  | counter hplace =>
      rw [Option.filter_some_pos (by cases hplace <;> rfl)]
      exact ⟨rfl, rfl, counts_noteCounter hplace⟩
  | hardware hkind =>
      rw [Option.filter_some_neg (by rcases hkind with rfl | rfl <;> rfl)]
      exact ⟨rfl, rfl, rfl⟩
  | tag | code => exact ⟨rfl, rfl, rfl⟩

end CounterAt

/-! ## The counters of a walk -/

section Rows

variable {m m₀ m' : ReplayModel} {row : Row} {rows rows' : List Row}

/-- The counter slots of some pieces are the counters of their rows. -/
theorem Classifies.counter_slots {pieces : List Piece} (h : Classifies m pieces m') :
    (pieces.filterMap Piece.slot).filter Slot.isCounter =
      (pieces.map Piece.row).filterMap counterOf := by
  rw [List.filter_filterMap, List.filterMap_map]
  apply List.filterMap_congr
  intro piece hpiece
  rcases h.exists_classify hpiece with ⟨m₀, m₁, hrow⟩
  exact counter_of_classify hrow

/-- The counters of some rows are noted one after the other. -/
theorem Classifies.counts {pieces : List Piece} (h : Classifies m pieces m') :
    m'.lineOf = m.lineOf ∧ m'.uptimeRec = m.uptimeRec ∧
      m'.counts = ((pieces.map Piece.row).filterMap counterOf).foldl
        (Counts.note m.lineOf m.uptimeRec) m.counts := by
  induction h with
  | nil m segments => exact ⟨rfl, rfl, rfl⟩
  | @cons m m₁ m' piece pieces segments hrow hrest ih =>
      rcases ih with ⟨hline, huptime, hcounts⟩
      rcases counts_of_classify hrow with ⟨hline₁, huptime₁, hcounts₁⟩
      have hlines : lineOf { m₁ with segments := segments } = m.lineOf := hline₁
      have hrec : ReplayModel.uptimeRec { m₁ with segments := segments } = m.uptimeRec := huptime₁
      have hstart : ReplayModel.counts { m₁ with segments := segments } =
          (counterOf piece.row).toList.foldl (Counts.note m.lineOf m.uptimeRec) m.counts := hcounts₁
      refine ⟨hline.trans hlines, huptime.trans hrec, ?_⟩
      rw [hcounts, hstart, hlines, hrec, ← List.foldl_append, List.map_cons]
      cases hcounter : counterOf piece.row with
      | none => rw [List.filterMap_cons_none hcounter, Option.toList_none, List.nil_append]
      | some slot =>
          rw [List.filterMap_cons_some hcounter, Option.toList_some, List.singleton_append]

/-- The counters of a model are those of its rows, noted one after the other. -/
theorem counts_ofRows (h : ofRows rows = .ok m) :
    (slots m.segments).filter Slot.isCounter = rows.filterMap counterOf ∧
      m.counts = (rows.filterMap counterOf).foldl (Counts.note m.lineOf m.uptimeRec)
        empty.counts := by
  rcases ofRows_classifies h with ⟨m₀, pieces, hm₀, rfl, hsegments, hclassifies⟩
  rcases hclassifies.counts with ⟨hline, huptime, hcounts⟩
  rcases scan_finds hm₀ with ⟨linerate, uptimeRec, rfl⟩
  constructor
  · rw [hsegments, slots_joinFrom]
    exact hclassifies.counter_slots
  · rw [hcounts, hline, huptime]
    rfl

theorem uptime_of_scan {m m' : ReplayModel} (h : rows.foldlM scanRow m = .ok m') :
    ((∀ row ∈ rows, row.1 ≠ uptimeOid) ∧ m'.uptimeRec = m.uptimeRec) ∨
      ∃ row ∈ rows, row.1 = uptimeOid ∧ ∃ t, ticks row.2 = .ok t ∧
        m'.uptimeRec = max (7 * 86400) ((t : ℚ≥0) / 100) := by
  induction rows generalizing m with
  | nil =>
      cases h
      exact Or.inl ⟨fun _ hrow => absurd hrow List.not_mem_nil, rfl⟩
  | cons row rows ih =>
      simp only [List.foldlM_cons, bind, Except.bind] at h
      split at h
      · cases h
      · rename_i m₁ hrow
        rcases ih h with ⟨hnone, huptime⟩ | ⟨row', hmem, hrest⟩
        · by_cases hup : row.1 = uptimeOid
          · right
            refine ⟨row, List.mem_cons_self, hup, ?_⟩
            unfold scanRow at hrow
            simp only [hup, if_true] at hrow
            cases hticks : ticks row.2 with
            | error e => simp [hticks, bind, Except.bind] at hrow
            | ok t =>
                simp only [hticks, bind, Except.bind, pure, Except.pure, Except.ok.injEq] at hrow
                refine ⟨t, rfl, ?_⟩
                rw [huptime, ← hrow]
          · left
            refine ⟨List.forall_mem_cons.mpr ⟨hup, hnone⟩, huptime.trans ?_⟩
            unfold scanRow at hrow
            simp only [hup, if_false] at hrow
            split at hrow
            · cases hrow
              rfl
            · split at hrow
              · cases hrow
                split <;> rfl
              · cases hrow
                rfl
        · exact Or.inr ⟨row', List.mem_cons_of_mem _ hmem, hrest⟩

/-- The recorded uptime of a model, if the walk has one row for it at most. -/
theorem uptime_ofRows (h : ofRows rows = .ok m) :
    ((∀ row ∈ rows, row.1 ≠ uptimeOid) ∧ m.uptimeRec = 90 * 86400) ∨
      ∃ row ∈ rows, row.1 = uptimeOid ∧ ∃ t, ticks row.2 = .ok t ∧
        m.uptimeRec = max (7 * 86400) ((t : ℚ≥0) / 100) := by
  rcases ofRows_classifies h with ⟨m₀, pieces, hm₀, hpieces, -, hclassifies⟩
  rw [hclassifies.counts.2.1]
  exact uptime_of_scan hm₀

/-- The time of a row can be read, if it is one. -/
def Timed (row : Row) : Prop :=
  row.1 = uptimeOid ∨ row.1 = hruptimeOid → ∃ t, ticks row.2 = .ok t

theorem exists_scan (h : ∀ row ∈ rows, Timed row) (m : ReplayModel) :
    ∃ m', rows.foldlM scanRow m = .ok m' := by
  induction rows generalizing m with
  | nil => exact ⟨m, rfl⟩
  | cons row rows ih =>
      have hrow : ∃ m₁, m.scanRow row = .ok m₁ := by
        unfold scanRow
        dsimp only
        split
        · rename_i hup
          rcases h row List.mem_cons_self (Or.inl hup) with ⟨t, ht⟩
          rw [ht]
          exact ⟨_, rfl⟩
        · split
          · exact ⟨_, rfl⟩
          · split <;> exact ⟨_, rfl⟩
      rcases hrow with ⟨m₁, hm₁⟩
      rcases ih (fun row' hrow' => h row' (List.mem_cons_of_mem _ hrow')) m₁ with ⟨m', hm'⟩
      exact ⟨m', by rw [List.foldlM_cons, hm₁]; exact hm'⟩

theorem exists_classify (h : Timed row) (m : ReplayModel) :
    ∃ out, m.classify row.1 row.2 = .ok out := by
  unfold classify
  dsimp only
  split
  · exact ⟨_, rfl⟩
  split
  · exact ⟨_, rfl⟩
  split
  · rename_i hup
    rcases h hup with ⟨t, ht⟩
    rw [ht]
    exact ⟨_, rfl⟩
  · split <;> exact ⟨_, rfl⟩

theorem exists_addRows (h : ∀ row ∈ rows, Timed row) (static : Text) (m : ReplayModel) :
    ∃ m', addRows rows static m = .ok m' := by
  induction rows generalizing static m with
  | nil => exact ⟨_, rfl⟩
  | cons row rows ih =>
      rcases exists_classify (h row List.mem_cons_self) m with ⟨⟨m₁, out⟩, hrow⟩
      have hrest := fun static m => ih (fun row' hrow' => h row' (List.mem_cons_of_mem _ hrow'))
        static m
      simp only [addRows, hrow, bind, Except.bind]
      cases out with
      | none => exact hrest _ _
      | some slot => exact hrest _ _

/-- A walk is parsed exactly if its times can be read. -/
theorem exists_ofRows_iff : (∃ m, ofRows rows = .ok m) ↔ ∀ row ∈ rows, Timed row := by
  constructor
  · rintro ⟨m, h⟩ row hrow hup
    rcases ofRows_classifies h with ⟨m₀, pieces, -, rfl, -, hclassifies⟩
    rcases List.mem_map.mp hrow with ⟨piece, hpiece, rfl⟩
    rcases hclassifies.exists_classify hpiece with ⟨m₁, m₂, hclass⟩
    have hfixed : ∀ oid ∈ [uptimeOid, hruptimeOid], oid ≠ sysNameOid ∧ oid ≠ sysLocationOid := by
      decide
    have hne := hfixed piece.row.1 (by rcases hup with hup | hup <;> simp [hup])
    unfold classify at hclass
    simp only [hne, hup, if_true, if_false] at hclass
    cases hticks : ticks piece.row.2 with
    | error e => simp [hticks, bind, Except.bind] at hclass
    | ok t => exact ⟨t, rfl⟩
  · intro h
    rcases exists_scan h empty with ⟨m₀, hm₀⟩
    rcases exists_addRows h [] m₀ with ⟨m, hm⟩
    exact ⟨m, by simp only [ofRows, hm₀, bind, Except.bind, hm]⟩

/-! ## Other rows with the same numbers -/

/-- Two rows under one OID, with the same counter, the same line rate and the same time. -/
structure SameNumbers (row row' : Row) : Prop where
  oid_eq : row'.1 = row.1
  counter_eq : counterOf row' = counterOf row
  stated_eq : statedRate row' = statedRate row
  time_eq : row.1 = uptimeOid ∨ row.1 = hruptimeOid → row'.2 = row.2

/-- Two models with the same counters, line rates and recorded uptime. -/
structure CountsAlike (m m' : ReplayModel) : Prop where
  counts_eq : m'.counts = m.counts
  rateOf_eq : m'.rateOf = m.rateOf
  uptimeRec_eq : m'.uptimeRec = m.uptimeRec
  slots_perm : ((slots m'.segments).filter Slot.isCounter).Perm
    ((slots m.segments).filter Slot.isCounter)

theorem largest_perm {rates rates' : List (Text × Nat)} (h : rates'.Perm rates) (index : Text) :
    largest rates' index = largest rates index := by
  refine h.foldr_eq' (fun x _ y _ rest => ?_) 0
  split <;> split <;> first | rfl | exact max_left_comm _ _ _

theorem filterMap_map_eq {α : Type} {f : Row → Row} {g : Row → Option α}
    (h : ∀ row ∈ rows, g (f row) = g row) : (rows.map f).filterMap g = rows.filterMap g := by
  rw [List.filterMap_map]
  exact List.filterMap_congr h

theorem uptimeRec_eq_of_perm {f : Row → Row} (hf : ∀ row ∈ rows, SameNumbers row (f row))
    (hperm : rows'.Perm (rows.map f)) (hnodup : (rows.map Prod.fst).Nodup) (h : ofRows rows = .ok m)
    (h' : ofRows rows' = .ok m') : m'.uptimeRec = m.uptimeRec := by
  have hback : ∀ row' ∈ rows', ∃ row ∈ rows, row'.1 = row.1 ∧
      (row.1 = uptimeOid → row'.2 = row.2) := by
    intro row' hrow'
    rcases List.mem_map.mp (hperm.subset hrow') with ⟨row, hrow, rfl⟩
    exact ⟨row, hrow, (hf row hrow).oid_eq, fun hup => (hf row hrow).time_eq (Or.inl hup)⟩
  rcases uptime_ofRows h with ⟨hnone, hrec⟩ | ⟨row, hrow, hup, t, ht, hrec⟩
  · rcases uptime_ofRows h' with ⟨-, hrec'⟩ | ⟨row', hrow', hup', -⟩
    · rw [hrec, hrec']
    · rcases hback row' hrow' with ⟨row, hrow, hoid, -⟩
      exact absurd (hoid.symm.trans hup') (hnone row hrow)
  · rcases uptime_ofRows h' with ⟨hnone', -⟩ | ⟨row', hrow', hup', t', ht', hrec'⟩
    · have hmem : f row ∈ rows' := hperm.symm.subset (List.mem_map_of_mem hrow)
      exact absurd ((hf row hrow).oid_eq.trans hup) (hnone' _ hmem)
    · rcases hback row' hrow' with ⟨row₁, hrow₁, hoid, hvalue⟩
      -- the walk has one row for the uptime
      have hsame : row₁ = row :=
        List.inj_on_of_nodup_map hnodup hrow₁ hrow ((hoid.symm.trans hup').trans hup.symm)
      rw [hvalue (hoid.symm.trans hup'), hsame, ht, Except.ok.injEq] at ht'
      rw [hrec, hrec', ht']

/-- Rows with the same numbers, in any order, count alike. -/
theorem countsAlike_of_perm {f : Row → Row} (hf : ∀ row ∈ rows, SameNumbers row (f row))
    (hperm : rows'.Perm (rows.map f)) (hnodup : (rows.map Prod.fst).Nodup)
    (h : ofRows rows = .ok m) : ∃ m', ofRows rows' = .ok m' ∧ CountsAlike m m' := by
  have htimed : ∀ row' ∈ rows', Timed row' := by
    intro row' hrow' hup
    rcases List.mem_map.mp (hperm.subset hrow') with ⟨row, hrow, rfl⟩
    rw [(hf row hrow).oid_eq] at hup
    rw [(hf row hrow).time_eq hup]
    exact exists_ofRows_iff.mp ⟨m, h⟩ row hrow hup
  rcases exists_ofRows_iff.mpr htimed with ⟨m', h'⟩
  rcases counts_ofRows h with ⟨hslots, hcounts⟩
  rcases counts_ofRows h' with ⟨hslots', hcounts'⟩
  have huptime := uptimeRec_eq_of_perm hf hperm hnodup h h'
  have hrate : m'.rateOf = m.rateOf := by
    funext index
    rw [(capped_ofRows h').2, (capped_ofRows h).2, largest_perm (hperm.filterMap _),
      filterMap_map_eq fun row hrow => (hf row hrow).stated_eq]
  have hline : m'.lineOf = m.lineOf := by
    funext key
    rw [lineOf, lineOf, hrate]
  have hcounters : (rows'.filterMap counterOf).Perm (rows.filterMap counterOf) := by
    have hsame := filterMap_map_eq fun row hrow => (hf row hrow).counter_eq
    exact hsame ▸ hperm.filterMap counterOf
  refine ⟨m', h', ?_, hrate, huptime, ?_⟩
  · rw [hcounts', hcounts, hline, huptime]
    exact hcounters.foldl_eq' (fun x _ y _ c => Counts.note_comm _ _ c x y) _
  · rw [hslots', hslots]
    exact hcounters

end Rows

end ReplayModel

end Netsim
end DemoEstate
