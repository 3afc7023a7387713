import DemoEstate.Netsim.ReplayModel

/-!
# The line rates of a recorded walk

A walk states the rates of its ports in megabits and in bits, and the model of the walk caps the
octet counters of each port at the largest of them.

Main definitions:

- Definition {lit}`lineRate`: the line rate a walk carries for a port.
- Structure {lit}`ReplayModel.Capped`: what a model notes with an octet counter.

Main results:

- Theorem {lit}`ReplayModel.scan_rateOf`: the line rates found by the first pass.
- Theorem {lit}`ReplayModel.capped_ofRows`: the caps of a parsed walk.
-/

namespace DemoEstate
namespace Netsim

open Snmp (Row)

/-! ## The line rates of a walk -/

/-- The largest of the rates of a port, zero if it has none. -/
def largest (rates : List (Text × Nat)) (index : Text) : Nat :=
  rates.foldr (fun rate rest => if rate.1 = index then max rate.2 rest else rest) 0

/-- The line rate a row states: megabits, or bits below the value that refers to the megabits. -/
def statedRate (row : Row) : Option (Text × Nat) :=
  match behind ifhighspeedPrefix row.1, behind ifspeedPrefix row.1,
      Text.intOf (Text.strip Text.isSpace row.2) with
  | some _, _, some v => some (lastArc row.1, v * 1000000)
  | none, some _, some v => if 0 < v ∧ v < 2 ^ 32 - 1 then some (lastArc row.1, v) else none
  | _, _, _ => none

/-- The bits a row states that are too many for their column. -/
def saturatedRate (row : Row) : Option (Text × Nat) :=
  match behind ifspeedPrefix row.1, Text.intOf (Text.strip Text.isSpace row.2) with
  | some _, some v => if 2 ^ 32 - 1 ≤ v then some (lastArc row.1, v) else none
  | _, _ => none

/-- The line rate a walk carries for a port, zero if it carries none: the largest rate stated,
and a saturated one where there is no other. -/
def lineRate (rows : List Row) (index : Text) : Nat :=
  if largest (rows.filterMap statedRate) index = 0 then largest (rows.filterMap saturatedRate) index
  else largest (rows.filterMap statedRate) index

/-- A saturated rate fills its column. -/
theorem le_largest_saturatedRate (rows : List Row) (index : Text)
    (h : 0 < largest (rows.filterMap saturatedRate) index) :
    2 ^ 32 - 1 ≤ largest (rows.filterMap saturatedRate) index := by
  have hrates : ∀ rate ∈ rows.filterMap saturatedRate, 2 ^ 32 - 1 ≤ rate.2 := by
    intro rate hrate
    obtain ⟨row, -, hrow⟩ := List.mem_filterMap.mp hrate
    unfold saturatedRate at hrow
    split at hrow
    · split at hrow
      · rename_i hfull
        cases hrow
        exact hfull
      · cases hrow
    · cases hrow
  generalize rows.filterMap saturatedRate = rates at h hrates
  induction rates with
  | nil => exact absurd h (lt_irrefl 0)
  | cons rate rates ih =>
      simp only [largest, List.foldr_cons] at h ⊢
      split
      · exact (hrates rate List.mem_cons_self).trans (le_max_left _ _)
      · rename_i hother
        rw [if_neg hother] at h
        exact ih h fun rate' hrate' => hrates rate' (List.mem_cons_of_mem _ hrate')

namespace ReplayModel

/-- The line rate a model has for a port, zero if it has none. -/
def rateOf (m : ReplayModel) (index : Text) : Nat :=
  (m.linerate.get index).getD 0

theorem scanRow_rateOf {m m' : ReplayModel} {row : Row} (h : m.scanRow row = .ok m')
    (index : Text) :
    m'.rateOf index = max (m.rateOf index) (largest (statedRate row).toList index) := by
  have hset : ∀ v, rateOf { m with
        linerate := m.linerate.set (lastArc row.1)
          (max ((m.linerate.get (lastArc row.1)).getD 0) v) } index =
      max (m.rateOf index) (if lastArc row.1 = index then max v 0 else 0) := by
    intro v
    simp only [rateOf, Dict.get_set]
    by_cases hindex : lastArc row.1 = index
    · simp [hindex]
    · simp [hindex]
  have huptime : behind ifhighspeedPrefix uptimeOid = none ∧ behind ifspeedPrefix uptimeOid = none := by
    decide
  unfold scanRow at h
  simp only at h
  split at h
  · rename_i hup
    cases hticks : ticks row.2 with
    | error e => simp [hticks, bind, Except.bind] at h
    | ok t =>
        simp only [hticks, bind, Except.bind, pure, Except.pure, Except.ok.injEq] at h
        simp [← h, rateOf, statedRate, hup, huptime, largest]
  split at h
  · rename_i hhigh hnumber
    cases h
    rw [hset]
    simp [statedRate, hhigh, hnumber, largest]
  · rename_i hno
    split at h
    · rename_i hspeed hnumber
      have hhigh : behind ifhighspeedPrefix row.1 = none := by
        cases hb : behind ifhighspeedPrefix row.1 with
        | none => rfl
        | some rest => exact absurd hnumber (hno rest _ hb)
      cases h
      rename_i v
      have hstated : statedRate row =
          if 0 < v ∧ v < 2 ^ 32 - 1 then some (lastArc row.1, v) else none := by
        unfold statedRate
        rw [hhigh, hspeed, hnumber]
      split
      · rename_i hrange
        rw [hset, hstated, if_pos hrange]
        simp [largest]
      · rename_i hrange
        rw [hstated, if_neg hrange]
        simp [largest]
    · rename_i hno'
      cases h
      have hstated : statedRate row = none := by
        unfold statedRate
        cases hnumber : Text.intOf (Text.strip Text.isSpace row.2) with
        | none =>
            cases behind ifhighspeedPrefix row.1 with
            | none => cases behind ifspeedPrefix row.1 <;> rfl
            | some rest => rfl
        | some v =>
            cases hhigh : behind ifhighspeedPrefix row.1 with
            | some rest => exact absurd hnumber (hno rest v hhigh)
            | none =>
                cases hspeed : behind ifspeedPrefix row.1 with
                | some rest => exact absurd hnumber (hno' rest v hspeed)
                | none => rfl
      simp [hstated, largest]

/-- After the first pass a model has the largest rates stated. -/
theorem scan_rateOf {rows : List Row} {m m' : ReplayModel} (h : rows.foldlM scanRow m = .ok m')
    (index : Text) :
    m'.rateOf index = max (m.rateOf index) (largest (rows.filterMap statedRate) index) := by
  induction rows generalizing m with
  | nil =>
      cases h
      simp [largest]
  | cons row rows ih =>
      simp only [List.foldlM_cons, bind, Except.bind] at h
      split at h
      · cases h
      · rename_i m₁ hrow
        rw [ih h, scanRow_rateOf hrow]
        cases hstated : statedRate row with
        | none => simp [hstated, largest]
        | some rate =>
            simp only [List.filterMap_cons_some hstated, Option.toList_some, largest,
              List.foldr_cons, List.foldr_nil]
            split
            · omega
            · omega

/-! ## The caps of a model -/

/-- The counter keys of a port's octets. -/
def octetKeys (index : Text) : List Text :=
  ["ifin".toList ++ '.' :: index, "ifout".toList ++ '.' :: index]

/-- The port of an octet counter's key. -/
theorem mem_octetKeys (name : Text) {rest index : Text} (hname : '.' ∉ name) :
    name ++ '.' :: rest ∈ octetKeys index ↔
      (name = "ifin".toList ∨ name = "ifout".toList) ∧ rest = index := by
  have hinj : ∀ name' : Text, '.' ∉ name' →
      (name ++ '.' :: rest = name' ++ '.' :: index ↔ name = name' ∧ rest = index) := by
    intro name' hname'
    constructor
    · intro heq
      have hcut := congrArg (Text.cut '.') heq
      rw [Text.cut_append hname, Text.cut_append hname', Prod.mk.injEq] at hcut
      exact hcut
    · rintro ⟨rfl, rfl⟩
      rfl
  rw [octetKeys, List.mem_cons, List.mem_singleton, hinj _ (by decide), hinj _ (by decide)]
  exact or_and_right.symm

/-- Every noted octet counter is capped at 85 % of its port's line rate, and at a fixed base
rate where there is none. -/
structure Capped (m : ReplayModel) : Prop where
  cap : ∀ index, ∀ key ∈ octetKeys index, key ∈ m.seeds.keys → m.rateOf index ≠ 0 →
    m.caps.get key = some (85 / 100 * (m.rateOf index : ℚ≥0) / 8)
  slow : ∀ index, ∀ key ∈ octetKeys index, m.rateOf index = 0 →
    ∀ rate, m.rates.get key = some rate → rate ≤ 25000000

section NoteCounter

variable {m : ReplayModel} {key key' index : Text} {recorded : Nat} {ifIndex : Option Text}

/-- Noting a counter leaves the other keys alone. -/
theorem noteCounter_of_ne (hne : key ≠ key') :
    (m.noteCounter key recorded ifIndex).seeds.get key' = m.seeds.get key' ∧
      (m.noteCounter key recorded ifIndex).caps.get key' = m.caps.get key' ∧
      (m.noteCounter key recorded ifIndex).rates.get key' = m.rates.get key' := by
  simp only [noteCounter, Dict.get_set, if_neg hne, true_and, and_true]
  split
  · split
    · split
      · rfl
      · rw [Dict.get_set, if_neg hne]
    · rfl
  · rfl

/-- An octet counter noted with its port is capped at the port's line rate, or at a fixed base
rate. -/
theorem noteCounter_octets (hkey : key ∈ octetKeys index) :
    (m.rateOf index ≠ 0 → (m.noteCounter key recorded (some index)).caps.get key =
      some (85 / 100 * (m.rateOf index : ℚ≥0) / 8)) ∧
    (m.rateOf index = 0 → ∀ rate, (m.noteCounter key recorded (some index)).rates.get key =
      some rate → rate ≤ 25000000 ∨ m.rates.get key = some rate) := by
  have hprefix : "ifin.".toList.isPrefixOf key ∨ "ifout.".toList.isPrefixOf key := by
    simp only [octetKeys, List.mem_cons, List.not_mem_nil, or_false] at hkey
    rcases hkey with rfl | rfl
    · exact Or.inl (List.isPrefixOf_iff_prefix.mpr ⟨index, rfl⟩)
    · exact Or.inr (List.isPrefixOf_iff_prefix.mpr ⟨index, rfl⟩)
  constructor
  · intro hrate
    simp only [rateOf] at hrate
    simp only [noteCounter, if_pos hprefix, if_neg hrate, Dict.get_set_self, rateOf]
  · intro hrate rate hget
    simp only [rateOf] at hrate
    simp only [noteCounter, if_pos hprefix, hrate, if_true, Dict.get_set_self,
      Option.some.injEq] at hget
    cases hprev : m.rates.get key with
    | none =>
        rw [hprev] at hget
        exact Or.inl (hget ▸ min_le_left _ _)
    | some prev =>
        simp only [hprev] at hget
        rcases max_choice prev (min 25000000 (recorded / m.uptimeRec)) with hmax | hmax
        · exact Or.inr (congrArg some (hmax.symm.trans hget))
        · left
          rw [← hget, hmax]
          exact min_le_left _ _

/-- Noting a counter keeps the caps, if an octet counter is noted with its port. -/
theorem Capped.noteCounter (h : m.Capped)
    (hindex : ∀ index, key ∈ octetKeys index → ifIndex = some index) :
    (m.noteCounter key recorded ifIndex).Capped := by
  have hrateOf : ∀ index, (m.noteCounter key recorded ifIndex).rateOf index = m.rateOf index :=
    fun _ => rfl
  constructor
  · intro index key' hkey' hseeds hrate
    rw [hrateOf] at hrate ⊢
    by_cases hsame : key = key'
    · subst hsame
      rw [hindex index hkey']
      exact (noteCounter_octets hkey').1 hrate
    · have hseed : (m.noteCounter key recorded ifIndex).seeds.get key' = m.seeds.get key' :=
        (noteCounter_of_ne hsame).1
      have hcap : (m.noteCounter key recorded ifIndex).caps.get key' = m.caps.get key' :=
        (noteCounter_of_ne hsame).2.1
      rw [Dict.mem_keys_iff, hseed, ← Dict.mem_keys_iff] at hseeds
      rw [hcap]
      exact h.cap index key' hkey' hseeds hrate
  · intro index key' hkey' hrate rate hget
    rw [hrateOf] at hrate
    by_cases hsame : key = key'
    · subst hsame
      rw [hindex index hkey'] at hget
      rcases (noteCounter_octets hkey').2 hrate rate hget with hslow | hprev
      · exact hslow
      · exact h.slow index key hkey' hrate rate hprev
    · rw [(noteCounter_of_ne hsame).2.2] at hget
      exact h.slow index key' hkey' hrate rate hget

end NoteCounter

/-- What the slot of a row changes in a model: nothing, the service tag, or a noted counter. -/
inductive Notes (m : ReplayModel) : ReplayModel → Prop
  | same : Notes m m
  | tag (tag : Option Text) : Notes m { m with dellSvctag := tag }
  | counter {key : Text} {recorded : Nat} {ifIndex : Option Text}
      (hindex : ∀ index, key ∈ octetKeys index → ifIndex = some index) :
      Notes m (m.noteCounter key recorded ifIndex)

theorem Notes.capped {m m' : ReplayModel} (h : Notes m m') (hm : m.Capped) :
    m'.Capped ∧ ∀ index, m'.rateOf index = m.rateOf index := by
  cases h with
  | same => exact ⟨hm, fun _ => rfl⟩
  | tag tag => exact ⟨⟨hm.cap, hm.slow⟩, fun _ => rfl⟩
  | counter hindex => exact ⟨hm.noteCounter hindex, fun _ => rfl⟩

/-- A counter key of a port's octets is noted with the port. -/
theorem CounterPlace.ifIndex_eq {oid : Text} {kind : Kind} {key : Text} {ifIndex : Option Text}
    (h : CounterPlace oid kind key ifIndex) {index : Text} (hkey : key ∈ octetKeys index) :
    ifIndex = some index := by
  have hnames : ∀ columns ∈ [if32, ifhc], ∀ column ∈ columns, '.' ∉ column.2 := by decide
  have hport : ∀ {columns : List (Text × Text)} {name rest : Text}, columns ∈ [if32, ifhc] →
      columns.lookup (columnArc oid) = some name → name ++ '.' :: rest ∈ octetKeys index →
        rest = index := by
    intro columns name rest hcolumns hlookup hkey
    obtain ⟨l₁, l₂, hmem, -⟩ := List.lookup_eq_some_iff.mp hlookup
    have hname : '.' ∉ name := hnames columns hcolumns (columnArc oid, name) (by simp [hmem])
    exact ((mem_octetKeys name hname).mp hkey).2
  cases h with
  | ucd hplace =>
      have hname := ((mem_octetKeys "ucd".toList (by decide)).mp hkey).1
      exact absurd hname (by decide)
  | port32 hplace hname => exact congrArg some (hport (by simp) hname hkey)
  | port64 hplace hname => exact congrArg some (hport (by simp) hname hkey)
  | pages hplace =>
      have hname := ((mem_octetKeys "pages".toList (by decide)).mp hkey).1
      exact absurd hname (by decide)

theorem classify_notes {m m' : ReplayModel} {row : Row} {out : Option Slot}
    (h : m.classify row.1 row.2 = .ok (m', out)) : Notes m m' := by
  cases classification_of_classify h with
  | static | plain | hardware | code => exact .same
  | counter hplace => exact .counter fun index => hplace.ifIndex_eq
  | tag => exact .tag _

theorem addRows_capped {rows : List Row} {static : Text} {m m' : ReplayModel}
    (h : addRows rows static m = .ok m') (hm : m.Capped) :
    m'.Capped ∧ ∀ index, m'.rateOf index = m.rateOf index := by
  have hflush : ∀ (m : ReplayModel) (static : Text), m.Capped →
      (m.flush static).Capped ∧ ∀ index, (m.flush static).rateOf index = m.rateOf index := by
    intro m static hm
    unfold flush
    split
    · exact ⟨hm, fun _ => rfl⟩
    · exact ⟨⟨hm.cap, hm.slow⟩, fun _ => rfl⟩
  induction rows generalizing static m with
  | nil =>
      cases h
      exact hflush m static hm
  | cons row rows ih =>
      cases hclass : m.classify row.1 row.2 with
      | error e => simp [addRows, hclass, bind, Except.bind] at h
      | ok out =>
          obtain ⟨m₁, out⟩ := out
          obtain ⟨hm₁, hrate₁⟩ := (classify_notes hclass).capped hm
          simp only [addRows, hclass, bind, Except.bind] at h
          cases out with
          | none =>
              obtain ⟨hm', hrate⟩ := ih h hm₁
              exact ⟨hm', fun index => (hrate index).trans (hrate₁ index)⟩
          | some slot =>
              obtain ⟨hm₂, hrate₂⟩ := hflush m₁ static hm₁
              obtain ⟨hm', hrate⟩ := ih h ⟨hm₂.cap, hm₂.slow⟩
              exact ⟨hm', fun index => (hrate index).trans ((hrate₂ index).trans (hrate₁ index))⟩

/-- A parsed walk is capped at the largest line rates it states. -/
theorem capped_ofRows {rows : List Row} {m : ReplayModel} (h : ofRows rows = .ok m) :
    m.Capped ∧ ∀ index, m.rateOf index = largest (rows.filterMap statedRate) index := by
  simp only [ofRows, bind, Except.bind] at h
  split at h
  · cases h
  · rename_i m₀ hscan
    have hrate₀ : ∀ index, m₀.rateOf index = largest (rows.filterMap statedRate) index := by
      intro index
      rw [scan_rateOf hscan]
      exact Nat.zero_max _
    have hm₀ : m₀.Capped := by
      obtain ⟨linerate, uptimeRec, rfl⟩ := scan_finds hscan
      constructor
      · intro index key _ hseed
        simp [empty, Dict.mem_keys_iff] at hseed
      · intro index key _ _ rate hget
        simp [empty] at hget
    obtain ⟨hm, hrate⟩ := addRows_capped h hm₀
    exact ⟨hm, fun index => (hrate index).trans (hrate₀ index)⟩

end ReplayModel

end Netsim
end DemoEstate
