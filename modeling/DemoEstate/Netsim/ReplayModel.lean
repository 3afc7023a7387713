import DemoEstate.Library.Numeral
import DemoEstate.Library.Related
import DemoEstate.Netsim.Render

/-!
# Recorded walks

A walk file is parsed once into a model: static text between the slots whose
values differ between instances or move between polls.  Recorded counters give
each counter key a base rate, a seed and, where the walk carries the line rate of
the port, a cap.

Main results:

- Theorem {lit}`classify_row`: a slot keeps its row's OID, and only 64-bit counter
  slots stand under the OIDs of 64-bit interface counters.
- Theorem {lit}`ofRows_classifies`: the segments of a model are the pieces of its
  rows, with neighbouring static pieces joined, and a piece has the slot that its row
  is classified as.
-/

namespace DemoEstate
namespace Netsim

open Snmp (Row Oid Result parseOid)

/-! ## Values of a walk -/

/-- Read a decimal fraction in digits, where `float` also takes a sign, an exponent, blanks,
underscores and words such as `inf`. -/
def floatOf (s : Text) : Option ℚ≥0 :=
  let digits (t : Text) : Option Nat := if t = [] then some 0 else Text.intOf t
  let (whole, fraction) := Text.cut '.' s
  if whole = [] ∧ fraction = [] then none
  else do
    let n ← digits whole
    let k ← digits fraction
    some (n + k / 10 ^ fraction.length)

/-- Time ticks, as a number or as days, hours, minutes and seconds.  A numeral is plain decimal
digits and anything else between the colons raises here, where `isdigit` also holds of
superscripts and `int` and `float` read more.  The hundredths are those of the exact product, where
a product of floats may fall just below. -/
def ticks (value : Text) : Result Nat :=
  let value := Text.strip Text.isSpace value
  match Text.intOf value with
  | some n => .ok n
  | none =>
      match (value.splitOn ':').map (Text.strip Text.isSpace) with
      | [d, h, m, s] =>
          match Text.intOf d, Text.intOf h, Text.intOf m, floatOf s with
          | some d, some h, some m, some s =>
              .ok ⌊(((((d * 24 + h) * 60 + m : Nat) * 60 + s) * 100 : ℚ≥0) : ℚ)⌋.toNat
          | _, _, _, _ => .error .valueError
      | _ => .ok 0

/-- A byte in hexadecimal digits. -/
def byteOf (s : Text) : Option Nat :=
  ((Text.intIn 16 s).filter fun n => 0 ≤ n ∧ n < 256).map Int.toNat

/-- The bytes of a quoted binary value. -/
def parseHexValue (value : Text) : Option (List Nat) :=
  let v := Text.strip Text.isSpace value
  if 2 ≤ v.length ∧ v.head? = some '"' ∧ v.getLast? = some '"' then
    (((v.drop 1).dropLast.splitOnP Text.isSpace).filter (· ≠ [])).mapM byteOf
  else none

/-! ## The OIDs a model knows -/

def uptimeOid : Text := oidText [1, 3, 6, 1, 2, 1, 1, 3, 0]
def hruptimeOid : Text := oidText [1, 3, 6, 1, 2, 1, 25, 1, 1, 0]
def sysNameOid : Text := oidText [1, 3, 6, 1, 2, 1, 1, 5, 0]
def sysLocationOid : Text := oidText [1, 3, 6, 1, 2, 1, 1, 6, 0]
def hpCpuOid : Text := oidText [1, 3, 6, 1, 4, 1, 11, 2, 14, 11, 5, 1, 9, 6, 1, 0]
def apcDiagDateOid : Text := oidText [1, 3, 6, 1, 4, 1, 318, 1, 1, 1, 7, 2, 4, 0]

def ucdPrefix : Oid := [1, 3, 6, 1, 4, 1, 2021, 11]
def ifTablePrefix : Oid := [1, 3, 6, 1, 2, 1, 2, 2, 1]
def ifXTablePrefix : Oid := [1, 3, 6, 1, 2, 1, 31, 1, 1, 1]
def ifspeedPrefix : Oid := [1, 3, 6, 1, 2, 1, 2, 2, 1, 5]
def ifmacPrefix : Oid := [1, 3, 6, 1, 2, 1, 2, 2, 1, 6]
def ifhighspeedPrefix : Oid := [1, 3, 6, 1, 2, 1, 31, 1, 1, 1, 15]
def entSerialPrefix : Oid := [1, 3, 6, 1, 2, 1, 47, 1, 1, 1, 1, 11]
def dellSvctagPrefixes : List Oid :=
  [[1, 3, 6, 1, 4, 1, 674, 10892, 1, 300, 10, 1, 11],
   [1, 3, 6, 1, 4, 1, 674, 10892, 1, 300, 10, 1, 50],
   [1, 3, 6, 1, 4, 1, 674, 10892, 1, 1400, 90, 1, 6]]
def dellSvccodePrefix : Oid := [1, 3, 6, 1, 4, 1, 674, 10892, 1, 300, 10, 1, 49]
def hrcpuPrefix : Oid := [1, 3, 6, 1, 2, 1, 25, 3, 3, 1, 2]
def pagesPrefix : Oid := [1, 3, 6, 1, 2, 1, 43, 10, 2, 1, 4]

/-- What stands behind a prefix and its dot. -/
def behind (oids : Oid) (oid : Text) : Option Text :=
  if (oidText oids ++ ['.']).isPrefixOf oid then some (oid.drop (oidText oids ++ ['.']).length)
  else none

/-- The columns of the interface tables that are counters, with their keys. -/
def if32 : List (Text × Text) :=
  [("10".toList, "ifin".toList), ("11".toList, "ifinu".toList), ("16".toList, "ifout".toList),
   ("17".toList, "ifoutu".toList)]

def ifhc : List (Text × Text) :=
  [("6".toList, "ifin".toList), ("7".toList, "ifinu".toList), ("10".toList, "ifout".toList),
   ("11".toList, "ifoutu".toList)]

/-- The last arc of an OID. -/
def lastArc (oid : Text) : Text :=
  (oid.splitOn '.').reverse[0]?.getD []

/-- The arc before the last one. -/
def columnArc (oid : Text) : Text :=
  (oid.splitOn '.').reverse[1]?.getD []

/-! ## Models -/

/-- What a slot renders. -/
inductive Kind where
  | sysname
  | syslocation
  | uptime
  | hrcpu
  | apcdate
  | ctr32
  | ctr64
  | ifmac
  | serial
  | svctag
  | svccode
deriving DecidableEq

/-- The kinds whose value moves between polls. -/
def Kind.isDynamic : Kind → Bool
  | uptime | hrcpu | apcdate | ctr32 | ctr64 => true
  | _ => false

/-- The kinds that sample a counter. -/
def Kind.isCounter : Kind → Bool
  | ctr32 | ctr64 => true
  | _ => false

/-- The kinds that rewrite a recorded hardware identity. -/
def Kind.isIdentity : Kind → Bool
  | ifmac | serial | svctag | svccode => true
  | _ => false

/-- A slot: its OID, its counter key or recorded identity, and its recorded number. -/
structure Slot where
  kind : Kind
  oid : Text
  key : Text
  recorded : Nat
deriving DecidableEq

/-- A piece of a model: static text, or a slot. -/
inductive Segment where
  | static (text : Text)
  | slot (slot : Slot)

/-- A parsed walk file. -/
structure ReplayModel where
  segments : List Segment
  rates : Dict Text ℚ≥0
  seeds : Dict Text Nat
  linerate : Dict Text Nat
  caps : Dict Text ℚ≥0
  dellSvctag : Option Text
  uptimeRec : ℚ≥0

namespace ReplayModel

def empty : ReplayModel where
  segments := []
  rates := Dict.empty
  seeds := Dict.empty
  linerate := Dict.empty
  caps := Dict.empty
  dellSvctag := none
  uptimeRec := 90 * 86400

/-- The first pass notes the recorded uptime and the line rates. -/
def scanRow (m : ReplayModel) (row : Row) : Result ReplayModel := do
  let (oid, value) := row
  let number := Text.intOf (Text.strip Text.isSpace value)
  let note (v : Nat) : ReplayModel :=
    let idx := lastArc oid
    { m with linerate := m.linerate.set idx (max ((m.linerate.get idx).getD 0) v) }
  if oid = uptimeOid then do
    let t ← ticks value
    pure { m with uptimeRec := max (7 * 86400) (t / 100) }
  else
    match behind ifhighspeedPrefix oid, number with
    | some _, some v => pure (note (v * 1000000))
    | _, _ =>
        match behind ifspeedPrefix oid, number with
        | some _, some v => pure (if 0 < v ∧ v < 2 ^ 32 - 1 then note v else m)
        | _, _ => pure m

/-- Seed a counter key from its largest recorded value and derive its base rate:
octet counters are bounded by their port's line rate where it is known. -/
def noteCounter (m : ReplayModel) (key : Text) (recorded : Nat) (ifIndex : Option Text) :
    ReplayModel :=
  let line : Nat :=
    match ifIndex with
    | some index =>
        if "ifin.".toList.isPrefixOf key ∨ "ifout.".toList.isPrefixOf key then
          (m.linerate.get index).getD 0
        else 0
    | none => 0
  let cap : ℚ≥0 := if line = 0 then 25000000 else 60 / 100 * (line : ℚ≥0) / 8
  let rate := min cap (recorded / m.uptimeRec)
  { m with
    seeds := m.seeds.set key (max ((m.seeds.get key).getD 0) recorded)
    caps := if line = 0 then m.caps else m.caps.set key (85 / 100 * (line : ℚ≥0) / 8)
    rates := m.rates.set key
      (match m.rates.get key with
       | some prev => max prev rate
       | none => rate) }

/-- A counter slot of an interface table, with its key noted. -/
def ifCounter (m : ReplayModel) (kind : Kind) (columns : List (Text × Text)) (oid : Text)
    (number : Option Nat) : Option (ReplayModel × Slot) :=
  match columns.lookup (columnArc oid), number with
  | some name, some n =>
      let key := name ++ '.' :: lastArc oid
      some (m.noteCounter key n (some (lastArc oid)), ⟨kind, oid, key, n⟩)
  | _, _ => none

/-- The jiffie counters of the UCD tables. -/
def ucdCounter (m : ReplayModel) (oid : Text) (number : Option Nat) :
    Option (ReplayModel × Slot) :=
  match behind ucdPrefix oid, number, Text.intOf (columnArc oid) with
  | some _, some n, some col =>
      if 50 ≤ col ∧ col ≤ 66 then
        let key := "ucd.".toList ++ columnArc oid
        some (m.noteCounter key n none, ⟨.ctr32, oid, key, n⟩)
      else none
  | _, _, _ => none

/-- The slots that keep a recorded hardware identity. -/
def identitySlot (m : ReplayModel) (oid value : Text) : Option (ReplayModel × Slot) :=
  let stripped := Text.strip Text.isSpace value
  if (behind ifmacPrefix oid).isSome ∧ ((parseHexValue value).map List.length) = some 6 then
    some (m, ⟨.ifmac, oid, value, 0⟩)
  else if (behind entSerialPrefix oid).isSome ∧ stripped ≠ [] then
    some (m, ⟨.serial, oid, value, 0⟩)
  else if (dellSvctagPrefixes.any fun p => (behind p oid).isSome) ∧ stripped ≠ [] then
    some ({ m with dellSvctag := some (m.dellSvctag.getD stripped) },
      ⟨.svctag, oid, stripped, 0⟩)
  else if (behind dellSvccodePrefix oid).isSome ∧ (Text.intOf stripped).isSome then
    some (m, ⟨.svccode, oid, stripped, 0⟩)
  else none

/-- The counters and gauges of the interface, processor and printer tables. -/
def tableSlot (m : ReplayModel) (oid : Text) (number : Option Nat) :
    Option (ReplayModel × Slot) :=
  let in32 := if (behind ifTablePrefix oid).isSome then m.ifCounter .ctr32 if32 oid number else none
  let inHc := if (behind ifXTablePrefix oid).isSome then m.ifCounter .ctr64 ifhc oid number
    else none
  let cpu := match behind hrcpuPrefix oid, number with
    | some rest, some n => some (m, ⟨.hrcpu, oid, rest, n⟩)
    | _, _ => none
  let pages := match behind pagesPrefix oid, number with
    | some rest, some n =>
        let key := "pages.".toList ++ rest
        some (m.noteCounter key n none, ⟨.ctr32, oid, key, n⟩)
    | _, _ => none
  in32 <|> inHc <|> cpu <|> pages

/-- The slot of a row, if it has one; its counter key is noted. -/
def classify (m : ReplayModel) (oid value : Text) : Result (ReplayModel × Option Slot) := do
  let number := Text.intOf value
  if oid = sysNameOid then pure (m, some ⟨.sysname, oid, [], 0⟩)
  else if oid = sysLocationOid then pure (m, some ⟨.syslocation, oid, [], 0⟩)
  else if oid = uptimeOid ∨ oid = hruptimeOid then do
    let t ← ticks value
    pure (m, some ⟨.uptime, oid, [], t⟩)
  else
    let hp := match number with
      | some n => if oid = hpCpuOid then some (m, ⟨.hrcpu, oid, "hp".toList, n⟩) else none
      | none => none
    let apc := if oid = apcDiagDateOid then some (m, ⟨.apcdate, oid, [], 0⟩) else none
    match hp <|> m.ucdCounter oid number <|> apc <|> m.identitySlot oid value <|>
        m.tableSlot oid number with
    | some (m, slot) => pure (m, some slot)
    | none => pure (m, none)

/-- End the static text collected so far. -/
def flush (m : ReplayModel) (static : Text) : ReplayModel :=
  if static = [] then m else { m with segments := m.segments ++ [.static static] }

/-- The second pass turns rows into static text and slots. -/
def addRows : List Row → Text → ReplayModel → Result ReplayModel
  | [], static, m => .ok (m.flush static)
  | row :: rows, static, m => do
      match ← m.classify row.1 row.2 with
      | (m, none) => addRows rows (static ++ rowLine row) m
      | (m, some slot) =>
          let m := m.flush static
          addRows rows [] { m with segments := m.segments ++ [.slot slot] }

/-- Parse the rows of a walk file. -/
def ofRows (rows : List Row) : Result ReplayModel := do
  let m ← rows.foldlM scanRow empty
  addRows rows [] m

/-- The model of rows that can be parsed. -/
def parsed (rows : List Row) : ReplayModel :=
  (ofRows rows).toOption.getD empty

theorem ofRows_eq_parsed {rows : List Row} (h : (ofRows rows).toOption.isSome = true) :
    ofRows rows = .ok (parsed rows) := by
  unfold parsed
  cases hm : ofRows rows with
  | error e => simp [hm, Except.toOption] at h
  | ok m => rfl

end ReplayModel

/-! ## The slot of a row -/

theorem behind_eq_some {oid : Oid} {text rest : Text} (h : behind oid text = some rest) :
    text = oidText oid ++ '.' :: rest := by
  unfold behind at h
  split at h
  · rename_i hprefix
    rcases List.isPrefixOf_iff_prefix.mp hprefix with ⟨tail, htail⟩
    rw [← htail, List.drop_left, Option.some.injEq] at h
    rw [← htail, h, List.append_assoc, List.singleton_append]
  · cases h

/-- A text that is read as no OID of the extended interface table. -/
def OffIfXTable (oid : Text) : Prop :=
  ∀ arcs, parseOid oid = .ok arcs → ¬ ifXTablePrefix <+: arcs

theorem offIfXTable_oidText {arc : Nat} {oid : Oid} (h : ¬ ifXTablePrefix <+: arc :: oid) :
    OffIfXTable (oidText (arc :: oid)) := by
  intro arcs harcs
  rw [parseOid_oidText, Except.ok.injEq] at harcs
  exact harcs ▸ h

theorem offIfXTable_behind {arc : Nat} {oid : Oid} {text : Text}
    (h : (behind (arc :: oid) text).isSome)
    (happart : ¬ arc :: oid <+: ifXTablePrefix ∧ ¬ ifXTablePrefix <+: arc :: oid) :
    OffIfXTable text := by
  intro arcs harcs hprefix
  rcases Option.isSome_iff_exists.mp h with ⟨rest, hrest⟩
  rw [behind_eq_some hrest] at harcs
  rcases List.prefix_or_prefix_of_prefix (prefix_of_parseOid harcs) hprefix with hle | hle
  · exact happart.1 hle
  · exact happart.2 hle

/-- What a slot keeps of its row. -/
structure Slot.Reads (slot : Slot) (row : Row) : Prop where
  oid_eq : slot.oid = row.1
  oid_ne_nil : row.1 ≠ []
  ctr64_or_off : slot.kind = .ctr64 ∨ OffIfXTable row.1
  key_of_row : slot.kind.isIdentity = true → ∀ c ∈ slot.key, c ∈ row.2

/-- A slot whose OID is fixed, outside the extended interface table. -/
theorem Slot.reads_of_eq {slot : Slot} {row : Row} {arc : Nat} {oid : Oid}
    (hrow : row.1 = oidText (arc :: oid)) (hoid : slot.oid = row.1)
    (happart : ¬ ifXTablePrefix <+: arc :: oid) (hkind : slot.kind.isIdentity = false) :
    slot.Reads row where
  oid_eq := hoid
  oid_ne_nil := by simp [hrow, oidText]
  ctr64_or_off := Or.inr (hrow ▸ offIfXTable_oidText happart)
  key_of_row := by simp [hkind]

/-- A slot whose OID stands behind a prefix. -/
theorem Slot.reads_of_behind {slot : Slot} {row : Row} {arc : Nat} {oid : Oid}
    (hrow : (behind (arc :: oid) row.1).isSome) (hoid : slot.oid = row.1)
    (happart : slot.kind = .ctr64 ∨ ¬ arc :: oid <+: ifXTablePrefix ∧ ¬ ifXTablePrefix <+: arc :: oid)
    (hkey : slot.kind.isIdentity = true → ∀ c ∈ slot.key, c ∈ row.2) : slot.Reads row where
  oid_eq := hoid
  oid_ne_nil := by
    rcases Option.isSome_iff_exists.mp hrow with ⟨rest, hrest⟩
    simp [behind_eq_some hrest]
  ctr64_or_off := happart.imp_right (offIfXTable_behind hrow)
  key_of_row := hkey

theorem mem_of_mem_strip {drop : Char → Bool} {s : Text} {c : Char} (h : c ∈ Text.strip drop s) :
    c ∈ s := by
  rw [Text.strip, List.mem_reverse] at h
  exact (List.dropWhile_suffix drop).subset
    (List.mem_reverse.mp ((List.dropWhile_suffix drop).subset h))

namespace ReplayModel

/-- The places of the counters: the kind of the slot, its key, and the port that it counts for. -/
inductive CounterPlace (oid : Text) : Kind → Text → Option Text → Prop
  | ucd (hplace : (behind ucdPrefix oid).isSome) :
      CounterPlace oid .ctr32 ("ucd.".toList ++ columnArc oid) none
  | port32 {name : Text} (hplace : (behind ifTablePrefix oid).isSome)
      (hname : if32.lookup (columnArc oid) = some name) :
      CounterPlace oid .ctr32 (name ++ '.' :: lastArc oid) (some (lastArc oid))
  | port64 {name : Text} (hplace : (behind ifXTablePrefix oid).isSome)
      (hname : ifhc.lookup (columnArc oid) = some name) :
      CounterPlace oid .ctr64 (name ++ '.' :: lastArc oid) (some (lastArc oid))
  | pages {rest : Text} (hplace : behind pagesPrefix oid = some rest) :
      CounterPlace oid .ctr32 ("pages.".toList ++ rest) none

/-- What a row is classified as, and what that changes in a model: static text and plain slots
change nothing, a counter has its key noted, and the first service tag is kept. -/
inductive Classification (m : ReplayModel) (row : Row) : ReplayModel → Option Slot → Prop
  | static : Classification m row m none
  | plain {slot : Slot} (hreads : slot.Reads row) (hidentity : slot.kind.isIdentity = false)
      (hcounter : slot.kind.isCounter = false) : Classification m row m (some slot)
  | counter {kind : Kind} {key : Text} {ifIndex : Option Text} {n : Nat}
      (hplace : CounterPlace row.1 kind key ifIndex) :
      Classification m row (m.noteCounter key n ifIndex) (some ⟨kind, row.1, key, n⟩)
  | hardware {kind : Kind} (hkind : kind = .ifmac ∨ kind = .serial)
      (hplace : ∃ p ∈ [ifmacPrefix, entSerialPrefix], (behind p row.1).isSome) :
      Classification m row m (some ⟨kind, row.1, row.2, 0⟩)
  | tag (hplace : dellSvctagPrefixes.any fun p => (behind p row.1).isSome)
      (hvalue : Text.strip Text.isSpace row.2 ≠ []) :
      Classification m row
        { m with dellSvctag := some (m.dellSvctag.getD (Text.strip Text.isSpace row.2)) }
        (some ⟨.svctag, row.1, Text.strip Text.isSpace row.2, 0⟩)
  | code (hplace : (behind dellSvccodePrefix row.1).isSome)
      (hvalue : (Text.intOf (Text.strip Text.isSpace row.2)).isSome) :
      Classification m row m (some ⟨.svccode, row.1, Text.strip Text.isSpace row.2, 0⟩)

/-- A row adds a slot to a model whose segments stay. -/
structure Adds (m : ReplayModel) (row : Row) (out : ReplayModel × Slot) : Prop where
  segments_eq : out.1.segments = m.segments
  reads : out.2.Reads row

section Classification

variable {m m' : ReplayModel} {row : Row} {slot : Slot} {out : Option Slot}

theorem ucdCounter_classification (h : m.ucdCounter row.1 (Text.intOf row.2) = some (m', slot)) :
    m.Classification row m' (some slot) := by
  unfold ucdCounter at h
  split at h
  · rename_i hplace _ _
    split at h
    · cases h
      exact .counter (.ucd (Option.isSome_of_eq_some hplace))
    · cases h
  · cases h

theorem identitySlot_classification (h : m.identitySlot row.1 row.2 = some (m', slot)) :
    m.Classification row m' (some slot) := by
  unfold identitySlot at h
  simp only at h
  split at h
  · rename_i hmac
    cases h
    exact .hardware (Or.inl rfl) ⟨ifmacPrefix, by simp, hmac.1⟩
  split at h
  · rename_i hserial
    cases h
    exact .hardware (Or.inr rfl) ⟨entSerialPrefix, by simp, hserial.1⟩
  split at h
  · rename_i htag
    cases h
    exact .tag htag.1 htag.2
  split at h
  · rename_i hcode
    cases h
    exact .code hcode.1 hcode.2
  · cases h

theorem ifCounter_eq_some {kind : Kind} {columns : List (Text × Text)} {oid : Text}
    {number : Option Nat} (h : m.ifCounter kind columns oid number = some (m', slot)) :
    ∃ name n, columns.lookup (columnArc oid) = some name ∧
      m' = m.noteCounter (name ++ '.' :: lastArc oid) n (some (lastArc oid)) ∧
        slot = ⟨kind, oid, name ++ '.' :: lastArc oid, n⟩ := by
  unfold ifCounter at h
  split at h
  · rename_i name n hname
    cases h
    exact ⟨name, n, hname, rfl, rfl⟩
  · cases h

theorem tableSlot_classification (h : m.tableSlot row.1 (Text.intOf row.2) = some (m', slot)) :
    m.Classification row m' (some slot) := by
  simp only [tableSlot, Option.orElse_eq_orElse, Option.orElse_eq_or, Option.or_eq_some_iff] at h
  rcases h with h | ⟨-, h | ⟨-, h | ⟨-, h⟩⟩⟩
  · split at h
    · rename_i hplace
      rcases ifCounter_eq_some h with ⟨name, n, hname, rfl, rfl⟩
      exact .counter (.port32 hplace hname)
    · cases h
  · split at h
    · rename_i hplace
      rcases ifCounter_eq_some h with ⟨name, n, hname, rfl, rfl⟩
      exact .counter (.port64 hplace hname)
    · cases h
  · split at h
    · rename_i hplace _
      cases h
      exact .plain (Slot.reads_of_behind (Option.isSome_of_eq_some hplace) rfl
        (Or.inr (by decide)) (by simp [Kind.isIdentity])) rfl rfl
    · cases h
  · split at h
    · rename_i hplace _
      cases h
      exact .counter (.pages hplace)
    · cases h

/-- The branches that classify a row. -/
theorem classification_of_classify (h : m.classify row.1 row.2 = .ok (m', out)) :
    m.Classification row m' out := by
  have hfixed : ∀ {arc : Nat} {oid : Oid} {slot : Slot}, row.1 = oidText (arc :: oid) →
      slot.oid = row.1 → ¬ ifXTablePrefix <+: arc :: oid → slot.kind.isIdentity = false →
        slot.kind.isCounter = false → m.Classification row m (some slot) :=
    fun hrow hoid happart hidentity hcounter =>
      .plain (Slot.reads_of_eq hrow hoid happart hidentity) hidentity hcounter
  unfold classify at h
  simp only at h
  split at h
  · rename_i hname
    cases h
    exact hfixed hname rfl (by decide) rfl rfl
  split at h
  · rename_i hlocation
    cases h
    exact hfixed hlocation rfl (by decide) rfl rfl
  split at h
  · rename_i huptime
    cases hticks : ticks row.2 with
    | error e => simp [hticks, bind, Except.bind] at h
    | ok t =>
        simp only [hticks, bind, Except.bind, pure, Except.pure, Except.ok.injEq,
          Prod.mk.injEq] at h
        rcases h with ⟨rfl, rfl⟩
        rcases huptime with huptime | huptime
        · exact hfixed huptime rfl (by decide) rfl rfl
        · exact hfixed huptime rfl (by decide) rfl rfl
  · split at h
    · rename_i m'' slot hslot
      simp only [pure, Except.pure, Except.ok.injEq, Prod.mk.injEq] at h
      rcases h with ⟨rfl, rfl⟩
      simp only [Option.orElse_eq_orElse, Option.orElse_eq_or, Option.or_eq_some_iff] at hslot
      rcases hslot with h | ⟨-, h | ⟨-, h | ⟨-, h | ⟨-, h⟩⟩⟩⟩
      · split at h
        · split at h
          · rename_i hhp
            cases h
            exact hfixed hhp rfl (by decide) rfl rfl
          · cases h
        · cases h
      · exact ucdCounter_classification h
      · split at h
        · rename_i hapc
          cases h
          exact hfixed hapc rfl (by decide) rfl rfl
        · cases h
      · exact identitySlot_classification h
      · exact tableSlot_classification h
    · simp only [pure, Except.pure, Except.ok.injEq, Prod.mk.injEq] at h
      rcases h with ⟨rfl, rfl⟩
      exact .static

theorem CounterPlace.reads {kind : Kind} {key : Text} {ifIndex : Option Text}
    (h : CounterPlace row.1 kind key ifIndex) (n : Nat) : Slot.Reads ⟨kind, row.1, key, n⟩ row := by
  cases h with
  | ucd hplace =>
      exact Slot.reads_of_behind hplace rfl (Or.inr (by decide)) (by simp [Kind.isIdentity])
  | port32 hplace =>
      exact Slot.reads_of_behind hplace rfl (Or.inr (by decide)) (by simp [Kind.isIdentity])
  | port64 hplace => exact Slot.reads_of_behind hplace rfl (Or.inl rfl) (by simp [Kind.isIdentity])
  | pages hplace =>
      exact Slot.reads_of_behind (Option.isSome_of_eq_some hplace) rfl (Or.inr (by decide))
        (by simp [Kind.isIdentity])

theorem Classification.adds (h : m.Classification row m' (some slot)) :
    m.Adds row (m', slot) where
  segments_eq := by cases h <;> rfl
  reads := by
    cases h with
    | plain hreads => exact hreads
    | counter hplace => exact hplace.reads _
    | hardware _ hplace =>
        rcases hplace with ⟨p, hp, hplace⟩
        simp only [List.mem_cons, List.not_mem_nil, or_false] at hp
        rcases hp with rfl | rfl
        · exact Slot.reads_of_behind hplace rfl (Or.inr (by decide)) fun _ _ hc => hc
        · exact Slot.reads_of_behind hplace rfl (Or.inr (by decide)) fun _ _ hc => hc
    | tag hplace =>
        rcases List.any_eq_true.mp hplace with ⟨p, hp, hbehind⟩
        simp only [dellSvctagPrefixes, List.mem_cons, List.not_mem_nil, or_false] at hp
        rcases hp with rfl | rfl | rfl <;>
          exact Slot.reads_of_behind hbehind rfl (Or.inr (by decide)) fun _ _ hc =>
            mem_of_mem_strip hc
    | code hplace =>
        exact Slot.reads_of_behind hplace rfl (Or.inr (by decide)) fun _ _ hc =>
          mem_of_mem_strip hc

end Classification

/-- A slot keeps its row's OID, and only 64-bit counters stand in the extended
interface table. -/
theorem classify_row {m m' : ReplayModel} {row : Row} {out : Option Slot}
    (h : m.classify row.1 row.2 = .ok (m', out)) :
    m'.segments = m.segments ∧ ∀ slot ∈ out, slot.Reads row := by
  have hclass := classification_of_classify h
  cases out with
  | none =>
      cases hclass
      exact ⟨rfl, by simp⟩
  | some slot =>
      have hadds := hclass.adds
      exact ⟨hadds.segments_eq, fun slot' hslot' => Option.some.inj hslot' ▸ hadds.reads⟩

end ReplayModel

/-! ## The pieces of a model -/

/-- A row and the slot that reads it, if it has one. -/
structure Piece where
  row : Row
  slot : Option Slot
  reads : ∀ s ∈ slot, s.Reads row

/-- The static text collected so far, unless there is none. -/
def pending (static : Text) : List Segment :=
  if static = [] then [] else [.static static]

/-- Join the lines of neighbouring static pieces, behind the text collected so far. -/
def joinFrom : Text → List Piece → List Segment
  | static, [] => pending static
  | static, ⟨row, none, _⟩ :: pieces => joinFrom (static ++ rowLine row) pieces
  | static, ⟨_, some slot, _⟩ :: pieces => pending static ++ .slot slot :: joinFrom [] pieces

/-- The slots among some segments. -/
def slots (segments : List Segment) : List Slot :=
  segments.filterMap fun
    | .static _ => none
    | .slot slot => some slot

@[simp]
theorem slots_pending (static : Text) : slots (pending static) = [] := by
  unfold pending
  split <;> rfl

/-- Joining keeps the slots. -/
theorem slots_joinFrom (static : Text) (pieces : List Piece) :
    slots (joinFrom static pieces) = pieces.filterMap Piece.slot := by
  induction pieces generalizing static with
  | nil => exact slots_pending static
  | cons piece pieces ih =>
      match piece with
      | ⟨row, none, _⟩ => exact ih _
      | ⟨row, some slot, _⟩ =>
          rw [joinFrom, slots, List.filterMap_append, ← slots, slots_pending, List.nil_append]
          simpa [slots] using ih []

namespace ReplayModel

theorem flush_segments (m : ReplayModel) (static : Text) :
    (m.flush static).segments = m.segments ++ pending static := by
  unfold flush pending
  split
  · exact (List.append_nil _).symm
  · rfl

/-- The rows of some pieces are classified one after the other, from one model to another,
whatever segments are collected meanwhile. -/
inductive Classifies : ReplayModel → List Piece → ReplayModel → Prop
  | nil (m : ReplayModel) (segments : List Segment) : Classifies m [] { m with segments := segments }
  | cons {m m₁ m' : ReplayModel} {piece : Piece} {pieces : List Piece} {segments : List Segment}
      (hrow : m.classify piece.row.1 piece.row.2 = .ok (m₁, piece.slot))
      (hrest : Classifies { m₁ with segments := segments } pieces m') :
      Classifies m (piece :: pieces) m'

/-- Every piece has the slot that its row is classified as. -/
theorem Classifies.exists_classify {m m' : ReplayModel} {pieces : List Piece}
    (h : Classifies m pieces m') {piece : Piece} (hpiece : piece ∈ pieces) :
    ∃ m₀ m₁ : ReplayModel, m₀.classify piece.row.1 piece.row.2 = .ok (m₁, piece.slot) := by
  induction h with
  | nil => exact absurd hpiece List.not_mem_nil
  | cons hrow _ ih =>
      rcases List.mem_cons.mp hpiece with rfl | hpiece
      · exact ⟨_, _, hrow⟩
      · exact ih hpiece

/-- The second pass classifies the rows and joins their pieces. -/
theorem addRows_classifies {rows : List Row} {static : Text} {m m' : ReplayModel}
    (h : addRows rows static m = .ok m') :
    ∃ pieces : List Piece, pieces.map Piece.row = rows ∧
      m'.segments = m.segments ++ joinFrom static pieces ∧ Classifies m pieces m' := by
  induction rows generalizing static m with
  | nil =>
      cases h
      refine ⟨[], rfl, flush_segments m static, ?_⟩
      have hflush : m.flush static = { m with segments := (m.flush static).segments } := by
        unfold flush
        split <;> rfl
      rw [hflush]
      exact .nil m _
  | cons row rows ih =>
      cases hclass : m.classify row.1 row.2 with
      | error e => simp [addRows, hclass, bind, Except.bind] at h
      | ok out =>
          rcases out with ⟨m₁, out⟩
          rcases classify_row hclass with ⟨hsegments, hreads⟩
          simp only [addRows, hclass, bind, Except.bind] at h
          cases out with
          | none =>
              rcases ih h with ⟨pieces, rfl, hm', hclassifies⟩
              exact ⟨⟨row, none, by simp⟩ :: pieces, rfl, by rw [hm', hsegments]; rfl,
                .cons hclass hclassifies⟩
          | some slot =>
              rcases ih h with ⟨pieces, rfl, hm', hclassifies⟩
              refine ⟨⟨row, some slot, hreads⟩ :: pieces, rfl, ?_, ?_⟩
              · rw [hm', flush_segments, hsegments, joinFrom]
                simp
              · have hflush : ∀ segments : List Segment,
                    { m₁.flush static with segments := segments } =
                      { m₁ with segments := segments } := by
                  intro segments
                  unfold flush
                  split <;> rfl
                rw [hflush] at hclassifies
                exact .cons hclass hclassifies

/-- The first pass finds line rates and the recorded uptime, and changes nothing else. -/
theorem scanRow_finds {m m' : ReplayModel} {row : Row} (h : m.scanRow row = .ok m') :
    ∃ linerate uptimeRec, m' = { m with linerate := linerate, uptimeRec := uptimeRec } := by
  unfold scanRow at h
  simp only at h
  split at h
  · cases hticks : ticks row.2 with
    | error e => simp [hticks, bind, Except.bind] at h
    | ok t =>
        simp only [hticks, bind, Except.bind, pure, Except.pure, Except.ok.injEq] at h
        exact ⟨_, _, h.symm⟩
  split at h
  · cases h
    exact ⟨_, _, rfl⟩
  split at h
  · cases h
    split
    · exact ⟨_, _, rfl⟩
    · exact ⟨_, _, rfl⟩
  · cases h
    exact ⟨_, _, rfl⟩

theorem scan_finds {rows : List Row} {m m' : ReplayModel} (h : rows.foldlM scanRow m = .ok m') :
    ∃ linerate uptimeRec, m' = { m with linerate := linerate, uptimeRec := uptimeRec } := by
  induction rows generalizing m with
  | nil =>
      cases h
      exact ⟨_, _, rfl⟩
  | cons row rows ih =>
      simp only [List.foldlM_cons, bind, Except.bind] at h
      split at h
      · cases h
      · rename_i m₁ hrow
        rcases scanRow_finds hrow with ⟨linerate₁, uptimeRec₁, rfl⟩
        rcases ih h with ⟨linerate, uptimeRec, rfl⟩
        exact ⟨linerate, uptimeRec, rfl⟩

/-- A model comes from the first pass by classifying its rows, whose pieces are joined to its
segments. -/
theorem ofRows_classifies {rows : List Row} {m : ReplayModel} (h : ofRows rows = .ok m) :
    ∃ (m₀ : ReplayModel) (pieces : List Piece), rows.foldlM scanRow empty = .ok m₀ ∧
      pieces.map Piece.row = rows ∧ m.segments = joinFrom [] pieces ∧ Classifies m₀ pieces m := by
  simp only [ofRows, bind, Except.bind] at h
  split at h
  · cases h
  · rename_i m₀ hm₀
    rcases addRows_classifies h with ⟨pieces, hpieces, hm, hclassifies⟩
    refine ⟨m₀, pieces, hm₀, hpieces, ?_, hclassifies⟩
    rcases scan_finds hm₀ with ⟨linerate, uptimeRec, rfl⟩
    exact hm

/-- The segments of a model are the pieces of its rows, joined. -/
theorem ofRows_segments {rows : List Row} {m : ReplayModel} (h : ofRows rows = .ok m) :
    ∃ pieces : List Piece, pieces.map Piece.row = rows ∧ m.segments = joinFrom [] pieces := by
  rcases ofRows_classifies h with ⟨-, pieces, -, hpieces, hsegments, -⟩
  exact ⟨pieces, hpieces, hsegments⟩

end ReplayModel

end Netsim
end DemoEstate
