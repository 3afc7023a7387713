import Mathlib.Algebra.Order.Field.Rat
import Mathlib.Data.List.Sort
import Mathlib.Data.Rat.Floor
import DemoEstate.Library.Program
import DemoEstate.Library.Round
import DemoEstate.Netsim.Counter
import DemoEstate.Snmp.Table

/-!
# Rendering a device

A device renders its rows while other threads run.  A rendering is a program:
its operations are the reads and writes of shared state it performs, each one
atomic, and its rows depend on the answers.  Rates are non-negative by type.

Main results:

- Theorem {lit}`parseOid_oidText`: a dotted OID is read back.
- Theorem {lit}`renderWalk_eq_ok`: a rendered walk is made of the lines of its rows.
-/

namespace DemoEstate
namespace Netsim

open Interaction
open Snmp (Row Oid parseOid)

/-! ## The platform and the operations of a rendering -/

/-- The seeds of the random generators. -/
inductive Seed where
  | int (n : Nat)
  | text (s : Text)

/-- What the process takes from its environment: the estate's domain, the process
start, seeded random draws, local dates and the character classes.  A choice depends
on the numbers of items of the choices drawn so far, the latest first. -/
structure Platform where
  domain : Text
  start : ℚ
  random : Seed → Nat → ℚ≥0
  randrange : Seed → Nat → Nat → Nat → Nat
  choice : Seed → List Nat → Nat
  date : ℚ → Text
  isAlnum : Char → Bool
  isDigit : Char → Bool
  isUpper : Char → Bool
  domain_plain : Text.Plain domain
  date_plain : ∀ t, Text.Plain (date t)

/-- A platform whose draws and dates stay the same. -/
def Platform.still : Platform where
  domain := "shop.example".toList
  start := 0
  random _ _ := 0
  randrange _ _ low _ := low
  choice _ _ := 0
  date _ := "01/01/2025".toList
  isAlnum := Char.isAlphanum
  isDigit := Char.isDigit
  isUpper := Char.isUpper
  domain_plain := by decide
  date_plain _ := by decide

/-- A uniform draw between two bounds. -/
def Platform.uniform (pf : Platform) (seed : Seed) (i : Nat) (a b : ℚ≥0) : ℚ≥0 :=
  a + (b - a) * pf.random seed i

/-- The attributes of an interface that rendering threads share. -/
inductive Attr where
  | rateFactor
  | errRate
  | discRate
deriving DecidableEq

/-- The atomic operations of a rendering. -/
inductive Op where
  | sample (name : Text) (rate : ℚ≥0) (cap : Option ℚ≥0)
  | gauge (name : Text) (base amp : ℚ)
  | getState
  | degradedMinutes
  | ramp (minutes : ℚ≥0)
  | loadOper (index : Nat)
  | storeOper (index : Nat) (value : Nat)
  | load (attr : Attr) (index : Nat)
  | store (attr : Attr) (index : Nat) (value : ℚ≥0)
  | getIdent (oid : Text)
  | setIdent (oid : Text) (value : Text)
  | raise
deriving DecidableEq

/-- The answers to the operations; a raised exception has none. -/
abbrev Ans : Op → Type
  | .sample .. => ℤ
  | .gauge .. => ℚ
  | .getState => Incident
  | .degradedMinutes => ℚ≥0
  | .ramp _ => ℚ≥0
  | .loadOper _ => Nat
  | .storeOper .. => Unit
  | .load .. => ℚ≥0
  | .store .. => Unit
  | .getIdent _ => Option Text
  | .setIdent .. => Unit
  | .raise => Empty

/-- A rendering. -/
abbrev Render := Program Op Ans

namespace Render

def sample (name : Text) (rate : ℚ≥0) (cap : Option ℚ≥0) : Render ℤ :=
  Program.call (Op.sample name rate cap)

def gauge (name : Text) (base amp : ℚ) : Render ℚ :=
  Program.call (Op.gauge name base amp)

def getState : Render Incident :=
  Program.call Op.getState

def degradedMinutes : Render ℚ≥0 :=
  Program.call Op.degradedMinutes

def ramp (minutes : ℚ≥0) : Render ℚ≥0 :=
  Program.call (Op.ramp minutes)

def loadOper (index : Nat) : Render Nat :=
  Program.call (Op.loadOper index)

def storeOper (index value : Nat) : Render Unit :=
  Program.call (Op.storeOper index value)

def load (attr : Attr) (index : Nat) : Render ℚ≥0 :=
  Program.call (Op.load attr index)

def store (attr : Attr) (index : Nat) (value : ℚ≥0) : Render Unit :=
  Program.call (Op.store attr index value)

def getIdent (oid : Text) : Render (Option Text) :=
  Program.call (Op.getIdent oid)

def setIdent (oid value : Text) : Render Unit :=
  Program.call (Op.setIdent oid value)

/-- Raise an exception. -/
def raise {α : Type} : Render α :=
  Program.ask Op.raise fun answer => nomatch answer

/-- A result, or the exception. -/
def ofResult {α : Type} : Snmp.Result α → Render α
  | .ok a => Program.done a
  | .error _ => raise

end Render

/-- Every sample satisfies one predicate, every remembered identity another. -/
def readings (P : Text → ℤ → Prop) (Q : Text → Text → Prop) : Program.Contract Op Ans where
  asks
    | .setIdent oid v => Q oid v
    | _ => True
  answers
    | .sample name _ _, v => P name v
    | .getIdent oid, v => ∀ w ∈ v, Q oid w
    | _, _ => True

/-- The remembered identities satisfy `Q`. -/
def Remembers (Q : Text → Text → Prop) (memo : Dict Text Text) : Prop :=
  ∀ oid v, memo.get oid = some v → Q oid v

theorem Remembers.set {Q : Text → Text → Prop} {memo : Dict Text Text} (h : Remembers Q memo)
    {oid v : Text} (hv : Q oid v) : Remembers Q (memo.set oid v) := by
  intro oid' v' hget
  rw [Dict.get_set] at hget
  split at hget
  · rename_i heq
    cases hget
    exact heq ▸ hv
  · exact h oid' v' hget

/-! ## Rendering helpers -/

/-- The modulus of 32-bit columns. -/
def u32 : ℤ := 2 ^ 32

/-- Linear interpolation; every call has its bounds in order. -/
def lerp (a b r : ℚ≥0) : ℚ≥0 :=
  a + (b - a) * r

/-- An upper-case hexadecimal digit. -/
def hexChar (n : Nat) : Char :=
  "0123456789ABCDEF".toList.getD n '0'

/-- A binary value in walk encoding: quoted pairs, a space after each. -/
def hexBytes (raw : List Nat) : Text :=
  '"' :: raw.flatMap (fun b => [hexChar (b / 16), hexChar (b % 16), ' ']) ++ ['"']

theorem plain_getD {s : Text} (hs : Text.Plain s) (i : Nat) :
    Text.isLineBreak (s.getD i '0') = false := by
  rw [List.getD_eq_getElem?_getD]
  cases h : s[i]? with
  | none => rfl
  | some c => exact hs c (List.mem_of_getElem? h)

theorem plain_hexBytes (raw : List Nat) : Text.Plain (hexBytes raw) := by
  have hchar : ∀ n, Text.isLineBreak (hexChar n) = false := fun n =>
    plain_getD (by decide) n
  refine Text.Plain.append (Text.Plain.cons rfl fun c hc => ?_) (by decide)
  rcases List.mem_flatMap.mp hc with ⟨b, -, hc⟩
  simp only [List.mem_cons, List.not_mem_nil, or_false] at hc
  rcases hc with rfl | rfl | rfl
  · exact hchar _
  · exact hchar _
  · rfl

/-- The hardware address of an interface. -/
def mac (devSeed index : Nat) : Text :=
  hexBytes [0x00, 0x1B, 0x2C, devSeed % 256, index / 256 % 256, index % 256]

/-- The dotted text of an OID. -/
def oidText (oid : Oid) : Text :=
  oid.flatMap fun arc => '.' :: Text.decimal arc

/-- Written with digits and dots. -/
def Numeric (oid : Text) : Prop :=
  ∀ c ∈ oid, c.isDigit ∨ c = '.'

instance : DecidablePred Numeric :=
  List.decidableBAll fun c : Char => c.isDigit ∨ c = '.'

/-- The sort key of a row's OID. -/
def oidKey (oid : Text) : Option Oid :=
  ((Text.strip (· == '.') oid).splitOn '.').mapM Text.intOf

/-- The line of a row in a walk. -/
def rowLine (row : Row) : Text :=
  row.1 ++ ' ' :: row.2 ++ ['\n']

/-- The order of the lines of a walk. -/
def rowLe (a b : Row) : Prop :=
  (oidKey a.1).getD [] ≤ (oidKey b.1).getD []

instance : DecidableRel rowLe := fun a b =>
  inferInstanceAs (Decidable ((oidKey a.1).getD [] ≤ (oidKey b.1).getD []))

/-- The numerically sorted lines of the rows. -/
def renderWalk (rows : List Row) : Snmp.Result Text :=
  if rows.all fun row => (oidKey row.1).isSome then .ok ((rows.insertionSort rowLe).flatMap rowLine)
  else .error .valueError

/-- A rendered walk is made of the lines of a permutation of its rows. -/
theorem renderWalk_eq_ok {rows : List Row} {text : Text} (h : renderWalk rows = .ok text) :
    ∃ sorted : List Row, sorted.Perm rows ∧ text = sorted.flatMap rowLine := by
  unfold renderWalk at h
  split at h
  · cases h
    exact ⟨_, List.perm_insertionSort _ rows, rfl⟩
  · cases h

theorem dot_notMem_decimal (arc : Nat) : '.' ∉ Text.decimal arc := fun h =>
  absurd (Text.isDigit_of_mem_decimal h) (by decide)

/-- The numerals of an OID, joined by dots. -/
def joined (oid : Oid) : Text :=
  ['.'].intercalate (oid.map Text.decimal)

theorem joined_cons (arc next : Nat) (oid : Oid) :
    joined (arc :: next :: oid) = Text.decimal arc ++ '.' :: joined (next :: oid) := by
  simp [joined, List.intercalate]

/-- A dotted text is its joined numerals after one more dot. -/
theorem oidText_eq_joined (arc : Nat) (oid : Oid) :
    oidText (arc :: oid) = '.' :: joined (arc :: oid) := by
  induction oid generalizing arc with
  | nil => simp [oidText, joined, List.intercalate]
  | cons next oid ih =>
      have hnext := ih next
      rw [oidText, List.flatMap_cons, ← oidText, hnext, joined_cons]
      rfl

/-- Joined numerals start with a digit. -/
theorem joined_head (arc : Nat) (oid : Oid) :
    ∀ c, (joined (arc :: oid)).head? = some c → c.isDigit := by
  have htail : ∃ tail, joined (arc :: oid) = Text.decimal arc ++ tail := by
    cases oid with
    | nil => exact ⟨[], by simp [joined, List.intercalate]⟩
    | cons next oid => exact ⟨_, joined_cons arc next oid⟩
  rcases htail with ⟨tail, htail⟩
  intro c hc
  cases hdigits : Text.decimal arc with
  | nil => exact absurd hdigits (Text.decimal_ne_nil arc)
  | cons d ds =>
      rw [htail, hdigits, List.cons_append, List.head?_cons, Option.some.injEq] at hc
      exact Text.isDigit_of_mem_decimal (n := arc) (by rw [hdigits, hc]; exact List.mem_cons_self)

/-- Joined numerals end with a digit. -/
theorem joined_getLast (arc : Nat) (oid : Oid) :
    ∀ c, (joined (arc :: oid)).getLast? = some c → c.isDigit := by
  induction oid generalizing arc with
  | nil =>
      intro c hc
      simp only [joined, List.map_cons, List.map_nil, List.intercalate, List.intersperse,
        List.flatten_cons, List.flatten_nil, List.append_nil] at hc
      exact Text.isDigit_of_mem_decimal (List.mem_of_getLast? hc)
  | cons next oid ih =>
      intro c hc
      have hne : joined (next :: oid) ≠ [] := by
        intro hnil
        have hcons := oidText_eq_joined next oid
        rw [hnil, oidText, List.flatMap_cons] at hcons
        simp [Text.decimal_ne_nil] at hcons
      rw [joined_cons, List.getLast?_append, List.getLast?_cons,
        List.getLast?_eq_some_getLast hne] at hc
      simp only [Option.getD_some, Option.some_or, Option.some.injEq] at hc
      exact ih next c (hc ▸ List.getLast?_eq_some_getLast hne)

/-- Joined numerals are cut at the dots and read back. -/
theorem mapM_splitOn_joined (arc : Nat) (oid : Oid) :
    ((joined (arc :: oid)).splitOn '.').mapM Text.intOf = some (arc :: oid) := by
  have hread : ∀ l : List Nat, (l.map Text.decimal).mapM Text.intOf = some l := by
    intro l
    induction l with
    | nil => rfl
    | cons n l ih => simp [Text.intOf_decimal, ih]
  have hdots : ∀ l ∈ (arc :: oid).map Text.decimal, '.' ∉ l := by
    intro l hl
    rcases List.mem_map.mp hl with ⟨n, -, rfl⟩
    exact dot_notMem_decimal n
  rw [joined, List.splitOn_intercalate '.' hdots (by simp), hread]

theorem numeric_oidText (oid : Oid) : Numeric (oidText oid) := by
  intro c h
  rcases List.mem_flatMap.mp h with ⟨arc, -, hc⟩
  rcases List.mem_cons.mp hc with rfl | hc
  · exact Or.inr rfl
  · exact Or.inl (Text.isDigit_of_mem_decimal hc)

theorem beq_dot_of_isDigit {c : Char} (h : c.isDigit) : (c == '.') = false := by
  refine beq_eq_false_iff_ne.mpr fun hdot => ?_
  rw [hdot] at h
  exact absurd h (by decide)

/-- Stripping takes the first dot of a dotted text and else only what stands behind it. -/
theorem strip_oidText_append (arc : Nat) (oid : Oid) (rest : Text) :
    ∃ rest', rest' <+: rest ∧
      Text.strip (· == '.') (Text.strip Text.isSpace (oidText (arc :: oid) ++ rest)) =
        joined (arc :: oid) ++ rest' := by
  have hfirst : ∀ c, (joined (arc :: oid)).head? = some c → (c == '.') = false :=
    fun c hc => beq_dot_of_isDigit (joined_head arc oid c hc)
  have hlast : ∀ c, (joined (arc :: oid)).getLast? = some c → (c == '.') = false :=
    fun c hc => beq_dot_of_isDigit (joined_getLast arc oid c hc)
  have hlast' : ∀ c, (oidText (arc :: oid)).getLast? = some c → Text.isSpace c = false := by
    intro c hc
    rcases numeric_oidText _ c (List.mem_of_getLast? hc) with hdigit | rfl
    · exact Text.isSpace_of_isDigit hdigit
    · rfl
  rcases Text.strip_append Text.isSpace (a := oidText (arc :: oid)) (b := rest)
    (by rw [oidText_eq_joined]; rintro c ⟨⟩; rfl) hlast' (by simp [oidText])
    with ⟨rest₁, hpre₁, hstrip₁⟩
  rcases Text.strip_append (· == '.') (a := joined (arc :: oid)) (b := rest₁)
    hfirst hlast (by
      intro hnil
      have hread := mapM_splitOn_joined arc oid
      rw [hnil] at hread
      exact absurd hread (by simp [Text.intOf])) with ⟨rest₂, hpre₂, hstrip₂⟩
  refine ⟨rest₂, hpre₂.trans hpre₁, ?_⟩
  rw [hstrip₁, oidText_eq_joined, List.cons_append, Text.strip_cons (by rfl), hstrip₂]

/-- A dotted OID is read back. -/
theorem parseOid_oidText (arc : Nat) (oid : Oid) :
    parseOid (oidText (arc :: oid)) = .ok (arc :: oid) := by
  rcases strip_oidText_append arc oid [] with ⟨rest, hrest, hstrip⟩
  rw [List.append_nil, List.prefix_nil.mp hrest, List.append_nil] at hstrip
  simp only [parseOid, hstrip, mapM_splitOn_joined]

/-- What is read from a dotted OID, a dot and more starts with that OID. -/
theorem prefix_of_parseOid {arc : Nat} {oid arcs : Oid} {rest : Text}
    (h : parseOid (oidText (arc :: oid) ++ '.' :: rest) = .ok arcs) : arc :: oid <+: arcs := by
  rcases strip_oidText_append arc oid ('.' :: rest) with ⟨rest', hrest', hstrip⟩
  simp only [parseOid, hstrip] at h
  cases rest' with
  | nil =>
      rw [List.append_nil, mapM_splitOn_joined] at h
      cases h
      exact List.prefix_rfl
  | cons c tail =>
      rw [(List.cons_prefix_cons.mp hrest').1, List.splitOn_append_cons_self, List.mapM_append,
        mapM_splitOn_joined] at h
      cases htail : (tail.splitOn '.').mapM Text.intOf with
      | none => simp [htail] at h
      | some more =>
          simp only [htail, Option.bind_eq_bind, Option.bind_some, Option.pure_def] at h
          cases h
          exact List.prefix_append _ _

end Netsim
end DemoEstate
