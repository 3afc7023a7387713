import DemoEstate.Netsim.RowOrder
import DemoEstate.Walklib.Addresses

/-!
# Replaying a curated walk

Curating rewrites the names, the serial numbers and the hardware addresses of a recorded walk, and
sorts its rows.  What the simulator counts when it replays the walk is what it would count for the
rows as they were recorded.

Main definitions:

- Definition {lit}`kept`: the rows that curating keeps, as recorded.
- Definition {lit}`KeepsNumbers`: a replacement that leaves numbers alone.
- Structure {lit}`Regular`: rows as an agent gives them.

Main results:

- Theorems {lit}`scrubValue_of_numberText` and {lit}`scrubValue_of_digitText`: a scrub changes no
  number, and makes none.
- Theorem {lit}`off_of_handling`: what is rewritten without a scrub is no counter.
- Theorem {lit}`sameNumbers_curateRow`: a curated row has the numbers of the recorded one.
- Theorem {lit}`countsAlike_of_curate`: the curated walk counts like the recorded rows.
-/

namespace DemoEstate
namespace Walklib

open Netsim (ReplayModel behind behind_eq_some columnArc hrcpuPrefix hruptimeOid if32 ifTablePrefix
  ifXTablePrefix ifhc ifhighspeedPrefix ifspeedPrefix oidText pagesPrefix statedRate ucdPrefix
  uptimeOid)
open Netsim.ReplayModel (CountsAlike OffCounters SameNumbers behind_none_of_apart counterAt
  counterAt_of_off counterOf countsAlike_of_perm offCounters_of_isPrefix ofRows
  ofRows_eq_parsed)
open Snmp (Oid Row)
open Tokens

/-! ## Numbers in a text -/

/-- A character of a number or of a time. -/
def isNumberChar (c : Char) : Bool :=
  c.isDigit || c == ':' || c == '.' || Text.isSpace c

/-- Digits, colons, blanks, and two dots at most: too few for an address. -/
def NumberText (t : Text) : Prop :=
  (∀ c ∈ t, isNumberChar c = true) ∧ t.count '.' ≤ 2

/-- Digits and blanks. -/
def DigitText (t : Text) : Prop :=
  ∀ c ∈ t, (c.isDigit || Text.isSpace c) = true

/-- A replacement that changes no number and makes none. -/
structure KeepsNumbers (sub : Text → Text) : Prop where
  number : ∀ t, NumberText t → sub t = t
  digit : ∀ t, DigitText (sub t) → sub t = t

/-- A name that is not replaced at all, or has a letter. -/
def Lettered (name : Text) : Prop :=
  name.length < 3 ∨ ∃ c ∈ name, c.isAlpha = true

section Numbers

variable {sha256 : Text → Vector UInt8 32} {name model t value : Text} {subs : List (Text → Text)}

theorem DigitText.numberText (h : DigitText t) : NumberText t := by
  constructor
  · intro c hc
    have hdigit := h c hc
    rw [Bool.or_eq_true] at hdigit
    rw [isNumberChar]
    rcases hdigit with hdigit | hspace
    · simp [hdigit]
    · simp [hspace]
  · have hdot : '.' ∉ t := fun hmem => absurd (h '.' hmem) (by decide)
    rw [List.count_eq_zero.mpr hdot]
    exact Nat.zero_le 2

theorem digitText_of_intOf {n : Nat} (h : Text.intOf t = some n) : DigitText t := by
  unfold Text.intOf at h
  split at h
  · rename_i hall
    intro c hc
    rw [List.all_eq_true.mp hall.2 c hc, Bool.true_or]
  · cases h

/-- A letter is folded to a letter. -/
theorem not_isNumberChar_fold {c : Char} (hc : c.isAlpha = true) :
    isNumberChar (fold c) = false := by
  have hletters : ∀ i : Fin 128, (Char.ofNat i).isAlpha = true →
      isNumberChar (fold (Char.ofNat i)) = false := by decide +kernel
  have hlt : c.toNat < 128 := by
    have hcases : c.isUpper = true ∨ c.isLower = true := (Bool.or_eq_true _ _).mp hc
    rcases hcases with hupper | hlower
    · have hrange : c.val ≥ 'A'.val ∧ c.val ≤ 'Z'.val := of_decide_eq_true hupper
      exact lt_of_le_of_lt (UInt32.le_iff_toNat_le.mp hrange.2) (by decide)
    · have hle := (of_decide_eq_true ((Bool.and_eq_true _ _).mp hlower).2 : c.val ≤ 'z'.val)
      exact lt_of_le_of_lt (UInt32.le_iff_toNat_le.mp hle) (by decide)
  have hfolded := hletters ⟨c.toNat, hlt⟩
  rw [Char.ofNat_toNat] at hfolded
  exact hfolded hc

theorem fold_of_isDigit {c : Char} (hc : c.isDigit = true) : fold c = c := by
  have hdigits : ∀ i : Fin 128, (Char.ofNat i).isDigit = true →
      fold (Char.ofNat i) = Char.ofNat i := by decide +kernel
  have hlt : c.toNat < 128 := by
    simp only [Char.isDigit, Bool.and_eq_true, decide_eq_true_eq, ge_iff_le,
      UInt32.le_iff_toNat_le] at hc
    exact lt_of_le_of_lt hc.2 (by decide)
  have hfolded := hdigits ⟨c.toNat, hlt⟩
  rw [Char.ofNat_toNat] at hfolded
  exact hfolded hc

theorem fold_of_isSpace {c : Char} (hc : Text.isSpace c = true) : fold c = c := by
  have hspaces : ∀ d ∈ [' ', '\t', '\n', '\x0b', '\x0c', '\r', '\x1c', '\x1d', '\x1e', '\x1f',
      '\x85', '\xa0', '\u1680', '\u2000', '\u2001', '\u2002', '\u2003', '\u2004', '\u2005',
      '\u2006', '\u2007', '\u2008', '\u2009', '\u200a', '\u2028', '\u2029', '\u202f', '\u205f',
      '\u3000'], fold d = d := List.all_iff_forall_prop.mp (by decide +kernel)
  exact hspaces c (of_decide_eq_true hc)

/-- The characters of a number are not folded. -/
theorem fold_of_isNumberChar {c : Char} (hc : isNumberChar c = true) : fold c = c := by
  simp only [isNumberChar, Bool.or_eq_true, beq_iff_eq] at hc
  rcases hc with ((hdigit | rfl) | rfl) | hspace
  · exact fold_of_isDigit hdigit
  · rfl
  · rfl
  · exact fold_of_isSpace hspace

/-- No character of a number is matched by a letter. -/
theorem fold_ne_of_isAlpha {c d : Char} (hc : c.isAlpha = true) (hd : isNumberChar d = true) :
    fold d ≠ fold c := by
  intro heq
  have hletter := not_isNumberChar_fold hc
  rw [← heq, fold_of_isNumberChar hd, hd] at hletter
  cases hletter

/-- Where a pattern needs another character, it matches nothing in a number. -/
theorem replace_of_numberText {p : List Atom} {c : Char} (hc : .char c ∈ p)
    (hnot : isNumberChar c = false) (write : Text → Text) (h : NumberText t) :
    replace (matchLength p) write t = t := by
  apply replace_eq_self
  apply puts_eq_nil
  intro last s hs n htoken
  have hmem := h.1 c (exists_suffix_char hc hs htoken).2
  rw [hnot] at hmem
  cases hmem

theorem scrubName_of_numberText (hname : Lettered name) (h : NumberText t) :
    scrubName name model t = t := by
  unfold scrubName
  split
  · rename_i hlong
    rcases hname with hshort | ⟨c, hc, halpha⟩
    · exact absurd hlong (not_le.mpr hshort)
    apply replace_eq_self
    apply puts_eq_nil
    intro last s hs n htoken
    unfold wordToken at htoken
    split at htoken
    · rename_i hstarts
      rcases List.mem_map.mp (hstarts.subset (List.mem_map_of_mem hc)) with ⟨d, hd, heq⟩
      exact fold_ne_of_isAlpha halpha (h.1 d (hs.subset hd)) heq
    · cases htoken
  · rfl

/-- An address has three dots. -/
theorem scrubIps_of_numberText (h : NumberText t) : scrubIps sha256 t = t := by
  apply replace_eq_self
  apply puts_eq_nil
  intro last s hs n htoken
  rw [reIp_eq, matchLength] at htoken
  split at htoken
  · cases htoken
  · rcases matchLength_dottedGroups.mp htoken with ⟨a, rest, rfl, ha, -⟩
    have hsub : a.Sublist t := (List.sublist_append_left a rest).trans hs.sublist
    have hle := hsub.count_le '.'
    rw [ha.count_dot] at hle
    exact absurd (hle.trans h.2) (by decide)

theorem scrubText_of_numberText (hname : Lettered name) (h : NumberText t) :
    scrubText sha256 name model [] t = t := by
  have hemails : scrubEmails t = t :=
    replace_of_numberText (c := '@') (by simp [reEmail]) (by decide) _ h
  have hserials : scrubSerials t = t :=
    replace_of_numberText (c := 'S') (by simp [reSn]) (by decide) _ h
  rw [scrubText, List.foldl_nil, scrubName_of_numberText hname h, hemails, hserials,
    scrubIps_of_numberText h]

theorem foldl_of_numberText (hsubs : ∀ sub ∈ subs, KeepsNumbers sub) (h : NumberText t) :
    subs.foldl (fun t sub => sub t) t = t := by
  induction subs with
  | nil => rfl
  | cons sub subs ih =>
      rw [List.foldl_cons, (hsubs sub List.mem_cons_self).number t h]
      exact ih fun sub' hsub' => hsubs sub' (List.mem_cons_of_mem _ hsub')

theorem foldl_of_digitText (hsubs : ∀ sub ∈ subs, KeepsNumbers sub)
    (h : DigitText (subs.foldl (fun t sub => sub t) t)) :
    subs.foldl (fun t sub => sub t) t = t := by
  induction subs generalizing t with
  | nil => rfl
  | cons sub subs ih =>
      rw [List.foldl_cons] at h ⊢
      have hrest : subs.foldl (fun t sub => sub t) (sub t) = sub t :=
        ih (fun sub' hsub' => hsubs sub' (List.mem_cons_of_mem _ hsub')) h
      rw [hrest] at h ⊢
      exact (hsubs sub List.mem_cons_self).digit t h

theorem decodeHex_of_notMem_quote (h : '"' ∉ t) : decodeHex t = none := by
  cases t with
  | nil => rfl
  | cons c t =>
      have hne : c ≠ '"' := fun heq => h (heq ▸ List.mem_cons_self)
      have hquoted : quotedBytes (c :: t) = none := by
        unfold quotedBytes
        split
        · rename_i heq
          cases heq
          exact absurd rfl hne
        · rfl
      rw [decodeHex, hquoted, Option.bind_none]

/-- A number is scrubbed to itself. -/
theorem scrubValue_of_numberText (hname : Lettered name)
    (hsubs : ∀ sub ∈ subs, KeepsNumbers sub) (h : NumberText value) :
    scrubValue sha256 value name model subs = value := by
  have hquote : '"' ∉ value := fun hmem => absurd (h.1 _ hmem) (by decide)
  rw [scrubValue, decodeHex_of_notMem_quote hquote]
  have hbase : scrubText sha256 name model subs value =
      subs.foldl (fun t sub => sub t) (scrubText sha256 name model [] value) := rfl
  dsimp only
  rw [hbase, scrubText_of_numberText hname h, foldl_of_numberText hsubs h]

/-- A value that is scrubbed to a number was that number. -/
theorem scrubValue_of_digitText (hsubs : ∀ sub ∈ subs, KeepsNumbers sub)
    (h : DigitText (scrubValue sha256 value name model subs)) :
    scrubValue sha256 value name model subs = value := by
  unfold scrubValue at h ⊢
  split at h
  · rename_i decoded _
    dsimp only at h ⊢
    split at h
    · rename_i hsame
      rw [if_pos hsame]
    · exact absurd (h '"' List.mem_cons_self) (by decide)
  · have hbase : scrubText sha256 name model subs value =
        subs.foldl (fun t sub => sub t) (scrubText sha256 name model [] value) := rfl
    rw [hbase] at h ⊢
    have hkept := foldl_of_digitText hsubs h
    rw [hkept] at h ⊢
    refine scrubText_eq_self_of_forall h ?_
    simp only [List.forall_mem_cons]
    exact ⟨by decide, by decide, by decide, by decide, fun _ hc => absurd hc List.not_mem_nil⟩

/-- What is read only from numbers is read alike from a scrubbed value. -/
theorem reads_scrubValue {α : Type} {read : Text → Option α} (hname : Lettered name)
    (hsubs : ∀ sub ∈ subs, KeepsNumbers sub)
    (hread : ∀ t a, read t = some a → DigitText t) :
    read (scrubValue sha256 value name model subs) = read value := by
  cases hnew : read (scrubValue sha256 value name model subs) with
  | some a => rw [← scrubValue_of_digitText hsubs (hread _ a hnew), hnew]
  | none =>
      by_contra hne
      rcases Option.ne_none_iff_exists'.mp (Ne.symm hne) with ⟨a, hold⟩
      rw [scrubValue_of_numberText hname hsubs (hread _ a hold).numberText, hold] at hnew
      cases hnew

theorem digitText_of_strip {n : Nat} (h : Text.intOf (Text.strip Text.isSpace t) = some n) :
    DigitText t := by
  have hstripped := digitText_of_intOf h
  have hdrop : ∀ s : Text, ∀ c ∈ s, c ∈ s.dropWhile Text.isSpace ∨ Text.isSpace c = true := by
    intro s c hc
    rw [← List.takeWhile_append_dropWhile (p := Text.isSpace) (l := s), List.mem_append] at hc
    exact hc.symm.imp_right List.mem_takeWhile_imp
  intro c hc
  rw [Bool.or_eq_true]
  rcases hdrop t c hc with hc | hspace
  · rcases hdrop _ c (List.mem_reverse.mpr hc) with hc | hspace
    · exact (Bool.or_eq_true _ _).mp (hstripped c (List.mem_reverse.mpr hc))
    · exact Or.inr hspace
  · exact Or.inr hspace

end Numbers

/-! ## Rows -/

/-- Nothing is counted, stated or timed under the OID. -/
structure Off (oid : Text) : Prop where
  counter : ∀ number, counterAt oid number = none
  stated : behind ifhighspeedPrefix oid = none ∧ behind ifspeedPrefix oid = none
  time : oid ≠ uptimeOid ∧ oid ≠ hruptimeOid

section Rows

variable {sha256 : Text → Vector UInt8 32} {name model value oid : Text}
  {subs : List (Text → Text)} {row : Row}

theorem Off.sameNumbers (h : Off row.1) (value : Text) : SameNumbers row (row.1, value) where
  oid_eq := rfl
  counter_eq := by rw [counterOf, counterOf, h.counter, h.counter]
  stated_eq := by
    unfold statedRate
    rw [h.stated.1, h.stated.2]
  time_eq := fun htime => absurd htime (not_or.mpr h.time)

/-- A scrubbed row has the numbers of the recorded one. -/
theorem sameNumbers_scrub (hname : Lettered name) (hsubs : ∀ sub ∈ subs, KeepsNumbers sub)
    (htime : row.1 = uptimeOid ∨ row.1 = hruptimeOid → NumberText row.2) :
    SameNumbers row (row.1, scrubValue sha256 row.2 name model subs) where
  oid_eq := rfl
  counter_eq := by
    have hread : Text.intOf (scrubValue sha256 row.2 name model subs) = Text.intOf row.2 :=
      reads_scrubValue hname hsubs fun _ _ => digitText_of_intOf
    rw [counterOf, counterOf, hread]
  stated_eq := by
    have hdigits : ∀ t n, Text.intOf (Text.strip Text.isSpace t) = some n → DigitText t :=
      fun _ _ => digitText_of_strip
    have hread : Text.intOf (Text.strip Text.isSpace (scrubValue sha256 row.2 name model subs)) =
        Text.intOf (Text.strip Text.isSpace row.2) := reads_scrubValue hname hsubs hdigits
    unfold statedRate
    rw [hread]
  time_eq := fun h => scrubValue_of_numberText hname hsubs (htime h)

/-- What is not behind a prefix is not behind a longer one. -/
theorem behind_of_shorter {p q : Oid} (hpq : oidText p ++ ['.'] <+: oidText q ++ ['.'])
    (h : behind p oid = none) : behind q oid = none := by
  by_contra hne
  rcases Option.ne_none_iff_exists'.mp hne with ⟨rest, hrest⟩
  have hstarts : (oidText p ++ ['.']).isPrefixOf oid = true := by
    rw [List.isPrefixOf_iff_prefix, behind_eq_some hrest, List.append_cons (oidText q)]
    exact hpq.trans (List.prefix_append _ _)
  rw [behind, if_pos hstarts] at h
  cases h

/-- The line rates stand in the interface tables. -/
theorem behind_ifspeed (h : behind ifTablePrefix oid = none) : behind ifspeedPrefix oid = none :=
  behind_of_shorter (by decide +kernel) h

theorem behind_ifhighspeed (h : behind ifXTablePrefix oid = none) :
    behind ifhighspeedPrefix oid = none :=
  behind_of_shorter (by decide +kernel) h

theorem ne_times_of_isPrefix {p : Text} (h : p <+: oid)
    (hp : ¬ p <+: uptimeOid ∧ ¬ p <+: hruptimeOid) : oid ≠ uptimeOid ∧ oid ≠ hruptimeOid := by
  constructor
  · rintro rfl
    exact hp.1 h
  · rintro rfl
    exact hp.2 h

theorem off_of_offCounters (h : OffCounters oid) (htime : oid ≠ uptimeOid ∧ oid ≠ hruptimeOid) :
    Off oid where
  counter := counterAt_of_off h
  stated := ⟨behind_ifhighspeed (h _ (by simp)), behind_ifspeed (h _ (by simp))⟩
  time := htime

/-- The column of an OID with one index arc. -/
theorem columnArc_indexed {p q index : Text} (hp : p = q ++ ['.']) (hindex : '.' ∉ index) :
    columnArc (p ++ index) = Netsim.lastArc q := by
  have hsingle : index.splitOn '.' = [index] :=
    List.splitOnP_eq_singleton fun c hc => beq_false_of_ne fun heq => hindex (heq ▸ hc)
  rw [hp, List.append_assoc, List.singleton_append, columnArc, List.splitOn_append_cons_self,
    hsingle, List.reverse_append, List.reverse_singleton, List.singleton_append]
  rfl

/-- No counter stands in the other columns of the interface tables. -/
theorem counterAt_of_column (hucd : behind ucdPrefix oid = none)
    (hpages : behind pagesPrefix oid = none)
    (h32 : behind ifTablePrefix oid = none ∨ if32.lookup (columnArc oid) = none)
    (hhc : behind ifXTablePrefix oid = none ∨ ifhc.lookup (columnArc oid) = none)
    (number : Option Nat) : counterAt oid number = none := by
  have hlow : (if (behind ifTablePrefix oid).isSome then
      ReplayModel.empty.ifCounter .ctr32 if32 oid number else none) = none := by
    rcases h32 with hoff | hcolumn
    · rw [hoff]
      rfl
    · simp [ReplayModel.ifCounter, hcolumn]
  have hhigh : (if (behind ifXTablePrefix oid).isSome then
      ReplayModel.empty.ifCounter .ctr64 ifhc oid number else none) = none := by
    rcases hhc with hoff | hcolumn
    · rw [hoff]
      rfl
    · simp [ReplayModel.ifCounter, hcolumn]
  simp only [counterAt, ReplayModel.ucdCounter, ReplayModel.tableSlot, hucd, hpages, hlow, hhigh]
  cases behind hrcpuPrefix oid <;> cases number <;> rfl

/-- The rows of the alias column. -/
theorem off_ifAlias {index : Text} (hindex : '.' ∉ index) : Off (ifAliasPrefix ++ index) := by
  have hstarts : ifAliasPrefix <+: ifAliasPrefix ++ index := List.prefix_append _ _
  have hif : behind ifTablePrefix (ifAliasPrefix ++ index) = none :=
    behind_none_of_apart hstarts (by decide +kernel)
  have hcolumn : ifhc.lookup (columnArc (ifAliasPrefix ++ index)) = none := by
    rw [columnArc_indexed (q := ifAliasPrefix.dropLast) (by decide +kernel) hindex]
    decide +kernel
  constructor
  · exact counterAt_of_column (behind_none_of_apart hstarts (by decide +kernel))
      (behind_none_of_apart hstarts (by decide +kernel)) (Or.inl hif) (Or.inr hcolumn)
  · exact ⟨behind_none_of_apart hstarts (by decide +kernel), behind_ifspeed hif⟩
  · exact ne_times_of_isPrefix hstarts (by decide +kernel)

/-- The rows of the column of hardware addresses. -/
theorem off_ifPhys {index : Text} (hindex : '.' ∉ index) : Off (ifPhysPrefix ++ index) := by
  have hstarts : ifPhysPrefix <+: ifPhysPrefix ++ index := List.prefix_append _ _
  have hifX : behind ifXTablePrefix (ifPhysPrefix ++ index) = none :=
    behind_none_of_apart hstarts (by decide +kernel)
  have hcolumn : if32.lookup (columnArc (ifPhysPrefix ++ index)) = none := by
    rw [columnArc_indexed (q := ifPhysPrefix.dropLast) (by decide +kernel) hindex]
    decide +kernel
  constructor
  · exact counterAt_of_column (behind_none_of_apart hstarts (by decide +kernel))
      (behind_none_of_apart hstarts (by decide +kernel)) (Or.inr hcolumn) (Or.inl hifX)
  · exact ⟨behind_ifhighspeed hifX, behind_none_of_apart hstarts (by decide +kernel)⟩
  · exact ne_times_of_isPrefix hstarts (by decide +kernel)

/-- The columns of serial numbers. -/
theorem off_serial {p : Text} (hp : p ∈ serialPrefixes) (hstarts : p <+: oid) : Off oid := by
  have hapart : ∀ p ∈ serialPrefixes, Netsim.ReplayModel.Apart p := by decide +kernel
  have htime : ∀ p ∈ serialPrefixes, ¬ p <+: uptimeOid ∧ ¬ p <+: hruptimeOid := by decide +kernel
  exact off_of_offCounters (offCounters_of_isPrefix hstarts (hapart p hp))
    (ne_times_of_isPrefix hstarts (htime p hp))

theorem off_fixed : ∀ oid ∈ [sysNameOid, sysContactOid, sysLocationOid], Off oid := by
  have hoff : ∀ oid ∈ [sysNameOid, sysContactOid, sysLocationOid],
      OffCounters oid ∧ oid ≠ uptimeOid ∧ oid ≠ hruptimeOid := by decide
  exact fun oid hoid => off_of_offCounters (hoff oid hoid).1 (hoff oid hoid).2

/-- A single arc stands behind the columns that curating rewrites. -/
def Indexed (oid : Text) : Prop :=
  ∀ q ∈ [ifAliasPrefix, ifPhysPrefix], q <+: oid → '.' ∉ oid.drop q.length

instance (oid : Text) : Decidable (Indexed oid) :=
  inferInstanceAs (Decidable (∀ q ∈ [ifAliasPrefix, ifPhysPrefix], q <+: oid →
    '.' ∉ oid.drop q.length))

/-- Where a value is not scrubbed, nothing is counted. -/
theorem off_of_handling (hindexed : Indexed oid) (h : handling oid ≠ .scrub) : Off oid := by
  unfold handling at h
  split at h
  · rename_i hsys
    exact hsys ▸ off_fixed _ (by simp)
  split at h
  · rename_i hcontact
    exact hcontact ▸ off_fixed _ (by simp)
  split at h
  · rename_i hlocation
    exact hlocation ▸ off_fixed _ (by simp)
  split at h
  · rename_i halias
    rcases List.isPrefixOf_iff_prefix.mp halias with ⟨index, rfl⟩
    have hindex := hindexed ifAliasPrefix (by simp) (List.prefix_append _ _)
    rw [List.drop_left] at hindex
    exact off_ifAlias hindex
  split at h
  · rename_i hphys
    rcases List.isPrefixOf_iff_prefix.mp hphys with ⟨index, rfl⟩
    have hindex := hindexed ifPhysPrefix (by simp) (List.prefix_append _ _)
    rw [List.drop_left] at hindex
    exact off_ifPhys hindex
  split at h
  · rename_i hserial
    rcases List.any_eq_true.mp hserial with ⟨p, hp, hstarts⟩
    exact off_serial hp (List.isPrefixOf_iff_prefix.mp hstarts)
  · exact absurd rfl h

/-- The rows that curating keeps, as recorded. -/
def kept (cfg : Config) (rows : List Row) : List Row :=
  rows.filter fun row => !stripped cfg row.1

/-- Rows as an agent gives them: one for each OID, one index in the columns that are rewritten, and
times in digits; and overrides and replacements that leave the numbers alone. -/
structure Regular (cfg : Config) (rows : List Row) : Prop where
  nodup : (rows.map Prod.fst).Nodup
  indexed : ∀ row ∈ rows, Indexed row.1
  timed : ∀ row ∈ rows, row.1 = uptimeOid ∨ row.1 = hruptimeOid → NumberText row.2
  set : ∀ row ∈ rows, ∀ value, cfg.set.get row.1 = some value → SameNumbers row (row.1, value)
  sub : ∀ sub ∈ cfg.sub, KeepsNumbers sub

/-- A curated row has the numbers of the recorded one. -/
theorem sameNumbers_curateRow {cfg : Config} {rows : List Row} (h : Regular cfg rows)
    (hname : Lettered name) (hrow : row ∈ rows) :
    SameNumbers row
      (row.1, (cfg.set.get row.1).getD (curateValue sha256 model cfg name row)) := by
  cases hset : cfg.set.get row.1 with
  | some value => exact h.set row hrow value hset
  | none =>
      rw [Option.getD_none]
      by_cases hscrub : handling row.1 = .scrub
      · rw [curateValue, hscrub]
        exact sameNumbers_scrub hname h.sub (h.timed row hrow)
      · exact (off_of_handling (h.indexed row hrow) hscrub).sameNumbers _

/-- The rows of a curated walk are those kept, each with its new value, in another order. -/
theorem perm_of_curate {cfg : Config} {content : Text} {out : List Row}
    (h : curate sha256 model cfg content = some out) :
    out.Perm ((kept cfg (parseWalk content)).map fun row =>
      (row.1, (cfg.set.get row.1).getD
        (curateValue sha256 model cfg (sysName (parseWalk content)) row))) := by
  unfold curate at h
  dsimp only at h
  split at h
  · cases h
    refine (List.perm_insertionSort _ _).trans (List.Perm.of_eq ?_)
    rw [kept, ← List.filterMap_eq_map, List.filterMap_filter]
    apply List.filterMap_congr
    intro row _
    unfold curateRow
    cases stripped cfg row.1 <;> rfl
  · cases h

end Rows

/-- A curated walk counts like the recorded rows that were kept: the simulator loads it, and has
the same counters for it, with the same first values, rates and line rates. -/
theorem countsAlike_of_curate {sha256 : Text → Vector UInt8 32} {model content : Text}
    {cfg : Config} {out : List Row} {m : ReplayModel}
    (hregular : Regular cfg (kept cfg (parseWalk content)))
    (hname : Lettered (sysName (parseWalk content)))
    (hcurate : curate sha256 model cfg content = some out)
    (hload : ofRows (kept cfg (parseWalk content)) = .ok m) :
    ∃ m', ofRows out = .ok m' ∧ CountsAlike m m' :=
  countsAlike_of_perm (fun _ hrow => sameNumbers_curateRow hregular hname hrow)
    (perm_of_curate hcurate) hregular.nodup hload

/-- A walk with a counter, its line rate, an alias and the uptime. -/
def countedWalk : Text :=
  (".1.3.6.1.2.1.1.3.0 9:1:2:3.5\n.1.3.6.1.2.1.1.5.0 core\n" ++
    ".1.3.6.1.2.1.31.1.1.1.18.1 to core\n.1.3.6.1.2.1.31.1.1.1.6.1 7000\n" ++
    ".1.3.6.1.2.1.31.1.1.1.15.1 1000\n").toList

theorem countsAlike_of_curate_uplink : ∃ out m m',
    curate zeroDigest switchModel plainConfig countedWalk = some out ∧
      ofRows (kept plainConfig (parseWalk countedWalk)) = .ok m ∧
        ofRows out = .ok m' ∧ CountsAlike m m' := by
  have hrows : parseWalk countedWalk = [(".1.3.6.1.2.1.1.3.0".toList, "9:1:2:3.5".toList),
      (sysNameOid, coreName), (".1.3.6.1.2.1.31.1.1.1.18.1".toList, "to core".toList),
      (".1.3.6.1.2.1.31.1.1.1.6.1".toList, "7000".toList),
      (".1.3.6.1.2.1.31.1.1.1.15.1".toList, "1000".toList)] := by decide +kernel
  have hsome : (curate zeroDigest switchModel plainConfig countedWalk).isSome = true := by
    unfold curate
    rw [hrows]
    decide +kernel
  rcases Option.isSome_iff_exists.mp hsome with ⟨out, hout⟩
  have hkept : kept plainConfig (parseWalk countedWalk) = parseWalk countedWalk := by
    rw [hrows]
    decide +kernel
  have huptime : NumberText "9:1:2:3.5".toList :=
    ⟨List.all_eq_true.mp (by decide +kernel), by decide +kernel⟩
  have hregular : Regular plainConfig (kept plainConfig (parseWalk countedWalk)) := by
    rw [hkept, hrows]
    constructor
    · decide +kernel
    · decide +kernel
    · simp only [List.forall_mem_cons]
      refine ⟨fun _ => huptime, ?_, ?_, ?_, ?_, fun _ hrow => absurd hrow List.not_mem_nil⟩
      all_goals exact fun htime => absurd htime (by decide +kernel)
    · exact fun _ _ _ hset => nomatch hset
    · exact fun _ hsub => nomatch hsub
  have hname : Lettered (sysName (parseWalk countedWalk)) := by
    rw [hrows]
    exact Or.inr ⟨'c', by decide +kernel, rfl⟩
  have hload : ((ofRows (kept plainConfig (parseWalk countedWalk))).toOption).isSome = true := by
    rw [hrows]
    decide +kernel
  have hm := ofRows_eq_parsed hload
  rcases countsAlike_of_curate hregular hname hout hm with ⟨m', hm', hcounts⟩
  exact ⟨out, _, m', hout, hm, hm', hcounts⟩

end Walklib
end DemoEstate
