import DemoEstate.Fleet.Roster
import DemoEstate.Library.Dict
import DemoEstate.Library.Tokens

/-!
# The roster of the replayed devices

Every entry of the roster stands for some instances of a recorded walk.  Entries whose name
patterns share a prefix share its running index; an entry whose walk cannot be loaded is skipped.

Main definitions:

- Definition {lit}`buildReplayDevices`: the devices of a roster.
- Definition {lit}`devicesAt`: the devices of one of its entries.
- Definition {lit}`Stable`: every device is the one that its place has when all walks are loaded.
- Definition {lit}`Apart`: no two entries give one name.

Main results:

- Theorem {lit}`nameAt_eq`: a name is the running index between the two ends of its pattern.
- Theorem {lit}`stable_iff`: the devices are stable, if no skipped entry precedes a loaded one of its
  prefix, and only then.
- Theorem {lit}`identities_stable_iff`: when the devices are stable and their names are distinct.
-/

namespace DemoEstate
namespace Netsim

open Fleet (twoDigits)
open Tokens

/-! ## Entries and devices -/

/-- An entry of the roster. -/
structure RosterEntry where
  count : Nat
  pattern : Text
  modelName : Text
  role : Text
  locPattern : Text
  parent : Option Text

/-- What a device of the roster is made from, with its loaded walk. -/
structure RosterDevice (μ : Type) where
  short : Text
  model : μ
  role : Text
  location : Text
  parent : Option Text

/-- The part of a name pattern before its first brace. -/
def RosterEntry.namePrefix (entry : RosterEntry) : Text :=
  entry.pattern.takeWhile (· != '{')

/-- Replace a mark in a pattern. -/
def substitute (mark : String) (digits : Text) (pattern : Text) : Text :=
  replace (wordToken id mark.toList) (fun _ => digits) pattern

/-- The name that a pattern gives with a running index. -/
def nameAt (pattern : Text) (n : Nat) : Text :=
  substitute "{nnn:02d}" (twoDigits n) (substitute "{nn:02d}" (twoDigits n)
    (substitute "{n:02d}" (twoDigits n) pattern))

section Build

variable {μ : Type}

/-- The device of an entry with a running index. -/
def RosterEntry.deviceAt (entry : RosterEntry) (model : μ) (n : Nat) : RosterDevice μ where
  short := nameAt entry.pattern n
  model := model
  role := entry.role
  location := substitute "{n}" (Text.decimal n) entry.locPattern
  parent := entry.parent.map (substitute "{n:02d}" (twoDigits n))

/-- The first running index of an entry. -/
def RosterEntry.start (entry : RosterEntry) (nextIndex : Dict Text Nat) : Nat :=
  (nextIndex.get entry.namePrefix).getD 1

/- The walks that can be loaded. -/
variable (load : Text → Option μ)

/-- The devices of an entry, none if its walk cannot be loaded. -/
def RosterEntry.devices (entry : RosterEntry) (nextIndex : Dict Text Nat) : List (RosterDevice μ) :=
  match load entry.modelName with
  | none => []
  | some model => (List.range entry.count).map fun i =>
      entry.deviceAt model (entry.start nextIndex + i)

/-- Add the devices of an entry and move the running index of its prefix. -/
def addEntry (state : List (RosterDevice μ) × Dict Text Nat) (entry : RosterEntry) :
    List (RosterDevice μ) × Dict Text Nat :=
  match load entry.modelName with
  | none => state
  | some _ => (state.1 ++ entry.devices load state.2,
      state.2.set entry.namePrefix (entry.start state.2 + entry.count))

/-- The devices of a roster. -/
def buildReplayDevices (roster : List RosterEntry) : List (RosterDevice μ) :=
  (roster.foldl (addEntry load) ([], Dict.empty)).1

/-- The running indices behind some entries. -/
def nextIndexAfter (entries : List RosterEntry) : Dict Text Nat :=
  (entries.foldl (addEntry load) ([], Dict.empty)).2

/-- The devices of the entry at a place of the roster. -/
def devicesAt (roster : List RosterEntry) (k : Nat) : List (RosterDevice μ) :=
  match roster[k]? with
  | none => []
  | some entry => entry.devices load (nextIndexAfter load (roster.take k))

theorem devices_of_none {load : Text → Option μ} {entry : RosterEntry}
    (h : load entry.modelName = none) (nextIndex : Dict Text Nat) :
    entry.devices load nextIndex = [] := by
  rw [RosterEntry.devices, h]

theorem devices_of_some {load : Text → Option μ} {entry : RosterEntry} {model : μ}
    (h : load entry.modelName = some model) (nextIndex : Dict Text Nat) :
    entry.devices load nextIndex = (List.range entry.count).map fun i =>
      entry.deviceAt model (entry.start nextIndex + i) := by
  rw [RosterEntry.devices, h]

/-- The devices of a roster are those of its places. -/
theorem buildReplayDevices_eq (roster : List RosterEntry) :
    buildReplayDevices load roster = (List.range roster.length).flatMap (devicesAt load roster) := by
  induction roster using List.reverseRecOn with
  | nil => rfl
  | append_singleton roster entry ih =>
      have hearlier : ∀ k ∈ List.range roster.length,
          devicesAt load (roster ++ [entry]) k = devicesAt load roster k := by
        intro k hk
        have hlt := List.mem_range.mp hk
        rw [devicesAt, devicesAt, List.getElem?_append_left hlt, List.take_append_of_le_length hlt.le]
      have hlast : devicesAt load (roster ++ [entry]) roster.length =
          entry.devices load (nextIndexAfter load roster) := by
        simp [devicesAt]
      have hbuild : buildReplayDevices load (roster ++ [entry]) =
          buildReplayDevices load roster ++ entry.devices load (nextIndexAfter load roster) := by
        rw [buildReplayDevices, List.foldl_append, List.foldl_cons, List.foldl_nil, addEntry]
        split
        · rename_i hnone
          rw [devices_of_none hnone, List.append_nil, buildReplayDevices]
        · rfl
      rw [hbuild, ih, List.length_append, List.length_singleton, List.range_succ,
        List.flatMap_append, List.flatMap_singleton, hlast, List.flatMap_congr hearlier]

/-! ## Running indices -/

/-- The instances that the entries of a prefix have together, of those that meet a condition. -/
def counted (meets : RosterEntry → Bool) (name : Text) (entries : List RosterEntry) : Nat :=
  ((entries.filter fun entry => meets entry && entry.namePrefix == name).map RosterEntry.count).sum

theorem counted_append_singleton (meets : RosterEntry → Bool) (name : Text)
    (entries : List RosterEntry) (entry : RosterEntry) :
    counted meets name (entries ++ [entry]) = counted meets name entries +
      if meets entry = true ∧ entry.namePrefix = name then entry.count else 0 := by
  unfold counted
  by_cases h : meets entry = true ∧ entry.namePrefix = name
  · simp [h.1, h.2]
  · rw [if_neg h, List.filter_append, List.filter_cons, if_neg (by simpa using h)]
    simp

/-- Entries that meet the condition and those that do not make up all of them. -/
theorem counted_add_counted_not (meets : RosterEntry → Bool) (name : Text)
    (entries : List RosterEntry) :
    counted meets name entries + counted (fun entry => !meets entry) name entries =
      counted (fun _ => true) name entries := by
  induction entries using List.reverseRecOn with
  | nil => rfl
  | append_singleton entries entry ih =>
      simp only [counted_append_singleton]
      cases hmeets : meets entry <;> by_cases hname : entry.namePrefix = name <;>
        simp [hname] <;> omega

/-- The running index of a prefix moves by the loaded entries. -/
theorem getD_nextIndexAfter (entries : List RosterEntry) (name : Text) :
    ((nextIndexAfter load entries).get name).getD 1 =
      1 + counted (fun entry => (load entry.modelName).isSome) name entries := by
  induction entries using List.reverseRecOn with
  | nil => rfl
  | append_singleton entries entry ih =>
      rw [counted_append_singleton, nextIndexAfter, List.foldl_append, List.foldl_cons,
        List.foldl_nil, addEntry]
      split
      · rename_i hnone
        rw [if_neg (by simp [hnone]), Nat.add_zero, ← nextIndexAfter, ih]
      · rename_i model hsome
        rw [Dict.get_set]
        by_cases hname : entry.namePrefix = name
        · rw [if_pos hname, if_pos ⟨by simp [hsome], hname⟩, Option.getD_some, RosterEntry.start,
            hname, ← nextIndexAfter, ih]
          omega
        · rw [if_neg hname, if_neg (by simp [hname]), ← nextIndexAfter, ih, Nat.add_zero]

end Build

/-! ## Names -/

/-- The marks of a running index. -/
def marks : List String :=
  ["{n:02d}", "{nn:02d}", "{nnn:02d}"]

/-- A pattern with one running index. -/
def Indexed (pattern : Text) : Prop :=
  ∃ before after : Text, ∃ mark ∈ marks, pattern = before ++ (mark.toList ++ after) ∧
    '{' ∉ before ∧ '{' ∉ after

theorem brace_notMem_twoDigits (n : Nat) : '{' ∉ twoDigits n := by
  intro h
  rcases List.mem_append.mp h with h | h
  · exact absurd (List.eq_of_mem_replicate h) (by decide)
  · exact absurd (Text.isDigit_of_mem_decimal h) (by decide)

/-- A mark is not read where another one stands. -/
theorem substitute_of_ne {before after word other : Text} {mark : String} (digits : Text)
    (hmark : mark.toList = '{' :: word) (hbefore : '{' ∉ before) (hafter : '{' ∉ after)
    (hother : '{' ∉ other) (hne : ¬ word <+: other ++ after) :
    substitute mark digits (before ++ ('{' :: other ++ after)) =
      before ++ ('{' :: other ++ after) := by
  rw [substitute, hmark]
  exact replace_word_of_ne hbefore (by simp [hafter, hother]) hne

/-- A name is the running index between the two ends of its pattern. -/
theorem nameAt_eq {pattern : Text} (h : Indexed pattern) :
    ∃ before after : Text, ∀ n, nameAt pattern n = before ++ (twoDigits n ++ after) := by
  rcases h with ⟨before, after, mark, hmark, rfl, hbefore, hafter⟩
  refine ⟨before, after, fun n => ?_⟩
  have hown : ∀ {mark : String} {word : Text}, mark.toList = '{' :: word →
      substitute mark (twoDigits n) (before ++ ('{' :: word ++ after)) =
        before ++ (twoDigits n ++ after) := by
    intro mark word hmark
    rw [substitute, hmark]
    exact replace_word hbefore hafter
  have hdone : ∀ {mark : String} {word : Text}, mark.toList = '{' :: word →
      substitute mark (twoDigits n) (before ++ (twoDigits n ++ after)) =
        before ++ (twoDigits n ++ after) := by
    intro mark word hmark
    rw [substitute, hmark]
    exact replace_word_of_absent (by simp [hbefore, hafter, brace_notMem_twoDigits])
  have h₁ : "{n:02d}".toList = '{' :: ['n', ':', '0', '2', 'd', '}'] := rfl
  have h₂ : "{nn:02d}".toList = '{' :: ['n', 'n', ':', '0', '2', 'd', '}'] := rfl
  have h₃ : "{nnn:02d}".toList = '{' :: ['n', 'n', 'n', ':', '0', '2', 'd', '}'] := rfl
  simp only [marks, List.mem_cons, List.not_mem_nil, or_false] at hmark
  -- the marks before the pattern's own do not stand in it, those after it find no brace
  rcases hmark with rfl | rfl | rfl
  · rw [nameAt, h₁, hown h₁, hdone h₂, hdone h₃]
  · rw [nameAt, h₂, substitute_of_ne _ h₁ hbefore hafter (by decide) (by simp), hown h₂, hdone h₃]
  · rw [nameAt, h₃, substitute_of_ne _ h₁ hbefore hafter (by decide) (by simp),
      substitute_of_ne _ h₂ hbefore hafter (by decide) (by simp), hown h₃]

/-- One pattern gives different names with different indices. -/
theorem nameAt_injective {pattern : Text} (h : Indexed pattern) :
    Function.Injective (nameAt pattern) := by
  rcases nameAt_eq h with ⟨before, after, hname⟩
  intro m n heq
  rw [hname, hname, List.append_cancel_left_eq, List.append_cancel_right_eq] at heq
  exact Fleet.decimal_of_twoDigits heq

/-! ## Stable identities -/

section Stable

variable {μ : Type} (walklib : Text → μ) (available : Text → Bool) (roster : List RosterEntry)

/-- Load the available walks. -/
def loadFrom (name : Text) : Option μ :=
  if available name then some (walklib name) else none

/-- Load any walk. -/
def loadAll (name : Text) : Option μ :=
  some (walklib name)

/-- The same name, walk and parent. -/
def SameIdentity (a b : RosterDevice μ) : Prop :=
  a.short = b.short ∧ a.model = b.model ∧ a.parent = b.parent

/-- Every device is the one that its place has when all walks are loaded. -/
def Stable : Prop :=
  ∀ k i : Nat, ∀ dev ∈ (devicesAt (loadFrom walklib available) roster k)[i]?,
    ∃ dev' ∈ (devicesAt (loadAll walklib) roster k)[i]?, SameIdentity dev dev'

/-- No skipped entry precedes a loaded one of its prefix, unless one of them has no instances. -/
def KeepsPlaces : Prop :=
  roster.Pairwise fun earlier later =>
    available earlier.modelName = false → available later.modelName = true →
      0 < earlier.count → 0 < later.count → earlier.namePrefix ≠ later.namePrefix

/-- The first running index that the whole roster gives an entry behind others. -/
def firstIndex (earlier : List RosterEntry) (entry : RosterEntry) : Nat :=
  1 + counted (fun _ => true) entry.namePrefix earlier

/-- The patterns of two loaded entries never read the same, whatever indices of their ranges they
are filled with. -/
def Apart : Prop :=
  ∀ j k, j < k → ∀ a ∈ roster[j]?, ∀ b ∈ roster[k]?,
    available a.modelName = true → available b.modelName = true →
      ∀ i < a.count, ∀ i' < b.count,
        nameAt a.pattern (firstIndex (roster.take j) a + i) ≠
          nameAt b.pattern (firstIndex (roster.take k) b + i')

/-- The skipped instances before an entry. -/
def skippedBefore (earlier : List RosterEntry) (entry : RosterEntry) : Nat :=
  counted (fun e => !available e.modelName) entry.namePrefix earlier

variable {walklib available roster}

/-- Skipped entries lower the first running index. -/
theorem start_add_skippedBefore (earlier : List RosterEntry) (entry : RosterEntry) :
    entry.start (nextIndexAfter (loadFrom walklib available) earlier) +
      skippedBefore available earlier entry = firstIndex earlier entry := by
  have hloaded : (fun e : RosterEntry => (loadFrom walklib available e.modelName).isSome) =
      fun e => available e.modelName := by
    funext e
    unfold loadFrom
    cases available e.modelName <;> rfl
  have hsplit := counted_add_counted_not (fun e => available e.modelName) entry.namePrefix earlier
  rw [RosterEntry.start, getD_nextIndexAfter, hloaded, skippedBefore, firstIndex]
  omega

theorem start_loadAll (earlier : List RosterEntry) (entry : RosterEntry) :
    entry.start (nextIndexAfter (loadAll walklib) earlier) = firstIndex earlier entry := by
  rw [RosterEntry.start, getD_nextIndexAfter]
  rfl

theorem counted_eq_zero_iff {meets : RosterEntry → Bool} {name : Text}
    {entries : List RosterEntry} : counted meets name entries = 0 ↔
      ∀ entry ∈ entries, meets entry = true → entry.namePrefix = name → entry.count = 0 := by
  simp only [counted, List.sum_eq_zero_iff_forall_eq_nat, List.mem_map, List.mem_filter,
    Bool.and_eq_true, beq_iff_eq, forall_exists_index, and_imp]
  constructor
  · exact fun h entry hentry hmeets hname => h _ entry hentry hmeets hname rfl
  · rintro h _ entry hentry hmeets hname rfl
    exact h entry hentry hmeets hname

/-- Every prefix keeps its index, if nothing is skipped before its loaded entries. -/
theorem keepsPlaces_iff : KeepsPlaces available roster ↔
    ∀ k, ∀ entry ∈ roster[k]?, available entry.modelName = true → 0 < entry.count →
      skippedBefore available (roster.take k) entry = 0 := by
  rw [KeepsPlaces, List.pairwise_iff_getElem]
  constructor
  · intro h k entry hentry hloaded hcount
    rcases List.getElem?_eq_some_iff.mp hentry with ⟨hk, rfl⟩
    refine counted_eq_zero_iff.mpr fun earlier hearlier hskipped hname => ?_
    rcases List.mem_take_iff_getElem.mp hearlier with ⟨j, hj, rfl⟩
    by_contra hne
    exact h j k (by omega) hk (by omega) (by simpa using hskipped) hloaded (by omega) hcount hname
  · intro h j k hj hk hjk hskipped hloaded hcount hcount' hname
    have hzero := h k roster[k] (List.getElem?_eq_getElem hk) hloaded hcount'
    have hmem : roster[j] ∈ roster.take k :=
      List.mem_take_iff_getElem.mpr ⟨j, by omega, rfl⟩
    have := counted_eq_zero_iff.mp hzero roster[j] hmem (by simp [hskipped]) hname
    omega

/-- The devices of a loaded entry. -/
theorem devicesAt_loadFrom {k : Nat} {entry : RosterEntry} (hentry : roster[k]? = some entry)
    (hloaded : available entry.modelName = true) :
    devicesAt (loadFrom walklib available) roster k = (List.range entry.count).map fun i =>
      entry.deviceAt (walklib entry.modelName)
        (entry.start (nextIndexAfter (loadFrom walklib available) (roster.take k)) + i) := by
  simp only [devicesAt, hentry]
  exact devices_of_some (by rw [loadFrom, if_pos hloaded]) _

theorem devicesAt_loadAll {k : Nat} {entry : RosterEntry} (hentry : roster[k]? = some entry) :
    devicesAt (loadAll walklib) roster k = (List.range entry.count).map fun i =>
      entry.deviceAt (walklib entry.modelName) (firstIndex (roster.take k) entry + i) := by
  simp only [devicesAt, hentry]
  have hload : loadAll walklib entry.modelName = some (walklib entry.modelName) := rfl
  rw [devices_of_some hload, start_loadAll]

/-- A device comes from a loaded entry. -/
theorem exists_entry {k : Nat} {dev : RosterDevice μ}
    (h : dev ∈ devicesAt (loadFrom walklib available) roster k) :
    ∃ entry, roster[k]? = some entry ∧ available entry.modelName = true ∧ 0 < entry.count := by
  unfold devicesAt at h
  split at h
  · exact absurd h List.not_mem_nil
  · rename_i entry hentry
    unfold RosterEntry.devices at h
    split at h
    · exact absurd h List.not_mem_nil
    · rename_i model hmodel
      rcases List.mem_map.mp h with ⟨i, hi, -⟩
      refine ⟨entry, hentry, ?_, Nat.zero_lt_of_lt (List.mem_range.mp hi)⟩
      by_contra hskipped
      rw [loadFrom, if_neg hskipped] at hmodel
      cases hmodel

/-- Where the prefixes keep their indices, the devices of a place are those of a complete roster. -/
theorem devicesAt_of_keepsPlaces (h : KeepsPlaces available roster) {k : Nat} {entry : RosterEntry}
    (hentry : roster[k]? = some entry) (hloaded : available entry.modelName = true) :
    devicesAt (loadFrom walklib available) roster k = devicesAt (loadAll walklib) roster k := by
  rw [devicesAt_loadFrom hentry hloaded, devicesAt_loadAll hentry]
  by_cases hcount : 0 < entry.count
  · have hzero := keepsPlaces_iff.mp h k entry hentry hloaded hcount
    have hstart : entry.start (nextIndexAfter (loadFrom walklib available) (roster.take k)) +
        skippedBefore available (roster.take k) entry = firstIndex (roster.take k) entry :=
      start_add_skippedBefore _ _
    rw [hzero, Nat.add_zero] at hstart
    rw [hstart]
  · rw [Nat.eq_zero_of_not_pos hcount]
    rfl

/-- The devices are stable exactly if no skipped entry precedes a loaded one of its prefix. -/
theorem stable_iff (hindexed : ∀ entry ∈ roster, Indexed entry.pattern) :
    Stable walklib available roster ↔ KeepsPlaces available roster := by
  constructor
  · intro hstable
    refine keepsPlaces_iff.mpr fun k entry hentry hloaded hcount => ?_
    -- the first device of the entry shows whether its index has moved
    have hfirst : (devicesAt (loadFrom walklib available) roster k)[0]? =
        some (entry.deviceAt (walklib entry.modelName)
          (entry.start (nextIndexAfter (loadFrom walklib available) (roster.take k)) + 0)) := by
      rw [devicesAt_loadFrom hentry hloaded]
      simp [hcount]
    rcases hstable k 0 _ hfirst with ⟨dev', hdev', hsame⟩
    rw [devicesAt_loadAll hentry, List.getElem?_map, List.getElem?_range hcount, Option.map_some,
      Option.mem_some_iff] at hdev'
    subst hdev'
    have hindex := nameAt_injective (hindexed entry (List.mem_of_getElem? hentry)) hsame.1
    have hstart : entry.start (nextIndexAfter (loadFrom walklib available) (roster.take k)) +
        skippedBefore available (roster.take k) entry = firstIndex (roster.take k) entry :=
      start_add_skippedBefore _ _
    omega
  · intro hkeeps k i dev hdev
    rcases exists_entry (List.mem_of_getElem? hdev) with ⟨entry, hentry, hloaded, -⟩
    rw [devicesAt_of_keepsPlaces hkeeps hentry hloaded] at hdev
    exact ⟨dev, hdev, rfl, rfl, rfl⟩

/-- The names of a place. -/
theorem names_of_keepsPlaces (h : KeepsPlaces available roster) {k : Nat} {entry : RosterEntry}
    (hentry : roster[k]? = some entry) (hloaded : available entry.modelName = true) :
    (devicesAt (loadFrom walklib available) roster k).map RosterDevice.short =
      (List.range entry.count).map fun i =>
        nameAt entry.pattern (firstIndex (roster.take k) entry + i) := by
  rw [devicesAt_of_keepsPlaces h hentry hloaded, devicesAt_loadAll hentry, List.map_map]
  rfl

/-- Where the prefixes keep their indices, the names are distinct exactly if the entries are apart. -/
theorem nodup_names_iff (hindexed : ∀ entry ∈ roster, Indexed entry.pattern)
    (hkeeps : KeepsPlaces available roster) :
    ((buildReplayDevices (loadFrom walklib available) roster).map RosterDevice.short).Nodup ↔
      Apart available roster := by
  rw [buildReplayDevices_eq, List.map_flatMap, List.nodup_flatMap]
  constructor
  · rintro ⟨-, hdisjoint⟩ j k hjk a ha b hb hloaded hloaded' i hi i' hi' heq
    rcases List.getElem?_eq_some_iff.mp hb with ⟨hk, -⟩
    have hpair := List.pairwise_iff_getElem.mp hdisjoint j k (by simp; omega) (by simp; omega) hjk
    simp only [Function.onFun, List.getElem_range, names_of_keepsPlaces hkeeps ha hloaded,
      names_of_keepsPlaces hkeeps hb hloaded'] at hpair
    refine hpair (List.mem_map.mpr ⟨i, List.mem_range.mpr hi, rfl⟩) ?_
    exact List.mem_map.mpr ⟨i', List.mem_range.mpr hi', heq.symm⟩
  · intro hapart
    constructor
    · intro k _
      rcases List.eq_nil_or_concat (devicesAt (loadFrom walklib available) roster k) with
        hnil | ⟨init, dev, hdevices⟩
      · rw [hnil]
        exact List.nodup_nil
      · have hdev : dev ∈ devicesAt (loadFrom walklib available) roster k := by
          rw [hdevices]
          simp
        rcases exists_entry hdev with ⟨entry, hentry, hloaded, -⟩
        rw [names_of_keepsPlaces hkeeps hentry hloaded]
        refine List.Nodup.map_on (fun i _ i' _ heq => ?_) List.nodup_range
        have hindex := nameAt_injective (hindexed entry (List.mem_of_getElem? hentry)) heq
        omega
    · refine List.pairwise_iff_getElem.mpr fun j k hj hk hjk => ?_
      simp only [Function.onFun, List.getElem_range]
      intro name hname hname'
      rcases List.mem_map.mp hname with ⟨dev, hdev, rfl⟩
      rcases List.mem_map.mp hname' with ⟨dev', hdev', heq⟩
      rcases exists_entry hdev with ⟨a, ha, hloaded, -⟩
      rcases exists_entry hdev' with ⟨b, hb, hloaded', -⟩
      rw [names_of_keepsPlaces hkeeps ha hloaded] at hname
      rw [names_of_keepsPlaces hkeeps hb hloaded'] at hname'
      rcases List.mem_map.mp hname with ⟨i, hi, hshort⟩
      rcases List.mem_map.mp hname' with ⟨i', hi', hshort'⟩
      exact hapart j k hjk a ha b hb hloaded hloaded' i (List.mem_range.mp hi) i'
        (List.mem_range.mp hi') (hshort.trans hshort'.symm)

/-- The names are distinct and every device is the one of its place exactly if no skipped entry
precedes a loaded one of its prefix and no two loaded entries' patterns read the same. -/
theorem identities_stable_iff (walklib : Text → μ) (available : Text → Bool)
    {roster : List RosterEntry} (hindexed : ∀ entry ∈ roster, Indexed entry.pattern) :
    (((buildReplayDevices (loadFrom walklib available) roster).map RosterDevice.short).Nodup ∧
        Stable walklib available roster) ↔
      KeepsPlaces available roster ∧ Apart available roster := by
  constructor
  · rintro ⟨hnodup, hstable⟩
    have hkeeps := (stable_iff hindexed).mp hstable
    exact ⟨hkeeps, (nodup_names_iff hindexed hkeeps).mp hnodup⟩
  · rintro ⟨hkeeps, hapart⟩
    exact ⟨(nodup_names_iff hindexed hkeeps).mpr hapart, (stable_iff hindexed).mpr hkeeps⟩

end Stable

/-! ## The rack power units -/

/-- An entry of rack power units. -/
def pduEntry (count : Nat) (mark modelName row : String) : RosterEntry where
  count := count
  pattern := "pdu-dc-".toList ++ mark.toList
  modelName := modelName.toList
  role := "net_ups".toList
  locPattern := "DC rack ".toList ++ row.toList ++ "{n}, rack PDU".toList
  parent := some "sw-dc-oob-01".toList

/-- The rack power units, of three models. -/
def pduRoster : List RosterEntry :=
  [pduEntry 4 "{n:02d}" "apc-pdu" "A", pduEntry 2 "{nn:02d}" "raritan-pdu" "B",
    pduEntry 2 "{nnn:02d}" "gude-pdu" "C"]

theorem indexed_pduRoster : ∀ entry ∈ pduRoster, Indexed entry.pattern := by
  have hentry : ∀ count modelName row, ∀ mark ∈ marks,
      Indexed (pduEntry count mark modelName row).pattern := by
    intro count modelName row mark hmark
    exact ⟨"pdu-dc-".toList, [], mark, hmark, by simp [pduEntry], by decide, by simp⟩
  intro entry hmem
  simp only [pduRoster, List.mem_cons, List.not_mem_nil, or_false] at hmem
  rcases hmem with rfl | rfl | rfl
  · exact hentry _ _ _ _ (by decide)
  · exact hentry _ _ _ _ (by decide)
  · exact hentry _ _ _ _ (by decide)

/-- Every walk but one can be loaded. -/
def allBut (missing : String) (name : Text) : Bool :=
  name != missing.toList

theorem identities_stable_iff_gude :
    (((buildReplayDevices (loadFrom id (allBut "gude-pdu")) pduRoster).map
        RosterDevice.short).Nodup ∧ Stable id (allBut "gude-pdu") pduRoster) ↔
      KeepsPlaces (allBut "gude-pdu") pduRoster ∧ Apart (allBut "gude-pdu") pduRoster :=
  identities_stable_iff id (allBut "gude-pdu") indexed_pduRoster

/-- Without the first model the units of the second one take its names. -/
theorem not_identities_stable_apc : ¬ ∀ (μ : Type) (walklib : Text → μ) (available : Text → Bool)
    (roster : List RosterEntry), (∀ entry ∈ roster, Indexed entry.pattern) →
      ((buildReplayDevices (loadFrom walklib available) roster).map RosterDevice.short).Nodup ∧
        Stable walklib available roster := by
  intro hall
  have hstable := (hall Text id (allBut "apc-pdu") pduRoster indexed_pduRoster).2
  have hfirst : ((devicesAt (loadFrom id (allBut "apc-pdu")) pduRoster 1)[0]?).map
      RosterDevice.short = some "pdu-dc-01".toList := by
    decide +kernel
  have hplace : ((devicesAt (loadAll id) pduRoster 1)[0]?).map RosterDevice.short =
      some "pdu-dc-05".toList := by
    decide +kernel
  rcases Option.map_eq_some_iff.mp hfirst with ⟨dev, hdev, hshort⟩
  rcases hstable 1 0 dev hdev with ⟨dev', hdev', hsame⟩
  rw [hdev', Option.map_some, ← hsame.1, hshort] at hplace
  exact absurd hplace (by decide)

end Netsim
end DemoEstate
