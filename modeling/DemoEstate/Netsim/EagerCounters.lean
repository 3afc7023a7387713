import DemoEstate.Netsim.Growth
import DemoEstate.Netsim.Persistence

/-!
# Counters before the state is loaded

A model seeds every counter key that its slots sample.  An instance constructs a counter for each
seeded key, and the process registers it under a name of its own, before the saved state is loaded
into the registered counters.  A rendering looks its counters up by key, and would construct one
that is missing.

Main definitions:

- Structure {lit}`Heap`: the counters of a process, and the registry of their names.
- Definition {lit}`Instance.counter`: the counter of a key, constructed if there is none.
- Definition {lit}`Simulator.Step`: renderings, samples and loads, in any order.

Main results:

- Theorem {lit}`ReplayModel.noted_ofRows`: a counter slot's key has a rate and a large enough seed.
- Theorem {lit}`ReplayModel.isGreatest_seed`: a seed is the largest recorded value of its key.
- Theorem {lit}`constructed_registered`: a counter is found under its own name.
- Theorem {lit}`Simulator.step_keeps`: no step constructs a counter.
- Theorem {lit}`Simulator.eager_of_run`: every counter exists before the state is loaded.
-/

namespace DemoEstate
namespace Netsim

open Interaction
open Snmp (Row Oid)
open Transition (Run)

/-! ## Noted counters -/

namespace ReplayModel

/-- The key of a slot has a rate, and a seed that is no smaller than the recorded value. -/
structure Noted (m : ReplayModel) (slot : Slot) : Prop where
  rated : slot.key ∈ m.rates.keys
  seeded : ∃ seed, m.seeds.get slot.key = some seed ∧ slot.recorded ≤ seed

variable {m m' : ReplayModel}

/-- Noting a counter keeps what is noted: a seed only grows. -/
theorem Noted.noteCounter {slot : Slot} (h : m.Noted slot) (key : Text) (n : Nat)
    (ifIndex : Option Text) : (m.noteCounter key n ifIndex).Noted slot where
  rated := Dict.mem_keys_set.mpr (Or.inr h.rated)
  seeded := by
    obtain ⟨seed, hseed, hle⟩ := h.seeded
    simp only [ReplayModel.noteCounter, Dict.get_set]
    by_cases hkey : key = slot.key
    · rw [if_pos hkey, hkey, hseed]
      exact ⟨_, rfl, hle.trans (le_max_left _ _)⟩
    · rw [if_neg hkey]
      exact ⟨seed, hseed, hle⟩

theorem noted_noteCounter (kind : Kind) (oid key : Text) (n : Nat) (ifIndex : Option Text) :
    (m.noteCounter key n ifIndex).Noted ⟨kind, oid, key, n⟩ where
  rated := Dict.mem_keys_set.mpr (Or.inl rfl)
  seeded := ⟨_, Dict.get_set_self _ _ _, le_max_right _ _⟩

/-- A row keeps what is noted, and its counter slot is noted. -/
theorem Classification.noted {row : Row} {out : Option Slot} (h : m.Classification row m' out) :
    (∀ slot, m.Noted slot → m'.Noted slot) ∧
      ∀ slot ∈ out, slot.kind.isCounter = true → m'.Noted slot := by
  cases h with
  | static => exact ⟨fun _ h => h, by simp⟩
  | plain _ _ hcounter => exact ⟨fun _ h => h, by simp [hcounter]⟩
  | counter hplace =>
      exact ⟨fun _ h => h.noteCounter _ _ _, by
        rintro slot ⟨⟩ -
        exact noted_noteCounter _ _ _ _ _⟩
  | hardware hkind =>
      refine ⟨fun _ h => h, ?_⟩
      rintro slot ⟨⟩ hcounter
      rcases hkind with rfl | rfl <;> cases hcounter
  | tag => exact ⟨fun _ h => ⟨h.rated, h.seeded⟩, by simp [Kind.isCounter]⟩
  | code => exact ⟨fun _ h => h, by simp [Kind.isCounter]⟩

/-- Whatever the order of the rows, the counter slots of all pieces are noted in the end. -/
theorem Classifies.noted {pieces : List Piece} (h : Classifies m pieces m') :
    (∀ slot, m.Noted slot → m'.Noted slot) ∧
      ∀ slot ∈ pieces.filterMap Piece.slot, slot.kind.isCounter = true → m'.Noted slot := by
  induction h with
  | nil m segments => exact ⟨fun _ h => ⟨h.rated, h.seeded⟩, by simp⟩
  | @cons m m₁ m' piece pieces segments hrow hrest ih =>
      obtain ⟨hkeeps, hslot⟩ := (classification_of_classify hrow).noted
      constructor
      · intro slot h
        have h₁ := hkeeps slot h
        exact ih.1 slot ⟨h₁.rated, h₁.seeded⟩
      · intro slot hmem hcounter
        rcases List.mem_filterMap.mp hmem with ⟨piece', hpiece, hout⟩
        rcases List.mem_cons.mp hpiece with rfl | hpiece
        · have h₁ := hslot slot hout hcounter
          exact ih.1 slot ⟨h₁.rated, h₁.seeded⟩
        · exact ih.2 slot (List.mem_filterMap.mpr ⟨piece', hpiece, hout⟩) hcounter

/-- A row leaves the seeds as they are, or its own recorded value becomes the seed of its key. -/
theorem Classification.seed_cases {row : Row} {out : Option Slot} (h : m.Classification row m' out)
    {key : Text} {seed : Nat} (hget : m'.seeds.get key = some seed) :
    m.seeds.get key = some seed ∨ ∃ slot ∈ out, slot.kind.isCounter = true ∧ slot.key = key ∧
      slot.recorded = seed := by
  cases h with
  | static | plain | hardware | tag | code => exact Or.inl hget
  | @counter kind key' ifIndex n hplace =>
      have hkind : kind.isCounter = true := by cases hplace <;> rfl
      simp only [ReplayModel.noteCounter, Dict.get_set] at hget
      by_cases hkey : key' = key
      · subst hkey
        rw [if_pos rfl, Option.some.injEq] at hget
        rcases max_choice ((m.seeds.get key').getD 0) n with hmax | hmax
        · cases hbefore : m.seeds.get key' with
          | none =>
              rw [hbefore, Option.getD_none, Nat.zero_max] at hget
              exact Or.inr ⟨_, rfl, hkind, rfl, hget⟩
          | some before =>
              rw [hmax, hbefore, Option.getD_some] at hget
              exact Or.inl (congrArg some hget)
        · rw [hmax] at hget
          exact Or.inr ⟨_, rfl, hkind, rfl, hget⟩
      · rw [if_neg hkey] at hget
        exact Or.inl hget

theorem Classifies.seed_cases {pieces : List Piece} (h : Classifies m pieces m') {key : Text}
    {seed : Nat} (hget : m'.seeds.get key = some seed) :
    m.seeds.get key = some seed ∨ ∃ slot ∈ pieces.filterMap Piece.slot,
      slot.kind.isCounter = true ∧ slot.key = key ∧ slot.recorded = seed := by
  induction h with
  | nil m segments => exact Or.inl hget
  | @cons m m₁ m' piece pieces segments hrow hrest ih =>
      rcases ih hget with hget | ⟨slot, hslot, hseed⟩
      · rcases (classification_of_classify hrow).seed_cases hget with hget | ⟨slot, hslot, hseed⟩
        · exact Or.inl hget
        · exact Or.inr ⟨slot, List.mem_filterMap.mpr ⟨piece, List.mem_cons_self, hslot⟩, hseed⟩
      · rcases List.mem_filterMap.mp hslot with ⟨piece', hpiece, hslot⟩
        exact Or.inr ⟨slot, List.mem_filterMap.mpr ⟨piece', List.mem_cons_of_mem _ hpiece, hslot⟩,
          hseed⟩

/-- The counter slots of a parsed walk are noted. -/
theorem noted_ofRows {rows : List Row} (h : ofRows rows = .ok m) :
    ∀ slot ∈ slots m.segments, slot.kind.isCounter = true → m.Noted slot := by
  obtain ⟨m₀, pieces, -, -, hsegments, hclassifies⟩ := ofRows_classifies h
  rw [hsegments, slots_joinFrom]
  exact hclassifies.noted.2

/-- A seed is the largest of the recorded values of its key, whatever the order of the rows. -/
theorem isGreatest_seed {rows : List Row} (h : ofRows rows = .ok m) {key : Text} {seed : Nat}
    (hget : m.seeds.get key = some seed) :
    IsGreatest {n | ∃ slot ∈ slots m.segments, slot.kind.isCounter = true ∧ slot.key = key ∧
      slot.recorded = n} seed := by
  constructor
  · obtain ⟨m₀, pieces, hscan, -, hsegments, hclassifies⟩ := ofRows_classifies h
    obtain ⟨linerate, uptimeRec, rfl⟩ := scan_finds hscan
    rw [hsegments, slots_joinFrom]
    rcases hclassifies.seed_cases hget with hempty | hslot
    · simp [empty] at hempty
    · exact hslot
  · rintro n ⟨slot, hslot, hcounter, rfl, rfl⟩
    obtain ⟨seed', hseed', hle⟩ := (noted_ofRows h slot hslot hcounter).seeded
    rw [hget, Option.some.injEq] at hseed'
    exact hseed' ▸ hle

end ReplayModel

/-! ## Counter keys and names -/

theorem mem_of_mem_splitOn {sep c : Char} {s part : Text} (hpart : part ∈ s.splitOn sep)
    (hc : c ∈ part) : c ∈ s := by
  have hmem : ∀ parts : List Text, part ∈ parts → part ∈ parts.intersperse [sep] := by
    intro parts
    induction parts with
    | nil => exact fun h => h
    | cons first parts ih =>
        cases parts with
        | nil => exact fun h => h
        | cons second parts =>
            intro h
            rcases List.mem_cons.mp h with rfl | h
            · exact List.mem_cons_self
            · exact List.mem_cons_of_mem _ (List.mem_cons_of_mem _ (ih h))
  have hjoined : [sep].intercalate (s.splitOn sep) = s := List.intercalate_splitOn sep
  rw [← hjoined, List.intercalate, List.mem_flatten]
  exact ⟨part, hmem _ hpart, hc⟩

/-- The arcs of a numeric OID are numeric. -/
theorem Numeric.arc {oid : Text} (h : Numeric oid) (i : Nat) :
    Numeric ((oid.splitOn '.').reverse[i]?.getD []) := by
  cases hget : (oid.splitOn '.').reverse[i]? with
  | none => exact fun c hc => absurd hc List.not_mem_nil
  | some part =>
      have hpart : part ∈ oid.splitOn '.' := List.mem_reverse.mp (List.mem_of_getElem? hget)
      exact fun c hc => h c (mem_of_mem_splitOn hpart hc)

/-- The characters of a numeric OID. -/
def oidChar (c : Char) : Bool :=
  c.isDigit || c == '.'

/-- A counter key is a word and, behind a dot, numerals. -/
def CounterKey (key : Text) : Prop :=
  ∃ name rest, key = name ++ '.' :: rest ∧ name ≠ [] ∧ name.any oidChar = false ∧ Numeric rest

theorem ReplayModel.CounterPlace.counterKey {oid : Text} {kind : Kind} {key : Text}
    {ifIndex : Option Text} (h : CounterPlace oid kind key ifIndex) (hoid : Numeric oid) :
    CounterKey key := by
  have hwords : ∀ columns ∈ [if32, ifhc], ∀ column ∈ columns,
      column.2 ≠ [] ∧ column.2.any oidChar = false := by decide
  have hport : ∀ {columns : List (Text × Text)} {name : Text}, columns ∈ [if32, ifhc] →
      columns.lookup (columnArc oid) = some name → CounterKey (name ++ '.' :: lastArc oid) := by
    intro columns name hcolumns hlookup
    obtain ⟨l₁, l₂, hmem, -⟩ := List.lookup_eq_some_iff.mp hlookup
    obtain ⟨hne, hword⟩ := hwords columns hcolumns (columnArc oid, name) (by simp [hmem])
    exact ⟨name, lastArc oid, rfl, hne, hword, hoid.arc 0⟩
  cases h with
  | ucd hplace => exact ⟨"ucd".toList, columnArc oid, rfl, by decide, by decide, hoid.arc 1⟩
  | port32 hplace hname => exact hport (by simp) hname
  | port64 hplace hname => exact hport (by simp) hname
  | @pages rest hplace =>
      refine ⟨"pages".toList, rest, rfl, by decide, by decide, fun c hc => hoid c ?_⟩
      rw [behind_eq_some hplace]
      simp [hc]

namespace ReplayModel

variable {m m' : ReplayModel}

/-- A row seeds only counter keys. -/
theorem Classification.counterKey {row : Row} {out : Option Slot}
    (h : m.Classification row m' out) (hnumeric : Numeric row.1)
    (hkeys : ∀ key ∈ m.seeds.keys, CounterKey key) : ∀ key ∈ m'.seeds.keys, CounterKey key := by
  cases h with
  | static | plain | hardware | tag | code => exact hkeys
  | counter hplace =>
      intro key hkey
      rcases Dict.mem_keys_set.mp hkey with rfl | hkey
      · exact hplace.counterKey hnumeric
      · exact hkeys key hkey

theorem Classifies.counterKey {pieces : List Piece} (h : Classifies m pieces m')
    (hnumeric : ∀ piece ∈ pieces, Numeric piece.row.1)
    (hkeys : ∀ key ∈ m.seeds.keys, CounterKey key) : ∀ key ∈ m'.seeds.keys, CounterKey key := by
  induction h with
  | nil m segments => exact hkeys
  | @cons m m₁ m' piece pieces segments hrow hrest ih =>
      have hstep := (classification_of_classify hrow).counterKey (hnumeric piece List.mem_cons_self)
      exact ih (fun piece' hpiece => hnumeric piece' (List.mem_cons_of_mem _ hpiece)) (hstep hkeys)

end ReplayModel

theorem ReplayDevice.counterKey (d : ReplayDevice) {key : Text} (hkey : key ∈ d.model.seeds.keys) :
    CounterKey key := by
  obtain ⟨m₀, pieces, hscan, hpieces, -, hclassifies⟩ := ReplayModel.ofRows_classifies d.loaded
  obtain ⟨linerate, uptimeRec, rfl⟩ := ReplayModel.scan_finds hscan
  refine hclassifies.counterKey ?_ ?_ key hkey
  · intro piece hpiece
    apply d.file.numeric
    rw [← WalkFile.rows, ← hpieces]
    exact List.mem_map_of_mem hpiece
  · simp [ReplayModel.empty, Dict.keys, Dict.empty]

/-- The instance that a counter's name begins with. -/
def owner (name : Text) : Text :=
  (Text.cut '.' (name.reverse.dropWhile oidChar)).2.reverse

theorem owner_append {short key : Text} (h : CounterKey key) : owner (short ++ '.' :: key) = short := by
  obtain ⟨name, rest, rfl, hne, hword, hnumeric⟩ := h
  have hdot : '.' ∉ name.reverse := by
    intro hmem
    exact List.any_eq_false.mp hword '.' (List.mem_reverse.mp hmem) rfl
  have hrest : ∀ c ∈ rest.reverse ++ ['.'], oidChar c = true := by
    intro c hc
    rcases List.mem_append.mp hc with hc | hc
    · rcases hnumeric c (List.mem_reverse.mp hc) with hdigit | rfl
      · simp [oidChar, hdigit]
      · rfl
    · cases List.mem_singleton.mp hc
      rfl
  have hname : ∀ tail, (name.reverse ++ tail).dropWhile oidChar = name.reverse ++ tail := by
    intro tail
    cases hreverse : name.reverse with
    | nil => exact absurd (List.reverse_eq_nil_iff.mp hreverse) hne
    | cons c cs =>
        have hc : c ∈ name := List.mem_reverse.mp (hreverse ▸ List.mem_cons_self)
        exact List.dropWhile_cons_of_neg (List.any_eq_false.mp hword c hc)
  have hsplit : (short ++ '.' :: (name ++ '.' :: rest)).reverse =
      (rest.reverse ++ ['.']) ++ (name.reverse ++ '.' :: short.reverse) := by
    simp
  rw [owner, hsplit, List.dropWhile_append_of_pos hrest, hname, Text.cut_append hdot,
    List.reverse_reverse]

/-- Instances with different names have no counter name in common. -/
theorem short_eq_of_name_eq {d d' : ReplayDevice} {key key' : Text} (hkey : key ∈ d.model.seeds.keys)
    (hkey' : key' ∈ d'.model.seeds.keys) (h : d.short ++ '.' :: key = d'.short ++ '.' :: key') :
    d.short = d'.short := by
  have howner := congrArg owner h
  rwa [owner_append (d.counterKey hkey), owner_append (d'.counterKey hkey')] at howner

/-! ## The counters of a process -/

/-- The counters a process has constructed, and those it finds by name; none has two names. -/
structure Heap where
  objects : List Counter
  registry : Dict Text Nat
  registered : ∀ name ref, registry.get name = some ref → ref < objects.length
  distinct : ∀ name name' ref, registry.get name = some ref → registry.get name' = some ref →
    name = name'

namespace Heap

theorem registered_append (h : Heap) (spec : CounterSpec) (now : ℚ) (name : Text) (ref : Nat)
    (hget : (h.registry.set spec.name h.objects.length).get name = some ref) :
    ref < (h.objects ++ [spec.counter now]).length := by
  rw [Dict.get_set] at hget
  rw [List.length_append, List.length_singleton]
  split at hget
  · cases hget
    omega
  · have hlt := h.registered name ref hget
    omega

theorem distinct_set (h : Heap) (spec : CounterSpec) (name name' : Text) (ref : Nat)
    (hget : (h.registry.set spec.name h.objects.length).get name = some ref)
    (hget' : (h.registry.set spec.name h.objects.length).get name' = some ref) : name = name' := by
  by_cases hname : spec.name = name
  · by_cases hname' : spec.name = name'
    · exact hname.symm.trans hname'
    · rw [hname, Dict.get_set_self, Option.some.injEq] at hget
      rw [Dict.get_set_of_ne _ _ hname', ← hget] at hget'
      exact absurd (h.registered _ _ hget') (lt_irrefl _)
  · rw [Dict.get_set_of_ne _ _ hname] at hget
    by_cases hname' : spec.name = name'
    · rw [hname', Dict.get_set_self, Option.some.injEq] at hget'
      rw [← hget'] at hget
      exact absurd (h.registered _ _ hget) (lt_irrefl _)
    · rw [Dict.get_set_of_ne _ _ hname'] at hget'
      exact h.distinct name name' ref hget hget'

/-- Construct a counter and register it under its name. -/
def construct (h : Heap) (spec : CounterSpec) (now : ℚ) : Heap where
  objects := h.objects ++ [spec.counter now]
  registry := h.registry.set spec.name h.objects.length
  registered := h.registered_append spec now
  distinct := h.distinct_set spec

theorem get_construct (h : Heap) (spec : CounterSpec) (now : ℚ) (name : Text) :
    (h.construct spec now).registry.get name =
      if spec.name = name then some h.objects.length else h.registry.get name :=
  Dict.get_set _ _ _ _

/-- Change one counter. -/
def modify (h : Heap) (ref : Nat) (f : Counter → Counter) : Heap where
  objects := h.objects.modify ref f
  registry := h.registry
  registered := by simpa using h.registered
  distinct := h.distinct

/-- Load the saved state into the registered counters. -/
def load (h : Heap) (saved : Option Snapshot) : Heap :=
  match saved with
  | none => h
  | some snap =>
      h.registry.entries.foldl (fun h e => h.modify e.2 (snap.restoreCounter e.1)) h

/-- No counter has been constructed and no name registered between two states. -/
structure SameCounters (h h' : Heap) : Prop where
  length_eq : h'.objects.length = h.objects.length
  registry_eq : h'.registry = h.registry

theorem SameCounters.refl (h : Heap) : h.SameCounters h := ⟨rfl, rfl⟩

theorem SameCounters.trans {h h' h'' : Heap} (hle : h.SameCounters h') (hle' : h'.SameCounters h'') :
    h.SameCounters h'' :=
  ⟨hle'.length_eq.trans hle.length_eq, hle'.registry_eq.trans hle.registry_eq⟩

theorem sameCounters_modify (h : Heap) (ref : Nat) (f : Counter → Counter) :
    h.SameCounters (h.modify ref f) :=
  ⟨List.length_modify .., rfl⟩

theorem sameCounters_foldl (h : Heap) (entries : List (Text × Nat)) (f : Text → Counter → Counter) :
    h.SameCounters (entries.foldl (fun h e => h.modify e.2 (f e.1)) h) := by
  induction entries generalizing h with
  | nil => exact SameCounters.refl h
  | cons e entries ih => exact (h.sameCounters_modify e.2 (f e.1)).trans (ih _)

theorem sameCounters_load (h : Heap) (saved : Option Snapshot) : h.SameCounters (h.load saved) := by
  cases saved with
  | none => exact SameCounters.refl h
  | some snap => exact h.sameCounters_foldl _ snap.restoreCounter

/-- Changing counters by name leaves those alone that have none of the names. -/
theorem foldl_modify_of_notMem {entries : List (Text × Nat)} {f : Text → Counter → Counter}
    {ref : Nat} (hnot : ∀ e ∈ entries, e.2 ≠ ref) (h : Heap) :
    (entries.foldl (fun h e => h.modify e.2 (f e.1)) h).objects[ref]? = h.objects[ref]? := by
  induction entries generalizing h with
  | nil => rfl
  | cons e entries ih =>
      rw [List.foldl_cons, ih fun e' he' => hnot e' (List.mem_cons_of_mem _ he')]
      simp [modify, hnot e List.mem_cons_self]

/-- A registered counter is changed once, under its name. -/
theorem foldl_modify_of_mem {entries : List (Text × Nat)} {f : Text → Counter → Counter}
    {name : Text} {ref : Nat} (hmem : (name, ref) ∈ entries) (hnodup : (entries.map Prod.fst).Nodup)
    (hname : ∀ e ∈ entries, e.2 = ref → e.1 = name) (h : Heap) :
    (entries.foldl (fun h e => h.modify e.2 (f e.1)) h).objects[ref]? =
      (h.objects[ref]?).map (f name) := by
  induction entries generalizing h with
  | nil => exact absurd hmem List.not_mem_nil
  | cons e entries ih =>
      rw [List.map_cons, List.nodup_cons] at hnodup
      have htail : ∀ e' ∈ entries, e'.2 = ref → e'.1 = name :=
        fun e' he' => hname e' (List.mem_cons_of_mem _ he')
      by_cases href : e.2 = ref
      · have hlast : ∀ e' ∈ entries, e'.2 ≠ ref := by
          intro e' he' href'
          have hsame : e.1 = e'.1 :=
            (hname e List.mem_cons_self href).trans (htail e' he' href').symm
          exact hnodup.1 (hsame ▸ List.mem_map_of_mem he')
        rw [List.foldl_cons, foldl_modify_of_notMem hlast, ← hname e List.mem_cons_self href]
        simp [modify, href]
      · have hmem' : (name, ref) ∈ entries := by
          rcases List.mem_cons.mp hmem with rfl | hmem'
          · exact absurd rfl href
          · exact hmem'
        rw [List.foldl_cons, ih hmem' hnodup.2 htail]
        simp [modify, href]

/-- A registered counter is loaded from what was saved under its name. -/
theorem load_registered {h : Heap} {name : Text} {ref : Nat} (hget : h.registry.get name = some ref)
    (snap : Snapshot) :
    (h.load (some snap)).objects[ref]? = (h.objects[ref]?).map (snap.restoreCounter name) := by
  apply foldl_modify_of_mem (Dict.get_eq_some_iff.mp hget) h.registry.nodup
  intro e he href
  exact h.distinct e.1 name ref (Dict.get_eq_some_iff.mpr (href ▸ he)) hget

end Heap

/-! ## Instances -/

/-- An instance of a recorded walk, with the counters it has by key. -/
structure Instance where
  device : ReplayDevice
  counters : Dict Text Nat

/-- The counter of a key: it starts at its seed, and at the recorded value where there is none. -/
def ReplayDevice.counterSpec (d : ReplayDevice) (key : Text) (recorded : Nat) : CounterSpec where
  name := d.short ++ '.' :: key
  start := (d.model.seeds.get key).getD recorded
  amp := 3 / 10
  amp_nonneg := three_tenths_nonneg
  amp_le_one := three_tenths_le_one

namespace Instance

/-- The counter an instance has for a key, constructed if it has none. -/
def counter (inst : Instance) (h : Heap) (key : Text) (recorded : Nat) (now : ℚ) :
    Nat × Instance × Heap :=
  match inst.counters.get key with
  | some ref => (ref, inst, h)
  | none =>
      (h.objects.length, { inst with counters := inst.counters.set key h.objects.length },
        h.construct (inst.device.counterSpec key recorded) now)

/-- Construct the counters of all seeded keys; the clock is read for each of them. -/
def init (d : ReplayDevice) (clock : Nat → ℚ) (h : Heap) : Instance × Heap :=
  d.model.seeds.entries.foldl
    (fun s e => (s.1.counter s.2 e.1 e.2 (clock s.2.objects.length)).2) (⟨d, Dict.empty⟩, h)

/-- Sample the counter of a key. -/
def sample (inst : Instance) (h : Heap) (key : Text) (recorded : Nat) (base : ℚ≥0)
    (cap : Option ℚ≥0) (raw now : ℚ) : Option (ℤ × Instance × Heap) :=
  let (ref, inst, h) := inst.counter h key recorded now
  (h.objects[ref]?).map fun c =>
    let c := c.sample base (cap.map NNRat.cast) raw now
    (c.value, inst, h.modify ref fun _ => c)

/-- What an operation of a rendering does to the counters: a sample looks its counter up by key,
with the recorded value of the slot. -/
def Performs : Program.Env (Instance × Heap) Op Ans
  | s, .sample name base cap, ans, t => ∃ key recorded raw now,
      name = s.1.device.short ++ '.' :: key ∧
        s.1.sample s.2 key recorded base cap raw now = some (ans, t)
  | s, _, _, t => t = s

variable {inst inst' : Instance} {h h' : Heap}

theorem counter_of_get {key : Text} {ref : Nat} (hget : inst.counters.get key = some ref)
    (recorded : Nat) (now : ℚ) : inst.counter h key recorded now = (ref, inst, h) := by
  simp only [counter, hget]

theorem sample_of_get {key : Text} {ref : Nat} {c : Counter}
    (hget : inst.counters.get key = some ref) (hc : h.objects[ref]? = some c) (recorded : Nat)
    (base : ℚ≥0) (cap : Option ℚ≥0) (raw now : ℚ) :
    inst.sample h key recorded base cap raw now =
      some ((c.sample base (cap.map NNRat.cast) raw now).value, inst,
        h.modify ref fun _ => c.sample base (cap.map NNRat.cast) raw now) := by
  simp only [sample, counter_of_get hget, hc, Option.map_some]

/-- An operation of an instance that samples only counters it has constructs none. -/
theorem performs_keeps {op : Op} {ans : Ans op}
    (hop : Sampling (fun name _ _ =>
      ∃ key ∈ inst.counters.keys, name = inst.device.short ++ '.' :: key) op)
    (hperforms : Performs (inst, h) op ans (inst', h')) : inst' = inst ∧ h.SameCounters h' := by
  cases op with
  | raise => exact nomatch ans
  | sample name base cap =>
      obtain ⟨key, recorded, raw, now, hname, hsample⟩ := hperforms
      obtain ⟨key', hkey', hname'⟩ := hop
      have hsame : key = key' := by simpa using hname.symm.trans hname'
      obtain ⟨ref, hget⟩ := Dict.mem_keys_iff.mp (hsame ▸ hkey')
      simp only [sample, counter_of_get hget, Option.map_eq_some_iff, Prod.mk.injEq] at hsample
      obtain ⟨c, -, -, rfl, rfl⟩ := hsample
      exact ⟨rfl, h.sameCounters_modify _ _⟩
  | gauge | getState | degradedMinutes | ramp | loadOper | storeOper | load | store | getIdent
  | setIdent =>
      cases hperforms
      exact ⟨rfl, Heap.SameCounters.refl _⟩

/-- While an instance is constructed, it has the counters of the keys so far, each registered
under its name, and the other names are left alone. -/
structure Building (d : ReplayDevice) (before : Heap) (keys : List Text) (s : Instance × Heap) :
    Prop where
  device_eq : s.1.device = d
  mem_keys : ∀ key, key ∈ s.1.counters.keys ↔ key ∈ keys
  registered : ∀ key ref, s.1.counters.get key = some ref →
    s.2.registry.get (d.short ++ '.' :: key) = some ref
  others : ∀ name, (∀ key ∈ keys, name ≠ d.short ++ '.' :: key) →
    s.2.registry.get name = before.registry.get name

theorem Building.counter {d : ReplayDevice} {before : Heap} {keys : List Text}
    {s : Instance × Heap} (hs : Building d before keys s) (key : Text) (recorded : Nat) (now : ℚ) :
    Building d before (keys ++ [key]) (s.1.counter s.2 key recorded now).2 := by
  unfold Instance.counter
  cases hget : s.1.counters.get key with
  | some ref =>
      have hkey : key ∈ keys := (hs.mem_keys key).mp (Dict.mem_keys_iff.mpr ⟨ref, hget⟩)
      constructor
      · exact hs.device_eq
      · intro key'
        rw [hs.mem_keys, List.mem_append, List.mem_singleton]
        exact ⟨Or.inl, fun h => h.elim id fun heq => heq ▸ hkey⟩
      · exact hs.registered
      · exact fun name hname => hs.others name fun key' hkey' => hname key' (by simp [hkey'])
  | none =>
      have hname : ∀ key', (s.1.device.counterSpec key recorded).name = d.short ++ '.' :: key' ↔
          key = key' := by
        intro key'
        rw [ReplayDevice.counterSpec, hs.device_eq]
        simp
      constructor
      · exact hs.device_eq
      · intro key'
        rw [Dict.mem_keys_set, hs.mem_keys, List.mem_append, List.mem_singleton, or_comm]
      · intro key' ref href
        by_cases hkey : key = key'
        · rw [hkey, Dict.get_set_self] at href
          exact (Heap.get_construct _ _ _ _).trans ((if_pos ((hname key').mpr hkey)).trans href)
        · rw [Dict.get_set_of_ne _ _ hkey] at href
          have hne : (s.1.device.counterSpec key recorded).name ≠ d.short ++ '.' :: key' :=
            fun heq => hkey ((hname key').mp heq)
          exact (Heap.get_construct _ _ _ _).trans ((if_neg hne).trans (hs.registered key' ref href))
      · intro name hothers
        have hne : (s.1.device.counterSpec key recorded).name ≠ name := by
          rw [(hname key).mpr rfl]
          exact (hothers key (by simp)).symm
        have hbefore := hs.others name fun key' hkey' => hothers key' (by simp [hkey'])
        exact (Heap.get_construct _ _ _ _).trans ((if_neg hne).trans hbefore)

/-- A constructed instance has the counters of all seeded keys. -/
theorem building_init (d : ReplayDevice) (clock : Nat → ℚ) (h : Heap) :
    Building d h d.model.seeds.keys (init d clock h) := by
  have hrest : ∀ (entries : List (Text × Nat)) (keys : List Text) (s : Instance × Heap),
      Building d h keys s → Building d h (keys ++ entries.map Prod.fst)
        (entries.foldl (fun s e => (s.1.counter s.2 e.1 e.2 (clock s.2.objects.length)).2) s) := by
    intro entries
    induction entries with
    | nil => exact fun keys s hs => by simpa using hs
    | cons e entries ih =>
        intro keys s hs
        have hnext := ih (keys ++ [e.1]) _ (hs.counter e.1 e.2 (clock s.2.objects.length))
        simpa using hnext
  have hstart : Building d h [] (⟨d, Dict.empty⟩, h) :=
    { device_eq := rfl
      mem_keys := by simp [Dict.keys, Dict.empty]
      registered := by simp
      others := fun _ _ => rfl }
  exact hrest d.model.seeds.entries [] _ hstart

end Instance

/-! ## The simulator -/

/-- Construct instances one after the other. -/
def constructAll (clock : Nat → ℚ) : List ReplayDevice → Heap → List Instance × Heap
  | [], h => ([], h)
  | d :: ds, h =>
      let (inst, h) := Instance.init d clock h
      let (insts, h) := constructAll clock ds h
      (inst :: insts, h)

section Construct

variable {clock : Nat → ℚ} {ds : List ReplayDevice} {h : Heap}

theorem constructAll_cons (d : ReplayDevice) : constructAll clock (d :: ds) h =
    ((Instance.init d clock h).1 :: (constructAll clock ds (Instance.init d clock h).2).1,
      (constructAll clock ds (Instance.init d clock h).2).2) :=
  rfl

theorem map_device_constructAll : (constructAll clock ds h).1.map Instance.device = ds := by
  induction ds generalizing h with
  | nil => rfl
  | cons d ds ih => exact congrArg₂ List.cons (Instance.building_init d clock h).device_eq ih

theorem mem_keys_constructAll {inst : Instance} (hinst : inst ∈ (constructAll clock ds h).1)
    {key : Text} : key ∈ inst.counters.keys ↔ key ∈ inst.device.model.seeds.keys := by
  induction ds generalizing h with
  | nil => exact absurd hinst List.not_mem_nil
  | cons d ds ih =>
      rw [constructAll_cons] at hinst
      rcases List.mem_cons.mp hinst with heq | hinst
      · have hbuilding := Instance.building_init d clock h
        rw [heq, hbuilding.device_eq]
        exact hbuilding.mem_keys key
      · exact ih hinst

/-- Constructing instances leaves the names alone that are none of their own. -/
theorem get_constructAll_of_others {name : Text}
    (hothers : ∀ inst ∈ (constructAll clock ds h).1, ∀ key ∈ inst.device.model.seeds.keys,
      name ≠ inst.device.short ++ '.' :: key) :
    (constructAll clock ds h).2.registry.get name = h.registry.get name := by
  induction ds generalizing h with
  | nil => rfl
  | cons d ds ih =>
      have hbuilding := Instance.building_init d clock h
      rw [constructAll_cons] at hothers ⊢
      have hfirst := hothers _ List.mem_cons_self
      rw [hbuilding.device_eq] at hfirst
      rw [ih fun inst hinst => hothers inst (List.mem_cons_of_mem _ hinst)]
      exact hbuilding.others name hfirst

/-- A counter is found under its own name, if no other instance has the name of its own. -/
theorem constructed_registered {place : Nat} {inst : Instance}
    (hinst : (constructAll clock ds h).1[place]? = some inst)
    (hown : ∀ (place' : Nat) (other : Instance), (constructAll clock ds h).1[place']? = some other →
      other.device.short = inst.device.short → place' = place) {key : Text} {ref : Nat}
    (hget : inst.counters.get key = some ref) :
    (constructAll clock ds h).2.registry.get (inst.device.short ++ '.' :: key) = some ref := by
  induction ds generalizing h place with
  | nil => cases hinst
  | cons d ds ih =>
      rw [constructAll_cons] at hinst hown ⊢
      cases place with
      | zero =>
          have hbuilding := Instance.building_init d clock h
          obtain rfl : (Instance.init d clock h).1 = inst := Option.some.inj hinst
          rw [hbuilding.device_eq]
          refine Eq.trans (get_constructAll_of_others ?_) (hbuilding.registered key ref hget)
          intro other hother key' hkey' hname
          have hkey : key ∈ d.model.seeds.keys :=
            (hbuilding.mem_keys key).mp (Dict.mem_keys_iff.mpr ⟨ref, hget⟩)
          -- a later instance with this name would have the same short
          have hshort : other.device.short = (Instance.init d clock h).1.device.short := by
            rw [hbuilding.device_eq]
            exact (short_eq_of_name_eq hkey hkey' hname).symm
          obtain ⟨i, hi⟩ := List.mem_iff_getElem?.mp hother
          have hplace := hown (i + 1) other hi hshort
          cases hplace
      | succ place =>
          apply ih hinst
          intro place' other hother hshort
          have hplace := hown (place' + 1) other hother hshort
          omega

end Construct

/-- A full walk, or a refresh of the dynamic rows. -/
def ReplayDevice.rendering (d : ReplayDevice) (pf : Platform) (now : ℚ) : Scope → Render Unit
  | .full => d.walk pf now >>= fun _ => pure ()
  | .refresh => d.dynamicRows pf now >>= fun _ => pure ()

/-- The samples of an instance that has their counters. -/
def Instance.Samples (inst : Instance) : Op → Prop :=
  Sampling fun name _ _ => ∃ key ∈ inst.counters.keys, name = inst.device.short ++ '.' :: key

/-- An instance with the counters of all seeded keys samples only counters that it has. -/
theorem Instance.rendering_asks {inst : Instance}
    (hheld : ∀ key ∈ inst.device.model.seeds.keys, key ∈ inst.counters.keys) (pf : Platform)
    (now : ℚ) (scope : Scope) : (inst.device.rendering pf now scope).Asks inst.Samples := by
  have hslot : ∀ slot ∈ slots inst.device.model.segments, slot.kind.isCounter = true →
      inst.Samples (inst.device.sampleOp pf slot.key) := by
    intro slot hslot hcounter
    have hnoted := ReplayModel.noted_ofRows inst.device.loaded slot hslot hcounter
    obtain ⟨seed, hseed, -⟩ := hnoted.seeded
    exact ⟨slot.key, hheld slot.key (Dict.mem_keys_iff.mpr ⟨seed, hseed⟩), rfl⟩
  cases scope with
  | full => exact (ReplayDevice.walkFrom_asks hslot _ now _).bind fun _ => Program.asks_done _
  | refresh =>
      have hdynamic : ∀ slot ∈ (slots inst.device.model.segments).filter fun slot =>
          slot.kind.isDynamic, slot.kind.isCounter = true →
            inst.Samples (inst.device.sampleOp pf slot.key) :=
        fun slot hmem => hslot slot (List.mem_of_mem_filter hmem)
      exact (ReplayDevice.rowsFrom_asks hdynamic _ now _).bind fun _ => Program.asks_done _

/-- The counters, the instances, and the renderings under way, each at the place of its
instance. -/
structure Simulator where
  heap : Heap
  instances : List Instance
  renderings : List (Nat × Render Unit)

namespace Simulator

/-- The instances are constructed beside the counters of other devices. -/
def boot (clock : Nat → ℚ) (others : Heap) (devices : List ReplayDevice) : Simulator where
  heap := (constructAll clock devices others).2
  instances := (constructAll clock devices others).1
  renderings := []

/-- The state is loaded, an instance starts a rendering, a rendering performs its next operation,
or another thread samples a counter it has. -/
inductive Event where
  | load (saved : Option Snapshot)
  | render (place : Nat) (scope : Scope) (now : ℚ)
  | perform (k : Nat)
  | sampled (ref : Nat)

/-- The transitions of the simulator. -/
inductive Step (pf : Platform) : Simulator → Event → Simulator → Prop
  | load (s : Simulator) (saved : Option Snapshot) :
      Step pf s (.load saved) { s with heap := s.heap.load saved }
  | render {s : Simulator} {place : Nat} {inst : Instance}
      (hinst : s.instances[place]? = some inst) (scope : Scope) (now : ℚ) :
      Step pf s (.render place scope now)
        { s with renderings := s.renderings ++ [(place, inst.device.rendering pf now scope)] }
  | perform {s : Simulator} {k place : Nat} {op : Op} {next : Ans op → Render Unit} {ans : Ans op}
      {inst inst' : Instance} {heap : Heap}
      (hrendering : s.renderings[k]? = some (place, .ask op next))
      (hinst : s.instances[place]? = some inst)
      (hperforms : Instance.Performs (inst, s.heap) op ans (inst', heap)) :
      Step pf s (.perform k)
        { heap := heap
          instances := s.instances.set place inst'
          renderings := s.renderings.set k (place, next ans) }
  | sampled (s : Simulator) (ref : Nat) (f : Counter → Counter) :
      Step pf s (.sampled ref) { s with heap := s.heap.modify ref f }

/-- The counters and the instances are those constructed at the start, and renderings sample only
counters that their instances have. -/
structure Keeps (start s : Simulator) : Prop where
  constructed : start.heap.SameCounters s.heap
  instances_eq : s.instances = start.instances
  asks : ∀ r ∈ s.renderings, ∀ inst, start.instances[r.1]? = some inst → r.2.Asks inst.Samples

/-- No step constructs a counter. -/
theorem step_keeps {pf : Platform} {start s t : Simulator} {event : Event}
    (hheld : ∀ inst ∈ start.instances, ∀ key ∈ inst.device.model.seeds.keys,
      key ∈ inst.counters.keys)
    (h : Keeps start s) (hstep : Step pf s event t) : Keeps start t := by
  cases hstep with
  | load saved =>
      exact ⟨h.constructed.trans (s.heap.sameCounters_load saved), h.instances_eq, h.asks⟩
  | render hinst scope now =>
      refine ⟨h.constructed, h.instances_eq, ?_⟩
      intro r hr inst' hinst'
      rcases List.mem_append.mp hr with hr | hr
      · exact h.asks r hr inst' hinst'
      · cases List.mem_singleton.mp hr
        rw [h.instances_eq, hinst', Option.some.injEq] at hinst
        subst hinst
        exact Instance.rendering_asks (hheld _ (List.mem_of_getElem? hinst')) pf now scope
  | @perform k place op next ans inst inst' heap hrendering hinst hperforms =>
      rw [h.instances_eq] at hinst
      have hasks := h.asks _ (List.mem_of_getElem? hrendering) inst hinst
      obtain ⟨rfl, hheap⟩ := Instance.performs_keeps hasks.1 hperforms
      refine ⟨h.constructed.trans hheap, ?_, ?_⟩
      · have hset := List.getElem?_eq_some_iff.mp hinst
        obtain ⟨hlt, heq⟩ := hset
        rw [h.instances_eq, ← heq, List.set_getElem_self]
      · intro r hr other hother
        rcases List.mem_or_eq_of_mem_set hr with hr | rfl
        · exact h.asks r hr other hother
        · rw [hinst, Option.some.injEq] at hother
          exact hother ▸ hasks.2 ans
  | sampled ref f =>
      exact ⟨h.constructed.trans (s.heap.sameCounters_modify ref f), h.instances_eq, h.asks⟩

/-- Every counter exists: the counter slots of every instance are noted, the instance has the
counters of all seeded keys, none has been constructed since the start, and a load restores each
from what was saved under its own name. -/
structure Eager (devices : List ReplayDevice) (start s : Simulator) : Prop where
  noted : ∀ d ∈ devices, ∀ slot ∈ slots d.model.segments, slot.kind.isCounter = true →
    d.model.Noted slot
  devices_eq : s.instances.map Instance.device = devices
  held : ∀ inst ∈ s.instances, ∀ key ∈ inst.device.model.seeds.keys, key ∈ inst.counters.keys
  constructed : start.heap.SameCounters s.heap
  instances_eq : s.instances = start.instances
  restored : ∀ (place : Nat) (inst : Instance), s.instances[place]? = some inst →
    (∀ (place' : Nat) (other : Instance), s.instances[place']? = some other →
      other.device.short = inst.device.short → place' = place) →
    ∀ key ref, inst.counters.get key = some ref →
      ref < s.heap.objects.length ∧ ∀ snap : Snapshot,
        (s.heap.load (some snap)).objects[ref]? =
          (s.heap.objects[ref]?).map (snap.restoreCounter (inst.device.short ++ '.' :: key))

/-- In every order of loads, renderings and samples, every counter exists from the construction of
its instance on. -/
theorem eager_of_run {pf : Platform} {clock : Nat → ℚ} {others : Heap}
    {devices : List ReplayDevice} {events : List Event} {s : Simulator}
    (hrun : Run (Step pf) (boot clock others devices) events s) :
    Eager devices (boot clock others devices) s := by
  have hheld : ∀ inst ∈ (boot clock others devices).instances,
      ∀ key ∈ inst.device.model.seeds.keys, key ∈ inst.counters.keys :=
    fun inst hinst key => (mem_keys_constructAll hinst).mpr
  have hstart : Keeps (boot clock others devices) (boot clock others devices) :=
    ⟨Heap.SameCounters.refl _, rfl, fun r hr => absurd hr List.not_mem_nil⟩
  have hkeeps : Keeps (boot clock others devices) s :=
    hrun.invariant (fun u event v hu hstep => step_keeps hheld hu hstep) hstart
  constructor
  · exact fun d _ => ReplayModel.noted_ofRows d.loaded
  · rw [hkeeps.instances_eq]
    exact map_device_constructAll
  · rw [hkeeps.instances_eq]
    exact hheld
  · exact hkeeps.constructed
  · exact hkeeps.instances_eq
  · rw [hkeeps.instances_eq]
    intro place inst hinst hown key ref hget
    have hregistered : s.heap.registry.get (inst.device.short ++ '.' :: key) = some ref := by
      rw [hkeeps.constructed.registry_eq]
      exact constructed_registered hinst hown hget
    exact ⟨s.heap.registered _ _ hregistered, Heap.load_registered hregistered⟩

/-- A rendering that asks for a counter its instance has can perform its next operation. -/
theorem exists_perform {pf : Platform} {s : Simulator} {k place : Nat} {inst : Instance}
    {key : Text} {next : Ans (inst.device.sampleOp pf key) → Render Unit}
    (hrendering : s.renderings[k]? = some (place, .ask (inst.device.sampleOp pf key) next))
    (hinst : s.instances[place]? = some inst) {ref : Nat} (hget : inst.counters.get key = some ref)
    (hlt : ref < s.heap.objects.length) : ∃ t, Step pf s (.perform k) t := by
  have hsample := Instance.sample_of_get hget (List.getElem?_eq_getElem hlt) 0
    ((inst.device.model.rates.get key).getD 0 * inst.device.rateJit pf)
    (inst.device.model.caps.get key) 0 0
  exact ⟨_, .perform hrendering hinst ⟨key, 0, 0, 0, rfl, hsample⟩⟩

end Simulator

/-- A process without counters. -/
def Heap.none : Heap where
  objects := []
  registry := Dict.empty
  registered := by simp
  distinct := by simp

/-- An instance of one port, and nothing else. -/
def onePortSimulator : Simulator :=
  Simulator.boot (fun _ => 0) Heap.none [onePortDevice]

/-- The state is loaded, and a refresh samples its counter. -/
theorem run_onePort : ∃ s, Run (Simulator.Step Platform.still) onePortSimulator
    [.load none, .render 0 .refresh 0, .perform 0] s := by
  have hslots : (slots onePortDevice.model.segments).filter (fun slot => slot.kind.isDynamic) =
      [⟨.ctr64, ".1.3.6.1.2.1.31.1.1.1.6.1".toList, "ifin.1".toList, 5⟩] := by
    decide +kernel
  have hseed : "ifin.1".toList ∈ onePortDevice.model.seeds.keys := by decide +kernel
  have hbuilding := Instance.building_init onePortDevice (fun _ => 0) Heap.none
  obtain ⟨ref, href⟩ := Dict.mem_keys_iff.mp ((hbuilding.mem_keys _).mpr hseed)
  have hlt := Heap.registered _ _ _ (hbuilding.registered _ ref href)
  obtain ⟨next, hnext⟩ : ∃ next, onePortDevice.rendering Platform.still 0 .refresh =
      Program.ask (onePortDevice.sampleOp Platform.still "ifin.1".toList) next := by
    unfold ReplayDevice.rendering ReplayDevice.dynamicRows
    rw [hslots]
    exact ⟨_, rfl⟩
  rw [← hbuilding.device_eq] at hnext
  have hinst : onePortSimulator.instances[0]? =
      some (Instance.init onePortDevice (fun _ => 0) Heap.none).1 := rfl
  have hrender : Simulator.Step Platform.still onePortSimulator (.render 0 .refresh 0)
      { onePortSimulator with renderings := [(0, _)] } := .render hinst .refresh 0
  rw [hnext] at hrender
  obtain ⟨s, hperform⟩ : ∃ s, Simulator.Step Platform.still
      { onePortSimulator with renderings := [(0, Program.ask _ next)] } (.perform 0) s :=
    Simulator.exists_perform rfl hinst href hlt
  exact ⟨s, .cons (.load _ none) (.cons hrender (.cons hperform (.nil s)))⟩

theorem Simulator.eager_of_run_onePort : ∃ s,
    Run (Simulator.Step Platform.still) onePortSimulator
        [.load none, .render 0 .refresh 0, .perform 0] s ∧
      Simulator.Eager [onePortDevice] onePortSimulator s := by
  obtain ⟨s, hrun⟩ := run_onePort
  exact ⟨s, hrun, Simulator.eager_of_run hrun⟩

end Netsim
end DemoEstate
