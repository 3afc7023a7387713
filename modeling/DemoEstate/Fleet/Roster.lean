import DemoEstate.Library.Groups
import DemoEstate.Library.Text

/-!
# The roster of the fleet

The host classes of the fleet are expanded into hosts: the virtual machines are dealt to the
hypervisors of their site, and everything else hangs off an access switch.

Main definitions:

- Structure {lit}`ClassTables`: the class tables, with distinct prefixes.
- Definition {lit}`expandRoster`: the hosts, with their guests and parents.

Main results:

- Theorem {lit}`nodup_instances`: distinct prefixes give distinct names.
- Theorem {lit}`get_foldl_hang`: hanging hosts off switches changes their parents only.
-/

namespace DemoEstate
namespace Fleet

open Dealing

/-! ## Host classes -/

/-- The operating systems of a class. -/
inductive Os
  | linux
  | windows
deriving DecidableEq

/-- A class of hosts, as far as the expansion reads it. -/
structure ClassSpec where
  namePrefix : Text
  count : Nat
  first : Option Nat
  site : Option Text
  os : Option Os
  vm : Option Bool
  hypervisor : Bool
deriving DecidableEq

/-- Set the operating system and the machine kind where the class leaves them open. -/
def ClassSpec.setDefaults (os : Os) (vm : Bool) (cls : ClassSpec) : ClassSpec :=
  { cls with os := some (cls.os.getD os), vm := some (cls.vm.getD vm) }

/-- The class tables; no two classes share a prefix. -/
structure ClassTables where
  linuxClasses : List ClassSpec
  kvmClasses : List ClassSpec
  windowsClasses : List ClassSpec
  distinct : ((linuxClasses ++ kvmClasses ++ windowsClasses).map ClassSpec.namePrefix).Nodup

/-- Every class, with its defaults applied. -/
def allClasses (tables : ClassTables) : List ClassSpec :=
  tables.linuxClasses.map (ClassSpec.setDefaults .linux true) ++
    tables.kvmClasses.map (ClassSpec.setDefaults .linux false) ++
    tables.windowsClasses.map (ClassSpec.setDefaults .windows true)

/-- The site of the central iron. -/
def dc : Text :=
  ['d', 'c']

/-- The site of a class. -/
def ClassSpec.siteOf (cls : ClassSpec) : Text :=
  cls.site.getD dc

/-- The class stands for virtual machines. -/
def ClassSpec.isVm (cls : ClassSpec) : Bool :=
  cls.vm.getD true

/-- A number of at least two digits. -/
def twoDigits (n : Nat) : Text :=
  List.replicate (2 - (Text.decimal n).length) '0' ++ Text.decimal n

/-- The short names of a class. -/
def ClassSpec.shorts (cls : ClassSpec) : List Text :=
  (List.range' (cls.first.getD 1) cls.count).map fun n => cls.namePrefix ++ '-' :: twoDigits n

/-- The prefixes that the environment asks for. -/
def wantedPrefixes (fleetClasses : Text) : List Text :=
  ((fleetClasses.splitOn ',').map (Text.strip Text.isSpace)).filter (· ≠ [])

/-- The classes to expand: the wanted ones, or all if none is named. -/
def wantedClasses (tables : ClassTables) (fleetClasses : Text) : List ClassSpec :=
  let wanted := wantedPrefixes fleetClasses
  (allClasses tables).filter fun cls => wanted = [] ∨ cls.namePrefix ∈ wanted

/-- Every name to stamp out, with its class. -/
def instances (tables : ClassTables) (fleetClasses : Text) : List (Text × ClassSpec) :=
  (wantedClasses tables fleetClasses).flatMap fun cls => cls.shorts.map fun short => (short, cls)

/-! ## Hosts -/

/-- A host of the fleet; the guests are named. -/
structure Host where
  short : Text
  spec : ClassSpec
  os : Os
  netParent : Option Text
  guests : List Text
deriving DecidableEq

/-- The site of a host. -/
def Host.site (host : Host) : Text :=
  host.spec.siteOf

def linuxHost (short : Text) (spec : ClassSpec) (guests : List Text) : Host where
  short := short
  spec := spec
  os := .linux
  netParent := none
  guests := guests

def windowsHost (short : Text) (spec : ClassSpec) : Host where
  short := short
  spec := spec
  os := .windows
  netParent := none
  guests := []

/-- The host of a class that is no hypervisor. -/
def plainHost (inst : Text × ClassSpec) : Host :=
  if inst.2.os = some .linux then linuxHost inst.1 inst.2 [] else windowsHost inst.1 inst.2

@[simp]
theorem plainHost_short (inst : Text × ClassSpec) : (plainHost inst).short = inst.1 := by
  unfold plainHost
  split <;> rfl

@[simp]
theorem plainHost_spec (inst : Text × ClassSpec) : (plainHost inst).spec = inst.2 := by
  unfold plainHost
  split <;> rfl

@[simp]
theorem plainHost_guests (inst : Text × ClassSpec) : (plainHost inst).guests = [] := by
  unfold plainHost
  split <;> rfl

@[simp]
theorem plainHost_netParent (inst : Text × ClassSpec) : (plainHost inst).netParent = none := by
  unfold plainHost
  split <;> rfl

/-- The top-of-rack switches. -/
def dcTor : List Text :=
  (List.range' 1 8).map fun n => "sw-dc-tor-".toList ++ twoDigits n

/-- The first access switch of a warehouse. -/
def whSwitch : Dict Text Text :=
  Dict.ofRows [("wh1".toList, "wh1-sw-01".toList), ("wh2".toList, "wh2-sw-01".toList)]

/-- The switches that hosts hang off. -/
def accessSwitches : List Text :=
  dcTor ++ whSwitch.entries.map Prod.snd

/-! ## Expansion -/

/-- What the pass over the classes collects. -/
structure Draft where
  hosts : Dict Text Host
  vmsBySite : Dict Text (List Text)
  hvSpecs : List (Text × ClassSpec)

/-- The hosts that are no hypervisors are built at once. -/
def Draft.enlist (draft : Draft) (inst : Text × ClassSpec) : Draft :=
  if inst.2.hypervisor then { draft with hvSpecs := draft.hvSpecs ++ [inst] }
  else
    { draft with
      hosts := draft.hosts.set inst.1 (plainHost inst)
      vmsBySite :=
        if inst.2.isVm then draft.vmsBySite.push inst.2.siteOf inst.1 else draft.vmsBySite }

def Draft.start : Draft where
  hosts := Dict.empty
  vmsBySite := Dict.empty
  hvSpecs := []

/-- The hypervisors for the machines of a site: its own, or else the central ones. -/
def poolOf (hvBySite : Dict Text (List Text)) (site : Text) : List Text :=
  match hvBySite.get site with
  | some (hv :: hvs) => hv :: hvs
  | _ => (hvBySite.get dc).getD []

/-- The machines of each site in turn to its hypervisors. -/
def dealt (vmsBySite hvBySite : Dict Text (List Text)) : List (Text × Text) :=
  vmsBySite.entries.flatMap fun e => deal (poolOf hvBySite e.1) e.2

/-- The switch that the next host of a site hangs off, and the place in the turn after it. -/
def switchFor (site : Text) (dcRr : Nat) : Text × Nat :=
  if site = dc then (dcTor[dcRr % dcTor.length]!, dcRr + 1)
  else ((whSwitch.get site).getD dcTor[0]!, dcRr)

/-- Enter a host that hangs off a switch. -/
def hang (acc : Dict Text Host × Nat) (host : Host) : Dict Text Host × Nat :=
  let next := switchFor host.site acc.2
  (acc.1.set host.short { host with netParent := some next.1 }, next.2)

/-- A missing parent and an empty one are the same. -/
def Host.hasParent (host : Host) : Bool :=
  host.netParent.getD [] ≠ []

def expandRoster (tables : ClassTables) (fleetClasses : Text) : Dict Text Host :=
  let draft := (instances tables fleetClasses).foldl Draft.enlist Draft.start
  let hvBySite := Dict.group (draft.hvSpecs.map fun hv => (hv.2.siteOf, hv.1))
  let assigned := dealt draft.vmsBySite hvBySite
  let guestsOf := assigned.foldl (fun d a => d.modify a.2 (· ++ [a.1]))
    (Dict.ofRows (draft.hvSpecs.map fun hv => (hv.1, [])))
  let hosts := assigned.foldl
    (fun d a => d.modify a.1 fun host => { host with netParent := some a.2 }) draft.hosts
  let built := draft.hvSpecs.foldl
    (fun acc hv => hang acc (linuxHost hv.1 hv.2 ((guestsOf.get hv.1).getD []))) (hosts, 0)
  -- whatever physical host remains hangs off a switch too
  (built.1.entries.foldl (fun acc e => if e.2.hasParent then acc else hang acc e.2) built).1

/-! ## Names -/

theorem decimal_of_twoDigits {m n : Nat} (h : twoDigits m = twoDigits n) : m = n := by
  have hread : ∀ k n, Text.intOf (List.replicate k '0' ++ Text.decimal n) = some n := by
    intro k n
    induction k with
    | zero => exact Text.intOf_decimal n
    | succ k ih =>
        rw [List.replicate_succ, List.cons_append, ← ih]
        simp [Text.intOf, Text.decimal_ne_nil, Nat.ofDigitChars]
  have heq := congrArg Text.intOf h
  rw [twoDigits, twoDigits, hread, hread] at heq
  exact Option.some.inj heq

theorem dash_notMem_twoDigits (n : Nat) : '-' ∉ twoDigits n := by
  intro h
  rcases List.mem_append.mp h with h | h
  · exact absurd (List.eq_of_mem_replicate h) (by decide)
  · exact absurd (Text.isDigit_of_mem_decimal h) (by decide)

/-- A short name determines its prefix and its number. -/
theorem short_inj {p q : Text} {m n : Nat} (h : p ++ '-' :: twoDigits m = q ++ '-' :: twoDigits n) :
    p = q ∧ m = n := by
  have hcut : ∀ (p : Text) n, Text.cut '-' (p ++ '-' :: twoDigits n).reverse =
      ((twoDigits n).reverse, p.reverse) := by
    intro p n
    rw [List.reverse_append, List.reverse_cons, List.append_assoc, List.singleton_append]
    exact Text.cut_append (by simpa using dash_notMem_twoDigits n) _
  have heq := congrArg (fun s => Text.cut '-' (List.reverse s)) h
  simp only [hcut, Prod.mk.injEq, List.reverse_inj] at heq
  exact ⟨heq.2, decimal_of_twoDigits heq.1⟩

theorem nodup_shorts (cls : ClassSpec) : cls.shorts.Nodup := by
  refine List.Nodup.map_on ?_ List.nodup_range'
  intro m _ n _ h
  exact (short_inj h).2

/-- The wanted classes have distinct prefixes. -/
theorem nodup_wantedClasses (tables : ClassTables) (fleetClasses : Text) :
    ((wantedClasses tables fleetClasses).map ClassSpec.namePrefix).Nodup := by
  have hall : (allClasses tables).map ClassSpec.namePrefix =
      (tables.linuxClasses ++ tables.kvmClasses ++ tables.windowsClasses).map
        ClassSpec.namePrefix := by
    simp [allClasses, ClassSpec.setDefaults, Function.comp_def]
  apply List.Nodup.sublist (List.filter_sublist.map _)
  rw [hall]
  exact tables.distinct

theorem map_fst_instances (tables : ClassTables) (fleetClasses : Text) :
    (instances tables fleetClasses).map Prod.fst =
      (wantedClasses tables fleetClasses).flatMap ClassSpec.shorts := by
  simp [instances, List.map_flatMap, Function.comp_def]

/-- Distinct prefixes give distinct names. -/
theorem nodup_instances (tables : ClassTables) (fleetClasses : Text) :
    ((instances tables fleetClasses).map Prod.fst).Nodup := by
  rw [map_fst_instances, List.nodup_flatMap]
  constructor
  · exact fun cls _ => nodup_shorts cls
  · have hne := List.pairwise_map.mp (nodup_wantedClasses tables fleetClasses)
    apply hne.imp
    intro a b hab short ha hb
    obtain ⟨m, -, rfl⟩ := List.mem_map.mp ha
    obtain ⟨n, -, heq⟩ := List.mem_map.mp hb
    exact hab (short_inj heq).1.symm

/-! ## The passes -/

/-- The instances that are no hypervisors. -/
def plains (insts : List (Text × ClassSpec)) : List (Text × ClassSpec) :=
  insts.filter fun inst => !inst.2.hypervisor

/-- The virtual machines among the instances. -/
def vms (insts : List (Text × ClassSpec)) : List (Text × ClassSpec) :=
  (plains insts).filter fun inst => inst.2.isVm

/-- The hypervisors among the instances. -/
def hypervisors (insts : List (Text × ClassSpec)) : List (Text × ClassSpec) :=
  insts.filter fun inst => inst.2.hypervisor

theorem foldl_enlist (insts : List (Text × ClassSpec)) (draft : Draft) :
    insts.foldl Draft.enlist draft =
      { hosts := draft.hosts.update ((plains insts).map fun inst => (inst.1, plainHost inst))
        vmsBySite := ((vms insts).map fun inst => (inst.2.siteOf, inst.1)).foldl
          (fun d r => d.push r.1 r.2) draft.vmsBySite
        hvSpecs := draft.hvSpecs ++ hypervisors insts } := by
  induction insts generalizing draft with
  | nil => simp [plains, vms, hypervisors]
  | cons inst insts ih =>
      rw [List.foldl_cons, ih, Draft.enlist]
      by_cases hhv : inst.2.hypervisor = true
      · simp [plains, vms, hypervisors, hhv]
      · by_cases hvm : inst.2.isVm = true
        · simp [plains, vms, hypervisors, hhv, hvm]
        · simp [plains, vms, hypervisors, hhv, hvm]

theorem switchFor_mem (site : Text) (dcRr : Nat) : (switchFor site dcRr).1 ∈ accessSwitches := by
  have hlength : dcTor.length = 8 := by simp [dcTor]
  rw [switchFor]
  split
  · have hlt : dcRr % dcTor.length < dcTor.length := Nat.mod_lt _ (by omega)
    rw [getElem!_pos dcTor _ hlt]
    exact List.mem_append_left _ (List.getElem_mem hlt)
  · cases hget : whSwitch.get site with
    | none =>
        have hlt : 0 < dcTor.length := by omega
        rw [Option.getD_none, getElem!_pos dcTor 0 hlt]
        exact List.mem_append_left _ (List.getElem_mem hlt)
    | some sw =>
        exact List.mem_append_right _
          (List.mem_map_of_mem (f := Prod.snd) (Dict.get_eq_some_iff.mp hget))

/-- Hanging hosts off switches changes no other host. -/
theorem get_foldl_hang_of_notMem {hosts : List Host} (acc : Dict Text Host × Nat) {short : Text}
    (h : short ∉ hosts.map Host.short) :
    (hosts.foldl hang acc).1.get short = acc.1.get short := by
  induction hosts generalizing acc with
  | nil => rfl
  | cons host hosts ih =>
      simp only [List.map_cons, List.mem_cons, not_or] at h
      rw [List.foldl_cons, ih _ h.2, hang]
      exact Dict.get_set_of_ne _ _ (Ne.symm h.1)

/-- Hanging hosts off switches enters those hosts, each with a switch for its parent. -/
theorem get_foldl_hang {hosts : List Host} (hnodup : (hosts.map Host.short).Nodup)
    (acc : Dict Text Host × Nat) {host : Host} (h : host ∈ hosts) :
    ∃ sw ∈ accessSwitches,
      (hosts.foldl hang acc).1.get host.short = some { host with netParent := some sw } := by
  induction hosts generalizing acc with
  | nil => exact absurd h List.not_mem_nil
  | cons first hosts ih =>
      simp only [List.map_cons, List.nodup_cons] at hnodup
      rw [List.foldl_cons]
      rcases List.mem_cons.mp h with rfl | hrest
      · use (switchFor host.site acc.2).1, switchFor_mem host.site acc.2
        rw [get_foldl_hang_of_notMem _ hnodup.1, hang]
        exact Dict.get_set_self _ _ _
      · exact ih hnodup.2 _ hrest

end Fleet
end DemoEstate
