import DemoEstate.Fleet.Roster

/-!
# Which hypervisor a machine goes to

The passes of the expansion one after the other: the machines are assigned, the hypervisors are
entered, and the hosts that are left hang off switches.

Main definitions:

- Definition {lit}`assigned`: the machines with their hypervisors.
- Definition {lit}`guestsAt`: the guests of a hypervisor.

Main results:

- Theorem {lit}`nodup_assigned`: no machine is dealt twice.
- Theorem {lit}`filter_assigned_site`: the guests of one site.
- Theorems {lit}`get_hypervisor`, {lit}`get_assigned`, {lit}`get_rest` and {lit}`get_other`: what the
  roster holds under each name.
-/

namespace DemoEstate
namespace Fleet

open Dealing

/-! ## The assignment -/

variable {insts : List (Text × ClassSpec)}

def hvBySite (insts : List (Text × ClassSpec)) : Dict Text (List Text) :=
  Dict.group ((hypervisors insts).map fun hv => (hv.2.siteOf, hv.1))

def vmsBySite (insts : List (Text × ClassSpec)) : Dict Text (List Text) :=
  Dict.group ((vms insts).map fun vm => (vm.2.siteOf, vm.1))

/-- The machines with their hypervisors. -/
def assigned (insts : List (Text × ClassSpec)) : List (Text × Text) :=
  dealt (vmsBySite insts) (hvBySite insts)

/-- The names at a site. -/
def namesAt (insts : List (Text × ClassSpec)) (site : Text) : List Text :=
  (insts.filter fun inst => inst.2.siteOf = site).map Prod.fst

theorem getD_group_sites (insts : List (Text × ClassSpec)) (site : Text) :
    ((Dict.group (insts.map fun inst => (inst.2.siteOf, inst.1))).get site).getD [] =
      namesAt insts site := by
  rw [Dict.getD_group, List.filter_map, List.map_map]
  rfl

theorem mem_namesAt {site name : Text} :
    name ∈ namesAt insts site ↔ ∃ inst ∈ insts, inst.2.siteOf = site ∧ inst.1 = name := by
  simp only [namesAt, List.mem_map, List.mem_filter, decide_eq_true_eq, and_assoc]

/-- A site uses its own hypervisors, or else those of the central site. -/
theorem poolOf_hvBySite (insts : List (Text × ClassSpec)) (site : Text) :
    poolOf (hvBySite insts) site =
      if namesAt (hypervisors insts) site = [] then namesAt (hypervisors insts) dc
      else namesAt (hypervisors insts) site := by
  have hsite := getD_group_sites (hypervisors insts) site
  have hdc := getD_group_sites (hypervisors insts) dc
  rw [poolOf, hvBySite]
  cases hget : (Dict.group ((hypervisors insts).map fun hv => (hv.2.siteOf, hv.1))).get site with
  | none =>
      rw [hget, Option.getD_none] at hsite
      rw [if_pos hsite.symm]
      exact hdc
  | some hvs =>
      rw [hget, Option.getD_some] at hsite
      cases hvs with
      | nil =>
          rw [if_pos hsite.symm]
          exact hdc
      | cons hv hvs => rw [if_neg (by rw [← hsite]; exact List.cons_ne_nil _ _), ← hsite]

theorem mem_vmsBySite {site : Text} {names : List Text}
    (h : (site, names) ∈ (vmsBySite insts).entries) : names = namesAt (vms insts) site := by
  rw [← getD_group_sites, ← Option.getD_some (a := names) (b := []), ← Dict.get_eq_some_iff.mpr h]
  rfl

/-- A dealt pair is a machine and a hypervisor of its pool. -/
theorem mem_assigned {vm hv : Text} :
    (vm, hv) ∈ assigned insts ↔ ∃ inst ∈ vms insts, inst.1 = vm ∧
      (vm, hv) ∈ deal (poolOf (hvBySite insts) inst.2.siteOf) (namesAt (vms insts) inst.2.siteOf) := by
  rw [assigned, dealt, List.mem_flatMap]
  constructor
  · rintro ⟨⟨site, names⟩, hentry, hdeal⟩
    rw [mem_vmsBySite hentry] at hdeal
    obtain ⟨inst, hinst, rfl, rfl⟩ := mem_namesAt.mp (mem_items_of_mem_deal hdeal)
    exact ⟨inst, hinst, rfl, hdeal⟩
  · rintro ⟨inst, hinst, rfl, hdeal⟩
    have hkey : inst.2.siteOf ∈ (vmsBySite insts).keys := by
      rw [vmsBySite, Dict.mem_keys_group]
      simp only [List.map_map, List.mem_map, Function.comp_apply]
      exact ⟨inst, hinst, rfl⟩
    obtain ⟨names, hget⟩ := Dict.mem_keys_iff.mp hkey
    have hentry := Dict.get_eq_some_iff.mp hget
    refine ⟨(inst.2.siteOf, names), hentry, ?_⟩
    rw [mem_vmsBySite hentry]
    exact hdeal

/-- A machine with a pool gets a hypervisor of it. -/
theorem exists_assigned {inst : Text × ClassSpec} (h : inst ∈ vms insts)
    (hpool : poolOf (hvBySite insts) inst.2.siteOf ≠ []) :
    ∃ hv ∈ poolOf (hvBySite insts) inst.2.siteOf, (inst.1, hv) ∈ assigned insts := by
  have hname : inst.1 ∈ (deal (poolOf (hvBySite insts) inst.2.siteOf)
      (namesAt (vms insts) inst.2.siteOf)).map Prod.fst := by
    rw [map_fst_deal hpool]
    exact mem_namesAt.mpr ⟨inst, h, rfl, rfl⟩
  obtain ⟨⟨vm, hv⟩, hdeal, rfl⟩ := List.mem_map.mp hname
  exact ⟨hv, mem_pool_of_mem_deal hdeal, mem_assigned.mpr ⟨inst, h, rfl, hdeal⟩⟩

/-- The machines of one site among the guests of a hypervisor are those it was dealt there. -/
theorem filter_assigned_site {q : Text → Bool} {site : Text}
    (hq : ∀ inst ∈ vms insts, q inst.1 = decide (inst.2.siteOf = site)) (hv : Text) :
    ((assigned insts).filter fun a => a.2 = hv).filter (fun a => q a.1) =
      (deal (poolOf (hvBySite insts) site) (namesAt (vms insts) site)).filter fun a => a.2 = hv := by
  let dealtTo : Text → List Text → List (Text × Text) := fun site names =>
    (deal (poolOf (hvBySite insts) site) names).filter fun a => a.2 = hv
  -- the entry of the site is kept whole, every other one is dropped
  have hentry : ∀ e ∈ (vmsBySite insts).entries,
      (dealtTo e.1 e.2).filter (fun a => q a.1) = if e.1 = site then dealtTo e.1 e.2 else [] := by
    rintro ⟨site', names⟩ he
    have hsite : ∀ a ∈ dealtTo site' names, q a.1 = decide (site' = site) := by
      intro a ha
      have hname := mem_items_of_mem_deal (List.mem_filter.mp ha).1
      rw [mem_vmsBySite he] at hname
      obtain ⟨inst, hinst, rfl, heq⟩ := mem_namesAt.mp hname
      rw [← heq, hq inst hinst]
    split
    · rename_i heq
      exact List.filter_eq_self.mpr fun a ha => by rw [hsite a ha, decide_eq_true heq]
    · rename_i hne
      exact List.filter_eq_nil_iff.mpr fun a ha => by simpa [hsite a ha] using hne
  have hget : (((vmsBySite insts).get site).map (dealtTo site)).getD [] =
      dealtTo site (namesAt (vms insts) site) := by
    have hnames := getD_group_sites (vms insts) site
    rw [vmsBySite]
    cases hget : (Dict.group ((vms insts).map fun vm => (vm.2.siteOf, vm.1))).get site with
    | none =>
        rw [hget, Option.getD_none] at hnames
        rw [← hnames]
        rfl
    | some names =>
        rw [hget, Option.getD_some] at hnames
        rw [← hnames]
        rfl
  calc ((assigned insts).filter fun a => a.2 = hv).filter (fun a => q a.1)
    _ = (vmsBySite insts).entries.flatMap fun e =>
          (dealtTo e.1 e.2).filter fun a => q a.1 := by
        rw [assigned, dealt, List.filter_flatMap, List.filter_flatMap]
    _ = (vmsBySite insts).entries.flatMap fun e =>
          if e.1 = site then dealtTo e.1 e.2 else [] := by
        exact List.flatMap_congr hentry
    _ = dealtTo site (namesAt (vms insts) site) := by
        rw [Dict.flatMap_entries, hget]

section Distinct

variable (hnames : (insts.map Prod.fst).Nodup)
include hnames

theorem nodup_namesAt {p : Text × ClassSpec → Bool} (site : Text) :
    (namesAt (insts.filter p) site).Nodup :=
  hnames.sublist ((List.filter_sublist.trans List.filter_sublist).map Prod.fst)

theorem eq_of_name {inst inst' : Text × ClassSpec} (h : inst ∈ insts) (h' : inst' ∈ insts)
    (hname : inst.1 = inst'.1) : inst = inst' :=
  List.inj_on_of_nodup_map hnames h h' hname

theorem nodup_names_vms (site : Text) : (namesAt (vms insts) site).Nodup := by
  rw [vms, plains, List.filter_filter]
  exact nodup_namesAt hnames site

/-- No machine is dealt twice. -/
theorem nodup_assigned : ((assigned insts).map Prod.fst).Nodup := by
  have hmem : ∀ inst ∈ vms insts, inst ∈ insts := fun inst h =>
    (List.mem_filter.mp (List.mem_filter.mp h).1).1
  have hdeal : ∀ (pool names : List Text), ((deal pool names).map Prod.fst).Sublist names := by
    intro pool names
    by_cases hpool : pool = []
    · simp [hpool]
    · rw [map_fst_deal hpool]
  rw [assigned, dealt, List.map_flatMap, List.nodup_flatMap]
  constructor
  · rintro ⟨site, names⟩ hentry
    apply List.Nodup.sublist (hdeal _ _)
    rw [mem_vmsBySite hentry]
    exact nodup_names_vms hnames site
  · have hkeys := List.pairwise_map.mp (List.nodup_iff_pairwise_ne.mp (vmsBySite insts).nodup)
    refine hkeys.imp_of_mem ?_
    rintro ⟨site, names⟩ ⟨site', names'⟩ hentry hentry' hne name hname hname'
    -- a name stands at one site only
    have hat := (hdeal _ _).subset hname
    have hat' := (hdeal _ _).subset hname'
    rw [mem_vmsBySite hentry] at hat
    rw [mem_vmsBySite hentry'] at hat'
    obtain ⟨inst, hinst, rfl, rfl⟩ := mem_namesAt.mp hat
    obtain ⟨inst', hinst', rfl, heq⟩ := mem_namesAt.mp hat'
    exact hne (by rw [eq_of_name hnames (hmem _ hinst') (hmem _ hinst) heq])

end Distinct

/-! ## The roster under each name -/

/-- The guests of a hypervisor. -/
def guestsAt (insts : List (Text × ClassSpec)) (hv : Text) : List Text :=
  ((assigned insts).filter fun a => a.2 = hv).map Prod.fst

/-- The hosts that are no hypervisors, with the machines assigned. -/
def placed (insts : List (Text × ClassSpec)) : Dict Text Host :=
  (assigned insts).foldl (fun d a => d.modify a.1 fun host => { host with netParent := some a.2 })
    (Dict.ofRows ((plains insts).map fun inst => (inst.1, plainHost inst)))

/-- The hypervisors with their guests. -/
def hosting (insts : List (Text × ClassSpec)) : List Host :=
  (hypervisors insts).map fun hv => linuxHost hv.1 hv.2 (guestsAt insts hv.1)

/-- Hang the hosts without a parent off switches. -/
def sweep (acc : Dict Text Host × Nat) : Dict Text Host :=
  (((acc.1.entries.filter fun e => !e.2.hasParent).map Prod.snd).foldl hang acc).1

/-- The lists that the pass over the assignment builds are the guests. -/
theorem getD_guestsOf {hv : Text × ClassSpec} (h : hv ∈ hypervisors insts) :
    (((assigned insts).foldl (fun d a => d.modify a.2 (· ++ [a.1]))
      (Dict.ofRows ((hypervisors insts).map fun hv => (hv.1, [])))).get hv.1).getD [] =
      guestsAt insts hv.1 := by
  have hkey : hv.1 ∈ ((hypervisors insts).map fun hv => (hv.1, ([] : List Text))).map Prod.fst := by
    rw [List.map_map]
    exact List.mem_map_of_mem h
  obtain ⟨guests, hrow, hget⟩ := Dict.get_update_of_mem Dict.empty hkey
  obtain ⟨hv', -, heq⟩ := List.mem_map.mp hrow
  have hempty : guests = [] := (Prod.mk.inj heq).2.symm
  have hsnoc : ∀ (rows : List (Text × Text)) (start : List Text),
      rows.foldl (fun names a => names ++ [a.1]) start = start ++ rows.map Prod.fst := by
    intro rows
    induction rows with
    | nil => simp
    | cons a rows ih =>
        intro start
        rw [List.foldl_cons, ih, List.map_cons, List.append_assoc, List.singleton_append]
  rw [Dict.get_foldl_modify (fun a : Text × Text => a.2) (fun a names => names ++ [a.1]),
    Dict.ofRows, hget, hempty, Option.map_some, Option.getD_some, hsnoc]
  rfl

theorem expandRoster_eq (tables : ClassTables) (fleetClasses : Text) :
    expandRoster tables fleetClasses =
      sweep ((hosting (instances tables fleetClasses)).foldl hang
        (placed (instances tables fleetClasses), 0)) := by
  let insts := instances tables fleetClasses
  let guestsOf := (assigned insts).foldl (fun d a => d.modify a.2 (· ++ [a.1]))
    (Dict.ofRows ((hypervisors insts).map fun hv => (hv.1, [])))
  have hhosting : hosting insts = (hypervisors insts).map fun hv =>
      linuxHost hv.1 hv.2 ((guestsOf.get hv.1).getD []) :=
    List.map_congr_left fun hv h => by rw [getD_guestsOf h]
  have hsweep : ∀ acc : Dict Text Host × Nat, sweep acc =
      (acc.1.entries.foldl (fun acc e => if e.2.hasParent then acc else hang acc e.2) acc).1 := by
    intro acc
    rw [sweep, List.foldl_map, List.foldl_filter]
    congr 2
    funext acc e
    cases e.2.hasParent <;> rfl
  rw [hsweep, hhosting, List.foldl_map, expandRoster, foldl_enlist]
  rfl

/-- The sweep keeps the hosts with a parent, and hangs the others off a switch. -/
theorem get_sweep {acc : Dict Text Host × Nat}
    (hshort : ∀ short host, acc.1.get short = some host → host.short = short) {short : Text}
    {host : Host} (hget : acc.1.get short = some host) :
    host.hasParent = true ∧ (sweep acc).get short = some host ∨
      host.hasParent = false ∧ ∃ sw ∈ accessSwitches,
        (sweep acc).get short = some { host with netParent := some sw } := by
  have hkeys : ((acc.1.entries.filter fun e => !e.2.hasParent).map Prod.snd).map Host.short =
      (acc.1.entries.filter fun e => !e.2.hasParent).map Prod.fst := by
    rw [List.map_map]
    exact List.map_congr_left fun e he =>
      hshort e.1 e.2 (Dict.get_eq_some_iff.mpr (List.mem_filter.mp he).1)
  have hnodup := acc.1.nodup.sublist
    ((List.filter_sublist (p := fun e : Text × Host => !e.2.hasParent)).map Prod.fst)
  have hown := hshort short host hget
  cases hparent : host.hasParent with
  | true =>
      left
      refine ⟨rfl, ?_⟩
      rw [sweep, get_foldl_hang_of_notMem, hget]
      rw [hkeys]
      intro hmem
      obtain ⟨e, he, heq⟩ := List.mem_map.mp hmem
      obtain ⟨he, hnone⟩ := List.mem_filter.mp he
      have hsame := Dict.get_eq_some_iff.mpr he
      rw [heq, hget] at hsame
      rw [← Option.some.inj hsame, hparent] at hnone
      exact absurd hnone (by decide)
  | false =>
      right
      refine ⟨rfl, ?_⟩
      have hmem : host ∈ (acc.1.entries.filter fun e => !e.2.hasParent).map Prod.snd := by
        apply List.mem_map_of_mem (f := Prod.snd) (a := (short, host))
        exact List.mem_filter.mpr ⟨Dict.get_eq_some_iff.mp hget, by simp [hparent]⟩
      rw [← hown]
      exact get_foldl_hang (by rw [hkeys]; exact hnodup) acc hmem

/-- The sweep enters no new name. -/
theorem get_sweep_none {acc : Dict Text Host × Nat}
    (hshort : ∀ short host, acc.1.get short = some host → host.short = short) {short : Text}
    (hget : acc.1.get short = none) : (sweep acc).get short = none := by
  rw [sweep, get_foldl_hang_of_notMem _ _, hget]
  intro hmem
  rw [List.map_map] at hmem
  obtain ⟨e, he, heq⟩ := List.mem_map.mp hmem
  have hentry := Dict.get_eq_some_iff.mpr (List.mem_filter.mp he).1
  rw [Function.comp_apply, hshort _ _ hentry] at heq
  rw [heq, hget] at hentry
  cases hentry

theorem get_placed (insts : List (Text × ClassSpec)) (short : Text) :
    (placed insts).get short =
      ((Dict.ofRows ((plains insts).map fun inst => (inst.1, plainHost inst))).get short).map
        fun host => ((assigned insts).filter fun a => a.1 = short).foldl
          (fun host a => { host with netParent := some a.2 }) host :=
  Dict.get_foldl_modify (fun a : Text × Text => a.1)
    (fun a (host : Host) => { host with netParent := some a.2 }) _ (assigned insts) short

section Expanded

variable (hnames : (insts.map Prod.fst).Nodup)
include hnames

theorem get_plainRows {inst : Text × ClassSpec} (h : inst ∈ plains insts) :
    (Dict.ofRows ((plains insts).map fun inst => (inst.1, plainHost inst))).get inst.1 =
      some (plainHost inst) := by
  apply Dict.get_ofRows_of_nodup
  · rw [List.map_map]
    exact hnames.sublist (List.filter_sublist.map Prod.fst)
  · exact List.mem_map_of_mem h

/-- A machine that was dealt hangs below its hypervisor. -/
theorem get_placed_assigned {inst : Text × ClassSpec} (h : inst ∈ plains insts) {hv : Text}
    (hdealt : (inst.1, hv) ∈ assigned insts) :
    (placed insts).get inst.1 = some { plainHost inst with netParent := some hv } := by
  have hone := Dict.filter_key_eq (nodup_assigned hnames) hdealt
  dsimp only at hone
  rw [get_placed, get_plainRows hnames h, Option.map_some, hone]
  rfl

/-- A host that was not dealt has no parent yet. -/
theorem get_placed_rest {inst : Text × ClassSpec} (h : inst ∈ plains insts)
    (hrest : ∀ hv, (inst.1, hv) ∉ assigned insts) :
    (placed insts).get inst.1 = some (plainHost inst) := by
  have hnone : ((assigned insts).filter fun a => a.1 = inst.1) = [] := by
    rw [List.filter_eq_nil_iff]
    rintro ⟨vm, hv⟩ ha heq
    exact hrest hv (of_decide_eq_true heq ▸ ha)
  rw [get_placed, get_plainRows hnames h, Option.map_some, hnone]
  rfl

/-- The hypervisors hang off switches, with their guests. -/
theorem get_hung_hypervisor {hv : Text × ClassSpec} (h : hv ∈ hypervisors insts) :
    ∃ sw ∈ accessSwitches, ((hosting insts).foldl hang (placed insts, 0)).1.get hv.1 =
      some { linuxHost hv.1 hv.2 (guestsAt insts hv.1) with netParent := some sw } := by
  have hnodup : ((hosting insts).map Host.short).Nodup := by
    rw [hosting, List.map_map]
    exact hnames.sublist (List.filter_sublist.map Prod.fst)
  exact get_foldl_hang hnodup _ (List.mem_map_of_mem h)

/-- Hanging the hypervisors leaves the other hosts alone. -/
theorem get_hung_plain {inst : Text × ClassSpec} (h : inst ∈ plains insts) :
    ((hosting insts).foldl hang (placed insts, 0)).1.get inst.1 = (placed insts).get inst.1 := by
  apply get_foldl_hang_of_notMem
  rw [hosting, List.map_map]
  intro hmem
  obtain ⟨hv, hhv, heq⟩ := List.mem_map.mp hmem
  obtain ⟨hhv, hkind⟩ := List.mem_filter.mp hhv
  obtain ⟨hinst, hplain⟩ := List.mem_filter.mp h
  rw [eq_of_name hnames hhv hinst heq] at hkind
  rw [hkind] at hplain
  exact absurd hplain (by decide)

end Expanded

theorem get_hung_none {short : Text} (h : short ∉ insts.map Prod.fst) :
    ((hosting insts).foldl hang (placed insts, 0)).1.get short = none := by
  have hpart : ∀ p : Text × ClassSpec → Bool, short ∉ (insts.filter p).map Prod.fst := fun p hmem =>
    h ((List.filter_sublist.map Prod.fst).subset hmem)
  rw [get_foldl_hang_of_notMem, get_placed, Dict.get_eq_none_iff.mpr, Option.map_none]
  · rw [Dict.mem_keys_ofRows, List.map_map]
    exact hpart _
  · rw [hosting, List.map_map]
    exact hpart _

/-- An instance is a hypervisor, a machine that was dealt, or a host that is left. -/
theorem instance_cases {inst : Text × ClassSpec} (h : inst ∈ insts) :
    inst ∈ hypervisors insts ∨ inst ∈ plains insts ∧
      ((∃ hv, (inst.1, hv) ∈ assigned insts) ∨ ∀ hv, (inst.1, hv) ∉ assigned insts) := by
  by_cases hkind : inst.2.hypervisor = true
  · exact Or.inl (List.mem_filter.mpr ⟨h, hkind⟩)
  · right
    refine ⟨List.mem_filter.mpr ⟨h, by simpa using hkind⟩, ?_⟩
    by_cases hdealt : ∃ hv, (inst.1, hv) ∈ assigned insts
    · exact Or.inl hdealt
    · exact Or.inr (not_exists.mp hdealt)

theorem short_of_hung (hnames : (insts.map Prod.fst).Nodup) {short : Text} {host : Host}
    (h : ((hosting insts).foldl hang (placed insts, 0)).1.get short = some host) :
    host.short = short := by
  by_cases hmem : short ∈ insts.map Prod.fst
  · obtain ⟨inst, hinst, rfl⟩ := List.mem_map.mp hmem
    rcases instance_cases hinst with hhv | ⟨hplain, ⟨hv, hdealt⟩ | hrest⟩
    · obtain ⟨sw, -, hget⟩ := get_hung_hypervisor hnames hhv
      rw [hget] at h
      rw [← Option.some.inj h]
      rfl
    · rw [get_hung_plain hnames hplain, get_placed_assigned hnames hplain hdealt] at h
      rw [← Option.some.inj h]
      exact plainHost_short inst
    · rw [get_hung_plain hnames hplain, get_placed_rest hnames hplain hrest] at h
      rw [← Option.some.inj h]
      exact plainHost_short inst
  · rw [get_hung_none hmem] at h
    cases h

section Roster

variable {tables : ClassTables} {fleetClasses : Text}

/-- A hypervisor hangs off a switch, with its guests. -/
theorem get_hypervisor {hv : Text × ClassSpec}
    (h : hv ∈ hypervisors (instances tables fleetClasses)) :
    ∃ sw ∈ accessSwitches, (expandRoster tables fleetClasses).get hv.1 =
      some { linuxHost hv.1 hv.2 (guestsAt (instances tables fleetClasses) hv.1) with
        netParent := some sw } := by
  have hnames := nodup_instances tables fleetClasses
  have hne : ∀ sw ∈ accessSwitches, sw ≠ [] := by decide
  obtain ⟨sw, hsw, hget⟩ := get_hung_hypervisor hnames h
  rw [expandRoster_eq]
  rcases get_sweep (fun _ _ => short_of_hung hnames) hget with ⟨-, hsame⟩ | ⟨hparent, -⟩
  · exact ⟨sw, hsw, hsame⟩
  · simp [Host.hasParent, hne sw hsw] at hparent

/-- A machine that was dealt hangs below its hypervisor. -/
theorem get_assigned {inst : Text × ClassSpec} (h : inst ∈ plains (instances tables fleetClasses))
    {hv : Text} (hdealt : (inst.1, hv) ∈ assigned (instances tables fleetClasses)) (hne : hv ≠ []) :
    (expandRoster tables fleetClasses).get inst.1 =
      some { plainHost inst with netParent := some hv } := by
  have hnames := nodup_instances tables fleetClasses
  have hget := get_hung_plain hnames h
  rw [get_placed_assigned hnames h hdealt] at hget
  rw [expandRoster_eq]
  rcases get_sweep (fun _ _ => short_of_hung hnames) hget with ⟨-, hsame⟩ | ⟨hparent, -⟩
  · exact hsame
  · simp [Host.hasParent, hne] at hparent

/-- Every other host hangs off a switch. -/
theorem get_rest {inst : Text × ClassSpec} (h : inst ∈ plains (instances tables fleetClasses))
    (hrest : ∀ hv, (inst.1, hv) ∉ assigned (instances tables fleetClasses)) :
    ∃ sw ∈ accessSwitches, (expandRoster tables fleetClasses).get inst.1 =
      some { plainHost inst with netParent := some sw } := by
  have hnames := nodup_instances tables fleetClasses
  have hget := get_hung_plain hnames h
  rw [get_placed_rest hnames h hrest] at hget
  rw [expandRoster_eq]
  rcases get_sweep (fun _ _ => short_of_hung hnames) hget with ⟨hparent, -⟩ | ⟨-, hnew⟩
  · simp [Host.hasParent] at hparent
  · exact hnew

/-- No other name is on the roster. -/
theorem get_other {short : Text} (h : short ∉ (instances tables fleetClasses).map Prod.fst) :
    (expandRoster tables fleetClasses).get short = none := by
  rw [expandRoster_eq]
  exact get_sweep_none (fun _ _ => short_of_hung (nodup_instances tables fleetClasses))
    (get_hung_none h)

end Roster

end Fleet
end DemoEstate
