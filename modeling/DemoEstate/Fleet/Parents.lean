import DemoEstate.Fleet.Assignment

/-!
# Guests and parents in the fleet

Every virtual machine is the guest of one hypervisor, which is its parent, and the parents lead
to the access switches.  A class that stamps out the name of an access switch breaks the last
part: its host can be its own parent.

Main definitions:

- Structure {lit}`Hosted`: guests, parents and balance.
- Structure {lit}`Tree`: the parents form a tree below the access switches.

Main results:

- Theorem {lit}`host_cases`: what a host of the roster is.
- Theorem {lit}`expandRoster_hosted`: every roster is hosted, and a tree unless a name is taken.
- Theorem {lit}`not_tree_tor`: a class that takes the name of a switch.
-/

namespace DemoEstate
namespace Fleet

open Dealing

variable {insts : List (Text × ClassSpec)}

/-! ## Guests, parents and balance -/

/-- The hosts of a roster. -/
def hostsOf (roster : Dict Text Host) : List Host :=
  roster.entries.map Prod.snd

/-- A virtual machine. -/
def Host.IsVm (host : Host) : Prop :=
  host.spec.isVm = true ∧ host.spec.hypervisor = false

def Host.IsHypervisor (host : Host) : Prop :=
  host.spec.hypervisor = true

/-- The guests of a hypervisor that stand at its own site. -/
def sameSiteGuests (roster : Dict Text Host) (hv : Host) : List Text :=
  hv.guests.filter fun guest => (roster.get guest).any fun vm => vm.site = hv.site

/-- The roster holds the instances; the machines are guests and children of one hypervisor each,
at their own site where it has any, and evenly so; every host has a parent. -/
structure Hosted (insts : List (Text × ClassSpec)) (roster : Dict Text Host) : Prop where
  stamped : ((hostsOf roster).map fun host => (host.short, host.spec)).Perm insts
  distinct : ((hostsOf roster).map Host.short).Nodup
  guest : ∀ vm ∈ hostsOf roster, vm.IsVm →
    (∃ hv ∈ hostsOf roster, hv.IsHypervisor ∧ (hv.site = vm.site ∨ hv.site = dc)) →
    ∃ hv ∈ hostsOf roster, hv.IsHypervisor ∧ vm.short ∈ hv.guests ∧
      (∀ hv' ∈ hostsOf roster, vm.short ∈ hv'.guests → hv' = hv) ∧
      ((∃ own ∈ hostsOf roster, own.IsHypervisor ∧ own.site = vm.site) → hv.site = vm.site) ∧
      vm.netParent = some hv.short
  once : ∀ hv ∈ hostsOf roster, hv.guests.Nodup
  balanced : ∀ hv ∈ hostsOf roster, ∀ hv' ∈ hostsOf roster, hv.IsHypervisor → hv'.IsHypervisor →
    hv.site = hv'.site →
    (sameSiteGuests roster hv).length ≤ (sameSiteGuests roster hv').length + 1
  parented : ∀ host ∈ hostsOf roster, host.netParent.isSome

/-- A name is the parent of another one. -/
def ParentOf (roster : Dict Text Host) (short parent : Text) : Prop :=
  ∃ host, roster.get short = some host ∧ host.netParent = some parent

/-- The parents form a tree of depth two below the access switches, without machines inside. -/
structure Tree (roster : Dict Text Host) : Prop where
  noVmParent : ∀ vm ∈ hostsOf roster, vm.IsVm →
    ∀ host ∈ hostsOf roster, host.netParent ≠ some vm.short
  acyclic : ∀ short, ¬ Relation.TransGen (ParentOf roster) short short
  depth : ∀ host ∈ hostsOf roster, ∃ parent, host.netParent = some parent ∧
    (parent ∈ accessSwitches ∨
      ∃ hv ∈ hostsOf roster, hv.short = parent ∧ ∃ sw ∈ accessSwitches, hv.netParent = some sw)

theorem mem_hostsOf {roster : Dict Text Host} {host : Host} :
    host ∈ hostsOf roster ↔ ∃ short, roster.get short = some host := by
  simp only [hostsOf, List.mem_map, Prod.exists, exists_eq_right, Dict.get_eq_some_iff]

section Roster

variable {tables : ClassTables} {fleetClasses : Text}

theorem short_ne_nil {inst : Text × ClassSpec} (h : inst ∈ instances tables fleetClasses) :
    inst.1 ≠ [] := by
  obtain ⟨cls, -, hinst⟩ := List.mem_flatMap.mp h
  obtain ⟨short, hshort, rfl⟩ := List.mem_map.mp hinst
  obtain ⟨n, -, rfl⟩ := List.mem_map.mp hshort
  simp

/-- The hypervisors of a pool: of the site itself, or of the central site if it has none. -/
theorem mem_poolOf {site hv : Text} (h : hv ∈ poolOf (hvBySite insts) site) :
    ∃ inst ∈ hypervisors insts, inst.1 = hv ∧
      ((∃ own ∈ hypervisors insts, own.2.siteOf = site) → inst.2.siteOf = site) := by
  rw [poolOf_hvBySite] at h
  split at h
  · rename_i hnone
    obtain ⟨inst, hinst, -, heq⟩ := mem_namesAt.mp h
    refine ⟨inst, hinst, heq, ?_⟩
    rintro ⟨own, hown, hsite⟩
    have hmem : own.1 ∈ namesAt (hypervisors insts) site :=
      mem_namesAt.mpr ⟨own, hown, hsite, rfl⟩
    rw [hnone] at hmem
    exact absurd hmem List.not_mem_nil
  · obtain ⟨inst, hinst, hsite, heq⟩ := mem_namesAt.mp h
    exact ⟨inst, hinst, heq, fun _ => hsite⟩

/-- A site with hypervisors, or with central ones, has a pool. -/
theorem poolOf_ne_nil {site : Text} {hv : Text × ClassSpec} (h : hv ∈ hypervisors insts)
    (hsite : hv.2.siteOf = site ∨ hv.2.siteOf = dc) : poolOf (hvBySite insts) site ≠ [] := by
  rw [poolOf_hvBySite]
  split
  · rename_i hnone
    rcases hsite with hsite | hsite
    · have hmem : hv.1 ∈ namesAt (hypervisors insts) site := mem_namesAt.mpr ⟨hv, h, hsite, rfl⟩
      rw [hnone] at hmem
      exact absurd hmem List.not_mem_nil
    · exact List.ne_nil_of_mem (mem_namesAt.mpr ⟨hv, h, hsite, rfl⟩)
  · assumption

theorem ne_nil_of_assigned {vm hv : Text} (h : (vm, hv) ∈ assigned (instances tables fleetClasses)) :
    hv ≠ [] := by
  obtain ⟨inst, -, -, hdeal⟩ := mem_assigned.mp h
  obtain ⟨owner, howner, rfl, -⟩ := mem_poolOf (mem_pool_of_mem_deal hdeal)
  exact short_ne_nil (List.mem_filter.mp howner).1

/-- What a host of the roster is. -/
theorem host_cases {short : Text} {host : Host}
    (h : (expandRoster tables fleetClasses).get short = some host) :
    ∃ inst ∈ instances tables fleetClasses, inst.1 = short ∧ host.short = short ∧
      host.spec = inst.2 ∧
      ((inst ∈ hypervisors (instances tables fleetClasses) ∧
          host.guests = guestsAt (instances tables fleetClasses) short ∧
          ∃ sw ∈ accessSwitches, host.netParent = some sw) ∨
        (inst ∈ plains (instances tables fleetClasses) ∧ host.guests = [] ∧
          ((∃ hv, (short, hv) ∈ assigned (instances tables fleetClasses) ∧
              host.netParent = some hv) ∨
            ∃ sw ∈ accessSwitches, host.netParent = some sw))) := by
  by_cases hmem : short ∈ (instances tables fleetClasses).map Prod.fst
  · obtain ⟨inst, hinst, rfl⟩ := List.mem_map.mp hmem
    refine ⟨inst, hinst, rfl, ?_⟩
    rcases instance_cases hinst with hhv | ⟨hplain, ⟨hv, hdealt⟩ | hrest⟩
    · obtain ⟨sw, hsw, hget⟩ := get_hypervisor hhv
      rw [hget] at h
      obtain rfl := Option.some.inj h
      exact ⟨rfl, rfl, Or.inl ⟨hhv, rfl, sw, hsw, rfl⟩⟩
    · rw [get_assigned hplain hdealt (ne_nil_of_assigned hdealt)] at h
      obtain rfl := Option.some.inj h
      exact ⟨plainHost_short inst, plainHost_spec inst,
        Or.inr ⟨hplain, plainHost_guests inst, Or.inl ⟨hv, hdealt, rfl⟩⟩⟩
    · obtain ⟨sw, hsw, hget⟩ := get_rest hplain hrest
      rw [hget] at h
      obtain rfl := Option.some.inj h
      exact ⟨plainHost_short inst, plainHost_spec inst,
        Or.inr ⟨hplain, plainHost_guests inst, Or.inr ⟨sw, hsw, rfl⟩⟩⟩
  · rw [get_other hmem] at h
    cases h

theorem exists_host {inst : Text × ClassSpec} (h : inst ∈ instances tables fleetClasses) :
    ∃ host, (expandRoster tables fleetClasses).get inst.1 = some host ∧ host.spec = inst.2 := by
  rcases instance_cases h with hhv | ⟨hplain, ⟨hv, hdealt⟩ | hrest⟩
  · obtain ⟨sw, -, hget⟩ := get_hypervisor hhv
    exact ⟨_, hget, rfl⟩
  · exact ⟨_, get_assigned hplain hdealt (ne_nil_of_assigned hdealt), plainHost_spec inst⟩
  · obtain ⟨sw, -, hget⟩ := get_rest hplain hrest
    exact ⟨_, hget, plainHost_spec inst⟩

theorem shorts_eq_keys :
    (hostsOf (expandRoster tables fleetClasses)).map Host.short =
      (expandRoster tables fleetClasses).keys := by
  rw [hostsOf, List.map_map, Dict.keys]
  apply List.map_congr_left
  intro e he
  obtain ⟨-, -, -, hshort, -⟩ := host_cases (Dict.get_eq_some_iff.mpr he)
  exact hshort

theorem perm_instances :
    ((hostsOf (expandRoster tables fleetClasses)).map fun host => (host.short, host.spec)).Perm
      (instances tables fleetClasses) := by
  have hkeys := (expandRoster tables fleetClasses).nodup
  have hnodup : ((hostsOf (expandRoster tables fleetClasses)).map
      fun host => (host.short, host.spec)).Nodup := by
    apply List.Nodup.of_map Prod.fst
    rw [List.map_map]
    exact shorts_eq_keys.symm ▸ hkeys
  rw [List.perm_ext_iff_of_nodup hnodup (List.Nodup.of_map _ (nodup_instances _ _))]
  rintro ⟨short, spec⟩
  simp only [List.mem_map, mem_hostsOf, Prod.mk.injEq]
  constructor
  · rintro ⟨host, ⟨key, hget⟩, rfl, rfl⟩
    obtain ⟨inst, hinst, hname, hshort, hspec, -⟩ := host_cases hget
    rw [hshort, hspec, ← hname]
    exact hinst
  · intro hinst
    obtain ⟨host, hget, hspec⟩ := exists_host hinst
    obtain ⟨-, -, -, hshort, -⟩ := host_cases hget
    exact ⟨host, ⟨short, hget⟩, hshort, hspec⟩

/-- The host of a hypervisor on the roster is an instance. -/
theorem hypervisor_instance {hv : Host} (h : hv ∈ hostsOf (expandRoster tables fleetClasses))
    (hkind : hv.IsHypervisor) :
    (hv.short, hv.spec) ∈ hypervisors (instances tables fleetClasses) ∧
      (expandRoster tables fleetClasses).get hv.short = some hv ∧
      hv.guests = guestsAt (instances tables fleetClasses) hv.short := by
  obtain ⟨short, hget⟩ := mem_hostsOf.mp h
  obtain ⟨⟨name, spec⟩, hinst, rfl, hshort, rfl, ⟨hhv, hguests, -⟩ | ⟨hplain, -⟩⟩ := host_cases hget
  · dsimp only at *
    rw [hshort]
    exact ⟨hhv, hget, hguests⟩
  · have hnot := (List.mem_filter.mp hplain).2
    rw [Host.IsHypervisor] at hkind
    simp [hkind] at hnot

/-- The host of a machine on the roster is an instance. -/
theorem vm_instance {vm : Host} (h : vm ∈ hostsOf (expandRoster tables fleetClasses))
    (hkind : vm.IsVm) :
    (vm.short, vm.spec) ∈ vms (instances tables fleetClasses) ∧
      (expandRoster tables fleetClasses).get vm.short = some vm := by
  obtain ⟨short, hget⟩ := mem_hostsOf.mp h
  obtain ⟨⟨name, spec⟩, hinst, rfl, hshort, rfl, -⟩ := host_cases hget
  dsimp only at *
  rw [hshort]
  refine ⟨List.mem_filter.mpr ⟨List.mem_filter.mpr ⟨hinst, ?_⟩, hkind.1⟩, hget⟩
  simp [hkind.2]

/-- A guest was dealt to its hypervisor. -/
theorem assigned_of_guest {hv : Host} (h : hv ∈ hostsOf (expandRoster tables fleetClasses))
    {vm : Text} (hguest : vm ∈ hv.guests) :
    (vm, hv.short) ∈ assigned (instances tables fleetClasses) := by
  obtain ⟨short, hget⟩ := mem_hostsOf.mp h
  obtain ⟨inst, -, -, hshort, -, ⟨-, hguests, -⟩ | ⟨-, hguests, -⟩⟩ := host_cases hget
  · rw [hguests] at hguest
    obtain ⟨⟨vm', hv'⟩, ha, rfl⟩ := List.mem_map.mp hguest
    obtain ⟨ha, heq⟩ := List.mem_filter.mp ha
    rw [hshort, ← of_decide_eq_true heq]
    exact ha
  · rw [hguests] at hguest
    exact absurd hguest List.not_mem_nil

/-- A machine is the guest and the child of one hypervisor, at its own site if that has any. -/
theorem exists_hypervisor {vm : Host} (h : vm ∈ hostsOf (expandRoster tables fleetClasses))
    (hvm : vm.IsVm)
    (hpool : ∃ hv ∈ hostsOf (expandRoster tables fleetClasses), hv.IsHypervisor ∧
      (hv.site = vm.site ∨ hv.site = dc)) :
    ∃ hv ∈ hostsOf (expandRoster tables fleetClasses), hv.IsHypervisor ∧ vm.short ∈ hv.guests ∧
      (∀ hv' ∈ hostsOf (expandRoster tables fleetClasses), vm.short ∈ hv'.guests → hv' = hv) ∧
      ((∃ own ∈ hostsOf (expandRoster tables fleetClasses),
        own.IsHypervisor ∧ own.site = vm.site) → hv.site = vm.site) ∧
      vm.netParent = some hv.short := by
  obtain ⟨hinst, hget⟩ := vm_instance h hvm
  obtain ⟨some', hsome, hkind, hsite⟩ := hpool
  have hne := poolOf_ne_nil (hypervisor_instance hsome hkind).1 hsite
  obtain ⟨name, hname, hdealt⟩ := exists_assigned hinst hne
  obtain ⟨owner, howner, rfl, hown⟩ := mem_poolOf hname
  obtain ⟨sw, -, hgetHv⟩ := get_hypervisor howner
  have hmem := mem_hostsOf.mpr ⟨owner.1, hgetHv⟩
  refine ⟨_, hmem, (List.mem_filter.mp howner).2, ?_, ?_, ?_, ?_⟩
  · exact List.mem_map_of_mem (f := Prod.fst)
      (List.mem_filter.mpr ⟨hdealt, decide_eq_true rfl⟩)
  · intro hv' hhv' hguest
    -- no machine is dealt twice
    have hpair := List.inj_on_of_nodup_map (nodup_assigned (nodup_instances _ _))
      (assigned_of_guest hhv' hguest) hdealt rfl
    obtain ⟨short, hget'⟩ := mem_hostsOf.mp hhv'
    obtain ⟨-, -, -, hshort, -⟩ := host_cases hget'
    rw [← hshort, (Prod.mk.inj hpair).2, hgetHv] at hget'
    exact (Option.some.inj hget').symm
  · rintro ⟨own, hmemOwn, hkindOwn, hsiteOwn⟩
    exact hown ⟨_, (hypervisor_instance hmemOwn hkindOwn).1, hsiteOwn⟩
  · have hplain := (List.mem_filter.mp hinst).1
    rw [get_assigned hplain hdealt (ne_nil_of_assigned hdealt)] at hget
    rw [← Option.some.inj hget]
    rfl

/-- The guests that a hypervisor has from its own site. -/
theorem length_sameSiteGuests {hv : Host} (h : hv ∈ hostsOf (expandRoster tables fleetClasses))
    (hkind : hv.IsHypervisor) :
    (sameSiteGuests (expandRoster tables fleetClasses) hv).length =
      ((deal (namesAt (hypervisors (instances tables fleetClasses)) hv.site)
        (namesAt (vms (instances tables fleetClasses)) hv.site)).filter
          fun a => a.2 = hv.short).length := by
  obtain ⟨hinst, -, hguests⟩ := hypervisor_instance h hkind
  have hq : ∀ inst ∈ vms (instances tables fleetClasses),
      (((expandRoster tables fleetClasses).get inst.1).any fun vm => vm.site = hv.site) =
        decide (inst.2.siteOf = hv.site) := by
    intro inst hvm
    obtain ⟨host, hget, hspec⟩ :=
      exists_host (List.mem_filter.mp (List.mem_filter.mp hvm).1).1
    rw [hget, Option.any_some, Host.site, hspec]
  have hpool : poolOf (hvBySite (instances tables fleetClasses)) hv.site =
      namesAt (hypervisors (instances tables fleetClasses)) hv.site := by
    rw [poolOf_hvBySite, if_neg]
    exact List.ne_nil_of_mem (mem_namesAt.mpr ⟨_, hinst, rfl, rfl⟩)
  rw [sameSiteGuests, hguests, guestsAt, List.filter_map, List.length_map, ← hpool,
    ← filter_assigned_site (q := fun guest => ((expandRoster tables fleetClasses).get guest).any
      fun vm => vm.site = hv.site) hq]
  rfl

theorem sameSiteGuests_le {hv hv' : Host}
    (h : hv ∈ hostsOf (expandRoster tables fleetClasses))
    (h' : hv' ∈ hostsOf (expandRoster tables fleetClasses)) (hkind : hv.IsHypervisor)
    (hkind' : hv'.IsHypervisor) (hsite : hv.site = hv'.site) :
    (sameSiteGuests (expandRoster tables fleetClasses) hv).length ≤
      (sameSiteGuests (expandRoster tables fleetClasses) hv').length + 1 := by
  obtain ⟨hinst, -⟩ := hypervisor_instance h hkind
  obtain ⟨hinst', -⟩ := hypervisor_instance h' hkind'
  rw [length_sameSiteGuests h hkind, length_sameSiteGuests h' hkind', hsite]
  apply length_filter_deal_le (nodup_namesAt (nodup_instances _ _) _)
  · exact mem_namesAt.mpr ⟨_, hinst, hsite, rfl⟩
  · exact mem_namesAt.mpr ⟨_, hinst', rfl, rfl⟩

/-- The parents lead to a switch in two steps. -/
theorem parent_cases {host : Host} (h : host ∈ hostsOf (expandRoster tables fleetClasses)) :
    ∃ parent, host.netParent = some parent ∧
      (parent ∈ accessSwitches ∨
        ∃ hv ∈ hostsOf (expandRoster tables fleetClasses), hv.IsHypervisor ∧ hv.short = parent ∧
          ∃ sw ∈ accessSwitches, hv.netParent = some sw) := by
  obtain ⟨short, hget⟩ := mem_hostsOf.mp h
  obtain ⟨inst, -, -, -, -, ⟨-, -, sw, hsw, hparent⟩ |
    ⟨-, -, ⟨hv, hdealt, hparent⟩ | ⟨sw, hsw, hparent⟩⟩⟩ := host_cases hget
  · exact ⟨sw, hparent, Or.inl hsw⟩
  · obtain ⟨vm, -, -, hdeal⟩ := mem_assigned.mp hdealt
    obtain ⟨owner, howner, rfl, -⟩ := mem_poolOf (mem_pool_of_mem_deal hdeal)
    obtain ⟨sw, hsw, hgetHv⟩ := get_hypervisor howner
    exact ⟨owner.1, hparent, Or.inr ⟨_, mem_hostsOf.mpr ⟨owner.1, hgetHv⟩,
      (List.mem_filter.mp howner).2, rfl, sw, hsw, rfl⟩⟩
  · exact ⟨sw, hparent, Or.inl hsw⟩

/-- While no host takes the name of a switch, two steps lead out of the roster. -/
theorem not_parentOf_three
    (hfree : ∀ host ∈ hostsOf (expandRoster tables fleetClasses), host.short ∉ accessSwitches)
    {a b c d : Text} (hab : ParentOf (expandRoster tables fleetClasses) a b)
    (hbc : ParentOf (expandRoster tables fleetClasses) b c)
    (hcd : ParentOf (expandRoster tables fleetClasses) c d) : False := by
  have hhost : ∀ {short up}, ParentOf (expandRoster tables fleetClasses) short up →
      short ∉ accessSwitches := by
    rintro short up ⟨host, hget, -⟩ hsw
    obtain ⟨-, -, -, hshort, -⟩ := host_cases hget
    exact hfree host (mem_hostsOf.mpr ⟨short, hget⟩) (hshort ▸ hsw)
  obtain ⟨host, hget, hparent⟩ := hab
  obtain ⟨parent, hparent', hcase⟩ := parent_cases (mem_hostsOf.mpr ⟨a, hget⟩)
  rw [hparent] at hparent'
  obtain rfl := Option.some.inj hparent'
  rcases hcase with hsw | ⟨hv, hmem, -, rfl, sw, hsw, hup⟩
  · exact hhost hbc hsw
  · obtain ⟨host', hget', hparent'⟩ := hbc
    obtain ⟨short, hgetHv⟩ := mem_hostsOf.mp hmem
    obtain ⟨-, -, -, hshort, -⟩ := host_cases hgetHv
    rw [hshort, hgetHv] at hget'
    obtain rfl := Option.some.inj hget'
    rw [hup] at hparent'
    exact hhost hcd (Option.some.inj hparent' ▸ hsw)

theorem tree_expandRoster
    (hfree : ∀ host ∈ hostsOf (expandRoster tables fleetClasses), host.short ∉ accessSwitches) :
    Tree (expandRoster tables fleetClasses) where
  noVmParent := by
    intro vm hvm hkind host hhost hparent
    obtain ⟨parent, hparent', hcase⟩ := parent_cases hhost
    rw [hparent] at hparent'
    obtain rfl := Option.some.inj hparent'
    rcases hcase with hsw | ⟨hv, hmem, hkindHv, hshort, -⟩
    · exact hfree vm hvm hsw
    · -- one name belongs to one host
      have hgetVm := (vm_instance hvm hkind).2
      have hgetHv := (hypervisor_instance hmem hkindHv).2.1
      rw [hshort, hgetVm] at hgetHv
      obtain rfl := Option.some.inj hgetHv
      rw [Host.IsHypervisor, hkind.2] at hkindHv
      cases hkindHv
  acyclic := by
    intro short hcycle
    have hnext : ∀ {a}, Relation.TransGen (ParentOf (expandRoster tables fleetClasses)) a a →
        ∃ b, ParentOf (expandRoster tables fleetClasses) a b ∧
          Relation.TransGen (ParentOf (expandRoster tables fleetClasses)) b b := by
      intro a h
      obtain ⟨b, hab, hba⟩ := Relation.TransGen.head'_iff.mp h
      exact ⟨b, hab, Relation.TransGen.tail' hba hab⟩
    obtain ⟨b, hab, hb⟩ := hnext hcycle
    obtain ⟨c, hbc, hc⟩ := hnext hb
    obtain ⟨d, hcd, -⟩ := hnext hc
    exact not_parentOf_three hfree hab hbc hcd
  depth := by
    intro host hhost
    obtain ⟨parent, hparent, hcase⟩ := parent_cases hhost
    use parent, hparent
    exact hcase.imp_right fun ⟨hv, hmem, _, hshort, hup⟩ => ⟨hv, hmem, hshort, hup⟩

end Roster

/-- For every class list and filter the roster is hosted, and its parents form a tree unless a
host takes the name of an access switch. -/
theorem expandRoster_hosted (tables : ClassTables) (fleetClasses : Text) :
    Hosted (instances tables fleetClasses) (expandRoster tables fleetClasses) ∧
      ((∀ host ∈ hostsOf (expandRoster tables fleetClasses), host.short ∉ accessSwitches) →
        Tree (expandRoster tables fleetClasses)) := by
  constructor
  · constructor
    case stamped => exact perm_instances
    case distinct => exact shorts_eq_keys ▸ (expandRoster tables fleetClasses).nodup
    case guest => exact fun vm h hvm hpool => exists_hypervisor h hvm hpool
    case once =>
      intro hv h
      have hsub : hv.guests = [] ∨ hv.guests = guestsAt (instances tables fleetClasses) hv.short := by
        obtain ⟨short, hget⟩ := mem_hostsOf.mp h
        obtain ⟨-, -, -, hshort, -, ⟨-, hguests, -⟩ | ⟨-, hguests, -⟩⟩ := host_cases hget
        · exact Or.inr (hshort ▸ hguests)
        · exact Or.inl hguests
      rcases hsub with hguests | hguests
      · rw [hguests]
        exact List.nodup_nil
      · rw [hguests]
        exact (nodup_assigned (nodup_instances _ _)).sublist (List.filter_sublist.map Prod.fst)
    case balanced => exact fun hv h hv' h' => sameSiteGuests_le h h'
    case parented =>
      intro host h
      obtain ⟨parent, hparent, -⟩ := parent_cases h
      rw [hparent]
      rfl
  · exact tree_expandRoster

/-- A class of machines whose names are those of the top-of-rack switches. -/
def torTables : ClassTables where
  linuxClasses :=
    [{ namePrefix := "sw-dc-tor".toList, count := 1, first := none, site := none, os := none,
       vm := none, hypervisor := false }]
  kvmClasses := []
  windowsClasses := []
  distinct := List.nodup_singleton _

/-- Without hypervisors its first machine hangs off the switch of its own name. -/
theorem not_tree_tor :
    ¬ (Hosted (instances torTables []) (expandRoster torTables []) ∧
      Tree (expandRoster torTables [])) := by
  rintro ⟨-, htree⟩
  apply htree.acyclic "sw-dc-tor-01".toList
  apply Relation.TransGen.single
  have hget : ((expandRoster torTables []).get "sw-dc-tor-01".toList).map Host.netParent =
      some (some "sw-dc-tor-01".toList) := by decide
  obtain ⟨host, hhost, hparent⟩ := Option.map_eq_some_iff.mp hget
  exact ⟨host, hhost, hparent⟩

end Fleet
end DemoEstate
