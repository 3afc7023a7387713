import Mathlib.Data.Countable.Basic
import Mathlib.Data.List.Forall2
import Mathlib.Logic.Equiv.List
import DemoEstate.Deploy.OneRule

/-!
# What a fingerprint determines

Two configurations with the same fingerprint create the same objects on an empty site, but for
those that the transport of the devices, its port and its communities decide, the parent of the
shell, and the rule for an SNMP layer without devices.

Main definitions:

- Structure {lit}`SameEstate`: the same hosts, rules and business objects.
- Structure {lit}`SameLayer`: what the fingerprint leaves out.

Main results:

- Theorem {lit}`get_alone`: the hosts after a run on an empty site.
- Theorem {lit}`mem_rules_alone`: the rules after a run on an empty site.
- Theorem {lit}`hostPlan_subset`: the hosts that a record determines.
- Theorem {lit}`sameEstate_iff`: when configurations with one fingerprint create the same objects.
-/

namespace DemoEstate
namespace Deploy

open Interaction
open Interaction.Program

/-- The hosts with their folders, attributes and labels, the rules and the business objects are
the same. -/
structure SameEstate (s t : Site) : Prop where
  hosts : ∀ name, s.hosts.get name = t.hosts.get name
  rules : (s.rules.entries.map Prod.snd).Perm (t.rules.entries.map Prod.snd)
  bi : ∀ ident, s.bi.get ident = t.bi.get ident

/-- The site reaches the devices in the same way. -/
structure SameTransport (info info' : Netsim) : Prop where
  live : info.live = info'.live
  port : info.live = true → snmpPort info = snmpPort info'
  community : info.live = true → ∀ short dev dev', info.devices.get short = some dev →
    info'.devices.get short = some dev' →
      (given dev.community).getD short = (given dev'.community).getD short

/-- Both configurations have an SNMP layer or none, devices or none, the same way to reach them,
and the same switch to hang the shell under. -/
structure SameLayer (run run' : Args × Panels) : Prop where
  chosen : run.1.snmp = .off ↔ run'.1.snmp = .off
  transport : Option.Rel SameTransport (deployedNetsim run.1 run.2) (deployedNetsim run'.1 run'.2)
  shell : shellParent (deployedFqdns run.1 run.2) = shellParent (deployedFqdns run'.1 run'.2)

theorem SameTransport.symm {info info' : Netsim} (h : SameTransport info info') :
    SameTransport info' info where
  live := h.live.symm
  port hlive := (h.port (h.live.trans hlive)).symm
  community hlive short dev dev' hdev hdev' :=
    (h.community (h.live.trans hlive) short dev' dev hdev' hdev).symm

theorem SameLayer.symm {run run' : Args × Panels} (h : SameLayer run run') : SameLayer run' run where
  chosen := h.chosen.symm
  transport := by
    have htransport := h.transport
    generalize deployedNetsim run.1 run.2 = netsim at htransport ⊢
    generalize deployedNetsim run'.1 run'.2 = netsim' at htransport ⊢
    cases htransport with
    | some hsame => exact .some hsame.symm
    | none => exact .none
  shell := h.shell.symm

/-! ## The objects of a run on an empty site -/

section Alone

variable {args : Args} {panels : Panels} {t : Site} {digest : Canon → Text}

/-- A host that is planned once is ensured for its entry. -/
theorem foldl_ensurePlaced_of_mem {plan : List Placed} (hnodup : (plan.map Prod.fst).Nodup)
    {hosts : Text → Option HostConfig} {p : Placed} (hp : p ∈ plan) :
    plan.foldl ensurePlaced hosts p.1 = some (ensured p.2.1 p.2.2 (hosts p.1)) := by
  induction plan generalizing hosts with
  | nil => exact absurd hp List.not_mem_nil
  | cons head plan ih =>
      rw [List.map_cons, List.nodup_cons] at hnodup
      rw [List.foldl_cons]
      rcases List.mem_cons.mp hp with rfl | hp
      · rw [foldl_ensurePlaced_of_notMem hnodup.1, ensurePlaced, Function.update_self]
      · have hne : p.1 ≠ head.1 := fun heq => hnodup.1 (heq ▸ List.mem_map_of_mem hp)
        rw [ih hnodup.2 hp, ensurePlaced, Function.update_of_ne hne]

/-- The labels of a host after a run: the fingerprint on the shell, none elsewhere. -/
def runLabels (args : Args) (panels : Panels) (digest : Canon → Text) (name : Text) :
    Dict Text Text :=
  if name = panels.delivery.host then
    Dict.empty.set fingerprintLabel (fingerprintOf args panels digest)
  else Dict.empty

/-- The site after a run on an empty one, up to the fingerprint. -/
theorem exists_createRun (h : (setup digest args).Runs (Serves panels) Site.empty () t) :
    ∃ s', CreateRun args panels Site.empty s' ∧ t.rules = s'.rules ∧ t.bi = s'.bi ∧
      t.hosts.get = Function.update s'.hosts.get panels.delivery.host
        ((s'.hosts.get panels.delivery.host).map fun h =>
          { h with labels := h.labels.set fingerprintLabel (fingerprintOf args panels digest) }) := by
  rcases runs_setup h with ⟨hnot, -⟩ | ⟨-, hrun⟩
  · exact absurd reconfigures_empty hnot
  · obtain ⟨s', hcreate, -, hrules, hbi, hhosts⟩ := runs_reconfigure hrun
    exact ⟨s', hcreate, hrules, hbi, hhosts⟩

/-- A planned host has the folder and the attributes of its entry. -/
theorem get_alone (h : (setup digest args).Runs (Serves panels) Site.empty () t) {p : Placed}
    (hp : p ∈ hostPlan args panels) :
    t.hosts.get p.1 = some ⟨p.2.1, p.2.2, runLabels args panels digest p.1⟩ := by
  obtain ⟨s', hcreate, -, -, hhosts⟩ := exists_createRun h
  have hget : s'.hosts.get p.1 = some ⟨p.2.1, p.2.2, Dict.empty⟩ := by
    rw [hcreate.hosts_of_mem (mem_hostPlan.mp (List.mem_map_of_mem hp)),
      foldl_ensurePlaced_of_mem (nodup_hostPlan args panels) hp]
    rfl
  rw [hhosts]
  by_cases hshell : p.1 = panels.delivery.host
  · rw [hshell] at hget
    rw [hshell, Function.update_self, hget, Option.map_some, runLabels, if_pos rfl]
  · rw [Function.update_of_ne hshell, hget, runLabels, if_neg hshell]

/-- There are no other hosts. -/
theorem get_alone_of_notMem (h : (setup digest args).Runs (Serves panels) Site.empty () t)
    {name : Text} (hname : name ∉ (hostPlan args panels).map Prod.fst) :
    t.hosts.get name = none := by
  obtain ⟨s', hcreate, -, -, hhosts⟩ := exists_createRun h
  have hget : s'.hosts.get name = none := by
    rw [hcreate.hosts, foldl_ensurePlaced_of_notMem hname]
    split <;> rfl
  have hshell : name ≠ panels.delivery.host := fun heq =>
    hname (mem_hostPlan.mpr (heq ▸ List.mem_cons_self))
  rw [hhosts, Function.update_of_ne hshell, hget]

theorem mem_rules_iff {s : Site} {r : Rule} :
    r ∈ s.rules.entries.map Prod.snd ↔ s.HasRule r := by
  rw [List.mem_map, Site.HasRule]
  constructor
  · rintro ⟨⟨ident, r⟩, hmem, rfl⟩
    exact ⟨ident, Dict.get_eq_some_iff.mpr hmem⟩
  · rintro ⟨ident, hget⟩
    exact ⟨(ident, r), Dict.get_eq_some_iff.mp hget, rfl⟩

theorem hasRule_alone (h : (setup digest args).Runs (Serves panels) Site.empty () t) {r : Rule} :
    t.HasRule r ↔ r ∈ plannedRules args panels := by
  obtain ⟨s', hcreate, hrules, -, -⟩ := exists_createRun h
  have hempty : ¬ Site.empty.HasRule r := fun ⟨_, hget⟩ => nomatch hget
  rw [hasRule_congr hrules]
  constructor
  · intro hr
    exact (hcreate.addsRules.upper r hr).resolve_left hempty
  · intro hr
    refine hcreate.addsRules.lower (fun r' hr' => ?_) r (Or.inr hr)
    exact unmarked_empty _ (ruleset_of_mem_plannedRules hr')

/-- The rules after a run on an empty site are the planned ones, and each is there once. -/
theorem rules_alone_perm (h : (setup digest args).Runs (Serves panels) Site.empty () t) :
    (t.rules.entries.map Prod.snd).Perm (plannedRules args panels) := by
  obtain ⟨s', hcreate, hrules, -, -⟩ := exists_createRun h
  have hnew : Configured digest [] panels.delivery.host args.root Site.empty :=
    configured_of_unmarked unmarked_empty
  have htidy : Tidy panels.delivery.host args.root t :=
    ((hcreate.installs hnew.tidy).tidy hnew.tidy fun _ => own_of_mem_plannedRules).congr hrules
  have hmarked : ∀ e ∈ t.rules.entries, e ∈ t.marked e.2.ruleset ∧ e.2.ruleset ∈ toolRulesets := by
    rintro ⟨ident, r⟩ he
    have hr := (hasRule_alone h).mp ⟨ident, Dict.get_eq_some_iff.mpr he⟩
    refine ⟨mem_marked.mpr ⟨Dict.get_eq_some_iff.mpr he, rfl, ?_⟩, ruleset_of_mem_plannedRules hr⟩
    cases own_of_mem_plannedRules hr <;> rfl
  apply (List.perm_ext_iff_of_nodup ?_ ?_).mpr
  · intro r
    rw [mem_rules_iff, hasRule_alone h]
  · -- two entries with one rule are the same marked rule
    apply List.Nodup.map_on _ (List.Nodup.of_map _ t.rules.nodup)
    intro e he e' he' heq
    obtain ⟨hmem, hruleset⟩ := hmarked e he
    have hmem' := (hmarked e' he').1
    rw [← heq] at hmem'
    exact htidy.unique _ hruleset e hmem e' hmem'
  · exact List.Nodup.of_map _ (nodup_rulesets args panels)

theorem bi_alone (h : (setup digest args).Runs (Serves panels) Site.empty () t) (ident : BiId) :
    t.bi.get ident = Dict.find (plannedBi args panels) ident := by
  obtain ⟨s', hcreate, -, hbi, -⟩ := exists_createRun h
  rw [hbi, hcreate.bi]
  rfl

end Alone

/-! ## What the record says -/

section Record

variable {run run' : Args × Panels}

theorem mem_of_sortedRows_eq {rows rows' : List (Text × Option Text × Role)}
    (h : sortedRows rows = sortedRows rows') {r : Text × Option Text × Role} (hr : r ∈ rows) :
    r ∈ rows' := by
  have hsorted : r ∈ sortedRows rows := (List.perm_insertionSort _ _).mem_iff.mpr hr
  rw [h] at hsorted
  exact (List.perm_insertionSort _ _).mem_iff.mp hsorted

theorem canonOf_host (h : canonOf run = canonOf run') :
    run.2.delivery.host = run'.2.delivery.host :=
  congrArg (fun canon => canon.delivery.1) h

theorem canonOf_agentIp (h : canonOf run = canonOf run') : run.1.agentIp = run'.1.agentIp :=
  congrArg (fun canon => canon.delivery.2.1) h

theorem canonOf_mode (h : canonOf run = canonOf run') : run.1.mode = run'.1.mode :=
  congrArg Canon.mode h

theorem canonOf_root (h : canonOf run = canonOf run') : run.1.root = run'.1.root :=
  congrArg Canon.folder h

/-- The parent that the record has for a device. -/
def plannedParent (info : Netsim) (dev : Device) : Option Text :=
  (parentFqdn info.devices dev).filter (· ≠ dev.fqdn)

theorem parents_deviceAttributes (info : Netsim) (short : Text) (dev : Device) :
    deviceAttributes info short dev .parents =
      (given (plannedParent info dev)).map fun p => .names [p] := by
  rw [deviceAttributes, given, given, plannedParent, Option.filter_filter, Option.filter_filter]
  simp only [Bool.and_comm]

/-- A device of one configuration is, by the record, one of the other, with the same parent and
the same role. -/
theorem exists_device (h : canonOf run = canonOf run') {info : Netsim}
    (hinfo : deployedNetsim run.1 run.2 = some info) {e : Text × Device}
    (he : e ∈ info.devices.entries) :
    ∃ info' e', deployedNetsim run'.1 run'.2 = some info' ∧ e' ∈ info'.devices.entries ∧
      e'.1 = e.1 ∧ e'.2.fqdn = e.2.fqdn ∧ plannedParent info' e'.2 = plannedParent info e.2 ∧
      deviceRole e'.1 e'.2 = deviceRole e.1 e.2 := by
  have hmem : (e.2.fqdn, plannedParent info e.2, deviceRole e.1 e.2) ∈
      (deployedPlan run.1 run.2).map fun p =>
        (p.1, p.2.1, (Role.find p.2.2).getD (snmpRole (label p.1))) := by
    rw [deployedPlan, hinfo, Option.map_some, Option.getD_some, snmpPlan, List.map_map]
    refine List.mem_map.mpr ⟨e, he, ?_⟩
    rw [Function.comp_apply, label_fqdn he]
    rfl
  have hmem' := mem_of_sortedRows_eq (congrArg Canon.snmp h) hmem
  rw [deployedPlan] at hmem'
  cases hinfo' : deployedNetsim run'.1 run'.2 with
  | none =>
      rw [hinfo'] at hmem'
      exact absurd hmem' List.not_mem_nil
  | some info' =>
      rw [hinfo', Option.map_some, Option.getD_some, snmpPlan, List.map_map] at hmem'
      obtain ⟨e', he', heq⟩ := List.mem_map.mp hmem'
      rw [Function.comp_apply, label_fqdn he', Prod.mk.injEq, Prod.mk.injEq] at heq
      obtain ⟨hfqdn, hparent, hrole⟩ := heq
      change e'.2.fqdn = e.2.fqdn at hfqdn
      refine ⟨info', e', rfl, he', ?_, hfqdn, hparent, hrole⟩
      rw [← label_fqdn he', ← label_fqdn he, hfqdn]

theorem mem_deployedFqdns {f : Text} :
    f ∈ deployedFqdns run.1 run.2 ↔
      ∃ info, deployedNetsim run.1 run.2 = some info ∧ ∃ e ∈ info.devices.entries, e.2.fqdn = f := by
  unfold deployedFqdns
  cases deployedNetsim run.1 run.2 with
  | none => simp
  | some info => simp [mem_createdFqdns]

theorem deployedFqdns_of_canon (h : canonOf run = canonOf run') {f : Text} :
    f ∈ deployedFqdns run.1 run.2 ↔ f ∈ deployedFqdns run'.1 run'.2 := by
  have hone : ∀ {run run' : Args × Panels}, canonOf run = canonOf run' →
      f ∈ deployedFqdns run.1 run.2 → f ∈ deployedFqdns run'.1 run'.2 := by
    intro run run' h hf
    obtain ⟨info, hinfo, e, he, rfl⟩ := mem_deployedFqdns.mp hf
    obtain ⟨info', e', hinfo', he', -, hfqdn, -⟩ := exists_device h hinfo he
    exact mem_deployedFqdns.mpr ⟨info', hinfo', e', he', hfqdn⟩
  exact ⟨hone h, hone h.symm⟩

/-- The devices that the record lists are those that are created. -/
theorem mem_deployedPlan {f : Text} :
    f ∈ (deployedPlan run.1 run.2).map Prod.fst ↔ f ∈ deployedFqdns run.1 run.2 := by
  rw [mem_deployedFqdns, deployedPlan]
  cases deployedNetsim run.1 run.2 with
  | none => simp
  | some info => simp [snmpPlan]

theorem effectiveParent_congr {names names' : List Text} (h : ∀ f, f ∈ names ↔ f ∈ names')
    (c : Carried) : effectiveParent names c = effectiveParent names' c := by
  simp only [effectiveParent, h]

/-- The parent of a carried host, as the run writes it. -/
def writtenParent (run : Args × Panels) (c : Carried) : Option Text :=
  effectiveParent (run.2.delivery.fqdns ++ deployedFqdns run.1 run.2) c

/-- A carried host of one configuration is one of the other, with the same parent and the same
role. -/
theorem exists_carried (h : canonOf run = canonOf run') {c : Carried}
    (hc : c ∈ run.2.delivery.carried) :
    ∃ c' ∈ run'.2.delivery.carried, c'.fqdn = c.fqdn ∧
      writtenParent run' c' = writtenParent run c ∧ hostRole c' = hostRole c := by
  have hparent : ∀ (run : Args × Panels) (c : Carried),
      effectiveParent (run.2.delivery.fqdns ++ (deployedPlan run.1 run.2).map Prod.fst) c =
        writtenParent run c := by
    intro run c
    apply effectiveParent_congr
    intro f
    rw [List.mem_append, List.mem_append, mem_deployedPlan]
  have hmem : (c.fqdn, writtenParent run c, hostRole c) ∈
      run.2.delivery.carried.map fun c =>
        (c.fqdn, effectiveParent (run.2.delivery.fqdns ++
          (deployedPlan run.1 run.2).map Prod.fst) c, hostRole c) :=
    List.mem_map.mpr ⟨c, hc, by rw [hparent]⟩
  obtain ⟨c', hc', heq⟩ := List.mem_map.mp (mem_of_sortedRows_eq (congrArg Canon.hosts h) hmem)
  rw [hparent, Prod.mk.injEq, Prod.mk.injEq] at heq
  exact ⟨c', hc', heq⟩

theorem fqdns_of_canon (h : canonOf run = canonOf run') {f : Text} :
    f ∈ run.2.delivery.fqdns ↔ f ∈ run'.2.delivery.fqdns := by
  have hone : ∀ {run run' : Args × Panels}, canonOf run = canonOf run' →
      f ∈ run.2.delivery.fqdns → f ∈ run'.2.delivery.fqdns := by
    intro run run' h hf
    obtain ⟨c, hc, rfl⟩ := List.mem_map.mp hf
    obtain ⟨c', hc', hfqdn, -⟩ := exists_carried h hc
    exact List.mem_map.mpr ⟨c', hc', hfqdn⟩
  exact ⟨hone h, hone h.symm⟩

/-- What a leaf name of the business pack stands for is determined by the names of the hosts. -/
theorem get_fqdnByShort_iff {short f : Text} :
    (fqdnByShort run.2.delivery.carried (deployedFqdns run.1 run.2)).get short = some f ↔
      label f = short ∧ (f ∈ deployedFqdns run.1 run.2 ∨
        f ∈ run.2.delivery.fqdns ∧ ∀ g ∈ deployedFqdns run.1 run.2, label g ≠ short) := by
  have hname : ∀ c ∈ run.2.delivery.carried, label c.fqdn = c.name := by
    intro c hc
    obtain ⟨hdot, hfqdn⟩ := run.2.delivery.named c hc
    rw [hfqdn, label, Text.cut_append hdot]
  have hrows : ∀ {v : Text}, (short, v) ∈ (deployedFqdns run.1 run.2).map (fun f => (label f, f)) ↔
      v ∈ deployedFqdns run.1 run.2 ∧ label v = short := by
    intro v
    simp only [List.mem_map, Prod.mk.injEq]
    constructor
    · rintro ⟨g, hg, hlabel, rfl⟩
      exact ⟨hg, hlabel⟩
    · rintro ⟨hv, hlabel⟩
      exact ⟨v, hv, hlabel, rfl⟩
  rw [fqdnByShort]
  by_cases hmem : short ∈ ((deployedFqdns run.1 run.2).map fun f => (label f, f)).map Prod.fst
  · obtain ⟨v, hv, hget⟩ := Dict.get_update_of_mem
      (Dict.ofRows (run.2.delivery.carried.map fun h => (h.name, h.fqdn))) hmem
    obtain ⟨hdeployed, hlabel⟩ := hrows.mp hv
    rw [hget, Option.some.injEq]
    constructor
    · rintro rfl
      exact ⟨hlabel, Or.inl hdeployed⟩
    · rintro ⟨hf, hdeployed' | ⟨-, hnone⟩⟩
      · obtain ⟨info, hinfo, e, he, rfl⟩ := mem_deployedFqdns.mp hdeployed
        obtain ⟨info', hinfo', e', he', rfl⟩ := mem_deployedFqdns.mp hdeployed'
        obtain rfl : info = info' := Option.some.inj (hinfo.symm.trans hinfo')
        rw [label_fqdn he] at hlabel
        rw [label_fqdn he'] at hf
        have hsame : e = e' :=
          List.inj_on_of_nodup_map info.devices.nodup he he' (hlabel.trans hf.symm)
        rw [hsame]
      · exact absurd hlabel (hnone v hdeployed)
  · have hnone : ∀ g ∈ deployedFqdns run.1 run.2, label g ≠ short := by
      intro g hg hlabel
      exact hmem (List.mem_map.mpr ⟨(label g, g), List.mem_map.mpr ⟨g, hg, rfl⟩, hlabel⟩)
    have hnodup : ((run.2.delivery.carried.map fun h => (h.name, h.fqdn)).map Prod.fst).Nodup := by
      rw [List.map_map]
      exact run.2.delivery.names_nodup
    rw [Dict.get_update_of_notMem _ hmem]
    constructor
    · intro hget
      have hkey := Dict.mem_keys_ofRows.mp (Dict.mem_keys_iff.mpr ⟨f, hget⟩)
      obtain ⟨row, hrow, rfl⟩ := List.mem_map.mp hkey
      rw [Dict.get_ofRows_of_nodup hnodup hrow, Option.some.injEq] at hget
      obtain ⟨c, hc, rfl⟩ := List.mem_map.mp hrow
      rw [← hget]
      exact ⟨hname c hc, Or.inr ⟨List.mem_map_of_mem hc, hnone⟩⟩
    · rintro ⟨hlabel, hdeployed | ⟨hcarried, -⟩⟩
      · exact absurd hlabel (hnone f hdeployed)
      · obtain ⟨c, hc, rfl⟩ := List.mem_map.mp hcarried
        apply Dict.get_ofRows_of_nodup hnodup
        exact List.mem_map.mpr ⟨c, hc, by rw [← hlabel, hname c hc]⟩

/-- The business objects are determined by the record. -/
theorem plannedBi_of_canon (h : canonOf run = canonOf run') :
    plannedBi run.1 run.2 = plannedBi run'.1 run'.2 := by
  apply biPlan_congr
  intro tier _ leaf _
  apply Option.ext
  intro f
  rw [get_fqdnByShort_iff, get_fqdnByShort_iff]
  simp only [deployedFqdns_of_canon h, fqdns_of_canon h]

/-- The same names, each once, come in the same order when they are sorted. -/
theorem sorted_createdFqdns (h : canonOf run = canonOf run') {info info' : Netsim}
    (hinfo : deployedNetsim run.1 run.2 = some info)
    (hinfo' : deployedNetsim run'.1 run'.2 = some info') :
    sorted (createdFqdns info) = sorted (createdFqdns info') := by
  have hcreated : deployedFqdns run.1 run.2 = createdFqdns info := by simp [deployedFqdns, hinfo]
  have hcreated' : deployedFqdns run'.1 run'.2 = createdFqdns info' := by
    simp [deployedFqdns, hinfo']
  rw [← hcreated, ← hcreated']
  have hperm : (deployedFqdns run.1 run.2).Perm (deployedFqdns run'.1 run'.2) :=
    (List.perm_ext_iff_of_nodup (nodup_deployedFqdns _ _) (nodup_deployedFqdns _ _)).mpr
      fun f => deployedFqdns_of_canon h
  have hsorted : (sorted (deployedFqdns run.1 run.2)).Perm (sorted (deployedFqdns run'.1 run'.2)) :=
    ((List.perm_insertionSort _ _).trans hperm).trans (List.perm_insertionSort _ _).symm
  exact hsorted.eq_of_pairwise' (List.pairwise_insertionSort _ _) (List.pairwise_insertionSort _ _)

end Record

/-! ## What the record leaves out -/

section Layer

variable {run run' : Args × Panels}

/-- In the same layer a device has the same attributes. -/
theorem deviceAttributes_of_sameTransport {info info' : Netsim} (htransport : SameTransport info info')
    {e e' : Text × Device} (he : e ∈ info.devices.entries) (he' : e' ∈ info'.devices.entries)
    (hshort : e'.1 = e.1) (hparent : plannedParent info' e'.2 = plannedParent info e.2) :
    deviceAttributes info' e'.1 e'.2 = deviceAttributes info e.1 e.2 := by
  funext attr
  cases attr with
  | parents => rw [parents_deviceAttributes, parents_deviceAttributes, hparent]
  | snmpCommunity =>
      simp only [deviceAttributes, ← htransport.live]
      split
      · rename_i hlive
        have hget := Dict.get_eq_some_iff.mpr he
        have hget' : info'.devices.get e.1 = some e'.2 := by
          rw [← hshort]
          exact Dict.get_eq_some_iff.mpr he'
        rw [hshort, htransport.community hlive e.1 e.2 e'.2 hget hget']
      · rfl
  | _ => simp only [deviceAttributes, htransport.live]

/-- With the same record and the same layer, what one configuration plans the other plans too. -/
theorem hostPlan_subset (h : canonOf run = canonOf run') (hlayer : SameLayer run run') :
    hostPlan run.1 run.2 ⊆ hostPlan run'.1 run'.2 := by
  intro p hp
  rw [hostPlan, List.mem_append, List.mem_cons] at hp ⊢
  rcases hp with hp | rfl | hp
  · left
    obtain ⟨row, hrow, rfl⟩ := List.mem_map.mp hp
    unfold deployedRows at hrow ⊢
    cases hinfo : deployedNetsim run.1 run.2 with
    | none =>
        rw [hinfo] at hrow
        exact absurd hrow List.not_mem_nil
    | some info =>
        rw [hinfo] at hrow
        obtain ⟨e, he, rfl⟩ := List.mem_map.mp hrow
        rw [(topoOrder_perm info.devices).mem_iff] at he
        obtain ⟨info', e', hinfo', he', hshort, hfqdn, hparent, hrole⟩ := exists_device h hinfo he
        have htransport : SameTransport info info' := by
          have hrel := hlayer.transport
          rw [hinfo, hinfo'] at hrel
          cases hrel with
          | some hsame => exact hsame
        rw [hinfo']
        refine List.mem_map.mpr ⟨deviceRow info' e', ?_, ?_⟩
        · exact List.mem_map.mpr ⟨e', (topoOrder_perm info'.devices).mem_iff.mpr he', rfl⟩
        · simp only [deviceRow, Row.placed, hfqdn, hrole, canonOf_root h,
            deviceAttributes_of_sameTransport htransport he he' hshort hparent]
  · right
    left
    have hattributes : ∀ attr,
        shellAttributes run.1 run.2.delivery.host (deployedFqdns run.1 run.2) attr =
          shellAttributes run'.1 run'.2.delivery.host (deployedFqdns run'.1 run'.2) attr := by
      intro attr
      cases attr <;> simp only [shellAttributes, canonOf_mode h, canonOf_agentIp h, canonOf_host h,
        hlayer.shell]
    rw [shellPlaced, shellPlaced, canonOf_root h, funext hattributes, canonOf_host h]
  · right
    right
    obtain ⟨row, hrow, rfl⟩ := List.mem_map.mp hp
    obtain ⟨c, hc, rfl⟩ := List.mem_map.mp hrow
    obtain ⟨c', hc', hfqdn, hparent, hrole⟩ := exists_carried h (mem_creationOrder.mp hc)
    have hattributes : ∀ attr,
        hostAttributes run'.1 (run'.2.delivery.fqdns ++ deployedFqdns run'.1 run'.2) c' attr =
          hostAttributes run.1 (run.2.delivery.fqdns ++ deployedFqdns run.1 run.2) c attr := by
      intro attr
      rw [writtenParent, writtenParent] at hparent
      cases attr <;> simp only [hostAttributes, canonOf_mode h, hparent]
    refine List.mem_map.mpr ⟨_, List.mem_map.mpr ⟨c', mem_creationOrder.mpr hc', rfl⟩, ?_⟩
    simp only [hostRow, Row.placed, hfqdn, hrole, canonOf_root h, funext hattributes]

/-- The rules for the devices are those of the layer. -/
theorem deviceRules_of_sameLayer (h : canonOf run = canonOf run') (hlayer : SameLayer run run') :
    deviceRules run.1 run.2 = deviceRules run'.1 run'.2 := by
  have hsorted : ∀ info info', deployedNetsim run.1 run.2 = some info →
      deployedNetsim run'.1 run'.2 = some info' →
        sorted (createdFqdns info) = sorted (createdFqdns info') :=
    fun _ _ => sorted_createdFqdns h
  have hrel := hlayer.transport
  unfold deviceRules
  generalize deployedNetsim run.1 run.2 = netsim at hrel hsorted ⊢
  generalize deployedNetsim run'.1 run'.2 = netsim' at hrel hsorted ⊢
  cases hrel with
  | none => rfl
  | @some info info' htransport =>
      rw [Option.map_some, Option.map_some, accessRule, accessRule, ← htransport.live]
      split
      · rename_i hlive
        rw [htransport.port hlive, canonOf_root h]
      · rw [usewalkRule, usewalkRule, hsorted info info' rfl rfl]

theorem plannedRules_of_sameLayer (h : canonOf run = canonOf run') (hlayer : SameLayer run run')
    {r : Rule} : r ∈ plannedRules run.1 run.2 ↔ r ∈ plannedRules run'.1 run'.2 := by
  have hresidual : residualRules run.1 = residualRules run'.1 := by
    simp only [residualRules, hlayer.chosen, canonOf_root h]
  have hestate : OfEstate run'.2.delivery.host run'.1.root run := ⟨canonOf_host h, canonOf_root h⟩
  have hrest : fingerprintedRules run = fingerprintedRules run' :=
    fingerprintedRules_congr hestate ⟨rfl, rfl⟩ h
  rw [mem_plannedRules_iff, mem_plannedRules_iff, deviceRules_of_sameLayer h hlayer, hresidual,
    show (run.1, run.2) = run from rfl, hrest]

/-- The planned rules of the two rulesets for the devices are those for the devices. -/
theorem mem_deviceRules_iff {args : Args} {panels : Panels} {r : Rule} :
    r ∈ deviceRules args panels ↔
      r ∈ plannedRules args panels ∧ r.ruleset ∈ [Ruleset.snmpPorts, .usewalkHosts] := by
  constructor
  · intro hr
    exact ⟨mem_plannedRules_iff.mpr (Or.inl (List.mem_append_left _ hr)),
      ruleset_of_mem_deviceRules hr⟩
  · rintro ⟨hr, hruleset⟩
    simp only [plannedRules, List.mem_append, List.mem_singleton] at hr
    rcases hr with (((hr | hr) | hr) | hr) | rfl
    · exact hr
    · rw [ruleset_of_mem_residualRules hr] at hruleset
      simp at hruleset
    · rw [ruleset_of_mem_portRules hr] at hruleset
      simp at hruleset
    · rw [ruleset_of_mem_sourceRules hr] at hruleset
      simp at hruleset
    · simp [biServiceRule] at hruleset

theorem shell_mem_hostPlan : shellPlaced run.1 run.2 ∈ hostPlan run.1 run.2 :=
  List.mem_append_right _ List.mem_cons_self

theorem device_mem_hostPlan {info : Netsim} (hinfo : deployedNetsim run.1 run.2 = some info)
    {e : Text × Device} (he : e ∈ info.devices.entries) :
    (deviceRow info e).placed run.1.root ∈ hostPlan run.1 run.2 := by
  apply List.mem_append_left
  unfold deployedRows
  rw [hinfo]
  apply List.mem_map_of_mem
  exact List.mem_map.mpr ⟨e, (topoOrder_perm info.devices).mem_iff.mpr he, rfl⟩

end Layer

/-! ## When one fingerprint stands for one estate -/

section Sound

variable {run run' : Args × Panels} {t t' : Site} {digest : Canon → Text}

/-- With the same record and the same layer, the same hosts are created. -/
theorem hosts_of_sameLayer (hcanon : canonOf run = canonOf run') (hlayer : SameLayer run run')
    (hfp : fingerprintOf run.1 run.2 digest = fingerprintOf run'.1 run'.2 digest)
    (h : CompleteRun digest Site.empty run t) (h' : CompleteRun digest Site.empty run' t')
    (name : Text) : t.hosts.get name = t'.hosts.get name := by
  have hback : hostPlan run'.1 run'.2 ⊆ hostPlan run.1 run.2 :=
    hostPlan_subset hcanon.symm hlayer.symm
  by_cases hname : name ∈ (hostPlan run.1 run.2).map Prod.fst
  · obtain ⟨p, hp, rfl⟩ := List.mem_map.mp hname
    rw [get_alone h hp, get_alone h' (hostPlan_subset hcanon hlayer hp), runLabels, runLabels, hfp,
      canonOf_host hcanon]
  · have hname' : name ∉ (hostPlan run'.1 run'.2).map Prod.fst :=
      fun hmem => hname (List.map_subset _ hback hmem)
    rw [get_alone_of_notMem h hname, get_alone_of_notMem h' hname']

theorem attributes_of_hosts (hhosts : ∀ name, t.hosts.get name = t'.hosts.get name)
    (h : CompleteRun digest Site.empty run t) (h' : CompleteRun digest Site.empty run' t')
    {p p' : Placed} (hp : p ∈ hostPlan run.1 run.2) (hp' : p' ∈ hostPlan run'.1 run'.2)
    (hname : p.1 = p'.1) : p.2.2 = p'.2.2 := by
  have hget := hhosts p.1
  rw [get_alone h hp, hname, get_alone h' hp', Option.some.injEq, HostConfig.mk.injEq] at hget
  exact hget.2.1

/-- The parent of the shell can be read off its attributes. -/
theorem shellParent_of_attributes
    (hattributes : shellAttributes run.1 run.2.delivery.host (deployedFqdns run.1 run.2) .parents =
      shellAttributes run'.1 run'.2.delivery.host (deployedFqdns run'.1 run'.2) .parents) :
    shellParent (deployedFqdns run.1 run.2) = shellParent (deployedFqdns run'.1 run'.2) := by
  have hread : ∀ run : Args × Panels,
      shellAttributes run.1 run.2.delivery.host (deployedFqdns run.1 run.2) .parents =
        (shellParent (deployedFqdns run.1 run.2)).map fun p => .names [p] := by
    intro run
    rw [shellAttributes]
    cases hparent : shellParent (deployedFqdns run.1 run.2) with
    | none => rfl
    | some p =>
        have hmem := mem_of_shellParent hparent
        have hne : p ≠ run.2.delivery.host := fun heq => host_notMem_deployedFqdns (heq ▸ hmem)
        obtain ⟨info, -, e, he, rfl⟩ := mem_deployedFqdns.mp hmem
        rw [given_fqdn he, Option.filter_some, if_pos (by simpa using hne)]
  rw [hread, hread] at hattributes
  exact Option.map_injective (fun p p' heq => by simpa using heq) hattributes

/-- Configurations that create the same objects have the same layer. -/
theorem sameLayer_of_sameEstate (hcanon : canonOf run = canonOf run') (hsame : SameEstate t t')
    (h : CompleteRun digest Site.empty run t) (h' : CompleteRun digest Site.empty run' t') :
    SameLayer run run' := by
  have hrules : ∀ r, r ∈ plannedRules run.1 run.2 ↔ r ∈ plannedRules run'.1 run'.2 := by
    intro r
    rw [← hasRule_alone h, ← hasRule_alone h', ← mem_rules_iff, ← mem_rules_iff]
    exact hsame.rules.mem_iff
  have hdevices : (deployedNetsim run.1 run.2).map (accessRule run.1) =
      (deployedNetsim run'.1 run'.2).map (accessRule run'.1) := by
    apply Option.ext
    intro r
    have hboth : r ∈ deviceRules run.1 run.2 ↔ r ∈ deviceRules run'.1 run'.2 := by
      rw [mem_deviceRules_iff, mem_deviceRules_iff, hrules]
    rwa [deviceRules, deviceRules, Option.mem_toList, Option.mem_toList] at hboth
  constructor
  · have hoff : ∀ run : Args × Panels,
        run.1.snmp = .off ↔ residualCurrentRule run.1.root ∉ plannedRules run.1 run.2 := by
      intro run
      constructor
      · intro hoff hmem
        rw [mem_plannedRules_iff, List.mem_append, residualRules, if_pos hoff] at hmem
        rcases hmem with (hmem | hmem) | hmem
        · have hruleset := ruleset_of_mem_deviceRules hmem
          simp [residualCurrentRule] at hruleset
        · exact absurd hmem List.not_mem_nil
        · simp only [fingerprintedRules, List.mem_append, List.mem_singleton] at hmem
          rcases hmem with (hmem | hmem) | hmem
          · cases ruleset_of_mem_portRules hmem
          · cases ruleset_of_mem_sourceRules hmem
          · cases congrArg Rule.ruleset hmem
      · intro hnot
        by_contra hon
        apply hnot
        apply mem_plannedRules_iff.mpr
        rw [residualRules, if_neg hon]
        exact Or.inl (List.mem_append_right _ List.mem_cons_self)
    rw [hoff run, hoff run', hrules, canonOf_root hcanon]
  · cases hinfo : deployedNetsim run.1 run.2 with
    | none =>
        cases hinfo' : deployedNetsim run'.1 run'.2 with
        | none => exact .none
        | some info' => simp [hinfo, hinfo'] at hdevices
    | some info =>
        cases hinfo' : deployedNetsim run'.1 run'.2 with
        | none => simp [hinfo, hinfo'] at hdevices
        | some info' =>
            rw [hinfo, hinfo', Option.map_some, Option.map_some, Option.some.injEq] at hdevices
            have hlive : info.live = info'.live := by
              have hruleset := congrArg Rule.ruleset hdevices
              unfold accessRule at hruleset
              cases hlive : info.live <;> cases hlive' : info'.live <;>
                simp [hlive, hlive', snmpPortRule, usewalkRule] at hruleset ⊢
            refine .some ⟨hlive, fun hon => ?_, fun hon short dev dev' hdev hdev' => ?_⟩
            · rw [accessRule, accessRule, ← hlive, if_pos hon, if_pos hon] at hdevices
              exact RuleValue.number.inj (congrArg Rule.value hdevices)
            · have he := Dict.get_eq_some_iff.mp hdev
              have he' := Dict.get_eq_some_iff.mp hdev'
              obtain ⟨info'', e, hinfo'', hmem, hshort, hfqdn, -⟩ := exists_device hcanon hinfo he
              obtain rfl : info' = info'' := Option.some.inj (hinfo'.symm.trans hinfo'')
              obtain rfl : e = (short, dev') :=
                List.inj_on_of_nodup_map info'.devices.nodup hmem he' hshort
              have hattributes := attributes_of_hosts hsame.hosts h h'
                (device_mem_hostPlan hinfo he) (device_mem_hostPlan hinfo' he') hfqdn.symm
              have hcommunity := congrFun hattributes .snmpCommunity
              simp only [deviceRow, Row.placed, deviceAttributes, ← hlive, if_pos hon] at hcommunity
              simpa using hcommunity
  · have hattributes := attributes_of_hosts hsame.hosts h h' shell_mem_hostPlan shell_mem_hostPlan
      (canonOf_host hcanon)
    exact shellParent_of_attributes (congrFun hattributes .parents)

/-- Two configurations with the same fingerprint, by a digest without collisions, create the same
objects on an empty site exactly if they have the same layer. -/
theorem sameEstate_iff (hdigest : Function.Injective digest)
    (hfp : fingerprintOf run.1 run.2 digest = fingerprintOf run'.1 run'.2 digest)
    (h : (setup digest run.1).Runs (Serves run.2) Site.empty () t)
    (h' : (setup digest run'.1).Runs (Serves run'.2) Site.empty () t') :
    SameEstate t t' ↔ SameLayer run run' := by
  have hcanon : canonOf run = canonOf run' := hdigest (fingerprintOf_inj hfp)
  constructor
  · intro hsame
    exact sameLayer_of_sameEstate hcanon hsame h h'
  · intro hlayer
    constructor
    · exact hosts_of_sameLayer hcanon hlayer hfp h h'
    · apply (rules_alone_perm h).trans (List.Perm.trans _ (rules_alone_perm h').symm)
      apply (List.perm_ext_iff_of_nodup _ _).mpr fun r => plannedRules_of_sameLayer hcanon hlayer
      · exact List.Nodup.of_map _ (nodup_rulesets run.1 run.2)
      · exact List.Nodup.of_map _ (nodup_rulesets run'.1 run'.2)
    · intro ident
      rw [bi_alone h, bi_alone h', plannedBi_of_canon hcanon]

end Sound

/-! ## A digest without collisions -/

theorem Role.key_injective : Function.Injective Role.key := by
  have hfind : ∀ role : Role, Role.find (some role.key) = some role := by
    intro role
    cases role <;> rfl
  intro role role' heq
  rw [← Option.some.injEq, ← hfind role, heq, hfind role']

/-- There are no more records than texts. -/
theorem exists_injective_digest : ∃ digest : Canon → Text, Function.Injective digest := by
  have hchar : Countable Char := Function.Injective.countable (f := Char.toNat)
    fun c c' heq => Char.toNat_inj.mp heq
  have hmode : Countable Mode := Function.Injective.countable (f := fun m => decide (m = .cloud))
    (by intro m m'; cases m <;> cases m' <;> simp)
  have hrole : Countable Role := Role.key_injective.countable
  let fields : Canon → Nat × Mode × Ident × (Text × Text × ℤ) × List (Text × Option Text × Role) ×
      List (Text × Option Text × Role) × List Text × Option Text := fun c =>
    (c.schema, c.mode, c.folder, c.delivery, c.hosts, c.snmp, c.biTiers, c.datasource)
  have hfields : Function.Injective fields := by
    rintro ⟨⟩ ⟨⟩ heq
    simpa [fields] using heq
  obtain ⟨number, hnumber⟩ := hfields.countable.exists_injective_nat
  refine ⟨fun c => List.replicate (number c) 'a', fun c c' heq => hnumber ?_⟩
  simpa using congrArg List.length heq

/-- A digest without collisions. -/
noncomputable def exactDigest : Canon → Text :=
  exists_injective_digest.choose

theorem exactDigest_injective : Function.Injective exactDigest :=
  exists_injective_digest.choose_spec

theorem fingerprintOf_core (port port' : ℤ) :
    fingerprintOf demoArgs (corePanelsOn port) exactDigest =
      fingerprintOf demoArgs (corePanelsOn port') exactDigest :=
  rfl

theorem exists_run_core :
    (∃ t, (setup exactDigest demoArgs).Runs (Serves (corePanelsOn 1161)) Site.empty () t) ∧
      ∃ t, (setup exactDigest demoArgs).Runs (Serves (corePanelsOn 1162)) Site.empty () t :=
  ⟨exists_runs true (by decide +kernel), exists_runs true (by decide +kernel)⟩

theorem sameEstate_iff_core : ∃ t t',
    (setup exactDigest demoArgs).Runs (Serves (corePanelsOn 1161)) Site.empty () t ∧
      (SameEstate t t' ↔ SameLayer (demoArgs, corePanelsOn 1161) (demoArgs, corePanelsOn 1162)) := by
  obtain ⟨⟨t, h⟩, ⟨t', h'⟩⟩ := exists_run_core
  exact ⟨t, t', h, sameEstate_iff exactDigest_injective (fingerprintOf_core 1161 1162) h h'⟩

/-- The responder of the devices on another port has the same fingerprint and another rule. -/
theorem not_sameEstate_port :
    ¬ ∀ (digest : Canon → Text) (run run' : Args × Panels) (t t' : Site),
      Function.Injective digest →
      fingerprintOf run.1 run.2 digest = fingerprintOf run'.1 run'.2 digest →
      (setup digest run.1).Runs (Serves run.2) Site.empty () t →
      (setup digest run'.1).Runs (Serves run'.2) Site.empty () t' → SameEstate t t' := by
  intro hclaim
  obtain ⟨⟨t, h⟩, ⟨t', h'⟩⟩ := exists_run_core
  have hsame := hclaim exactDigest (demoArgs, corePanelsOn 1161) (demoArgs, corePanelsOn 1162) t t'
    exactDigest_injective (fingerprintOf_core 1161 1162) h h'
  have hrule : t.HasRule (snmpPortRule demoArgs.root 1161) :=
    (hasRule_alone h).mpr (by decide +kernel)
  have hrule' := mem_rules_iff.mp (hsame.rules.mem_iff.mp (mem_rules_iff.mpr hrule))
  have hplanned := (hasRule_alone h').mp hrule'
  revert hplanned
  decide +kernel

end Deploy
end DemoEstate
