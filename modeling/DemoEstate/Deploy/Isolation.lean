import DemoEstate.Deploy.Fingerprint

/-!
# Two estates on one site

The objects of a second estate while the first one is set up or torn down.  The setup takes every
marked rule for stored walks for its own, and the removal deletes the business objects of the
tool, which all estates share.

Main definitions:

- Structure {lit}`Apart`: two estates without a common host, in folders of their own.
- Structure {lit}`Holds`: a site with the objects of an estate.
- Structure {lit}`Unchanged`: what isolation asks for.
- Definition {lit}`ReplacesWalk`: the setup comes to a rule for stored walks of the other estate.

Main results:

- Theorem {lit}`CreateRun.keeps_iff`: which rules of the other estate survive a reconfiguration.
- Theorem {lit}`teardown_keeps`: a removal leaves the other hosts, folders and rules.
- Theorem {lit}`unchanged_iff`: when the other estate is left alone.
-/

namespace DemoEstate
namespace Deploy

open Interaction
open Interaction.Program

/-- The top-level flows of the tool. -/
inductive Flow where
  | setup
  | teardown
deriving DecidableEq

/-- What a flow does. -/
def Flow.program (flow : Flow) (digest : Canon → Text) (args : Args) : Setup Unit :=
  match flow with
  | .setup => Deploy.setup digest args
  | .teardown => Deploy.teardown args

/-- The estates have no host in common, and neither root folder is in the tree of the other. -/
structure Apart (run other : Args × Panels) : Prop where
  hosts : ∀ name ∈ estateNames other.1 other.2, name ∉ estateNames run.1 run.2
  above : ¬ run.1.root <+: other.1.root
  below : ¬ other.1.root <+: run.1.root

/-- The site has the root folder, the hosts, the rules and the business objects of an estate. -/
structure Holds (other : Args × Panels) (s : Site) : Prop where
  root : s.HasFolder other.1.root
  hosts : ∀ p ∈ hostPlan other.1 other.2, ∃ config,
    s.hosts.get p.1 = some config ∧ config.folder = p.2.1
  rules : ∀ r ∈ plannedRules other.1 other.2, s.HasRule r
  bi : ∀ b ∈ plannedBi other.1 other.2, s.bi.get b.1 ≠ none

/-- The rule is one of the estate. -/
def OfOther (other : Args × Panels) (r : Rule) : Prop :=
  r ∈ plannedRules other.1 other.2

/-- The rules that meet a condition are the same. -/
def Keeps (P : Rule → Prop) (s t : Site) : Prop :=
  ∀ k r, P r → (t.rules.get k = some r ↔ s.rules.get k = some r)

/-- The hosts, the folders, the rules and the business objects of an estate are the same. -/
structure Unchanged (other : Args × Panels) (s t : Site) : Prop where
  hosts : ∀ name ∈ estateNames other.1 other.2, t.hosts.get name = s.hosts.get name
  folders : ∀ f, other.1.root <+: f → (f ∈ t.folders ↔ f ∈ s.folders)
  rules : Keeps (OfOther other) s t
  bi : ∀ b ∈ plannedBi other.1 other.2, t.bi.get b.1 = s.bi.get b.1

/-- The run reconfigures the site for the stored walks of its devices, and a rule of the other
estate is listed before every rule for exactly these devices. -/
def ReplacesWalk (run other : Args × Panels) (digest : Canon → Text) (s : Site) : Prop :=
  Reconfigures run.1 run.2 digest s ∧ ∃ info, deployedNetsim run.1 run.2 = some info ∧
    info.live = false ∧
    ∃ m ∈ (s.marked .usewalkHosts).takeWhile fun m =>
        !decide (sorted m.2.hosts = sorted (createdFqdns info)),
      OfOther other m.2

/-! ## Rules that survive -/

section Keeps

variable {panels : Panels} {s s' t : Site} {u : Unit} {P : Rule → Prop} {rule : Rule}

theorem keeps_of_eq (h : t.rules = s.rules) : Keeps P s t := by
  intro k r _
  rw [h]

theorem Keeps.trans (h : Keeps P s s') (h' : Keeps P s' t) : Keeps P s t :=
  fun k r hr => (h' k r hr).trans (h k r hr)

/-- Making a rule exist keeps the rules that it neither deletes nor is. -/
theorem Replaced.keeps {gone : List Nat} {kept : Prop} (h : Replaced gone kept rule s t)
    (hgone : ∀ k ∈ gone, ∀ r, P r → s.rules.get k ≠ some r) (hnew : ¬ kept → ¬ P rule) :
    Keeps P s t := by
  intro k r hr
  constructor
  · intro hget
    rcases h.rules with ⟨-, hrules⟩ | ⟨hno, ident, -, hrules⟩
    · rw [hrules] at hget
      split at hget
      · cases hget
      · exact hget
    · rw [hrules] at hget
      split at hget
      · exact absurd hr (Option.some.inj hget ▸ hnew hno)
      · split at hget
        · cases hget
        · exact hget
  · exact fun hget => h.survives hget fun hmem => hgone k hmem r hr hget

theorem keeps_ensureRule {own keep : Rule → Bool} (hnew : ¬ P rule)
    (hown : ∀ r, P r → r.ruleset = rule.ruleset → own r = false)
    (h : (ensureRule own keep rule).Runs (Serves panels) s u t) : Keeps P s t := by
  apply (runs_ensureRule h).keeps _ fun _ => hnew
  intro k hk r hr hget
  obtain ⟨r', hmem, hyes, -⟩ := own_of_mem_stale hk
  obtain ⟨hget', hruleset, -⟩ := mem_marked.mp hmem
  obtain rfl : r = r' := Option.some.inj (hget.symm.trans hget')
  rw [hown r hr hruleset] at hyes
  cases hyes

/-- Where every marked rule counts as an own one, those before the first match are deleted. -/
theorem stale_all (keep : Rule → Bool) (marked : List (Nat × Rule)) :
    stale (fun _ => true) keep marked = (marked.takeWhile fun m => !keep m.2).map Prod.fst := by
  induction marked with
  | nil => rfl
  | cons m marked ih =>
      rcases m with ⟨ident, r⟩
      rw [stale, if_pos rfl, List.takeWhile_cons]
      cases hkeep : keep r with
      | true => rfl
      | false => simp [ih]

/-- The rules for stored walks of others survive exactly where none of them comes before the first
rule for the own devices. -/
theorem keeps_ensureUsewalkRule_iff {fqdns : List Text}
    (h : (ensureUsewalkRule fqdns).Runs (Serves panels) s u t)
    (hshared : P (usewalkRule fqdns) → s.HasRule (usewalkRule fqdns)) :
    Keeps P s t ↔ ∀ m ∈ (s.marked .usewalkHosts).takeWhile fun m =>
      !decide (sorted m.2.hosts = sorted fqdns), ¬ P m.2 := by
  have hreplaced := runs_ensureRule h
  rw [stale_all] at hreplaced
  constructor
  · intro hkeeps m hm hP
    have hget := (mem_marked.mp ((List.takeWhile_sublist _).subset hm)).1
    have hne : m.2 ≠ usewalkRule fqdns := by
      intro heq
      have hdiffers := List.mem_takeWhile_imp hm
      rw [heq, usewalkRule, sorted_sorted, decide_eq_true rfl] at hdiffers
      cases hdiffers
    exact hreplaced.not_kept (List.mem_map_of_mem hm) hne ((hkeeps m.1 m.2 hP).mpr hget)
  · intro hnone
    apply hreplaced.keeps
    · intro k hk r hr hget
      obtain ⟨m, hm, rfl⟩ := List.mem_map.mp hk
      have hget' := (mem_marked.mp ((List.takeWhile_sublist _).subset hm)).1
      obtain rfl : r = m.2 := Option.some.inj (hget.symm.trans hget')
      exact hnone m hm hr
    · -- a rule that both estates share is kept
      intro hno hP
      obtain ⟨ident, hget⟩ := hshared hP
      apply hno
      refine ⟨(ident, usewalkRule fqdns), mem_marked.mpr ⟨hget, rfl, rfl⟩, rfl, ?_⟩
      rw [usewalkRule, sorted_sorted]
      exact decide_eq_true rfl

end Keeps

/-! ## A reconfiguration beside another estate -/

section Setup

variable {run other : Args × Panels} {s t : Site} {u : Unit} {digest : Canon → Text}

theorem Own.hosts_eq {delivery : Text} {root : Ident} {r : Rule} (h : Own delivery root r)
    (hruleset : r.ruleset ∈ [Ruleset.agentPorts, .specialAgentsBi]) : r.hosts = [delivery] := by
  cases h <;> first | rfl | simp [usewalkRule, snmpPortRule, datasourceRule, residualCurrentRule] at hruleset

theorem Own.folder_eq {delivery : Text} {root : Ident} {r : Rule} (h : Own delivery root r)
    (hruleset : r.ruleset ∈ [Ruleset.snmpPorts, .datasourcePrograms, .residualCurrent]) :
    r.folder = root := by
  cases h <;> first | rfl | simp [usewalkRule, portRule, biServiceRule] at hruleset

theorem Apart.root_ne (h : Apart run other) : other.1.root ≠ run.1.root :=
  fun heq => h.above (heq ▸ List.prefix_rfl)

theorem Apart.host_ne (h : Apart run other) : other.2.delivery.host ≠ run.2.delivery.host :=
  fun heq => h.hosts _ List.mem_cons_self (heq ▸ List.mem_cons_self)

/-- No folder is in the trees of both root folders. -/
theorem Apart.not_both (h : Apart run other) {f : Ident} (hrun : run.1.root <+: f)
    (hother : other.1.root <+: f) : False := by
  rcases List.prefix_or_prefix_of_prefix hrun hother with habove | hbelow
  · exact h.above habove
  · exact h.below hbelow

theorem OfOther.hosts_ne {r : Rule} (hr : OfOther other r) (hapart : Apart run other)
    (hruleset : r.ruleset ∈ [Ruleset.agentPorts, .specialAgentsBi]) :
    r.hosts ≠ [run.2.delivery.host] := by
  rw [(own_of_mem_plannedRules hr).hosts_eq hruleset]
  intro heq
  exact hapart.host_ne (List.singleton_inj.mp heq)

theorem OfOther.folder_ne {r : Rule} (hr : OfOther other r) (hapart : Apart run other)
    (hruleset : r.ruleset ∈ [Ruleset.snmpPorts, .datasourcePrograms, .residualCurrent]) :
    r.folder ≠ run.1.root := by
  rw [(own_of_mem_plannedRules hr).folder_eq hruleset]
  exact hapart.root_ne

theorem keeps_ensureSnmpPortRule (hapart : Apart run other) {port : ℤ}
    (h : (ensureSnmpPortRule run.1.root port).Runs (Serves run.2) s u t) :
    Keeps (OfOther other) s t := by
  apply (runs_ensureSnmpPortRule h).keeps
  · intro k hk r hr hget
    obtain ⟨r', hmem, hfolder⟩ := own_of_mem_staleSnmpPort hk
    obtain ⟨hget', hruleset, -⟩ := mem_marked.mp hmem
    obtain rfl : r = r' := Option.some.inj (hget.symm.trans hget')
    exact hr.folder_ne hapart (by simp [hruleset]) hfolder
  · intro _ hnew
    exact hnew.folder_ne hapart List.mem_cons_self rfl

theorem keeps_deployedResidual (hapart : Apart run other)
    (h : (deployedResidual run.1).Runs (Serves run.2) s u t) : Keeps (OfOther other) s t := by
  unfold deployedResidual at h
  split at h
  · exact keeps_of_eq (by rw [h.2])
  · apply keeps_ensureRule _ _ h
    · intro hnew
      exact hnew.folder_ne hapart (by simp [residualCurrentRule]) rfl
    · intro r hr hruleset
      exact decide_eq_false (hr.folder_ne hapart (by simp [hruleset, residualCurrentRule]))

theorem keeps_ensureAgentAccess (hapart : Apart run other)
    (h : (ensureAgentAccess run.1 run.2.delivery.host).Runs (Serves run.2) s u t) :
    Keeps (OfOther other) s t := by
  unfold ensureAgentAccess at h
  split at h
  · apply keeps_ensureRule _ _ h
    · intro hnew
      exact hnew.hosts_ne hapart (by simp [portRule]) rfl
    · intro r hr hruleset
      exact decide_eq_false (hr.hosts_ne hapart (by simp [hruleset, portRule]))
  · exact keeps_of_eq (by rw [h.2])

theorem keeps_ensureAgentSource (hapart : Apart run other)
    (h : (ensureAgentSource run.1).Runs (Serves run.2) s u t) : Keeps (OfOther other) s t := by
  unfold ensureAgentSource at h
  split at h
  · apply keeps_ensureRule _ _ h
    · intro hnew
      exact hnew.folder_ne hapart (by simp [datasourceRule]) rfl
    · intro r hr hruleset
      exact decide_eq_false (hr.folder_ne hapart (by simp [hruleset, datasourceRule]))
  · exact keeps_of_eq (by rw [h.2])

theorem keeps_ensureBiServiceRule (hapart : Apart run other)
    (h : (ensureBiServiceRule run.2.delivery.host).Runs (Serves run.2) s u t) :
    Keeps (OfOther other) s t := by
  apply keeps_ensureRule _ _ h
  · intro hnew
    exact hnew.hosts_ne hapart (by simp [biServiceRule]) rfl
  · intro r hr hruleset
    exact decide_eq_false (hr.hosts_ne hapart (by simp [hruleset, biServiceRule]))

/-- Where a later step keeps the rules, it depends on the earlier one whether both do. -/
theorem Keeps.trans_iff {P : Rule → Prop} {s' : Site} (h : Keeps P s' t) :
    Keeps P s t ↔ Keeps P s s' :=
  ⟨fun hall k r hr => (h k r hr).symm.trans (hall k r hr), fun hfirst => hfirst.trans h⟩

/-- All rules of the other estate survive a reconfiguration but those for stored walks. -/
theorem CreateRun.keeps_iff (hapart : Apart run other) (hholds : Holds other s)
    (h : CreateRun run.1 run.2 s t) :
    Keeps (OfOther other) s t ↔ ∀ info, deployedNetsim run.1 run.2 = some info →
      info.live = false → ∀ m ∈ (s.marked .usewalkHosts).takeWhile fun m =>
        !decide (sorted m.2.hosts = sorted (createdFqdns info)), ¬ OfOther other m.2 := by
  rcases h.ruleSteps with ⟨s₂, s₃, s₄, s₅, s₆, s₈, s₉, s₁₀, h₂, hdeviceAccess, hresidual, h₅,
    haccess, h₈, hsource, h₁₀, hservice⟩
  have hrest : Keeps (OfOther other) s₃ t :=
    (keeps_deployedResidual hapart hresidual).trans <| (keeps_of_eq h₅).trans <|
      (keeps_ensureAgentAccess hapart haccess).trans <| (keeps_of_eq h₈).trans <|
        (keeps_ensureAgentSource hapart hsource).trans <| (keeps_of_eq h₁₀).trans <|
          keeps_ensureBiServiceRule hapart hservice
  have hfirst : Keeps (OfOther other) s s₃ ↔ Keeps (OfOther other) s₂ s₃ := by
    simp only [Keeps, h₂]
  rw [hrest.trans_iff, hfirst]
  unfold deployedAccess at hdeviceAccess
  cases hinfo : deployedNetsim run.1 run.2 with
  | none =>
      rw [hinfo] at hdeviceAccess
      simp [keeps_of_eq (P := OfOther other) (congrArg Site.rules hdeviceAccess.2)]
  | some info =>
      rw [hinfo] at hdeviceAccess
      change (ensureSnmpAccess run.1.root info).Runs (Serves run.2) s₂ () s₃ at hdeviceAccess
      unfold ensureSnmpAccess at hdeviceAccess
      split at hdeviceAccess
      · rename_i hlive
        simp [keeps_ensureSnmpPortRule hapart hdeviceAccess, hlive]
      · rename_i hlive
        rw [keeps_ensureUsewalkRule_iff hdeviceAccess, marked_of_rules_eq h₂]
        · simp [hlive]
        · intro hshared
          exact (hasRule_congr h₂ _).mpr (hholds.rules _ hshared)

/-- A planned host lies in the tree of the root folder. -/
theorem root_isPrefix_of_mem_hostPlan {p : Placed} (hp : p ∈ hostPlan run.1 run.2) :
    run.1.root <+: p.2.1 := by
  rw [hostPlan, List.mem_append, List.mem_cons] at hp
  rcases hp with hp | rfl | hp
  · obtain ⟨row, -, rfl⟩ := List.mem_map.mp hp
    exact List.prefix_append _ _
  · exact List.prefix_rfl
  · obtain ⟨row, -, rfl⟩ := List.mem_map.mp hp
    exact List.prefix_append _ _

/-- A host of the other estate is in a folder of that estate. -/
theorem Holds.folder (hholds : Holds other s) {name : Text}
    (hname : name ∈ estateNames other.1 other.2) :
    ∃ config, s.hosts.get name = some config ∧ other.1.root <+: config.folder := by
  obtain ⟨p, hp, rfl⟩ := List.mem_map.mp (mem_hostPlan.mpr hname)
  obtain ⟨config, hget, hfolder⟩ := hholds.hosts p hp
  exact ⟨config, hget, hfolder ▸ root_isPrefix_of_mem_hostPlan hp⟩

/-- The hosts of the other estate stay as they were. -/
theorem CreateRun.hosts_other (hapart : Apart run other) (hholds : Holds other s)
    (h : CreateRun run.1 run.2 s t) {name : Text} (hname : name ∈ estateNames other.1 other.2) :
    t.hosts.get name = s.hosts.get name := by
  have hnot : name ∉ estateNames run.1 run.2 := hapart.hosts name hname
  have hsame : (hostPlan run.1 run.2).foldl ensurePlaced s.hosts.get name = s.hosts.get name :=
    foldl_ensurePlaced_of_notMem fun hmem => hnot (mem_hostPlan.mp hmem)
  rw [h.hosts, if_neg, hsame]
  rintro ⟨-, config, hget, hin⟩
  obtain ⟨config', hget', hother⟩ := hholds.folder hname
  obtain rfl : config = config' := Option.some.inj (hget.symm.trans hget')
  rw [inSubtree, Bool.and_eq_true, List.isPrefixOf_iff_prefix] at hin
  exact hapart.not_both hin.2 hother

/-- The folders of the other estate stay as they were. -/
theorem CreateRun.folders_other (hapart : Apart run other) (hholds : Holds other s)
    (h : CreateRun run.1 run.2 s t) {f : Ident} (hf : other.1.root <+: f) :
    f ∈ t.folders ↔ f ∈ s.folders := by
  obtain ⟨s₁, hroot, hfolders⟩ := h.folders
  have hroles : ¬ ∃ row ∈ estateRows run.1 run.2, f ∈ row.role.folders run.1.root := by
    rintro ⟨row, -, hmem⟩
    exact hapart.not_both (prefix_of_mem_chainFolders hmem).1 hf
  rw [hfolders, or_iff_left hroles]
  rcases runs_ensureFolder hroot with ⟨-, rfl⟩ | ⟨name, -, -, -, rfl⟩
  · rfl
  · -- the new folder is in the site root, so it could only be the root folder that is there
    rw [Site.addFolder, List.mem_append, List.mem_singleton, or_iff_left_iff_imp]
    rintro rfl
    have hne : other.1.root ≠ [] := fun heq => hapart.below (heq ▸ List.nil_prefix)
    have hroot : other.1.root = [name] := by
      rcases List.prefix_cons_iff.mp hf with hnil | ⟨rest, hcons, hrest⟩
      · exact absurd hnil hne
      · rw [hcons, List.prefix_nil.mp hrest]
    rw [List.nil_append, ← hroot]
    exact hholds.root.resolve_left hne

/-- A run of the setup leaves the other estate alone unless it replaces a rule for its stored
walks. -/
theorem unchanged_setup_iff (hapart : Apart run other) (hholds : Holds other s)
    (h : (setup digest run.1).Runs (Serves run.2) s u t) :
    Unchanged other s t ↔ ¬ ReplacesWalk run other digest s := by
  rcases runs_setup h with ⟨hnot, rfl⟩ | ⟨hyes, hreconfigure⟩
  · constructor
    · exact fun _ hreplaces => hnot hreplaces.1
    · exact fun _ => ⟨fun _ _ => rfl, fun _ _ => Iff.rfl, keeps_of_eq rfl, fun _ _ => rfl⟩
  · obtain ⟨s', hcreate, hfolders, hrules, hbi, hhosts⟩ := runs_reconfigure hreconfigure
    have hkeeps : Keeps (OfOther other) s t ↔ ¬ ReplacesWalk run other digest s := by
      rw [(keeps_of_eq (P := OfOther other) hrules).trans_iff, hcreate.keeps_iff hapart hholds]
      simp only [ReplacesWalk, hyes, true_and]
      push Not
      rfl
    rw [← hkeeps]
    constructor
    · exact Unchanged.rules
    · intro hall
      refine ⟨fun name hname => ?_, fun f hf => ?_, hall, fun b hb => ?_⟩
      · have hne : name ≠ run.2.delivery.host := fun heq =>
          hapart.hosts name hname (heq ▸ List.mem_cons_self)
        rw [hhosts, Function.update_of_ne hne, hcreate.hosts_other hapart hholds hname]
      · rw [hfolders, hcreate.folders_other hapart hholds hf]
      · rw [hbi, hcreate.bi]
        cases hget : s.bi.get b.1 with
        | none => exact absurd hget (hholds.bi b hb)
        | some body => rfl

end Setup

/-! ## A removal beside another estate -/

section Teardown

variable {run other : Args × Panels} {s t : Site} {u : Unit} {digest : Canon → Text}

/-- The pack of the other estate is deleted. -/
theorem not_unchanged_teardown (hholds : Holds other s)
    (h : (teardown run.1).Runs (Serves run.2) s u t) : ¬ Unchanged other s t := by
  intro hsame
  obtain ⟨-, -, -, hbi⟩ := runs_teardown h
  have hpack : ((.pack, biPackId), .pack biPackTitle) ∈ plannedBi other.1 other.2 :=
    List.mem_cons_self
  have hdeleted := hbi (.pack, biPackId)
  rw [if_pos (mem_biObjects.mpr (Or.inr (Or.inr (Or.inr rfl)))), hsame.bi _ hpack] at hdeleted
  exact hholds.bi _ hpack hdeleted

theorem Own.folder_or {delivery : Text} {root : Ident} {r : Rule} (h : Own delivery root r) :
    r.folder = [] ∨ r.folder = root := by
  cases h with
  | port | usewalk | bi => exact Or.inl rfl
  | snmpPort | datasource | residual => exact Or.inr rfl

/-- The rules of an estate name no hosts but its own. -/
theorem OfOther.hosts_subset {r : Rule} (hr : OfOther other r) :
    r.hosts ⊆ estateNames other.1 other.2 := by
  rw [OfOther, plannedRules] at hr
  simp only [List.mem_append, List.mem_singleton] at hr
  rcases hr with (((hr | hr) | hr) | hr) | rfl
  · unfold deviceRules at hr
    obtain ⟨info, hinfo, rfl⟩ := Option.map_eq_some_iff.mp (Option.mem_toList.mp hr)
    unfold accessRule
    split
    · exact List.nil_subset _
    · intro name hname
      have hcreated : name ∈ createdFqdns info := mem_sorted.mp hname
      refine List.mem_append_right _ ?_
      rw [deployedFqdns, hinfo]
      exact hcreated
  · unfold residualRules at hr
    split at hr
    · exact absurd hr List.not_mem_nil
    · rw [List.mem_singleton.mp hr]
      exact List.nil_subset _
  · unfold portRules at hr
    split at hr
    · rw [List.mem_singleton.mp hr]
      exact List.cons_subset.mpr ⟨List.mem_cons_self, List.nil_subset _⟩
    · exact absurd hr List.not_mem_nil
  · unfold sourceRules at hr
    split at hr
    · rw [List.mem_singleton.mp hr]
      exact List.nil_subset _
    · exact absurd hr List.not_mem_nil
  · exact List.cons_subset.mpr ⟨List.mem_cons_self, List.nil_subset _⟩

/-- A removal does not take a rule of the other estate for its own. -/
theorem OfOther.not_removable {r : Rule} (hr : OfOther other r) (hapart : Apart run other)
    (hnames : ∀ name ∈ estateNames other.1 other.2, name ∉ removalNames run.2) :
    ¬ Removable run.1.root (removalNames run.2) r := by
  rintro ⟨-, hremovable⟩
  have hhosts : ¬ (r.hosts ≠ [] ∧ ∀ h ∈ r.hosts, h ∈ removalNames run.2) := by
    rintro ⟨hne, hall⟩
    obtain ⟨name, hname⟩ := List.exists_mem_of_ne_nil _ hne
    exact hnames name (hr.hosts_subset hname) (hall name hname)
  have htool := ruleset_of_mem_plannedRules hr
  simp only [toolRulesets, List.mem_cons, List.not_mem_nil, or_false] at htool
  rcases htool with h | h | h | h | h | h <;> rw [h] at hremovable
  · exact hr.folder_ne hapart (by simp [h]) hremovable
  · exact hhosts hremovable
  · exact hr.folder_ne hapart (by simp [h]) hremovable
  · exact hhosts hremovable
  · exact hr.folder_ne hapart (by simp [h]) hremovable
  · exact hhosts hremovable

theorem OfOther.not_under {r : Rule} (hr : OfOther other r) (hapart : Apart run other) :
    ¬ Under run.1.root r.folder := by
  rintro ⟨hne, hunder⟩
  rcases (own_of_mem_plannedRules hr).folder_or with hnil | hroot
  · rw [hnil] at hunder
    exact hne (List.prefix_nil.mp hunder)
  · exact hapart.above (hroot ▸ hunder)

/-- The hosts, the folders and the rules of the other estate survive a removal, where the panels
name none of its hosts. -/
theorem teardown_keeps (hapart : Apart run other) (hholds : Holds other s)
    (hnames : ∀ name ∈ estateNames other.1 other.2, name ∉ removalNames run.2)
    (h : (teardown run.1).Runs (Serves run.2) s u t) :
    (∀ name ∈ estateNames other.1 other.2, t.hosts.get name = s.hosts.get name) ∧
      (∀ f, other.1.root <+: f → (f ∈ t.folders ↔ f ∈ s.folders)) ∧
      Keeps (OfOther other) s t := by
  obtain ⟨hfolders, hhosts, hrules, -⟩ := runs_teardown h
  refine ⟨fun name hname => ?_, fun f hf => ?_, fun k r hr => ?_⟩
  · obtain ⟨config, hget, hfolder⟩ := hholds.folder hname
    rw [hget, hhosts]
    exact ⟨hget, hnames name hname, fun hunder => hapart.not_both hunder.2 hfolder⟩
  · rw [hfolders, and_iff_left]
    exact fun hunder => hapart.not_both hunder.2 hf
  · rw [hrules, and_iff_left]
    exact ⟨hr.not_removable hapart hnames, hr.not_under hapart⟩

end Teardown

/-- A flow for one estate leaves the other one alone exactly if it is the setup and does not
replace a rule for stored walks. -/
theorem unchanged_iff {run other : Args × Panels} {s t : Site} {digest : Canon → Text} {flow : Flow}
    (hapart : Apart run other) (hholds : Holds other s)
    (h : (flow.program digest run.1).Runs (Serves run.2) s () t) :
    Unchanged other s t ↔ flow = .setup ∧ ¬ ReplacesWalk run other digest s := by
  cases flow with
  | setup =>
      rw [and_iff_right rfl]
      exact unchanged_setup_iff hapart hholds h
  | teardown =>
      constructor
      · exact fun hsame => absurd hsame (not_unchanged_teardown hholds h)
      · exact fun hno => nomatch hno.1

/-! ## Two estates with stored walks -/

/-- An estate that was set up on an empty site is there, with all its objects. -/
theorem holds_alone {other : Args × Panels} {s : Site} {digest : Canon → Text}
    (h : (setup digest other.1).Runs (Serves other.2) Site.empty () s) : Holds other s where
  root := by
    rcases runs_setup h with ⟨hnot, -⟩ | ⟨-, hrun⟩
    · exact absurd reconfigures_empty hnot
    · obtain ⟨s', hcreate, hfolders, -⟩ := runs_reconfigure hrun
      rw [Site.HasFolder, hfolders]
      exact hcreate.hasRoot rfl
  hosts p hp := ⟨_, get_alone h hp, rfl⟩
  rules _ := (hasRule_alone h).mpr
  bi b hb := by
    rw [bi_alone h, Ne, Dict.find_eq_none_iff, not_not]
    exact List.mem_map_of_mem hb

/-- The core and the access switch, rendered to stored walks. -/
def walkPanels : Panels :=
  bareShellWith { coreAndAccess with live := false } host_notMem_core

/-- The shell of another estate, with a core switch rendered to stored walks. -/
def shopPanels : Panels where
  delivery :=
    { host := "gateway.shop".toList, domain := "shop".toList, carried := []
      names_nodup := List.nodup_nil, named := fun _ h => absurd h List.not_mem_nil }
  netsim := some
    { domain := "shop".toList
      devices := Dict.ofRows [("sw-core-01".toList,
        ⟨"sw-core-01.shop".toList, none, none, none, "healthy".toList, false⟩)]
      live := false
      snmpPort := none
      named := by decide +kernel }
  shell_notMem := List.not_mem_nil
  shell_ne_device := by decide +kernel
  disjoint := fun _ _ _ h => absurd h List.not_mem_nil

/-- The arguments of the other estate, in a folder of its own. -/
def shopArgs : Args :=
  { demoArgs with folder := "shop".toList }

theorem apart_shop : Apart (shopArgs, shopPanels) (demoArgs, walkPanels) where
  hosts := by decide +kernel
  above := by decide +kernel
  below := by decide +kernel

/-- The second estate is set up after the first one; the rule for the stored walks of the first
one is then gone. -/
theorem exists_runs_shop : ∃ s t,
    (setup modeDigest demoArgs).Runs (Serves walkPanels) Site.empty () s ∧
      (setup modeDigest shopArgs).Runs (Serves shopPanels) s () t ∧
      ¬ t.HasRule (usewalkRule (createdFqdns { coreAndAccess with live := false })) := by
  obtain ⟨⟨_, t⟩, hboth, hfound⟩ := Option.map_eq_some_iff.mp (by decide +kernel :
    (((setup modeDigest demoArgs).run (serve walkPanels true) Site.empty).bind fun r =>
      (setup modeDigest shopArgs).run (serve shopPanels true) r.2).map (fun r =>
        decide (usewalkRule (createdFqdns { coreAndAccess with live := false }) ∈
          r.2.rules.entries.map Prod.snd)) = some false)
  obtain ⟨⟨_, s⟩, hfirst, hsecond⟩ := Option.bind_eq_some_iff.mp hboth
  refine ⟨s, t, runs_of_serve hfirst, runs_of_serve hsecond, ?_⟩
  rw [← mem_rules_iff]
  exact of_decide_eq_false hfound

theorem unchanged_iff_shop : ∃ s t,
    (Flow.setup.program modeDigest shopArgs).Runs (Serves shopPanels) s () t ∧
      (Unchanged (demoArgs, walkPanels) s t ↔ Flow.setup = .setup ∧
        ¬ ReplacesWalk (shopArgs, shopPanels) (demoArgs, walkPanels) modeDigest s) := by
  obtain ⟨s, t, hfirst, hsecond, -⟩ := exists_runs_shop
  exact ⟨s, t, hsecond, unchanged_iff apart_shop (holds_alone hfirst) hsecond⟩

/-- The second setup deletes the rule for the stored walks of the first estate. -/
theorem not_unchanged_shop :
    ¬ ∀ (flow : Flow) (digest : Canon → Text) (run other : Args × Panels) (s t : Site),
      Apart run other → Holds other s →
      (flow.program digest run.1).Runs (Serves run.2) s () t → Unchanged other s t := by
  intro hclaim
  obtain ⟨s, t, hfirst, hsecond, hgone⟩ := exists_runs_shop
  have hholds : Holds (demoArgs, walkPanels) s := holds_alone hfirst
  have hsame := hclaim .setup modeDigest (shopArgs, shopPanels) (demoArgs, walkPanels) s t
    apart_shop hholds hsecond
  have hplanned : OfOther (demoArgs, walkPanels)
      (usewalkRule (createdFqdns { coreAndAccess with live := false })) :=
    mem_plannedRules_iff.mpr (Or.inl (List.mem_append_left _ List.mem_cons_self))
  obtain ⟨ident, hget⟩ := hholds.rules _ hplanned
  exact hgone ⟨ident, (hsame.rules ident _ hplanned).mpr hget⟩

end Deploy
end DemoEstate
