import DemoEstate.Deploy.Isolation
import DemoEstate.Deploy.Undo

/-!
# A removal without the panel of the shell

Where the panel of the shell does not answer, a removal lists the hosts of the site and deletes
those in the tree of the root folder.  In the site root it deletes no host: the shell stays, with
its fingerprint, and the next setup takes the estate for deployed.

Main definitions:

- Definition {lit}`Unanswered`: the answers to the calls without the panel of the shell.
- Structure {lit}`Agree`: two sites with the same objects, under the same identifiers.

Main results:

- Theorem {lit}`runs_teardown_unanswered`: the site after such a removal.
- Theorem {lit}`agree_iff_offline`: when it leaves what a removal with the panels leaves.
- Theorem {lit}`reconfigures_iff_offline`: when the next setup reconfigures the site.
- Theorem {lit}`restored_iff_offline`: when it makes the business objects again.
-/

namespace DemoEstate
namespace Deploy

open Interaction
open Interaction.Program

/-- The answers to the calls while the panel of the shell is unreachable. -/
def Unanswered (panels : Panels) (s : Site) : (op : Request) → Ans op → Site → Prop
  | .deliveryPanel, ans, t => ans = none ∧ t = s
  | op, ans, t => Serves panels s op ans t

/-- A call to the site or to another panel than that of the shell. -/
def Elsewhere : Request → Prop
  | .deliveryPanel => False
  | _ => True

/-- The hosts that the removal deletes without the panels: those in the tree of the root. -/
def treeNames (args : Args) (s : Site) : List Text :=
  underRoot args.root s.hosts.entries

/-- Two sites with the same objects, under the same identifiers. -/
structure Agree (s t : Site) : Prop where
  folders : ∀ f, f ∈ t.folders ↔ f ∈ s.folders
  hosts : ∀ m config, t.hosts.get m = some config ↔ s.hosts.get m = some config
  rules : ∀ k r, t.rules.get k = some r ↔ s.rules.get k = some r
  bi : ∀ k, t.bi.get k = s.bi.get k

/-! ## The calls of a removal -/

section Calls

theorem elsewhere_die {α : Type} {error : Failure} : (die error : Setup α).Asks Elsewhere :=
  ⟨trivial, fun never => nomatch never⟩

theorem elsewhere_deleteRules (own : Rule → Bool) (marked : List (Nat × Rule)) :
    (deleteRules own marked).Asks Elsewhere := by
  induction marked with
  | nil => trivial
  | cons m marked ih =>
      unfold deleteRules
      split
      · exact asks_call trivial fun _ => ih
      · exact ih

theorem elsewhere_markedRules (ruleset : Ruleset) : (markedRules ruleset).Asks Elsewhere := by
  apply asks_call trivial
  intro answer
  cases answer with
  | error status => exact elsewhere_die
  | ok rules => trivial

theorem elsewhere_deleteOwn (ruleset : Ruleset) (own : Rule → Bool) :
    (deleteOwn ruleset own).Asks Elsewhere :=
  (elsewhere_markedRules ruleset).bind fun _ => elsewhere_deleteRules own _

theorem elsewhere_deleteBi (idents : List BiId) : (deleteBi idents).Asks Elsewhere := by
  induction idents with
  | nil => trivial
  | cons ident idents ih => exact asks_call trivial fun _ => ih

theorem elsewhere_deleteHosts (names : List Text) : (deleteHosts names).Asks Elsewhere := by
  induction names with
  | nil => trivial
  | cons name names ih => exact asks_call trivial fun _ => ih

theorem elsewhere_deleteRoot (root : Ident) : (deleteRoot root).Asks Elsewhere := by
  unfold deleteRoot
  split
  · trivial
  · exact asks_call trivial fun _ => trivial

theorem elsewhere_waitForActivation (run : Text) (n : Nat) :
    (waitForActivation run n).Asks Elsewhere := by
  induction n with
  | zero => trivial
  | succ n ih =>
      refine asks_call trivial fun before => ?_
      split
      · refine asks_call trivial fun status => ?_
        split
        · trivial
        · split
          · exact ih
          · exact elsewhere_die
      · trivial

theorem elsewhere_activate (forceForeign : Bool) : (activate forceForeign).Asks Elsewhere := by
  refine asks_call trivial fun started => ?_
  split
  · trivial
  · split
    · split
      · trivial
      · exact elsewhere_waitForActivation _ _
    · split
      · exact elsewhere_die
      · exact elsewhere_die

/-- Once the hosts are named, a removal does not ask the panel of the shell. -/
theorem elsewhere_removal (args : Args) (names : List Text) :
    (removal args names).Asks Elsewhere := by
  refine (elsewhere_deleteBi _).bind fun _ => ?_
  refine (elsewhere_deleteOwn _ _).bind fun _ => ?_
  refine (elsewhere_deleteOwn _ _).bind fun _ => ?_
  refine (elsewhere_deleteOwn _ _).bind fun _ => ?_
  refine (elsewhere_deleteOwn _ _).bind fun _ => ?_
  refine Asks.bind ?_ fun _ => ?_
  · exact (elsewhere_deleteOwn _ _).bind fun _ => elsewhere_deleteOwn _ _
  refine (elsewhere_deleteHosts _).bind fun _ => ?_
  refine (elsewhere_deleteOwn _ _).bind fun _ => ?_
  exact (elsewhere_deleteRoot _).bind fun _ => elsewhere_activate _

end Calls

/-! ## What the removal leaves -/

section Offline

variable {args : Args} {panels : Panels} {s t after online : Site} {u : Unit}
  {digest : Canon → Text}

theorem mem_treeNames {m : Text} :
    m ∈ treeNames args s ↔
      ∃ config, s.hosts.get m = some config ∧ Under args.root config.folder := by
  rw [treeNames, mem_underRoot]
  simp only [inSubtree, Under, Bool.and_eq_true, decide_eq_true_eq, List.isPrefixOf_iff_prefix]

theorem runs_teardownNames_unanswered {names : List Text}
    (h : (teardownNames args).Runs (Unanswered panels) s names t) :
    names = treeNames args s ∧ t = s := by
  rcases runs_call.mp h with ⟨answer, s₁, ⟨rfl, rfl⟩, hnames⟩
  rcases runs_call.mp hnames with ⟨hosts, s₂, ⟨rfl, rfl⟩, hlast⟩
  exact ⟨hlast.1, hlast.2⟩

/-- The site after a removal without the panel of the shell. -/
theorem runs_teardown_unanswered (h : (teardown args).Runs (Unanswered panels) s u t) :
    (∀ f, f ∈ t.folders ↔ f ∈ s.folders ∧ ¬ Under args.root f) ∧
      (∀ m config, t.hosts.get m = some config ↔
        s.hosts.get m = some config ∧ ¬ Under args.root config.folder) ∧
      (∀ k r, t.rules.get k = some r ↔
        s.rules.get k = some r ∧ ¬ Removable args.root (treeNames args s) r ∧
          ¬ Under args.root r.folder) ∧
      ∀ k, t.bi.get k = if k ∈ biObjects then none else s.bi.get k := by
  rcases runs_bind.mp h with ⟨names, s₁, hnames, hrest⟩
  rcases runs_teardownNames_unanswered hnames with ⟨rfl, rfl⟩
  have hserved : (removal args (treeNames args s₁)).Runs (Serves panels) s₁ u t := by
    apply (elsewhere_removal _ _).runs_mono ?_ hrest
    intro s op ans t hop hstep
    cases op with
    | deliveryPanel => exact absurd hop id
    | _ => exact hstep
  rcases runs_removal hserved with ⟨hfolders, hhosts, hrules, hbi⟩
  refine ⟨hfolders, fun m config => ?_, hrules, hbi⟩
  rw [hhosts]
  constructor
  · rintro ⟨hget, -, hnot⟩
    exact ⟨hget, hnot⟩
  · rintro ⟨hget, hnot⟩
    refine ⟨hget, fun hmem => ?_, hnot⟩
    rcases mem_treeNames.mp hmem with ⟨config', hget', hunder⟩
    rw [hget, Option.some.injEq] at hget'
    exact hnot (hget' ▸ hunder)

/-- The estate of a run on a site without it: its hosts, in the tree of the root folder. -/
theorem inTree_of_setup (hnone : NoEstate args panels s)
    (hsetup : (setup digest args).Runs (Serves panels) s u t) {m : Text}
    (hm : m ∈ estateNames args panels) :
    ∃ config, t.hosts.get m = some config ∧ args.root <+: config.folder := by
  rcases runs_setup hsetup with ⟨hnot, -⟩ | ⟨-, hrun⟩
  · exact absurd (reconfigures_of_new (hnone.hosts _ List.mem_cons_self)) hnot
  rcases runs_reconfigure hrun with ⟨s', hcreate, -, -, -, hhosts⟩
  rcases List.mem_map.mp (mem_hostPlan.mpr hm) with ⟨p, hp, rfl⟩
  have hget : s'.hosts.get p.1 = some ⟨p.2.1, p.2.2, Dict.empty⟩ := by
    rw [hcreate.hosts_of_mem hm, foldl_ensurePlaced_of_mem (nodup_hostPlan args panels) hp,
      hnone.hosts _ hm]
    rfl
  have hroot : args.root <+: p.2.1 := @root_isPrefix_of_mem_hostPlan (args, panels) p hp
  rw [hhosts]
  by_cases hshell : p.1 = panels.delivery.host
  · rw [hshell, Function.update_self, ← hshell, hget]
    exact ⟨_, rfl, hroot⟩
  · rw [Function.update_of_ne hshell, hget]
    exact ⟨_, rfl, hroot⟩

/-- A host that is not of the estate is as before, unless the run pruned it. -/
theorem foreign_of_setup (hnew : s.hosts.get panels.delivery.host = none)
    (hsetup : (setup digest args).Runs (Serves panels) s u t) {m : Text}
    (hm : m ∉ estateNames args panels) {config : HostConfig} :
    t.hosts.get m = some config ↔
      s.hosts.get m = some config ∧ ¬ Under args.root config.folder := by
  rcases runs_setup hsetup with ⟨hnot, -⟩ | ⟨-, hrun⟩
  · exact absurd (reconfigures_of_new hnew) hnot
  rcases runs_reconfigure hrun with ⟨s', hcreate, -, -, -, hhosts⟩
  have hne : m ≠ panels.delivery.host := fun heq => hm (heq ▸ List.mem_cons_self)
  have hplan : (hostPlan args panels).foldl ensurePlaced s.hosts.get m = s.hosts.get m :=
    foldl_ensurePlaced_of_notMem fun hmem => hm (mem_hostPlan.mp hmem)
  have hpruned : (m ∉ estateNames args panels ∧ ∃ config, s.hosts.get m = some config ∧
      inSubtree config.folder args.root = true) ↔ m ∈ treeNames args s := by
    rw [treeNames, mem_underRoot, and_iff_right hm]
  rw [hhosts, Function.update_of_ne hne, hcreate.hosts, hplan, if_congr hpruned rfl rfl]
  split
  · rename_i hmem
    rcases mem_treeNames.mp hmem with ⟨config', hget', hunder⟩
    constructor
    · intro hfalse
      exact absurd hfalse (by simp)
    · rintro ⟨hget, hnot⟩
      rw [hget, Option.some.injEq] at hget'
      exact absurd (hget' ▸ hunder) hnot
  · rename_i hmem
    constructor
    · intro hget
      exact ⟨hget, fun hunder => hmem (mem_treeNames.mpr ⟨config, hget, hunder⟩)⟩
    · exact fun h => h.1

theorem shell_mem_estateNames : panels.delivery.host ∈ estateNames args panels :=
  List.mem_cons_self

/-- Whether a rule is removed does not depend on the hosts named, as long as the estate's are
among them and the rule is new with the estate. -/
theorem removable_congr (hnone : NoEstate args panels s) {r : Rule}
    (hr : s.HasRule r ∨ r ∈ plannedRules args panels) {names names' : List Text}
    (hnames : estateNames args panels ⊆ names) (hnames' : estateNames args panels ⊆ names') :
    Removable args.root names r ↔ Removable args.root names' r := by
  unfold Removable
  refine and_congr_right fun hdescription => ?_
  have hhosts : r.ruleset ∈ toolRulesets → r.hosts ⊆ estateNames args panels := by
    intro hruleset
    rcases hr with hold | hplanned
    · exact absurd hdescription (marked_eq_nil_iff.mp (hnone.rules _ hruleset) r hold rfl)
    · have hother : OfOther (args, panels) r := hplanned
      exact hother.hosts_subset
  cases hruleset : r.ruleset with
  | usewalkHosts | specialAgentsBi | agentPorts =>
      have hsubset := hhosts (hruleset ▸ by decide)
      exact and_congr_right fun _ => iff_of_true (fun m hm => hnames (hsubset hm))
        fun m hm => hnames' (hsubset hm)
  | _ => exact Iff.rfl

/-- The estate has a root folder of its own, and no host that the panels name lies outside. -/
def NamesInTree (args : Args) (panels : Panels) (s : Site) : Prop :=
  args.root ≠ [] ∧ ∀ m ∈ removalNames panels, ∀ config, s.hosts.get m = some config →
    args.root <+: config.folder

/-- A removal without the panel of the shell leaves what one with the panels leaves exactly if
the panels name no host outside the tree of the root folder. -/
theorem agree_iff_offline (hnone : NoEstate args panels s)
    (hsetup : (setup digest args).Runs (Serves panels) s () t)
    (honline : (teardown args).Runs (Serves panels) t () online)
    (hoffline : (teardown args).Runs (Unanswered panels) t () after) :
    Agree online after ↔ NamesInTree args panels s := by
  rcases runs_teardown honline with ⟨hfolders, hhosts, hrules, hbi⟩
  rcases runs_teardown_unanswered hoffline with ⟨hfolders', hhosts', hrules', hbi'⟩
  have hnew := hnone.hosts _ shell_mem_estateNames
  have hnamed : estateNames args panels ⊆ removalNames panels := estateNames_subset_removalNames
  constructor
  · intro hagree
    -- a host that the panels name is in the tree, for the one removal deletes it
    have hdeleted : ∀ m ∈ removalNames panels, ∀ config, t.hosts.get m = some config →
        Under args.root config.folder := by
      intro m hm config hget
      by_contra hnot
      have hkept := (hhosts' m config).mpr ⟨hget, hnot⟩
      exact ((hhosts m config).mp ((hagree.hosts m config).mp hkept)).2.1 hm
    rcases inTree_of_setup hnone hsetup shell_mem_estateNames with ⟨config, hget, -⟩
    refine ⟨(hdeleted _ host_mem_removalNames _ hget).1, fun m hm config hget => ?_⟩
    have hother : m ∉ estateNames args panels := fun hmem => by
      rw [hnone.hosts m hmem] at hget
      exact absurd hget (by simp)
    by_contra hnot
    have hkept := (foreign_of_setup hnew hsetup hother).mpr ⟨hget, fun hunder => hnot hunder.2⟩
    exact hnot (hdeleted m hm config hkept).2
  · rintro ⟨hroot, htree⟩
    have htreeNames : estateNames args panels ⊆ treeNames args t := by
      intro m hm
      rcases inTree_of_setup hnone hsetup hm with ⟨config, hget, hprefix⟩
      exact mem_treeNames.mpr ⟨config, hget, hroot, hprefix⟩
    refine ⟨fun f => ?_, fun m config => ?_, fun k r => ?_, fun k => ?_⟩
    · rw [hfolders', hfolders]
    · rw [hhosts', hhosts]
      refine and_congr_right fun hget => (and_iff_right_of_imp fun hnot hm => hnot ?_).symm
      by_cases hmem : m ∈ estateNames args panels
      · rcases inTree_of_setup hnone hsetup hmem with ⟨config', hget', hprefix⟩
        rw [hget, Option.some.injEq] at hget'
        exact ⟨hroot, hget' ▸ hprefix⟩
      · exact ⟨hroot, htree m hm config ((foreign_of_setup hnew hsetup hmem).mp hget).1⟩
    · rw [hrules', hrules]
      refine and_congr_right fun hget => and_congr_left fun _ => not_congr ?_
      apply removable_congr hnone ?_ htreeNames hnamed
      rcases runs_setup hsetup with ⟨hnot, -⟩ | ⟨-, hrun⟩
      · exact absurd (reconfigures_of_new hnew) hnot
      rcases runs_reconfigure hrun with ⟨s', hcreate, -, hsame, -⟩
      exact hcreate.addsRules.upper r ⟨k, hsame ▸ hget⟩
    · rw [hbi', hbi]

/-- The answers of {lit}`serve`, but for the panel of the shell. -/
def unanswered (panels : Panels) : Handler Site Request Ans
  | s, .deliveryPanel => some (none, s)
  | s, op => serve panels true s op

theorem runs_of_unanswered {p : Setup Unit} (h : p.run (unanswered panels) s = some (u, t)) :
    p.Runs (Unanswered panels) s u t := by
  apply (runs_of_run h).mono
  intro s op ans t hans
  cases op with
  | deliveryPanel =>
      cases hans
      exact ⟨rfl, rfl⟩
  | _ =>
      have hserve : serve panels true s _ = some (ans, t) := hans
      exact serves_of_serve hserve

theorem agree_iff_offline_core : ∃ t online after,
    (setup modeDigest demoArgs).Runs (Serves corePanels) Site.empty () t ∧
      (teardown demoArgs).Runs (Serves corePanels) t () online ∧
      (teardown demoArgs).Runs (Unanswered corePanels) t () after ∧
      (Agree online after ↔ NamesInTree demoArgs corePanels Site.empty) := by
  have hrun : (((setup modeDigest demoArgs).run (serve corePanels true) Site.empty).bind fun r =>
      ((teardown demoArgs).run (serve corePanels true) r.2).bind fun _ =>
        (teardown demoArgs).run (unanswered corePanels) r.2).isSome = true := by
    decide +kernel
  rcases Option.isSome_iff_exists.mp hrun with ⟨⟨_, after⟩, hall⟩
  rcases Option.bind_eq_some_iff.mp hall with ⟨⟨_, t⟩, hsetup, hboth⟩
  rcases Option.bind_eq_some_iff.mp hboth with ⟨⟨_, online⟩, honline, hoffline⟩
  have hrun₁ := runs_of_serve hsetup
  have hrun₂ := runs_of_serve honline
  have hrun₃ := runs_of_unanswered hoffline
  exact ⟨t, online, after, hrun₁, hrun₂, hrun₃,
    agree_iff_offline noEstate_empty hrun₁ hrun₂ hrun₃⟩

/-- In the site root the shell survives a removal without its panel, with its fingerprint. -/
theorem storedFingerprint_offline (hnone : NoEstate args panels s)
    (hsetup : (setup digest args).Runs (Serves panels) s () t)
    (hoffline : (teardown args).Runs (Unanswered panels) t () after) (hroot : args.root = []) :
    storedFingerprint after panels.delivery.host = some (fingerprintOf args panels digest) := by
  rcases runs_teardown_unanswered hoffline with ⟨-, hhosts, -⟩
  rcases runs_setup hsetup with ⟨hnot, -⟩ | ⟨-, hrun⟩
  · exact absurd (reconfigures_of_new (hnone.hosts _ shell_mem_estateNames)) hnot
  rcases inTree_of_setup hnone hsetup shell_mem_estateNames with ⟨config, hget, -⟩
  have hkept := (hhosts _ config).mpr ⟨hget, fun hunder => hunder.1 hroot⟩
  rcases runs_reconfigure hrun with ⟨s', -, -, -, -, hset⟩
  rw [hset, Function.update_self, Option.map_eq_some_iff] at hget
  rcases hget with ⟨config', -, rfl⟩
  rw [storedFingerprint, hkept, Option.bind_some, Dict.get_set_self]

/-- After a removal without the panel of the shell the next setup reconfigures the site exactly
if it is forced to, or the estate has a root folder of its own. -/
theorem reconfigures_iff_offline (hnone : NoEstate args panels s)
    (hsetup : (setup digest args).Runs (Serves panels) s () t)
    (hoffline : (teardown args).Runs (Unanswered panels) t () after) :
    Reconfigures args panels digest after ↔ args.force = true ∨ args.root ≠ [] := by
  refine or_congr_right ?_
  constructor
  · intro hother hroot
    exact hother (storedFingerprint_offline hnone hsetup hoffline hroot)
  · intro hroot
    rcases inTree_of_setup hnone hsetup shell_mem_estateNames with ⟨config, hget, hprefix⟩
    rcases runs_teardown_unanswered hoffline with ⟨-, hhosts, -⟩
    have hgone : after.hosts.get panels.delivery.host = none := by
      by_contra hsome
      rcases Option.ne_none_iff_exists'.mp hsome with ⟨config', hkept⟩
      rcases (hhosts _ config').mp hkept with ⟨hget', hnot⟩
      rw [hget, Option.some.injEq] at hget'
      exact hnot ⟨hroot, hget' ▸ hprefix⟩
    rw [hgone, Option.bind_none]
    exact (Option.some_ne_none _).symm

/-- A setup after a removal without the panel of the shell makes the business objects of the
estate again exactly if it is forced to, or the estate has a root folder of its own.  In the site
root it finds the fingerprint of the shell, and changes nothing unless it is forced to. -/
theorem restored_iff_offline (hnone : NoEstate args panels s)
    (hsetup : (setup digest args).Runs (Serves panels) s () t)
    (hoffline : (teardown args).Runs (Unanswered panels) t () after) {again : Site}
    (hagain : (setup digest args).Runs (Serves panels) after () again) :
    ((∀ k ∈ (plannedBi args panels).map Prod.fst, again.bi.get k ≠ none) ↔
        args.force = true ∨ args.root ≠ []) ∧
      (args.root = [] →
        storedFingerprint after panels.delivery.host = some (fingerprintOf args panels digest) ∧
          (args.force = false → again = after)) := by
  have hiff := reconfigures_iff_offline hnone hsetup hoffline
  constructor
  · rw [← hiff]
    rcases runs_setup hagain with ⟨hnot, rfl⟩ | ⟨hreconfigures, hrun⟩
    · refine iff_of_false (fun hall => ?_) hnot
      rcases runs_teardown_unanswered hoffline with ⟨-, -, -, hbi⟩
      apply hall (.pack, biPackId)
      · exact List.mem_cons_self
      · rw [hbi, if_pos (mem_biObjects.mpr (by simp))]
    · refine iff_of_true (fun k hk => ?_) hreconfigures
      rcases runs_reconfigure hrun with ⟨s', hcreate, -, -, hbi, -⟩
      rw [hbi, hcreate.bi]
      have hfind := mt Dict.find_eq_none_iff.mp (not_not.mpr hk)
      cases hold : after.bi.get k with
      | none => rwa [Option.none_or]
      | some body => simp
  · intro hroot
    refine ⟨storedFingerprint_offline hnone hsetup hoffline hroot, fun hforce => ?_⟩
    rcases runs_setup hagain with ⟨-, rfl⟩ | ⟨hreconfigures, -⟩
    · rfl
    · rcases hiff.mp hreconfigures with hforced | hother
      · exact absurd hforced (by simp [hforce])
      · exact absurd hroot hother

theorem restored_iff_offline_siteRoot : ∃ t after again,
    (setup modeDigest siteRootArgs).Runs (Serves corePanels) Site.empty () t ∧
      (teardown siteRootArgs).Runs (Unanswered corePanels) t () after ∧
      (setup modeDigest siteRootArgs).Runs (Serves corePanels) after () again ∧
      again = after ∧
        ¬ ∀ k ∈ (plannedBi siteRootArgs corePanels).map Prod.fst, again.bi.get k ≠ none := by
  have hrun : (((setup modeDigest siteRootArgs).run (serve corePanels true) Site.empty).bind
      fun r => ((teardown siteRootArgs).run (unanswered corePanels) r.2).bind fun r' =>
        (setup modeDigest siteRootArgs).run (serve corePanels true) r'.2).isSome = true := by
    decide +kernel
  rcases Option.isSome_iff_exists.mp hrun with ⟨⟨_, again⟩, hall⟩
  rcases Option.bind_eq_some_iff.mp hall with ⟨⟨_, t⟩, hsetup, hboth⟩
  rcases Option.bind_eq_some_iff.mp hboth with ⟨⟨_, after⟩, hoffline, hagain⟩
  have hrun₁ := runs_of_serve hsetup
  have hrun₂ := runs_of_unanswered hoffline
  have hrun₃ := runs_of_serve hagain
  have hroot : siteRootArgs.root = [] := by decide
  rcases restored_iff_offline noEstate_empty hrun₁ hrun₂ hrun₃ with ⟨hrestored, hkept⟩
  refine ⟨t, after, again, hrun₁, hrun₂, hrun₃, (hkept hroot).2 rfl, fun hall => ?_⟩
  rcases hrestored.mp hall with hforced | hother
  · cases hforced
  · exact hother hroot

end Offline

end Deploy
end DemoEstate
