import DemoEstate.Deploy.Undo

/-!
# One rule per owner

Complete runs of one estate in turn, with any changes of their configurations in between.  No
ruleset ever holds two marked rules.  The rules that a run wants are on the site afterwards,
unless the run takes the fast path: the fingerprint says nothing about the transport of the
devices and its port.

Main definitions:

- Definition {lit}`Only`: a rule that is the only marked one of its ruleset.
- Structure {lit}`Installs`: what a reconfiguration does to the marked rules.
- Structure {lit}`OneRuleEach`: the rules that a run should leave.

Main results:

- Theorem {lit}`installs_ensureRule`: making a rule exist, where only own rules are marked.
- Theorem {lit}`CreateRun.installs`: a reconfiguration installs the rules of its plan.
- Theorem {lit}`oneRuleEach_iff`: when a run leaves the rules it wants.
- Theorem {lit}`not_oneRuleEach_port`: a changed port of the devices.
-/

namespace DemoEstate
namespace Deploy

open Interaction
open Interaction.Program
open Transition

/-! ## Own rules -/

/-- The rules that runs of an estate make, by its shell and its root folder. -/
inductive Own (delivery : Text) (root : Ident) : Rule → Prop
  | port (port : ℤ) : Own delivery root (portRule delivery port)
  | usewalk (fqdns : List Text) : Own delivery root (usewalkRule fqdns)
  | snmpPort (port : ℤ) : Own delivery root (snmpPortRule root port)
  | datasource (dir : Text) : Own delivery root (datasourceRule root dir)
  | residual : Own delivery root (residualCurrentRule root)
  | bi : Own delivery root (biServiceRule delivery)

/-- In every ruleset of the tool at most one rule is marked, and it is an own one. -/
structure Tidy (delivery : Text) (root : Ident) (s : Site) : Prop where
  unique : ∀ ruleset ∈ toolRulesets, ∀ m ∈ s.marked ruleset, ∀ m' ∈ s.marked ruleset, m = m'
  own : ∀ ruleset ∈ toolRulesets, ∀ m ∈ s.marked ruleset, Own delivery root m.2

/-- The rule is the only marked one of its ruleset. -/
def Only (rule : Rule) (s : Site) : Prop :=
  ∃ ident, ∀ m, m ∈ s.marked rule.ruleset ↔ m = (ident, rule)

/-- The same rules of a ruleset are marked. -/
def SameMarked (ruleset : Ruleset) (s t : Site) : Prop :=
  ∀ m, m ∈ t.marked ruleset ↔ m ∈ s.marked ruleset

/-- The rules replace the marked ones of their rulesets, and the other rulesets stay. -/
structure Installs (rules : List Rule) (s t : Site) : Prop where
  only : ∀ r ∈ rules, Only r t
  frame : ∀ ruleset, ruleset ∉ rules.map Rule.ruleset → SameMarked ruleset s t

section Marked

variable {panels : Panels} {s s' t : Site} {u : Unit} {rule : Rule} {rules rules' : List Rule}
  {delivery : Text} {root : Ident}

/-- An own rule for the port of the devices lies in the root folder. -/
theorem Own.snmpPorts (h : Own delivery root rule) (hruleset : rule.ruleset = .snmpPorts) :
    ∃ port, rule = snmpPortRule root port := by
  cases h with
  | snmpPort port => exact ⟨port, rfl⟩
  | _ => cases hruleset

theorem Only.hasRule (h : Only rule s) : s.HasRule rule := by
  obtain ⟨ident, hall⟩ := h
  exact ⟨ident, (mem_marked.mp ((hall (ident, rule)).mpr rfl)).1⟩

theorem marked_of_rules_eq (h : t.rules = s.rules) (ruleset : Ruleset) :
    t.marked ruleset = s.marked ruleset := by
  rw [Site.marked, Site.marked, h]

theorem Only.congr (h : Only rule s) (hsame : SameMarked rule.ruleset s t) : Only rule t := by
  obtain ⟨ident, hall⟩ := h
  exact ⟨ident, fun m => (hsame m).trans (hall m)⟩

theorem installs_of_eq (h : t.rules = s.rules) : Installs [] s t where
  only _ hr := absurd hr List.not_mem_nil
  frame ruleset _ m := by rw [marked_of_rules_eq h]

theorem Installs.congr_left (h : Installs rules s' t) (heq : s'.rules = s.rules) :
    Installs rules s t where
  only := h.only
  frame ruleset hnot m := by rw [h.frame ruleset hnot m, marked_of_rules_eq heq]

theorem Tidy.congr (hs : Tidy delivery root s) (heq : t.rules = s.rules) :
    Tidy delivery root t where
  unique ruleset hruleset := by
    rw [marked_of_rules_eq heq]
    exact hs.unique ruleset hruleset
  own ruleset hruleset := by
    rw [marked_of_rules_eq heq]
    exact hs.own ruleset hruleset

/-- Installations in different rulesets compose. -/
theorem Installs.trans (h : Installs rules s s') (h' : Installs rules' s' t)
    (hnodup : ((rules ++ rules').map Rule.ruleset).Nodup) : Installs (rules ++ rules') s t where
  only := by
    intro r hr
    rw [List.map_append, List.nodup_append] at hnodup
    rcases List.mem_append.mp hr with hr | hr
    · apply (h.only r hr).congr
      apply h'.frame
      exact fun hmem => hnodup.2.2 _ (List.mem_map_of_mem hr) _ hmem rfl
    · exact h'.only r hr
  frame := by
    intro ruleset hnot m
    rw [List.map_append, List.mem_append, not_or] at hnot
    exact (h'.frame ruleset hnot.2 m).trans (h.frame ruleset hnot.1 m)

/-- After own rules are installed the site is still tidy. -/
theorem Installs.tidy (h : Installs rules s t) (hs : Tidy delivery root s)
    (hown : ∀ r ∈ rules, Own delivery root r) : Tidy delivery root t where
  unique := by
    intro ruleset hruleset m hm m' hm'
    by_cases hmem : ruleset ∈ rules.map Rule.ruleset
    · obtain ⟨r, hr, rfl⟩ := List.mem_map.mp hmem
      obtain ⟨ident, hall⟩ := h.only r hr
      rw [(hall m).mp hm, (hall m').mp hm']
    · exact hs.unique ruleset hruleset m ((h.frame ruleset hmem m).mp hm) m'
        ((h.frame ruleset hmem m').mp hm')
  own := by
    intro ruleset hruleset m hm
    by_cases hmem : ruleset ∈ rules.map Rule.ruleset
    · obtain ⟨r, hr, rfl⟩ := List.mem_map.mp hmem
      obtain ⟨ident, hall⟩ := h.only r hr
      rw [(hall m).mp hm]
      exact hown r hr
    · exact hs.own ruleset hruleset m ((h.frame ruleset hmem m).mp hm)

/-- A rule that is made to exist is installed, if the one that is kept is that rule and the
marked ones are gone otherwise. -/
theorem Replaced.installs {gone : List Nat} {kept : Prop} (h : Replaced gone kept rule s t)
    (hdescription : rule.description = description rule.ruleset)
    (hunique : ∀ m ∈ s.marked rule.ruleset, ∀ m' ∈ s.marked rule.ruleset, m = m')
    (hgone : ∀ k ∈ gone, ∃ r, (k, r) ∈ s.marked rule.ruleset)
    (hkept : kept → ∃ k, (k, rule) ∈ s.marked rule.ruleset ∧ k ∉ gone)
    (hrest : ¬ kept → ∀ m ∈ s.marked rule.ruleset, m.1 ∈ gone) : Installs [rule] s t where
  only := by
    intro r hr
    obtain rfl := List.mem_singleton.mp hr
    rcases h.rules with ⟨hyes, hrules⟩ | ⟨hno, ident, hfree, hrules⟩
    · obtain ⟨k, hk, hstays⟩ := hkept hyes
      use k
      rintro ⟨k', r'⟩
      constructor
      · intro hm
        have hold : (k', r') ∈ s.marked r.ruleset := by
          obtain ⟨hget, hruleset, hdesc⟩ := mem_marked.mp hm
          rw [hrules] at hget
          exact mem_marked.mpr ⟨by grind, hruleset, hdesc⟩
        exact hunique _ hold _ hk
      · intro heq
        rw [heq, mem_marked, hrules, if_neg hstays]
        exact mem_marked.mp hk
    · use ident
      rintro ⟨k', r'⟩
      constructor
      · intro hm
        obtain ⟨hget, hruleset, hdesc⟩ := mem_marked.mp hm
        rw [hrules] at hget
        by_cases hident : k' = ident
        · simp only [hident, if_true, Option.some.injEq] at hget
          rw [hident, ← hget]
        · -- the marked rules are gone, so no other one is left
          rw [if_neg hident] at hget
          by_cases hmem : k' ∈ gone
          · simp [hmem] at hget
          · rw [if_neg hmem] at hget
            exact absurd (hrest hno (k', r') (mem_marked.mpr ⟨hget, hruleset, hdesc⟩)) hmem
      · intro heq
        obtain ⟨rfl, rfl⟩ := Prod.mk.inj heq
        exact mem_marked.mpr ⟨by simp [hrules], rfl, hdescription⟩
  frame := by
    rintro ruleset hnot ⟨k, r⟩
    have hne : rule.ruleset ≠ ruleset := fun heq => hnot (by simp [heq])
    have hother : ∀ k' ∈ gone, ∀ r', s.rules.get k' = some r' → r'.ruleset ≠ ruleset := by
      intro k' hk' r' hget heq
      obtain ⟨r'', hr''⟩ := hgone k' hk'
      obtain ⟨hget'', hruleset, -⟩ := mem_marked.mp hr''
      rw [hget] at hget''
      exact hne (by rw [← hruleset, ← Option.some.inj hget'', heq])
    rw [mem_marked, mem_marked]
    constructor
    · rintro ⟨hget, hruleset, hdesc⟩
      refine ⟨?_, hruleset, hdesc⟩
      rcases h.rules with ⟨-, hrules⟩ | ⟨-, ident, -, hrules⟩
      · rw [hrules] at hget
        grind
      · rw [hrules] at hget
        grind
    · rintro ⟨hget, hruleset, hdesc⟩
      have hstays : k ∉ gone := fun hmem => hother k hmem r hget hruleset
      exact ⟨h.survives hget hstays, hruleset, hdesc⟩

theorem mem_stale_of_none_kept {own keep : Rule → Bool} {marked : List (Nat × Rule)}
    (hnone : ∀ m ∈ marked, own m.2 = true → keep m.2 = false) {m : Nat × Rule} (hm : m ∈ marked)
    (hown : own m.2 = true) : m.1 ∈ stale own keep marked := by
  induction marked with
  | nil => exact absurd hm List.not_mem_nil
  | cons head marked ih =>
      rcases head with ⟨ident, r⟩
      have hrest := fun h => ih (fun m hm => hnone m (List.mem_cons_of_mem _ hm)) h
      rw [stale]
      rcases List.mem_cons.mp hm with rfl | hm
      · rw [if_pos hown, if_neg (by simp [hnone _ hm hown])]
        exact List.mem_cons_self
      · split
        · rename_i hr
          rw [if_neg (by simp [hnone (ident, r) List.mem_cons_self hr])]
          exact List.mem_cons_of_mem _ (hrest hm)
        · exact hrest hm

/-- Making a rule exist installs it, where the function takes the own rules of the ruleset for
own and keeps none but the wanted one. -/
theorem installs_ensureRule {own keep : Rule → Bool} (hs : Tidy delivery root s)
    (hruleset : rule.ruleset ∈ toolRulesets)
    (hdescription : rule.description = description rule.ruleset)
    (hown : ∀ r, Own delivery root r → r.ruleset = rule.ruleset → own r = true)
    (hkeep : ∀ r, Own delivery root r → r.ruleset = rule.ruleset → keep r = true → r = rule)
    (h : (ensureRule own keep rule).Runs (Serves panels) s u t) : Installs [rule] s t := by
  have hunique := hs.unique _ hruleset
  apply (runs_ensureRule h).installs hdescription hunique
  · intro k hk
    obtain ⟨r, hr, -⟩ := own_of_mem_stale hk
    exact ⟨r, hr⟩
  · rintro ⟨⟨k, r⟩, hm, -, hkept⟩
    have hset := (mem_marked.mp hm).2.1
    obtain rfl := hkeep r (hs.own _ hruleset _ hm) hset hkept
    refine ⟨k, hm, fun hstale => ?_⟩
    obtain ⟨r', hr', -, hnot⟩ := own_of_mem_stale hstale
    obtain rfl := (Prod.mk.inj (hunique _ hm _ hr')).2
    rw [hkept] at hnot
    cases hnot
  · rintro hnone ⟨k, r⟩ hm
    have hall : ∀ m ∈ s.marked rule.ruleset, own m.2 = true → keep m.2 = false := by
      intro m hm hyes
      by_contra hkept
      exact hnone ⟨m, hm, hyes, by simpa using hkept⟩
    exact mem_stale_of_none_kept hall hm
      (hown r (hs.own _ hruleset _ hm) (mem_marked.mp hm).2.1)

theorem installs_ensureSnmpPortRule {port : ℤ} (hs : Tidy delivery root s)
    (h : (ensureSnmpPortRule root port).Runs (Serves panels) s u t) :
    Installs [snmpPortRule root port] s t := by
  have hruleset : Ruleset.snmpPorts ∈ toolRulesets := by simp [toolRulesets]
  have hunique := hs.unique _ hruleset
  have hform : ∀ m ∈ s.marked .snmpPorts, ∃ port', m.2 = snmpPortRule root port' := fun m hm =>
    (hs.own _ hruleset m hm).snmpPorts (mem_marked.mp hm).2.1
  apply (runs_ensureSnmpPortRule h).installs rfl hunique
  · intro k hk
    obtain ⟨r, hr, -⟩ := own_of_mem_staleSnmpPort hk
    exact ⟨r, hr⟩
  · rintro ⟨⟨k, r⟩, hfind, hvalue⟩
    have hm := List.mem_of_find?_eq_some hfind
    obtain ⟨port', rfl⟩ := hform _ hm
    obtain rfl : port' = port := RuleValue.number.inj hvalue
    refine ⟨k, hm, ?_⟩
    rw [staleSnmpPort, hfind]
    dsimp only
    rw [if_pos hvalue]
    exact List.not_mem_nil
  · rintro hnone ⟨k, r⟩ hm
    obtain ⟨port', rfl⟩ := hform _ hm
    cases hfind : (s.marked .snmpPorts).find? fun r => r.2.folder = root with
    | none =>
        have hno := List.find?_eq_none.mp hfind _ hm
        exact absurd (decide_eq_true rfl) hno
    | some r' =>
        obtain rfl := hunique _ (List.mem_of_find?_eq_some hfind) _ hm
        rw [staleSnmpPort, hfind]
        dsimp only
        rw [if_neg fun hvalue => hnone ⟨_, hfind, hvalue⟩]
        exact List.mem_singleton_self k

theorem sorted_sorted (names : List Text) : sorted (sorted names) = sorted names :=
  (List.pairwise_insertionSort _ _).insertionSort_eq

theorem installs_ensureUsewalkRule {fqdns : List Text} (hs : Tidy delivery root s)
    (h : (ensureUsewalkRule fqdns).Runs (Serves panels) s u t) :
    Installs [usewalkRule fqdns] s t := by
  apply installs_ensureRule hs (by simp [usewalkRule, toolRulesets]) rfl _ _ h
  · exact fun _ _ _ => rfl
  · intro r hr hruleset hkeep
    cases hr with
    | usewalk fqdns' =>
        have hsorted : sorted (sorted fqdns') = sorted fqdns := of_decide_eq_true hkeep
        rw [usewalkRule, usewalkRule, ← hsorted, sorted_sorted]
    | _ => cases hruleset

end Marked

/-! ## Installing the planned rules -/

section Planned

variable {args : Args} {panels : Panels} {s t : Site} {u : Unit}

theorem own_of_mem_deviceRules {r : Rule} (h : r ∈ deviceRules args panels) :
    Own panels.delivery.host args.root r := by
  unfold deviceRules at h
  obtain ⟨info, -, rfl⟩ := Option.map_eq_some_iff.mp (Option.mem_toList.mp h)
  unfold accessRule
  split
  · exact .snmpPort _
  · exact .usewalk _

theorem own_of_mem_residualRules {r : Rule} (h : r ∈ residualRules args) :
    Own panels.delivery.host args.root r := by
  unfold residualRules at h
  split at h
  · exact absurd h List.not_mem_nil
  · rw [List.mem_singleton.mp h]
    exact .residual

theorem own_of_mem_portRules {r : Rule} (h : r ∈ portRules args panels) :
    Own panels.delivery.host args.root r := by
  unfold portRules at h
  split at h
  · rw [List.mem_singleton.mp h]
    exact .port _
  · exact absurd h List.not_mem_nil

theorem own_of_mem_sourceRules {r : Rule} (h : r ∈ sourceRules args) :
    Own panels.delivery.host args.root r := by
  unfold sourceRules at h
  split at h
  · rw [List.mem_singleton.mp h]
    exact .datasource _
  · exact absurd h List.not_mem_nil

theorem installs_deployedAccess (hs : Tidy panels.delivery.host args.root s)
    (h : (deployedAccess args panels).Runs (Serves panels) s u t) :
    Installs (deviceRules args panels) s t := by
  unfold deployedAccess at h
  unfold deviceRules
  cases hinfo : deployedNetsim args panels with
  | none =>
      rw [hinfo] at h
      exact installs_of_eq (by rw [h.2])
  | some info =>
      rw [hinfo] at h
      change (ensureSnmpAccess args.root info).Runs (Serves panels) s u t at h
      change Installs [accessRule args info] s t
      unfold ensureSnmpAccess at h
      unfold accessRule
      split at h
      · rename_i hlive
        rw [if_pos hlive]
        exact installs_ensureSnmpPortRule hs h
      · rename_i hlive
        rw [if_neg hlive]
        exact installs_ensureUsewalkRule hs h

theorem installs_deployedResidual (hs : Tidy panels.delivery.host args.root s)
    (h : (deployedResidual args).Runs (Serves panels) s u t) :
    Installs (residualRules args) s t := by
  unfold deployedResidual at h
  unfold residualRules
  split at h
  · rename_i hoff
    rw [if_pos hoff]
    exact installs_of_eq (by rw [h.2])
  · rename_i hon
    rw [if_neg hon]
    apply installs_ensureRule hs (by simp [residualCurrentRule, toolRulesets]) rfl _ _ h
    · intro r hr hruleset
      cases hr with
      | residual => exact decide_eq_true rfl
      | _ => cases hruleset
    · intro r hr hruleset _
      cases hr with
      | residual => rfl
      | _ => cases hruleset

theorem installs_ensureAgentAccess (hs : Tidy panels.delivery.host args.root s)
    (h : (ensureAgentAccess args panels.delivery.host).Runs (Serves panels) s u t) :
    Installs (portRules args panels) s t := by
  unfold ensureAgentAccess at h
  unfold portRules
  split at h
  · rename_i hcloud
    rw [if_pos hcloud]
    apply installs_ensureRule hs (by simp [portRule, toolRulesets]) rfl _ _ h
    · intro r hr hruleset
      cases hr with
      | port => exact decide_eq_true rfl
      | _ => cases hruleset
    · intro r hr hruleset hkeep
      cases hr with
      | port port' =>
          obtain rfl : port' = args.agentPort := RuleValue.number.inj (of_decide_eq_true hkeep)
          rfl
      | _ => cases hruleset
  · rename_i hcloud
    rw [if_neg hcloud]
    exact installs_of_eq (by rw [h.2])

theorem installs_ensureAgentSource (hs : Tidy panels.delivery.host args.root s)
    (h : (ensureAgentSource args).Runs (Serves panels) s u t) :
    Installs (sourceRules args) s t := by
  unfold ensureAgentSource at h
  unfold sourceRules
  split at h
  · rename_i hself
    rw [if_pos hself]
    apply installs_ensureRule hs (by simp [datasourceRule, toolRulesets]) rfl _ _ h
    · intro r hr hruleset
      cases hr with
      | datasource => exact decide_eq_true rfl
      | _ => cases hruleset
    · intro r hr hruleset hkeep
      cases hr with
      | datasource dir =>
          have hcommand : datasourceCommand dir = datasourceCommand args.agentOutputDir :=
            RuleValue.quoted.inj (of_decide_eq_true hkeep)
          rw [datasourceRule, datasourceRule, hcommand]
      | _ => cases hruleset
  · rename_i hself
    rw [if_neg hself]
    exact installs_of_eq (by rw [h.2])

theorem installs_ensureBiServiceRule (hs : Tidy panels.delivery.host args.root s)
    (h : (ensureBiServiceRule panels.delivery.host).Runs (Serves panels) s u t) :
    Installs [biServiceRule panels.delivery.host] s t := by
  apply installs_ensureRule hs (by simp [biServiceRule, toolRulesets]) rfl _ _ h
  · intro r hr hruleset
    cases hr with
    | bi => exact decide_eq_true rfl
    | _ => cases hruleset
  · intro r hr hruleset _
    cases hr with
    | bi => rfl
    | _ => cases hruleset

theorem own_of_mem_plannedRules {r : Rule} (h : r ∈ plannedRules args panels) :
    Own panels.delivery.host args.root r := by
  simp only [plannedRules, List.mem_append, List.mem_singleton] at h
  rcases h with (((h | h) | h) | h) | rfl
  · exact own_of_mem_deviceRules h
  · exact own_of_mem_residualRules h
  · exact own_of_mem_portRules h
  · exact own_of_mem_sourceRules h
  · exact .bi

/-- No two planned rules are in the same ruleset. -/
theorem nodup_rulesets (args : Args) (panels : Panels) :
    ((plannedRules args panels).map Rule.ruleset).Nodup := by
  have hdevices : (deviceRules args panels).map Rule.ruleset = [] ∨
      (deviceRules args panels).map Rule.ruleset = [.snmpPorts] ∨
      (deviceRules args panels).map Rule.ruleset = [.usewalkHosts] := by
    unfold deviceRules
    cases deployedNetsim args panels with
    | none => exact Or.inl rfl
    | some info =>
        right
        rw [Option.map_some, Option.toList_some, List.map_singleton, accessRule]
        split
        · exact Or.inl rfl
        · exact Or.inr rfl
  unfold plannedRules residualRules portRules sourceRules
  simp only [List.map_append]
  rcases hdevices with h | h | h <;> rw [h] <;> split <;> split <;> split <;>
    simp [residualCurrentRule, portRule, datasourceRule, biServiceRule]

/-- A reconfiguration installs the rules of its plan. -/
theorem CreateRun.installs (h : CreateRun args panels s t)
    (hs : Tidy panels.delivery.host args.root s) : Installs (plannedRules args panels) s t := by
  rcases h.ruleSteps with ⟨s₂, s₃, s₄, s₅, s₆, s₈, s₉, s₁₀, h₂, hdeviceAccess, hresidual, h₅,
    haccess, h₈, hsource, h₁₀, hservice⟩
  -- no two parts share a ruleset
  have n₁₁ := nodup_rulesets args panels
  rw [plannedRules] at n₁₁ ⊢
  have n₉ := n₁₁.sublist ((List.sublist_append_left _ _).map _)
  have n₆ := n₉.sublist ((List.sublist_append_left _ _).map _)
  have n₄ := n₆.sublist ((List.sublist_append_left _ _).map _)
  have i₃ := installs_deployedAccess (hs.congr h₂) hdeviceAccess
  have t₃ := i₃.tidy (hs.congr h₂) fun _ => own_of_mem_deviceRules
  have i₄ := installs_deployedResidual t₃ hresidual
  have t₄ := i₄.tidy t₃ fun _ => own_of_mem_residualRules
  have i₆ := installs_ensureAgentAccess (t₄.congr h₅) haccess
  have t₆ := i₆.tidy (t₄.congr h₅) fun _ => own_of_mem_portRules
  have i₉ := installs_ensureAgentSource (t₆.congr h₈) hsource
  have t₉ := i₉.tidy (t₆.congr h₈) fun _ => own_of_mem_sourceRules
  have i₁₁ := installs_ensureBiServiceRule (t₉.congr h₁₀) hservice
  have a₄ := (i₃.congr_left h₂).trans i₄ n₄
  have a₆ := a₄.trans (i₆.congr_left h₅) n₆
  have a₉ := a₆.trans (i₉.congr_left h₈) n₉
  exact a₉.trans (i₁₁.congr_left h₁₀) n₁₁

end Planned

/-! ## Runs of one estate -/

/-- The run belongs to the estate with this shell and this root folder. -/
def OfEstate (delivery : Text) (root : Ident) (run : Args × Panels) : Prop :=
  run.2.delivery.host = delivery ∧ run.1.root = root

/-- A run of the setup that returns. -/
def CompleteRun (digest : Canon → Text) (s : Site) (run : Args × Panels) (t : Site) : Prop :=
  (setup digest run.1).Runs (Serves run.2) s () t

/-- The record of a configuration. -/
def canonOf (run : Args × Panels) : Canon :=
  canon run.1 run.2.delivery (deployedPlan run.1 run.2)

/-- No two of the configurations differ in their records but not in the digests of these. -/
def NoCollision (digest : Canon → Text) (runs : List (Args × Panels)) : Prop :=
  ∀ run ∈ runs, ∀ run' ∈ runs, digest (canonOf run) = digest (canonOf run') →
    canonOf run = canonOf run'

/-- In every ruleset of the tool at most one rule is marked, and the rules that the run wants
are there. -/
structure OneRuleEach (args : Args) (panels : Panels) (t : Site) : Prop where
  atMostOne : ∀ ruleset ∈ toolRulesets, ∀ m ∈ t.marked ruleset, ∀ m' ∈ t.marked ruleset, m = m'
  present : ∀ r ∈ plannedRules args panels, t.HasRule r

/-- The rules that the fingerprint of a configuration determines. -/
def fingerprintedRules (run : Args × Panels) : List Rule :=
  portRules run.1 run.2 ++ sourceRules run.1 ++ [biServiceRule run.2.delivery.host]

/-- The fingerprint stored on a host. -/
def storedFingerprint (s : Site) (host : Text) : Option Text :=
  (s.hosts.get host).bind fun h => h.labels.get fingerprintLabel

/-- The site is tidy, and either nothing is marked yet, or one of the runs has stored its
fingerprint and left the rules that this determines. -/
structure Configured (digest : Canon → Text) (runs : List (Args × Panels)) (delivery : Text)
    (root : Ident) (s : Site) : Prop where
  tidy : Tidy delivery root s
  stored : (∀ ruleset ∈ toolRulesets, s.marked ruleset = []) ∨
    ∃ run ∈ runs, storedFingerprint s delivery = some (fingerprintOf run.1 run.2 digest) ∧
      ∀ r ∈ fingerprintedRules run, s.HasRule r

section Estate

variable {digest : Canon → Text} {runs : List (Args × Panels)} {delivery : Text} {root : Ident}
  {s t : Site} {args : Args} {panels : Panels}

theorem fingerprintedRules_subset {r : Rule} (h : r ∈ fingerprintedRules (args, panels)) :
    r ∈ plannedRules args panels := by
  simp only [fingerprintedRules, plannedRules, List.mem_append] at *
  tauto

/-- The rules of the run are those its fingerprint determines, and those of the devices. -/
theorem mem_plannedRules_iff {r : Rule} :
    r ∈ plannedRules args panels ↔
      r ∈ deviceRules args panels ++ residualRules args ∨
        r ∈ fingerprintedRules (args, panels) := by
  simp only [fingerprintedRules, plannedRules, List.mem_append]
  tauto

/-- Configurations of one estate with one record have the same rules but those of the devices. -/
theorem fingerprintedRules_congr {run run' : Args × Panels} (hrun : OfEstate delivery root run)
    (hrun' : OfEstate delivery root run') (h : canonOf run = canonOf run') :
    fingerprintedRules run = fingerprintedRules run' := by
  have hmode : run.1.mode = run'.1.mode := congrArg Canon.mode h
  have hport : run.1.agentPort = run'.1.agentPort :=
    congrArg (fun canon => canon.delivery.2.2) h
  have hsource := congrArg Canon.datasource h
  simp only [canonOf, canon] at hsource
  rw [hmode] at hsource
  unfold fingerprintedRules portRules sourceRules
  rw [hmode, hport, hrun.1, hrun'.1, hrun.2, hrun'.2]
  by_cases hself : run'.1.mode = .selfHosted
  · rw [if_pos hself, if_pos hself, Option.some.injEq] at hsource
    rw [datasourceRule, datasourceRule, hsource]
  · rw [if_neg hself, if_neg hself]

theorem isSome_foldl_ensurePlaced {plan : List Placed} {hosts : Text → Option HostConfig}
    {name : Text} (h : name ∈ plan.map Prod.fst ∨ hosts name ≠ none) :
    plan.foldl ensurePlaced hosts name ≠ none := by
  induction plan generalizing hosts with
  | nil => exact h.resolve_left List.not_mem_nil
  | cons p plan ih =>
      rw [List.foldl_cons]
      apply ih
      by_cases hname : name = p.1
      · right
        rw [hname, ensurePlaced, Function.update_self]
        exact Option.some_ne_none _
      · rw [ensurePlaced, Function.update_of_ne hname]
        simpa [hname] using h

/-- A run that reconfigures installs its rules and stores its fingerprint. -/
theorem installs_reconfigure {fp : Text} (hs : Tidy panels.delivery.host args.root s)
    (h : (reconfigure args panels.delivery fp).Runs (Serves panels) s () t) :
    Installs (plannedRules args panels) s t ∧
      storedFingerprint t panels.delivery.host = some fp := by
  obtain ⟨s', hcreate, -, hrules, -, hhosts⟩ := runs_reconfigure h
  constructor
  · have hsame : Installs [] s' t := installs_of_eq hrules
    have hall := (hcreate.installs hs).trans hsame
      (by rw [List.append_nil]; exact nodup_rulesets args panels)
    rwa [List.append_nil] at hall
  · have hshell : s'.hosts.get panels.delivery.host ≠ none := by
      have hmem : panels.delivery.host ∈ estateNames args panels := List.mem_cons_self
      rw [hcreate.hosts_of_mem hmem]
      exact isSome_foldl_ensurePlaced (Or.inl (mem_hostPlan.mpr hmem))
    obtain ⟨config, hconfig⟩ := Option.ne_none_iff_exists'.mp hshell
    rw [storedFingerprint, hhosts, Function.update_self, hconfig, Option.map_some, Option.bind_some,
      Dict.get_set_self]

/-- A run that reconfigures leaves the rules that it wants. -/
theorem oneRuleEach_reconfigure {fp : Text} (hs : Tidy panels.delivery.host args.root s)
    (h : (reconfigure args panels.delivery fp).Runs (Serves panels) s () t) :
    OneRuleEach args panels t where
  atMostOne := ((installs_reconfigure hs h).1.tidy hs fun _ => own_of_mem_plannedRules).unique
  present r hr := ((installs_reconfigure hs h).1.only r hr).hasRule

/-- One run of the estate keeps the site configured. -/
theorem Configured.step {run : Args × Panels} (hs : Configured digest runs delivery root s)
    (hmem : run ∈ runs) (hrun : OfEstate delivery root run) (h : CompleteRun digest s run t) :
    Configured digest runs delivery root t := by
  rcases run with ⟨args, panels⟩
  obtain ⟨rfl, rfl⟩ := hrun
  rcases runs_setup h with ⟨-, rfl⟩ | ⟨-, hreconfigure⟩
  · exact hs
  · obtain ⟨hinstalls, hstored⟩ := installs_reconfigure hs.tidy hreconfigure
    constructor
    · exact hinstalls.tidy hs.tidy fun _ => own_of_mem_plannedRules
    · right
      refine ⟨(args, panels), hmem, hstored, fun r hr => ?_⟩
      exact (hinstalls.only r (fingerprintedRules_subset hr)).hasRule

/-- Any runs of the estate keep the site configured. -/
theorem Configured.run {labels : List (Args × Panels)} (hs : Configured digest runs delivery root s)
    (hlabels : ∀ run ∈ labels, run ∈ runs ∧ OfEstate delivery root run)
    (h : Run (CompleteRun digest) s labels t) : Configured digest runs delivery root t := by
  induction h with
  | nil => exact hs
  | cons head _ ih =>
      obtain ⟨hmem, hestate⟩ := hlabels _ List.mem_cons_self
      exact ih (hs.step hmem hestate head) fun run hrun => hlabels run (List.mem_cons_of_mem _ hrun)

theorem configured_of_unmarked (h : ∀ ruleset ∈ toolRulesets, s.marked ruleset = []) :
    Configured digest runs delivery root s where
  tidy :=
    { unique := fun ruleset hruleset m hm => absurd hm (by simp [h ruleset hruleset])
      own := fun ruleset hruleset m hm => absurd hm (by simp [h ruleset hruleset]) }
  stored := Or.inl h

theorem fingerprintOf_inj {run run' : Args × Panels}
    (h : fingerprintOf run.1 run.2 digest = fingerprintOf run'.1 run'.2 digest) :
    digest (canonOf run) = digest (canonOf run') :=
  List.append_cancel_left h

/-- After any complete runs of one estate on a site without marked rules, a run leaves one rule
each exactly if it reconfigures, or finds the site configured with the rules that it wants for
its devices. -/
theorem oneRuleEach_iff {earlier : List (Args × Panels)} {s₀ : Site}
    (hunmarked : ∀ ruleset ∈ toolRulesets, s₀.marked ruleset = [])
    (hestate : ∀ run ∈ earlier ++ [(args, panels)], OfEstate delivery root run)
    (hdigest : NoCollision digest (earlier ++ [(args, panels)]))
    (hearlier : Run (CompleteRun digest) s₀ earlier s)
    (hrun : CompleteRun digest s (args, panels) t) :
    OneRuleEach args panels t ↔
      Reconfigures args panels digest s ∨
        s.marked .specialAgentsBi ≠ [] ∧
          ∀ r ∈ deviceRules args panels ++ residualRules args, s.HasRule r := by
  have hlast : (args, panels) ∈ earlier ++ [(args, panels)] := by simp
  have hconfigured : Configured digest (earlier ++ [(args, panels)]) delivery root s :=
    (configured_of_unmarked hunmarked).run
      (fun run hmem => ⟨List.mem_append_left _ hmem, hestate run (List.mem_append_left _ hmem)⟩)
      hearlier
  obtain ⟨hdelivery, hroot⟩ := hestate _ hlast
  rcases runs_setup hrun with ⟨hfast, rfl⟩ | ⟨hyes, hreconfigure⟩
  · constructor
    · intro h
      right
      constructor
      · intro hnone
        have hbi := h.present (biServiceRule panels.delivery.host) (by simp [plannedRules])
        exact marked_eq_nil_iff.mp hnone _ hbi rfl rfl
      · exact fun r hr => h.present r (mem_plannedRules_iff.mpr (Or.inl hr))
    · intro h
      obtain ⟨hmarked, hdevices⟩ := h.resolve_left hfast
      constructor
      · exact hconfigured.tidy.unique
      · intro r hr
        rcases mem_plannedRules_iff.mp hr with hr | hr
        · exact hdevices r hr
        · -- the stored fingerprint is the one of this run, so the rules are those of that run
          rcases hconfigured.stored with hnone | ⟨run, hmem, hstored, hrules⟩
          · exact absurd (hnone _ (by simp [toolRulesets])) hmarked
          · have hsame : storedFingerprint t delivery = some (fingerprintOf args panels digest) := by
              by_contra hne
              exact hfast (Or.inr (hdelivery ▸ hne))
            rw [hstored, Option.some.injEq] at hsame
            have hequal : digest (canonOf run) = digest (canonOf (args, panels)) :=
              fingerprintOf_inj hsame
            have hcanon := hdigest run hmem _ hlast hequal
            rw [← fingerprintedRules_congr (hestate run hmem) (hestate _ hlast) hcanon] at hr
            exact hrules r hr
  · constructor
    · exact fun _ => Or.inl hyes
    · intro _
      have htidy : Tidy panels.delivery.host args.root s := by
        rw [hdelivery, hroot]
        exact hconfigured.tidy
      exact oneRuleEach_reconfigure htidy hreconfigure

end Estate

/-! ## A change of the port -/

/-- The core and the access switch behind a responder on the given port. -/
def corePanelsOn (port : ℤ) : Panels :=
  bareShellWith { coreAndAccess with snmpPort := some port } host_notMem_core

theorem ofEstate_core (port : ℤ) :
    OfEstate bareShell.delivery.host demoArgs.root (demoArgs, corePanelsOn port) :=
  ⟨rfl, rfl⟩

theorem noCollision_core (digest : Canon → Text) (port port' : ℤ) :
    NoCollision digest [(demoArgs, corePanelsOn port), (demoArgs, corePanelsOn port')] := by
  intro run hrun run' hrun' _
  simp only [List.mem_cons, List.not_mem_nil, or_false] at hrun hrun'
  rcases hrun with rfl | rfl <;> rcases hrun' with rfl | rfl <;> rfl

theorem unmarked_empty : ∀ ruleset ∈ toolRulesets, Site.empty.marked ruleset = [] :=
  fun _ _ => rfl

/-- Whether the rule for the second port is there after two runs with responders on the ports. -/
def ruleAfter (port port' : ℤ) : Option Bool :=
  (((setup modeDigest demoArgs).run (serve (corePanelsOn port) true) Site.empty).bind fun r =>
    (setup modeDigest demoArgs).run (serve (corePanelsOn port') true) r.2).map fun r =>
      r.2.rules.entries.any fun e => e.2 = snmpPortRule demoArgs.root port'

theorem exists_runs_ports {port port' : ℤ} {found : Bool} (h : ruleAfter port port' = some found) :
    ∃ s t, CompleteRun modeDigest Site.empty (demoArgs, corePanelsOn port) s ∧
      CompleteRun modeDigest s (demoArgs, corePanelsOn port') t ∧
      (t.HasRule (snmpPortRule demoArgs.root port') ↔ found = true) := by
  obtain ⟨⟨_, t⟩, hboth, hfound⟩ := Option.map_eq_some_iff.mp h
  obtain ⟨⟨_, s⟩, hfirst, hsecond⟩ := Option.bind_eq_some_iff.mp hboth
  refine ⟨s, t, runs_of_serve hfirst, runs_of_serve hsecond, ?_⟩
  rw [← hfound, List.any_eq_true]
  constructor
  · rintro ⟨ident, hget⟩
    exact ⟨_, Dict.get_eq_some_iff.mp hget, decide_eq_true rfl⟩
  · rintro ⟨⟨ident, r⟩, hmem, heq⟩
    exact ⟨ident, of_decide_eq_true heq ▸ Dict.get_eq_some_iff.mpr hmem⟩

theorem oneRuleEach_iff_core : ∃ s t,
    CompleteRun modeDigest s (demoArgs, corePanelsOn 1161) t ∧
      (OneRuleEach demoArgs (corePanelsOn 1161) t ↔
        Reconfigures demoArgs (corePanelsOn 1161) modeDigest s ∨
          s.marked .specialAgentsBi ≠ [] ∧
            ∀ r ∈ deviceRules demoArgs (corePanelsOn 1161) ++ residualRules demoArgs,
              s.HasRule r) := by
  have hboth : ruleAfter 1161 1161 = some true := by decide +kernel
  obtain ⟨s, t, hfirst, hsecond, -⟩ := exists_runs_ports hboth
  have hestate : ∀ run ∈ [(demoArgs, corePanelsOn 1161)] ++ [(demoArgs, corePanelsOn 1161)],
      OfEstate bareShell.delivery.host demoArgs.root run := by
    intro run hrun
    simp only [List.cons_append, List.nil_append, List.mem_cons, List.not_mem_nil, or_false,
      or_self] at hrun
    exact hrun ▸ ofEstate_core 1161
  exact ⟨s, t, hsecond, oneRuleEach_iff unmarked_empty hestate (noCollision_core _ _ _)
    (.cons hfirst (.nil s)) hsecond⟩

/-- A responder that moves to another port keeps its rule for the old one. -/
theorem not_oneRuleEach_port :
    ¬ ∀ (digest : Canon → Text) (delivery : Text) (root : Ident)
      (earlier : List (Args × Panels)) (args : Args) (panels : Panels) (s₀ s t : Site),
      (∀ ruleset ∈ toolRulesets, s₀.marked ruleset = []) →
      (∀ run ∈ earlier ++ [(args, panels)], OfEstate delivery root run) →
      NoCollision digest (earlier ++ [(args, panels)]) →
      Run (CompleteRun digest) s₀ earlier s → CompleteRun digest s (args, panels) t →
      OneRuleEach args panels t := by
  intro hclaim
  have hboth : ruleAfter 1161 1162 = some false := by decide +kernel
  obtain ⟨s, t, hfirst, hsecond, hrule⟩ := exists_runs_ports hboth
  have hone := hclaim modeDigest bareShell.delivery.host demoArgs.root
    [(demoArgs, corePanelsOn 1161)] demoArgs (corePanelsOn 1162) Site.empty s t unmarked_empty
    (by
      intro run hrun
      simp only [List.cons_append, List.nil_append, List.mem_cons, List.not_mem_nil,
        or_false] at hrun
      rcases hrun with rfl | rfl
      · exact ofEstate_core 1161
      · exact ofEstate_core 1162)
    (noCollision_core _ _ _) (.cons hfirst (.nil s)) hsecond
  have hmem : snmpPortRule demoArgs.root 1162 ∈ plannedRules demoArgs (corePanelsOn 1162) :=
    mem_plannedRules_iff.mpr (Or.inl (List.mem_append_left _ List.mem_cons_self))
  exact absurd (hrule.mp (hone.present _ hmem)) Bool.false_ne_true

end Deploy
end DemoEstate
