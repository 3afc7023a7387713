import DemoEstate.Deploy.Effects

/-!
# The business aggregation over a history of rosters

The business objects are created where they are missing and never changed, so that what a
site has depends on the first roster that had a leaf.

Main results:

- Theorem {lit}`find_biPlan_tier`: a planned tier rule lists exactly the leaves on hosts of
  the estate.
- Theorem {lit}`sameObjects_iff`: after two rosters the objects are those of the second alone
  exactly if the first one has no leaf at all, or both have the same leaves.
-/

namespace DemoEstate
namespace Deploy

open Interaction
open Interaction.Program

/-! ## The planned objects -/

theorem idents_nodup : (biTopRuleId :: tiers.map Tier.ident).Nodup := by
  decide +kernel

theorem ident_ne_top {tier : Tier} (h : tier ∈ tiers) : tier.ident ≠ biTopRuleId := by
  rintro heq
  exact (List.nodup_cons.mp idents_nodup).1 (heq ▸ List.mem_map_of_mem h)

theorem mem_biObjects {k : BiId} :
    k ∈ biObjects ↔ k = (.aggregation, biAggrId) ∨ k = (.rule, biTopRuleId) ∨
      (∃ tier ∈ tiers, k = (.rule, tier.ident)) ∨ k = (.pack, biPackId) := by
  simp [biObjects, eq_comm]

section Plan

variable {fqdns fqdns' : Dict Text Text} {ts : List Tier} {tier : Tier}

/-- The entry of a tier among the planned objects. -/
def tierEntry (fqdns : Dict Text Text) (tier : Tier) : BiId × BiBody :=
  ((.rule, tier.ident), tier.body fqdns)

theorem find_tierEntries_eq_none {ident : Text} (h : ident ∉ ts.map Tier.ident) :
    Dict.find ((presentTiers fqdns ts).map (tierEntry fqdns)) (.rule, ident) = none := by
  rw [Dict.find_eq_none_iff, List.map_map, List.mem_map]
  rintro ⟨tier, htier, heq⟩
  have hident : tier.ident = ident := (Prod.mk.inj heq).2
  exact h (List.mem_map.mpr ⟨tier, (List.mem_filter.mp htier).1, hident⟩)

theorem find_tierEntries (hnodup : (ts.map Tier.ident).Nodup) (htier : tier ∈ ts) :
    Dict.find ((presentTiers fqdns ts).map (tierEntry fqdns)) (.rule, tier.ident) =
      if tier.nodes fqdns = [] then none else some (tier.body fqdns) := by
  induction ts with
  | nil => exact absurd htier List.not_mem_nil
  | cons first ts ih =>
      rw [List.map_cons, List.nodup_cons] at hnodup
      rcases List.mem_cons.mp htier with rfl | htier
      · by_cases hnodes : tier.nodes fqdns = []
        · have hskip : presentTiers fqdns (tier :: ts) = presentTiers fqdns ts := by
            simp [presentTiers, hnodes]
          rw [if_pos hnodes, hskip, find_tierEntries_eq_none hnodup.1]
        · have hkeep : presentTiers fqdns (tier :: ts) = tier :: presentTiers fqdns ts := by
            simp [presentTiers, hnodes]
          rw [if_neg hnodes, hkeep]
          simp [Dict.find, tierEntry]
      · have hne : first.ident ≠ tier.ident := fun heq =>
          hnodup.1 (heq ▸ List.mem_map_of_mem htier)
        rw [← ih hnodup.2 htier]
        by_cases hnodes : first.nodes fqdns = []
        · simp [presentTiers, hnodes]
        · simp [presentTiers, hnodes, Dict.find, tierEntry, hne]

theorem biPlan_eq (fqdns : Dict Text Text) :
    biPlan fqdns = [((.pack, biPackId), .pack biPackTitle)] ++
      ((presentTiers fqdns tiers).map (tierEntry fqdns) ++
        if tierCalls fqdns tiers = [] then []
        else [((.rule, biTopRuleId), topRule (tierCalls fqdns tiers)),
          ((.aggregation, biAggrId), aggregation)]) :=
  rfl

theorem find_biPlan_pack :
    Dict.find (biPlan fqdns) (.pack, biPackId) = some (.pack biPackTitle) := by
  simp [biPlan, Dict.find]

/-- A tier rule is planned exactly if it has a leaf, and then with its leaves. -/
theorem find_biPlan_tier (htier : tier ∈ tiers) :
    Dict.find (biPlan fqdns) (.rule, tier.ident) =
      if tier.nodes fqdns = [] then none else some (tier.body fqdns) := by
  rw [biPlan_eq, Dict.find_append, Dict.find_append,
    find_tierEntries (List.nodup_cons.mp idents_nodup).2 htier]
  have htop := Ne.symm (ident_ne_top htier)
  by_cases hnodes : tier.nodes fqdns = []
  · rw [if_pos hnodes]
    split <;> simp [Dict.find, htop]
  · simp [if_neg hnodes, Dict.find]

/-- The top rule is planned exactly if some tier is called, and then it calls those tiers. -/
theorem find_biPlan_top :
    Dict.find (biPlan fqdns) (.rule, biTopRuleId) =
      if tierCalls fqdns tiers = [] then none
      else some (topRule (tierCalls fqdns tiers)) := by
  rw [biPlan_eq, Dict.find_append, Dict.find_append,
    find_tierEntries_eq_none (List.nodup_cons.mp idents_nodup).1]
  split <;> simp [Dict.find]

theorem find_biPlan_aggregation :
    Dict.find (biPlan fqdns) (.aggregation, biAggrId) =
      if tierCalls fqdns tiers = [] then none else some aggregation := by
  have hrules : Dict.find ((presentTiers fqdns tiers).map (tierEntry fqdns))
      (.aggregation, biAggrId) = none := by
    rw [Dict.find_eq_none_iff, List.map_map, List.mem_map]
    rintro ⟨tier, -, heq⟩
    exact absurd (Prod.mk.inj heq).1 (by decide)
  rw [biPlan_eq, Dict.find_append, Dict.find_append, hrules]
  split <;> simp [Dict.find]

theorem call_mem_tierCalls (htier : tier ∈ tiers) :
    .call tier.ident ∈ tierCalls fqdns tiers ↔ tier.nodes fqdns ≠ [] := by
  simp only [tierCalls, presentTiers, List.mem_map, List.mem_filter, decide_eq_true_eq]
  constructor
  · rintro ⟨tier', ⟨htier', hnodes⟩, heq⟩
    have hident : tier'.ident = tier.ident := BiNode.call.inj heq
    have hsame : tier' = tier :=
      List.inj_on_of_nodup_map (List.nodup_cons.mp idents_nodup).2 htier' htier hident
    exact hsame ▸ hnodes
  · intro hnodes
    exact ⟨tier, ⟨htier, hnodes⟩, rfl⟩

theorem tierCalls_eq_nil_iff :
    tierCalls fqdns tiers = [] ↔ ∀ tier ∈ tiers, tier.nodes fqdns = [] := by
  simp [tierCalls, presentTiers, List.filter_eq_nil_iff]

/-! ## Leaves -/

/-- No leaf of a tier is on a host of the estate. -/
def NoLeaf (fqdns : Dict Text Text) : Prop :=
  ∀ tier ∈ tiers, ∀ leaf ∈ tier.leaves, fqdns.get leaf.1 = none

/-- Two estates have the same leaf hosts. -/
def LeavesAgree (fqdns fqdns' : Dict Text Text) : Prop :=
  ∀ tier ∈ tiers, ∀ leaf ∈ tier.leaves, fqdns.get leaf.1 = fqdns'.get leaf.1

theorem nodes_eq_nil_iff :
    tier.nodes fqdns = [] ↔ ∀ leaf ∈ tier.leaves, fqdns.get leaf.1 = none := by
  simp [Tier.nodes, List.filterMap_eq_nil_iff]

/-- The nodes of a tier tell its leaf hosts: no two hosts of a tier have the same number of
leaves. -/
theorem leaves_of_nodes_eq (htier : tier ∈ tiers) (h : tier.nodes fqdns = tier.nodes fqdns') :
    ∀ leaf ∈ tier.leaves, fqdns.get leaf.1 = fqdns'.get leaf.1 := by
  simp only [tiers, List.mem_cons, List.not_mem_nil, or_false] at htier
  rcases htier with rfl | rfl | rfl | rfl | rfl | rfl
  case inr.inr.inr.inl =>
    generalize ha : "app-worker-01".toList = a at h ⊢
    generalize hb : "app-redis-01".toList = b at h ⊢
    simp only [Tier.nodes, List.filterMap_cons, List.filterMap_nil] at h
    cases hfa : fqdns.get a <;> cases hfa' : fqdns'.get a <;> cases hfb : fqdns.get b <;>
      cases hfb' : fqdns'.get b <;> simp_all
  case inr.inr.inr.inr.inl =>
    generalize ha : "db-postgres-01".toList = a at h ⊢
    generalize hb : "db-postgres-02".toList = b at h ⊢
    simp only [Tier.nodes, List.filterMap_cons, List.filterMap_nil] at h
    cases hfa : fqdns.get a <;> cases hfa' : fqdns'.get a <;> cases hfb : fqdns.get b <;>
      cases hfb' : fqdns'.get b <;> simp_all
  case inl =>
    generalize ha : "sw-core-01".toList = a at h ⊢
    simp only [Tier.nodes, List.filterMap_cons, List.filterMap_nil] at h
    cases hfa : fqdns.get a <;> cases hfa' : fqdns'.get a <;> simp_all
  case inr.inl =>
    generalize ha : "web-frontend-01".toList = a at h ⊢
    simp only [Tier.nodes, List.filterMap_cons, List.filterMap_nil] at h
    cases hfa : fqdns.get a <;> cases hfa' : fqdns'.get a <;> simp_all
  case inr.inr.inl =>
    generalize ha : "payment-api".toList = a at h ⊢
    simp only [Tier.nodes, List.filterMap_cons, List.filterMap_nil] at h
    cases hfa : fqdns.get a <;> cases hfa' : fqdns'.get a <;> simp_all
  case inr.inr.inr.inr.inr =>
    generalize ha : "fileserver-01".toList = a at h ⊢
    simp only [Tier.nodes, List.filterMap_cons, List.filterMap_nil] at h
    cases hfa : fqdns.get a <;> cases hfa' : fqdns'.get a <;> simp_all

/-- Estates with the same leaf hosts plan the same objects. -/
theorem biPlan_congr (h : LeavesAgree fqdns fqdns') : biPlan fqdns = biPlan fqdns' := by
  have hnodes : ∀ tier ∈ tiers, tier.nodes fqdns = tier.nodes fqdns' := fun tier htier =>
    List.filterMap_congr fun leaf hleaf => by rw [h tier htier leaf hleaf]
  have hpresent : presentTiers fqdns tiers = presentTiers fqdns' tiers :=
    List.filter_congr fun tier htier => by rw [hnodes tier htier]
  have hentries : (presentTiers fqdns' tiers).map (tierEntry fqdns) =
      (presentTiers fqdns' tiers).map (tierEntry fqdns') :=
    List.map_congr_left fun tier htier => by
      simp only [tierEntry, Tier.body, hnodes tier (List.mem_filter.mp htier).1]
  have hcalls : tierCalls fqdns tiers = tierCalls fqdns' tiers := by
    rw [tierCalls, hpresent, tierCalls]
  rw [biPlan_eq, biPlan_eq, hcalls, hpresent, hentries]

end Plan

/-! ## Two rosters one after the other -/

/-- No business object of the tool exists. -/
def NoObjects (s : Site) : Prop :=
  ∀ k ∈ biObjects, s.bi.get k = none

/-- The pack, the tier rules, the top rule and the aggregation are the same. -/
def SameObjects (s t : Site) : Prop :=
  ∀ k ∈ biObjects, s.bi.get k = t.bi.get k

section Converge

variable {fqdns fqdns' : Dict Text Text}

/-- What the first roster plans stays: it must not differ from what the second plans. -/
theorem plans_agree_iff :
    (∀ k ∈ biObjects, (Dict.find (biPlan fqdns) k).or (Dict.find (biPlan fqdns') k) =
        Dict.find (biPlan fqdns') k) ↔
      NoLeaf fqdns ∨ LeavesAgree fqdns fqdns' := by
  constructor
  · intro h
    by_cases hcalls : tierCalls fqdns tiers = []
    · exact Or.inl fun tier htier =>
        nodes_eq_nil_iff.mp (tierCalls_eq_nil_iff.mp hcalls tier htier)
    · right
      have htop := h (.rule, biTopRuleId) (mem_biObjects.mpr (Or.inr (Or.inl rfl)))
      rw [find_biPlan_top, find_biPlan_top, if_neg hcalls, Option.some_or] at htop
      have hsame : tierCalls fqdns tiers = tierCalls fqdns' tiers := by
        split at htop
        · exact nomatch htop
        · simpa [topRule] using htop
      intro tier htier
      apply leaves_of_nodes_eq htier
      have hmem : tier.nodes fqdns ≠ [] ↔ tier.nodes fqdns' ≠ [] := by
        rw [← call_mem_tierCalls htier, hsame, call_mem_tierCalls htier]
      have hrule := h (.rule, tier.ident)
        (mem_biObjects.mpr (Or.inr (Or.inr (Or.inl ⟨tier, htier, rfl⟩))))
      rw [find_biPlan_tier htier, find_biPlan_tier htier] at hrule
      by_cases hnodes : tier.nodes fqdns = []
      · rw [hnodes, not_ne_iff.mp fun hne => hmem.mpr hne hnodes]
      · rw [if_neg hnodes, if_neg (hmem.mp hnodes), Option.some_or, Option.some.injEq] at hrule
        simpa [Tier.body] using hrule
  · rintro (hnone | hagree) k hk
    · have hnodes : ∀ tier ∈ tiers, tier.nodes fqdns = [] := fun tier htier =>
        nodes_eq_nil_iff.mpr (hnone tier htier)
      have hcalls := tierCalls_eq_nil_iff.mpr hnodes
      rcases mem_biObjects.mp hk with rfl | rfl | ⟨tier, htier, rfl⟩ | rfl
      · rw [@find_biPlan_aggregation fqdns, if_pos hcalls, Option.none_or]
      · rw [@find_biPlan_top fqdns, if_pos hcalls, Option.none_or]
      · rw [@find_biPlan_tier fqdns _ htier, if_pos (hnodes tier htier), Option.none_or]
      · rw [find_biPlan_pack, find_biPlan_pack, Option.some_or]
    · rw [biPlan_congr hagree, Option.or_self]

/-- The objects after two rosters, and after the second alone. -/
theorem sameObjects_iff_plans {panels : Panels} {s s₁ t alone : Site} (hs : NoObjects s)
    (hfirst : (ensureBiPack fqdns).Runs (Serves panels) s () s₁)
    (hsecond : (ensureBiPack fqdns').Runs (Serves panels) s₁ () t)
    (halone : (ensureBiPack fqdns').Runs (Serves panels) Site.empty () alone) :
    SameObjects t alone ↔
      ∀ k ∈ biObjects, (Dict.find (biPlan fqdns) k).or (Dict.find (biPlan fqdns') k) =
        Dict.find (biPlan fqdns') k := by
  refine forall_congr' fun k => forall_congr' fun hk => ?_
  rw [runs_ensureBiPack hsecond, runs_ensureBiPack hfirst, runs_ensureBiPack halone, hs k hk,
    Option.none_or]
  simp only [Site.empty, Dict.get_empty, Option.none_or]

/-- Ensuring the pack for one roster and then for another leaves the objects of the second
alone exactly if the first roster has no leaf, or the two have the same leaf hosts. -/
theorem sameObjects_iff {panels : Panels} {s s₁ t alone : Site} (hs : NoObjects s)
    (hfirst : (ensureBiPack fqdns).Runs (Serves panels) s () s₁)
    (hsecond : (ensureBiPack fqdns').Runs (Serves panels) s₁ () t)
    (halone : (ensureBiPack fqdns').Runs (Serves panels) Site.empty () alone) :
    SameObjects t alone ↔ NoLeaf fqdns ∨ LeavesAgree fqdns fqdns' := by
  rw [sameObjects_iff_plans hs hfirst hsecond halone]
  exact plans_agree_iff

end Converge

/-! ## An estate that grows -/

/-- An estate with the host of the payment API only. -/
def paymentOnly : Dict Text Text :=
  Dict.ofRows [("payment-api".toList, "payment-api.demo".toList)]

/-- The same estate after a file server was added. -/
def withStorage : Dict Text Text :=
  paymentOnly.set "fileserver-01".toList "fileserver-01.demo".toList

theorem noObjects_empty : NoObjects Site.empty := fun _ _ => rfl

/-- The run for one roster, and the run for a second one on the site it leaves. -/
theorem exists_runs_twice (fqdns fqdns' : Dict Text Text)
    (h : (((ensureBiPack fqdns).run (serve bareShell true) Site.empty).bind fun r =>
      (ensureBiPack fqdns').run (serve bareShell true) r.2).isSome = true) :
    ∃ s₁ t, (ensureBiPack fqdns).Runs (Serves bareShell) Site.empty () s₁ ∧
      (ensureBiPack fqdns').Runs (Serves bareShell) s₁ () t := by
  rcases Option.isSome_iff_exists.mp h with ⟨⟨_, t⟩, hrun⟩
  rcases Option.bind_eq_some_iff.mp hrun with ⟨⟨_, s₁⟩, hfirst, hsecond⟩
  exact ⟨s₁, t, runs_of_serve hfirst, runs_of_serve hsecond⟩

theorem sameObjects_iff_paymentOnly :
    ∃ s₁ t alone, (ensureBiPack paymentOnly).Runs (Serves bareShell) Site.empty () s₁ ∧
      (ensureBiPack paymentOnly).Runs (Serves bareShell) s₁ () t ∧
      (ensureBiPack paymentOnly).Runs (Serves bareShell) Site.empty () alone ∧
      SameObjects t alone := by
  rcases exists_runs_twice paymentOnly paymentOnly (by decide +kernel) with
    ⟨s₁, t, hfirst, hsecond⟩
  exact ⟨s₁, t, s₁, hfirst, hsecond, hfirst,
    (sameObjects_iff noObjects_empty hfirst hsecond hfirst).mpr (Or.inr fun _ _ _ _ => rfl)⟩

/-- A file server that is added later stays out of the aggregation. -/
theorem not_sameObjects_withStorage :
    ¬ ∀ (fqdns fqdns' : Dict Text Text) (panels : Panels) (s s₁ t alone : Site),
      NoObjects s → (ensureBiPack fqdns).Runs (Serves panels) s () s₁ →
      (ensureBiPack fqdns').Runs (Serves panels) s₁ () t →
      (ensureBiPack fqdns').Runs (Serves panels) Site.empty () alone →
      SameObjects t alone := by
  intro hclaim
  rcases exists_runs_twice paymentOnly withStorage (by decide +kernel) with
    ⟨s₁, t, hfirst, hsecond⟩
  rcases exists_runs_twice withStorage withStorage (by decide +kernel) with ⟨alone, -, halone, -⟩
  have hsame := hclaim paymentOnly withStorage bareShell _ _ _ _ noObjects_empty hfirst hsecond
    halone
  rw [sameObjects_iff_plans noObjects_empty hfirst hsecond halone, plans_agree_iff] at hsame
  revert hsame
  unfold NoLeaf LeavesAgree
  decide +kernel

end Deploy
end DemoEstate
