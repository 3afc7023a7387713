import DemoEstate.Deploy.Fingerprint

/-!
# Running the setup again

A run of the setup that repeats the one before it, forced or not, finds every object as it would
make it.  The rules are the delicate part: a run looks for the first of its own rules in the
listing, and another one behind it that is out of date comes first as soon as that is replaced.

Main definitions:

- Inductive {lit}`RuleStep`: the rules that a run makes exist, one after the other.
- Definition {lit}`Settled`: the first own rule of a listing is one to keep.
- Structure {lit}`SameSite`: two sites with the same objects.

Main results:

- Theorems {lit}`RuleStep.settled` and {lit}`RuleStep.rules_eq`: a step settles its ruleset, and
  leaves a settled one alone.
- Theorem {lit}`sameSite_of_rerun`: a repeated run leaves the site as it is.
-/

namespace DemoEstate
namespace Deploy

open Interaction
open Interaction.Program

/-! ## The rules of a listing -/

/-- The first own rule of a listing is one to keep. -/
def Settled (own keep : Rule → Bool) (marked : List (Nat × Rule)) : Prop :=
  ∃ r, marked.find? (fun r => own r.2) = some r ∧ keep r.2 = true

section Listings

variable {panels : Panels} {s t : Site} {u : Unit} {own keep : Rule → Bool} {rule : Rule}
  {ruleset : Ruleset} {marked : List (Nat × Rule)} {ident : Nat}

/-- A removed rule is missing from the listings. -/
theorem marked_dropRule (s : Site) (ident : Nat) (ruleset : Ruleset) :
    (s.dropRule ident).marked ruleset = (s.marked ruleset).filter fun r => r.1 ≠ ident := by
  simp only [Site.marked, Site.dropRule, Dict.erase, List.filter_filter]
  congr 1
  funext r
  simp only [Bool.and_comm, Bool.and_left_comm, Bool.and_assoc]

theorem assign_of_notMem {κ ν : Type} [DecidableEq κ] {es : List (κ × ν)} {k : κ} {v : ν}
    (h : k ∉ es.map Prod.fst) : Dict.assign es k v = es ++ [(k, v)] := by
  induction es with
  | nil => rfl
  | cons e es ih =>
      rcases e with ⟨k', v'⟩
      rw [List.map_cons, List.mem_cons, not_or] at h
      rw [Dict.assign, if_neg (Ne.symm h.1), ih h.2]
      rfl

/-- A new rule is at the end of the listing of its ruleset. -/
theorem marked_setRule (h : ident ∉ s.rules.keys) (ruleset : Ruleset) :
    (s.setRule ident rule).marked ruleset = s.marked ruleset ++
      if rule.ruleset = ruleset ∧ rule.description = description ruleset then [(ident, rule)]
      else [] := by
  simp only [Site.marked, Site.setRule, Dict.set, assign_of_notMem h, List.filter_append,
    List.filter_filter]
  congr 1
  by_cases hruleset : rule.ruleset = ruleset
  · by_cases hdescription : rule.description = description ruleset
    · simp [hruleset, hdescription]
    · simp [hruleset, hdescription]
  · simp [hruleset]

theorem nodup_marked (s : Site) (ruleset : Ruleset) :
    ((s.marked ruleset).map Prod.fst).Nodup :=
  s.rules.nodup.sublist ((List.filter_sublist.trans List.filter_sublist).map Prod.fst)

/-- Without the stale rules, the first own rule is one to keep, if there is one. -/
theorem find_without_stale (hnodup : (marked.map Prod.fst).Nodup) :
    Settled own keep (marked.filter fun r => r.1 ∉ stale own keep marked) ∨
      (marked.filter fun r => r.1 ∉ stale own keep marked).find? (fun r => own r.2) = none ∧
        ¬ ∃ r ∈ marked, own r.2 = true ∧ keep r.2 = true := by
  induction marked with
  | nil => exact Or.inr ⟨rfl, by simp⟩
  | cons head marked ih =>
      rcases head with ⟨ident, r⟩
      rw [List.map_cons, List.nodup_cons] at hnodup
      have hnew : ident ∉ stale own keep marked := by
        intro hmem
        rcases own_of_mem_stale hmem with ⟨r', hr', -⟩
        exact hnodup.1 (List.mem_map.mpr ⟨(ident, r'), hr', rfl⟩)
      have htail : (marked.filter fun r => r.1 ∉ ident :: stale own keep marked) =
          marked.filter fun r => r.1 ∉ stale own keep marked := by
        apply List.filter_congr
        intro r' hr'
        have hne : r'.1 ≠ ident := fun heq => hnodup.1 (List.mem_map.mpr ⟨r', hr', heq⟩)
        simp [hne]
      unfold stale
      by_cases hown : own r = true
      · by_cases hkeep : keep r = true
        · left
          refine ⟨(ident, r), ?_, hkeep⟩
          simp [hown, hkeep]
        · -- the head is removed, and the rest is as before
          rw [if_pos hown, if_neg hkeep, List.filter_cons_of_neg (by simp), htail]
          rcases ih hnodup.2 with hsettled | ⟨hnone, hno⟩
          · exact Or.inl hsettled
          · refine Or.inr ⟨hnone, ?_⟩
            rintro ⟨r', hr', hown', hkeep'⟩
            rcases List.mem_cons.mp hr' with rfl | hr'
            · exact hkeep hkeep'
            · exact hno ⟨r', hr', hown', hkeep'⟩
      · rw [if_neg hown, List.filter_cons_of_pos (by simpa using hnew)]
        rcases ih hnodup.2 with ⟨r', hfind, hkeep⟩ | ⟨hnone, hno⟩
        · left
          refine ⟨r', ?_, hkeep⟩
          rw [List.find?_cons_of_neg (by simpa using hown)]
          exact hfind
        · right
          refine ⟨?_, ?_⟩
          · rw [List.find?_cons_of_neg (by simpa using hown)]
            exact hnone
          · rintro ⟨r', hr', hown', hkeep'⟩
            rcases List.mem_cons.mp hr' with rfl | hr'
            · exact hown hown'
            · exact hno ⟨r', hr', hown', hkeep'⟩

/-- In a settled listing nothing is stale, and there is a rule to keep. -/
theorem Settled.stale_eq_nil (h : Settled own keep marked) :
    stale own keep marked = [] ∧ ∃ r ∈ marked, own r.2 = true ∧ keep r.2 = true := by
  rcases h with ⟨r, hfind, hkeep⟩
  refine ⟨?_, r, List.mem_of_find?_eq_some hfind, by simpa using List.find?_some hfind, hkeep⟩
  induction marked with
  | nil => rfl
  | cons head marked ih =>
      rcases head with ⟨ident, r'⟩
      unfold stale
      by_cases hown : own r' = true
      · rw [List.find?_cons_of_pos (by exact hown)] at hfind
        cases hfind
        rw [if_pos hown, if_pos hkeep]
      · rw [List.find?_cons_of_neg (by simpa using hown)] at hfind
        rw [if_neg hown]
        exact ih hfind

/-- Stale rules are missing from the listings afterwards. -/
theorem marked_replaceStale {found : Bool}
    (h : (replaceStale own keep marked).Runs (Serves panels) s found t) (ruleset : Ruleset) :
    t.marked ruleset = (s.marked ruleset).filter fun r => r.1 ∉ stale own keep marked := by
  induction marked generalizing s with
  | nil =>
      rcases h with ⟨-, rfl⟩
      simp [stale]
  | cons head marked ih =>
      rcases head with ⟨ident, r⟩
      unfold replaceStale at h
      unfold stale
      split at h
      · rename_i hown
        split at h
        · rename_i hkeep
          rcases h with ⟨-, rfl⟩
          simp [hown, hkeep]
        · rename_i hkeep
          rcases h with ⟨status, s₁, rfl, h⟩
          rw [ih h, marked_dropRule, if_pos hown, if_neg hkeep, List.filter_filter]
          apply List.filter_congr
          intro r' _
          simp [Bool.and_comm]
      · rename_i hown
        rw [ih h, if_neg hown]

/-- Where nothing is stale, nothing is removed. -/
theorem rules_of_replaceStale {found : Bool} (hnil : stale own keep marked = [])
    (h : (replaceStale own keep marked).Runs (Serves panels) s found t) : t.rules = s.rules := by
  induction marked generalizing s with
  | nil => rw [h.2]
  | cons head marked ih =>
      rcases head with ⟨ident, r⟩
      unfold replaceStale at h
      unfold stale at hnil
      split at h
      · rename_i hown
        rw [if_pos hown] at hnil
        split at h
        · rw [h.2]
        · rename_i hkeep
          rw [if_neg hkeep] at hnil
          cases hnil
      · rename_i hown
        rw [if_neg hown] at hnil
        exact ih hnil h

/-- A rule that is created is at the end of the listing of its ruleset. -/
theorem marked_createRule (h : (createRule rule).Runs (Serves panels) s u t) :
    ∃ ident, ∀ ruleset, t.marked ruleset = s.marked ruleset ++
      if rule.ruleset = ruleset ∧ rule.description = description ruleset then [(ident, rule)]
      else [] := by
  rcases h with ⟨status, s₁, hpost, h⟩
  rcases runs_expect.mp h with ⟨rfl, rfl⟩
  rcases hpost with ⟨ident, -, -, hfresh, rfl⟩ | ⟨hno, -⟩
  · exact ⟨ident, fun ruleset => marked_setRule hfresh ruleset⟩
  · exact absurd rfl hno

end Listings

/-! ## Making a rule exist, once and again -/

/-- A rule that a run makes exist: none, one that replaces all own rules that are out of date, or
the one for the port of the devices, which replaces a single one. -/
inductive RuleStep where
  | skip
  | ensure (own keep : Rule → Bool) (rule : Rule)
  | port (root : Ident) (port : ℤ)

namespace RuleStep

/-- What the step asks of the site. -/
def program : RuleStep → Setup Unit
  | .skip => pure ()
  | .ensure own keep rule => ensureRule own keep rule
  | .port root number => ensureSnmpPortRule root number

/-- The ruleset of the step. -/
def ruleset : RuleStep → Option Ruleset
  | .skip => none
  | .ensure _ _ rule => some rule.ruleset
  | .port _ _ => some .snmpPorts

/-- The new rule is an own one to keep, and is listed. -/
def Fits : RuleStep → Prop
  | .ensure own keep rule =>
      own rule = true ∧ keep rule = true ∧ rule.description = description rule.ruleset
  | _ => True

/-- A step that replaces a single rule finds a single one. -/
def Single (s : Site) : RuleStep → Prop
  | .port root _ => ∀ r ∈ s.marked .snmpPorts, r.2.folder = root →
      ∀ r' ∈ s.marked .snmpPorts, r'.2.folder = root → r = r'
  | _ => True

/-- The first own rule in the listing of the step is one to keep. -/
def SettledAt (s : Site) : RuleStep → Prop
  | .skip => True
  | .ensure own keep rule => Settled own keep (s.marked rule.ruleset)
  | .port root number =>
      Settled (fun r => r.folder = root) (fun r => r.value = .number number) (s.marked .snmpPorts)

section Steps

variable {panels : Panels} {s t : Site} {u : Unit} {step : RuleStep}

/-- What a step leaves of a listing, and what it adds to it. -/
theorem marked_of_runs (h : step.program.Runs (Serves panels) s u t) {ruleset : Ruleset}
    (hruleset : step.ruleset ≠ some ruleset) : t.marked ruleset = s.marked ruleset := by
  cases step with
  | skip =>
      rcases h with ⟨-, rfl⟩
      rfl
  | ensure own keep rule =>
      have hother : rule.ruleset ≠ ruleset := fun heq => hruleset (congrArg some heq)
      rcases (runs_bind (p := markedRules _)).mp h with ⟨marked, s₁, hmarked, h⟩
      rcases runs_markedRules hmarked with ⟨rfl, rfl⟩
      rcases runs_bind.mp h with ⟨found, s₂, hstale, h⟩
      have hkept : s₂.marked ruleset = s₁.marked ruleset := by
        rw [marked_replaceStale hstale, List.filter_eq_self]
        rintro ⟨ident, r⟩ hr
        have hnot : ident ∉ stale own keep (s₁.marked rule.ruleset) := by
          intro hmem
          rcases own_of_mem_stale hmem with ⟨r', hr', -⟩
          rcases mem_marked.mp hr with ⟨hget, hrs, -⟩
          rcases mem_marked.mp hr' with ⟨hget', hrs', -⟩
          obtain rfl : r = r' := Option.some.inj (hget.symm.trans hget')
          exact hother (hrs'.symm.trans hrs)
        simpa using hnot
      split at h
      · rw [h.2, hkept]
      · rcases marked_createRule h with ⟨ident, hnew⟩
        rw [hnew, hkept, if_neg (fun hall => hother hall.1), List.append_nil]
  | port root number =>
      have hother : Ruleset.snmpPorts ≠ ruleset := fun heq => hruleset (congrArg some heq)
      rcases (runs_bind (p := markedRules _)).mp h with ⟨marked, s₁, hmarked, h⟩
      rcases runs_markedRules hmarked with ⟨rfl, rfl⟩
      have hadds : ∀ {v : Site} {w : Unit},
          (createRule (snmpPortRule root number)).Runs (Serves panels) v w t →
            t.marked ruleset = v.marked ruleset := by
        intro v w hcreate
        rcases marked_createRule hcreate with ⟨ident, hnew⟩
        rw [hnew, if_neg (fun hall => hother hall.1), List.append_nil]
      split at h
      · exact hadds h
      · rename_i ident rule hfind
        split at h
        · rw [h.2]
        · rcases h with ⟨status, s₂, rfl, h⟩
          rw [hadds h, marked_dropRule, List.filter_eq_self]
          rintro ⟨ident', r⟩ hr
          rcases mem_marked.mp hr with ⟨hget, hrs, -⟩
          rcases mem_marked.mp (List.mem_of_find?_eq_some hfind) with ⟨hget', hrs', -⟩
          have hne : ident' ≠ ident := by
            rintro rfl
            obtain rfl : r = rule := Option.some.inj (hget.symm.trans hget')
            exact hother (hrs'.symm.trans hrs)
          simpa using hne

/-- A step settles its ruleset. -/
theorem settled (h : step.program.Runs (Serves panels) s u t) (hfits : step.Fits)
    (hsingle : step.Single s) : step.SettledAt t := by
  cases step with
  | skip => trivial
  | ensure own keep rule =>
      rcases hfits with ⟨hown, hkeep, hdescription⟩
      rcases (runs_bind (p := markedRules _)).mp h with ⟨marked, s₁, hmarked, h⟩
      rcases runs_markedRules hmarked with ⟨rfl, rfl⟩
      rcases runs_bind.mp h with ⟨found, s₂, hstale, h⟩
      have hfound := (runs_replaceStale hstale).1
      have hlist := marked_replaceStale hstale rule.ruleset
      have hcases : Settled own keep
          ((s₁.marked rule.ruleset).filter fun r => r.1 ∉ stale own keep (s₁.marked rule.ruleset)) ∨
          _ := find_without_stale (nodup_marked s₁ rule.ruleset)
      rw [← hlist] at hcases
      change Settled own keep (t.marked rule.ruleset)
      split at h
      · rename_i htrue
        rw [h.2]
        exact hcases.resolve_right fun hnone => hnone.2 (hfound.mp htrue)
      · rename_i hfalse
        rcases marked_createRule h with ⟨ident, hnew⟩
        rw [hnew, if_pos ⟨rfl, hdescription⟩]
        rcases hcases with ⟨r, hfind, hkeep'⟩ | ⟨hnone, -⟩
        · exact ⟨r, by rw [List.find?_append, hfind, Option.some_or], hkeep'⟩
        · refine ⟨(ident, rule), ?_, hkeep⟩
          rw [List.find?_append, hnone, Option.none_or]
          simp [hown]
  | port root number =>
      rcases (runs_bind (p := markedRules _)).mp h with ⟨marked, s₁, hmarked, h⟩
      rcases runs_markedRules hmarked with ⟨rfl, rfl⟩
      -- the new rule is the first of the root folder where there is no other
      have hadds : ∀ {v : Site} {w : Unit},
          (createRule (snmpPortRule root number)).Runs (Serves panels) v w t →
            (v.marked .snmpPorts).find? (fun r => r.2.folder = root) = none →
              (RuleStep.port root number).SettledAt t := by
        intro v w hcreate hnone
        rcases marked_createRule hcreate with ⟨ident, hnew⟩
        refine ⟨(ident, snmpPortRule root number), ?_, by simp [snmpPortRule]⟩
        rw [hnew, if_pos ⟨rfl, rfl⟩, List.find?_append, hnone, Option.none_or]
        simp [snmpPortRule]
      split at h
      · rename_i hnone
        exact hadds h hnone
      · rename_i ident rule hfind
        split at h
        · rename_i hvalue
          rw [h.2]
          exact ⟨(ident, rule), hfind, by simpa using hvalue⟩
        · rcases h with ⟨status, s₂, rfl, h⟩
          refine hadds h ?_
          rw [marked_dropRule, List.find?_eq_none]
          rintro ⟨ident', r⟩ hr hroot
          rw [List.mem_filter] at hr
          -- a second rule of the root folder
          have hsame : (ident', r) = (ident, rule) :=
            hsingle _ hr.1 (by simpa using hroot) _ (List.mem_of_find?_eq_some hfind)
              (by simpa using List.find?_some hfind)
          have hne := hr.2
          simp only [ne_eq, decide_not, Bool.not_eq_eq_eq_not, Bool.not_true,
            decide_eq_false_iff_not] at hne
          exact hne (congrArg Prod.fst hsame)

/-- A step leaves a settled ruleset alone, and with it all rules. -/
theorem rules_eq (h : step.program.Runs (Serves panels) s u t) (hsettled : step.SettledAt s) :
    t.rules = s.rules := by
  cases step with
  | skip =>
      rcases h with ⟨-, rfl⟩
      rfl
  | ensure own keep rule =>
      rcases hsettled.stale_eq_nil with ⟨hnil, hsome⟩
      rcases (runs_bind (p := markedRules _)).mp h with ⟨marked, s₁, hmarked, h⟩
      rcases runs_markedRules hmarked with ⟨rfl, rfl⟩
      rcases runs_bind.mp h with ⟨found, s₂, hstale, h⟩
      rw [if_pos ((runs_replaceStale hstale).1.mpr hsome)] at h
      rw [h.2]
      exact rules_of_replaceStale hnil hstale
  | port root number =>
      rcases hsettled with ⟨r, hfind, hvalue⟩
      rcases (runs_bind (p := markedRules _)).mp h with ⟨marked, s₁, hmarked, h⟩
      rcases runs_markedRules hmarked with ⟨rfl, rfl⟩
      split at h
      · rename_i hnone
        rw [hnone] at hfind
        cases hfind
      · rename_i ident rule hfind'
        rw [hfind'] at hfind
        cases hfind
        rw [if_pos (by simpa using hvalue)] at h
        rw [h.2]

end Steps

end RuleStep

/-! ## The rules of an estate -/

/-- The steps one after the other; between them the rules stay. -/
inductive Follows (panels : Panels) : List RuleStep → Site → Site → Prop
  | nil {s t : Site} (h : t.rules = s.rules) : Follows panels [] s t
  | cons {step : RuleStep} {steps : List RuleStep} {s s₁ s₂ t : Site} (h : s₁.rules = s.rules)
      (head : step.program.Runs (Serves panels) s₁ () s₂) (tail : Follows panels steps s₂ t) :
      Follows panels (step :: steps) s t

section Follows

variable {panels : Panels} {s t : Site} {steps : List RuleStep}

/-- What is settled depends on the rules. -/
theorem RuleStep.SettledAt.congr {step : RuleStep} (h : step.SettledAt s)
    (hrules : ∀ ruleset, step.ruleset = some ruleset → t.marked ruleset = s.marked ruleset) :
    step.SettledAt t := by
  cases step with
  | skip => trivial
  | ensure own keep rule =>
      rw [SettledAt, hrules rule.ruleset rfl]
      exact h
  | port root number =>
      rw [SettledAt, hrules .snmpPorts rfl]
      exact h

theorem RuleStep.Single.congr {step : RuleStep} (h : step.Single s)
    (hrules : ∀ ruleset, step.ruleset = some ruleset → t.marked ruleset = s.marked ruleset) :
    step.Single t := by
  cases step with
  | skip => trivial
  | ensure own keep rule => trivial
  | port root number =>
      rw [Single, hrules .snmpPorts rfl]
      exact h

/-- Steps leave the rulesets of others alone. -/
theorem Follows.marked (h : Follows panels steps s t) {ruleset : Ruleset}
    (hruleset : ∀ step ∈ steps, step.ruleset ≠ some ruleset) :
    t.marked ruleset = s.marked ruleset := by
  induction h with
  | nil h => rw [Site.marked, Site.marked, h]
  | cons hrules head tail ih =>
      rw [ih fun step hstep => hruleset step (List.mem_cons_of_mem _ hstep),
        RuleStep.marked_of_runs head (hruleset _ List.mem_cons_self), marked_of_rules_eq hrules]

/-- Steps for different rulesets settle them all. -/
theorem Follows.settled (h : Follows panels steps s t)
    (hapart : steps.Pairwise fun step step' => ∀ ruleset, step.ruleset = some ruleset →
      step'.ruleset ≠ some ruleset) (hfits : ∀ step ∈ steps, step.Fits)
    (hsingle : ∀ step ∈ steps, step.Single s) : ∀ step ∈ steps, step.SettledAt t := by
  induction h with
  | nil h => exact fun step hstep => absurd hstep List.not_mem_nil
  | @cons head rest s s₁ s₂ t hrules hrun htail ih =>
      rw [List.pairwise_cons] at hapart
      have hmarked : ∀ step ∈ rest, ∀ ruleset, step.ruleset = some ruleset →
          s₂.marked ruleset = s.marked ruleset := by
        intro step hstep ruleset hruleset
        rw [RuleStep.marked_of_runs hrun
          (fun heq => hapart.1 step hstep ruleset heq hruleset), marked_of_rules_eq hrules]
      have hhead : head.SettledAt s₂ := by
        apply RuleStep.settled hrun (hfits head List.mem_cons_self)
        exact (hsingle head List.mem_cons_self).congr fun ruleset _ => marked_of_rules_eq hrules _
      intro step hstep
      rcases List.mem_cons.mp hstep with rfl | hstep
      · exact hhead.congr fun ruleset hruleset =>
          htail.marked fun step' hstep' => hapart.1 step' hstep' ruleset hruleset
      · exact ih hapart.2 (fun step hstep => hfits step (List.mem_cons_of_mem _ hstep))
          (fun step hstep => (hsingle step (List.mem_cons_of_mem _ hstep)).congr
            (hmarked step hstep)) step hstep

/-- Steps whose rulesets are settled leave all rules alone. -/
theorem Follows.rules_eq (h : Follows panels steps s t)
    (hsettled : ∀ step ∈ steps, step.SettledAt s) : t.rules = s.rules := by
  induction h with
  | nil h => exact h
  | @cons head rest s s₁ s₂ t hrules hrun htail ih =>
      have hsame : ∀ step : RuleStep, step.SettledAt s → step.SettledAt s₁ := fun step hstep =>
        hstep.congr fun ruleset _ => marked_of_rules_eq hrules ruleset
      have hrules₂ : s₂.rules = s.rules :=
        (RuleStep.rules_eq hrun (hsame head (hsettled head List.mem_cons_self))).trans hrules
      rw [ih fun step hstep => (hsettled step (List.mem_cons_of_mem _ hstep)).congr
        fun ruleset _ => marked_of_rules_eq hrules₂ ruleset, hrules₂]

end Follows

section Estate

variable (args : Args) (panels : Panels)

/-- The step for the transport of the deployed devices, if any. -/
def accessStep : RuleStep :=
  match deployedNetsim args panels with
  | none => .skip
  | some info =>
      if info.live then .port args.root (snmpPort info)
      else
        .ensure (fun _ => true) (fun r => sorted r.hosts = sorted (createdFqdns info))
          (usewalkRule (createdFqdns info))

/-- The step for the units without residual-current sensors, in an SNMP layer. -/
def residualStep : RuleStep :=
  if args.snmp = .off then .skip
  else .ensure (fun r => r.folder = args.root) (fun _ => true) (residualCurrentRule args.root)

/-- The step for the agent port of the shell, in a cloud estate. -/
def portStep : RuleStep :=
  if args.mode = .cloud then
    .ensure (fun r => r.hosts = [panels.delivery.host]) (fun r => r.value = .number args.agentPort)
      (portRule panels.delivery.host args.agentPort)
  else .skip

/-- The step for the agent output, in a self-hosted estate. -/
def sourceStep : RuleStep :=
  if args.mode = .selfHosted then
    .ensure (fun r => r.folder = args.root)
      (fun r => r.value = .quoted (datasourceCommand args.agentOutputDir))
      (datasourceRule args.root args.agentOutputDir)
  else .skip

/-- The step for the special agent of the shell. -/
def serviceStep : RuleStep :=
  .ensure (fun r => r.hosts = [panels.delivery.host]) (fun _ => true)
    (biServiceRule panels.delivery.host)

/-- The steps of a run. -/
def estateSteps : List RuleStep :=
  [accessStep args panels, residualStep args, portStep args panels, sourceStep args,
    serviceStep panels]

end Estate

section Rerun

variable {args : Args} {panels : Panels} {s t t' : Site} {u u' : Unit} {digest : Canon → Text}

theorem program_accessStep (args : Args) (panels : Panels) :
    (accessStep args panels).program = deployedAccess args panels := by
  unfold accessStep deployedAccess
  cases deployedNetsim args panels with
  | none => rfl
  | some info =>
      dsimp only
      unfold ensureSnmpAccess
      split <;> rfl

theorem program_residualStep (args : Args) : (residualStep args).program = deployedResidual args := by
  unfold residualStep deployedResidual
  split <;> rfl

theorem program_portStep (args : Args) (panels : Panels) :
    (portStep args panels).program = ensureAgentAccess args panels.delivery.host := by
  unfold portStep ensureAgentAccess
  split <;> rfl

theorem program_sourceStep (args : Args) : (sourceStep args).program = ensureAgentSource args := by
  unfold sourceStep ensureAgentSource
  split <;> rfl

theorem program_serviceStep (panels : Panels) :
    (serviceStep panels).program = ensureBiServiceRule panels.delivery.host :=
  rfl

/-- The steps of a run that touch rules. -/
theorem CreateRun.follows (h : CreateRun args panels s t) :
    Follows panels (estateSteps args panels) s t := by
  rcases h.ruleSteps with ⟨s₂, s₃, s₄, s₅, s₆, s₈, s₉, s₁₀, h₂, hdeviceAccess, hresidual, h₅,
    haccess, h₈, hsource, h₁₀, hservice⟩
  rw [← program_accessStep] at hdeviceAccess
  rw [← program_residualStep] at hresidual
  rw [← program_portStep] at haccess
  rw [← program_sourceStep] at hsource
  rw [← program_serviceStep] at hservice
  exact .cons h₂ hdeviceAccess (.cons rfl hresidual (.cons h₅ haccess (.cons h₈ hsource
    (.cons h₁₀ hservice (.nil rfl)))))

/-- The rulesets of the steps that are not skipped. -/
theorem ruleset_accessStep {ruleset : Ruleset} (h : (accessStep args panels).ruleset = some ruleset) :
    ruleset = .snmpPorts ∨ ruleset = .usewalkHosts := by
  unfold accessStep at h
  split at h
  · cases h
  · split at h
    · cases h
      exact Or.inl rfl
    · cases h
      exact Or.inr rfl

theorem ruleset_residualStep {ruleset : Ruleset} (h : (residualStep args).ruleset = some ruleset) :
    ruleset = .residualCurrent := by
  unfold residualStep at h
  split at h
  · cases h
  · cases h
    rfl

theorem ruleset_portStep {ruleset : Ruleset} (h : (portStep args panels).ruleset = some ruleset) :
    ruleset = .agentPorts := by
  unfold portStep at h
  split at h
  · cases h
    rfl
  · cases h

theorem ruleset_sourceStep {ruleset : Ruleset} (h : (sourceStep args).ruleset = some ruleset) :
    ruleset = .datasourcePrograms := by
  unfold sourceStep at h
  split at h
  · cases h
    rfl
  · cases h

theorem ruleset_serviceStep {ruleset : Ruleset} (h : (serviceStep panels).ruleset = some ruleset) :
    ruleset = .specialAgentsBi := by
  cases h
  rfl

/-- The steps have rulesets of their own. -/
theorem estateSteps_apart (args : Args) (panels : Panels) :
    (estateSteps args panels).Pairwise fun step step' => ∀ ruleset, step.ruleset = some ruleset →
      step'.ruleset ≠ some ruleset := by
  unfold estateSteps
  refine List.pairwise_cons.mpr ⟨?_, List.pairwise_cons.mpr ⟨?_, List.pairwise_cons.mpr ⟨?_,
    List.pairwise_cons.mpr ⟨?_, List.pairwise_singleton _ _⟩⟩⟩⟩
  · intro step hstep ruleset hfirst hsecond
    have hruleset := ruleset_accessStep hfirst
    simp only [List.mem_cons, List.not_mem_nil, or_false] at hstep
    rcases hstep with rfl | rfl | rfl | rfl
    · simp [ruleset_residualStep hsecond] at hruleset
    · simp [ruleset_portStep hsecond] at hruleset
    · simp [ruleset_sourceStep hsecond] at hruleset
    · simp [ruleset_serviceStep hsecond] at hruleset
  · intro step hstep ruleset hfirst hsecond
    have hruleset := ruleset_residualStep hfirst
    simp only [List.mem_cons, List.not_mem_nil, or_false] at hstep
    rcases hstep with rfl | rfl | rfl
    · simp [ruleset_portStep hsecond] at hruleset
    · simp [ruleset_sourceStep hsecond] at hruleset
    · simp [ruleset_serviceStep hsecond] at hruleset
  · intro step hstep ruleset hfirst hsecond
    have hruleset := ruleset_portStep hfirst
    simp only [List.mem_cons, List.not_mem_nil, or_false] at hstep
    rcases hstep with rfl | rfl
    · simp [ruleset_sourceStep hsecond] at hruleset
    · simp [ruleset_serviceStep hsecond] at hruleset
  · intro step hstep ruleset hfirst hsecond
    have hruleset := ruleset_sourceStep hfirst
    rw [List.mem_singleton.mp hstep] at hsecond
    simp [ruleset_serviceStep hsecond] at hruleset

/-- Every new rule is an own one to keep. -/
theorem estateSteps_fit : ∀ step ∈ estateSteps args panels, step.Fits := by
  intro step hstep
  simp only [estateSteps, List.mem_cons, List.not_mem_nil, or_false] at hstep
  rcases hstep with rfl | rfl | rfl | rfl | rfl
  · unfold accessStep
    split
    · trivial
    · split
      · trivial
      · exact ⟨rfl, by simp [usewalkRule, sorted_sorted], rfl⟩
  · unfold residualStep
    split
    · trivial
    · exact ⟨by simp [residualCurrentRule], rfl, rfl⟩
  · unfold portStep
    split
    · exact ⟨by simp [portRule], by simp [portRule], rfl⟩
    · trivial
  · unfold sourceStep
    split
    · exact ⟨by simp [datasourceRule], by simp [datasourceRule], rfl⟩
    · trivial
  · exact ⟨by simp [biServiceRule], rfl, rfl⟩

/-! ## The repeated run -/

/-- Two sites with the same objects. -/
structure SameSite (s t : Site) : Prop where
  folders : ∀ f, f ∈ t.folders ↔ f ∈ s.folders
  hosts : t.hosts.get = s.hosts.get
  rules : t.rules = s.rules
  bi : t.bi.get = s.bi.get

theorem SameSite.refl (s : Site) : SameSite s s :=
  ⟨fun _ => Iff.rfl, rfl, rfl, rfl⟩

/-- The same arguments, with or without `--force`. -/
def Args.again (args : Args) (force : Bool) : Args :=
  { args with force := force }

/-- At most one rule for the port of the devices lies in the root folder. -/
def OnePort (args : Args) (s : Site) : Prop :=
  (RuleStep.port args.root 0).Single s

/-- The objects of an estate do not depend on `--force`. -/
theorem CreateRun.of_again {force : Bool} (h : CreateRun (args.again force) panels s t) :
    CreateRun args panels s t := by
  rcases h with ⟨s₁, s₂, s₃, s₄, s₅, s₆, s₇, s₈, s₉, s₁₀, leaf, leaf', hroot, hdevices,
    hdeviceAccess, hresidual, hshell, haccess, hhosts, hprune, hsource, hpack, hservice⟩
  exact ⟨s₁, s₂, s₃, s₄, s₅, s₆, s₇, s₈, s₉, s₁₀, leaf, leaf', hroot, hdevices,
    hdeviceAccess, hresidual, hshell, haccess, hhosts, hprune, hsource, hpack, hservice⟩

theorem estateSteps_single (h : OnePort args s) :
    ∀ step ∈ estateSteps args panels, step.Single s := by
  intro step hstep
  simp only [estateSteps, List.mem_cons, List.not_mem_nil, or_false] at hstep
  rcases hstep with rfl | rfl | rfl | rfl | rfl
  · unfold accessStep
    split
    · trivial
    · split
      · exact h
      · trivial
  · unfold residualStep
    split <;> trivial
  · unfold portStep
    split <;> trivial
  · unfold sourceStep
    split <;> trivial
  · trivial

/-- Folders are made once. -/
theorem CreateRun.folders_again {v v' : Site} (h : CreateRun args panels s v)
    (ht : t.folders = v.folders) (h' : CreateRun args panels t v') (f : Ident) :
    f ∈ v'.folders ↔ f ∈ t.folders := by
  rcases h.folders with ⟨s₁, hroot, hfolders⟩
  rw [← ht] at hfolders
  rcases h'.folders with ⟨t₁, hroot', hfolders'⟩
  -- the root folder is found, or would be made once more in the same place
  have hagain : ∀ f, f ∈ t₁.folders ↔ f ∈ t.folders := by
    rcases runs_ensureFolder hroot' with ⟨-, rfl⟩ | ⟨name, hname, hnot, -, rfl⟩
    · exact fun _ => Iff.rfl
    · rcases runs_ensureFolder hroot with ⟨hhas, rfl⟩ | ⟨name', hname', -, -, rfl⟩
      · refine absurd ?_ hnot
        exact hhas.imp id fun hmem => (hfolders _).mpr (Or.inl hmem)
      · obtain rfl : name = name' := Option.some.inj (hname.symm.trans hname')
        intro f
        have hmade : [name] ∈ t.folders := (hfolders _).mpr (Or.inl (by simp [Site.addFolder]))
        simp only [Site.addFolder, List.nil_append, List.mem_append, List.mem_singleton]
        constructor
        · rintro (hf | rfl)
          · exact hf
          · exact hmade
        · exact Or.inl
  rw [hfolders', hagain, hfolders]
  tauto

/-- Attributes are reconciled once. -/
theorem ensured_again (folder : Ident) (attributes : Attributes) (host : Option HostConfig)
    (labels : Dict Text Text) :
    ensured folder attributes (some { ensured folder attributes host with labels := labels }) =
      { ensured folder attributes host with labels := labels } := by
  have hagain : ∀ current, reconciled attributes (reconciled attributes current) =
      reconciled attributes current := by
    intro current
    funext attr
    simp only [reconciled]
    split <;> rfl
  have hself : reconciled attributes attributes = attributes := by
    funext attr
    simp only [reconciled, ite_self]
  cases host with
  | none => simp only [ensured, hself]
  | some config => simp only [ensured, hagain]

/-- Hosts are created, reconciled and pruned once, and labelled once. -/
theorem CreateRun.hosts_again {v v' : Site} {fp : Text} (h : CreateRun args panels s v)
    (ht : t.hosts.get = Function.update v.hosts.get panels.delivery.host
      ((v.hosts.get panels.delivery.host).map fun h =>
        { h with labels := h.labels.set fingerprintLabel fp }))
    (h' : CreateRun args panels t v')
    (ht' : t'.hosts.get = Function.update v'.hosts.get panels.delivery.host
      ((v'.hosts.get panels.delivery.host).map fun h =>
        { h with labels := h.labels.set fingerprintLabel fp })) :
    t'.hosts.get = t.hosts.get := by
  have hshell : panels.delivery.host ∈ estateNames args panels := List.mem_cons_self
  -- only the labels of a host of the estate differ from what is ensured
  have hplaced : ∀ p ∈ hostPlan args panels, ∃ labels, t.hosts.get p.1 =
      some { ensured p.2.1 p.2.2 (s.hosts.get p.1) with labels := labels } ∧
        (p.1 = panels.delivery.host → labels.get fingerprintLabel = some fp) := by
    intro p hp
    have hname : p.1 ∈ estateNames args panels :=
      mem_hostPlan.mp (List.mem_map_of_mem hp)
    have hget := h.hosts_of_mem hname
    rw [foldl_ensurePlaced_of_mem (nodup_hostPlan args panels) hp] at hget
    by_cases hp' : p.1 = panels.delivery.host
    · refine ⟨(ensured p.2.1 p.2.2 (s.hosts.get p.1)).labels.set fingerprintLabel fp, ?_, ?_⟩
      · rw [ht, hp', Function.update_self, ← hp', hget]
        rfl
      · exact fun _ => Dict.get_set_self _ _ _
    · refine ⟨(ensured p.2.1 p.2.2 (s.hosts.get p.1)).labels, ?_, fun heq => absurd heq hp'⟩
      rw [ht, Function.update_of_ne hp', hget]
  have hkept : ∀ m, v'.hosts.get m = t.hosts.get m := by
    intro m
    by_cases hm : m ∈ estateNames args panels
    · rcases List.mem_map.mp (mem_hostPlan.mpr hm) with ⟨p, hp, rfl⟩
      rcases hplaced p hp with ⟨labels, hget, -⟩
      rw [h'.hosts_of_mem hm, foldl_ensurePlaced_of_mem (nodup_hostPlan args panels) hp, hget,
        ensured_again]
    · have hne : m ≠ panels.delivery.host := fun heq => hm (heq ▸ hshell)
      have hnot : m ∉ (hostPlan args panels).map Prod.fst := fun hmem => hm (mem_hostPlan.mp hmem)
      have hold : t.hosts.get m = v.hosts.get m := by rw [ht, Function.update_of_ne hne]
      rw [h'.hosts, foldl_ensurePlaced_of_notMem hnot, ite_eq_right_iff]
      -- what pruning would remove now was removed before
      rintro ⟨-, config, hget, hin⟩
      rw [hold, h.hosts, foldl_ensurePlaced_of_notMem hnot] at hget
      split at hget
      · cases hget
      · rename_i hstays
        exact absurd ⟨hm, config, hget, hin⟩ hstays
  funext m
  rw [ht']
  by_cases hm : m = panels.delivery.host
  · rcases List.mem_map.mp (mem_hostPlan.mpr hshell) with ⟨p, hp, hname⟩
    rcases hplaced p hp with ⟨labels, hget, hlabel⟩
    rw [hname] at hget
    rw [hm, Function.update_self, hkept, hget, Option.map_some,
      Dict.set_eq_self (hlabel hname)]
  · rw [Function.update_of_ne hm, hkept]

/-- A run that repeats the one before, forced or not, leaves the site as it is. -/
theorem sameSite_of_rerun (h : (setup digest args).Runs (Serves panels) s u t)
    (hchanged : Reconfigures args panels digest s) (hport : OnePort args s) {force : Bool}
    (h' : (setup digest (args.again force)).Runs (Serves panels) t u' t') : SameSite t t' := by
  rcases runs_setup h with ⟨hnot, -⟩ | ⟨-, hrun⟩
  · exact absurd hchanged hnot
  rcases runs_setup h' with ⟨-, rfl⟩ | ⟨-, hrun'⟩
  · exact SameSite.refl t'
  rcases runs_reconfigure hrun with ⟨v, hcreate, hfolders, hrules, hbi, hhosts⟩
  rcases runs_reconfigure hrun' with ⟨v', hcreate', hfolders', hrules', hbi', hhosts'⟩
  replace hcreate' := hcreate'.of_again
  have hsettled := hcreate.follows.settled (estateSteps_apart args panels) estateSteps_fit
    (estateSteps_single hport)
  refine ⟨?_, hcreate.hosts_again hhosts hcreate' hhosts', ?_, ?_⟩
  · rw [hfolders']
    exact hcreate.folders_again hfolders hcreate'
  · rw [hrules']
    exact hcreate'.follows.rules_eq fun step hstep => (hsettled step hstep).congr
      fun ruleset _ => marked_of_rules_eq hrules ruleset
  · funext k
    rw [hbi', hcreate'.bi, hbi, hcreate.bi, Option.or_assoc, Option.or_self]

/-- A forced run behind a first one, with a responder and two devices. -/
theorem sameSite_of_rerun_core : ∃ t t',
    (setup modeDigest demoArgs).Runs (Serves (corePanelsOn 1161)) Site.empty () t ∧
      (setup modeDigest (demoArgs.again true)).Runs (Serves (corePanelsOn 1161)) t () t' ∧
        SameSite t t' := by
  rcases exists_runs_observed (corePanelsOn 1161) (p := setup modeDigest demoArgs)
    (q := setup modeDigest (demoArgs.again true)) (fun _ => ()) (b := ()) (by decide +kernel) with
    ⟨t, t', hfirst, hsecond, -⟩
  have hport : OnePort demoArgs Site.empty := fun r hr => absurd hr List.not_mem_nil
  exact ⟨t, t', hfirst, hsecond, sameSite_of_rerun hfirst reconfigures_empty hport hsecond⟩

end Rerun

end Deploy
end DemoEstate
