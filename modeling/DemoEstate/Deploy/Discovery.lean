import DemoEstate.Deploy.Reconcile

/-!
# Which services a run has discovered

A run of the setup scans the shell, then every host that has no monitored services yet, in one
job of the site if there are many, and the shell again after the first activation.  Unlike an
activation, a scan that does not come to its end ends the run.  The site and the panels may give
any answers here.

Main definitions:

- Definition {lit}`Scanned`: a scan of the host has ended, and then its services were accepted.
- Inductive {lit}`Discovered`: scanned, or in a job that has ended, or monitored already.
- Definition {lit}`FoundStored`: the run has found its own fingerprint on the shell.
- Definition {lit}`DiscoversAll`: every host is discovered before the first activation.

Main results:

- Theorem {lit}`scanned_of_discover`: {lit}`discover` returns only after a scan.
- Theorem {lit}`discovered_of_discoverEstate`: all hosts of the estate are discovered.
- Theorem {lit}`discovered_of_setup`: a run that returns has discovered every host it looked up.
-/

namespace DemoEstate
namespace Deploy

open Interaction
open Interaction.Program

/-- The answers that end a scan of a host. -/
def EndsScan (name : Text) (e : Exchange Request Ans) : Prop :=
  e = ⟨.startDiscovery name "refresh".toList, (200 : Status)⟩ ∨
    e = ⟨.waitDiscovery name, (204 : Status)⟩

/-- A scan of the host has ended, and then the services that it found were accepted. -/
def Scanned (log : List (Exchange Request Ans)) (name : Text) : Prop :=
  ∃ e, EndsScan name e ∧
    [e, ⟨.startDiscovery name "fix_all".toList, (200 : Status)⟩].Sublist log

/-- The services of a host are known: they have just been scanned, or the host was in a job that
has ended; without `--force` also if there were monitored ones. -/
inductive Discovered (force : Bool) (log : List (Exchange Request Ans)) (name : Text) : Prop
  | scanned (h : Scanned log name)
  | bulk (hosts : List Text) (started : Status × Option Text) (hmem : name ∈ hosts)
    (hstarted : started.1 = 200 ∨ started.1 = 303)
    (h : [⟨.startBulkDiscovery hosts, started⟩,
      ⟨.getJob (started.2.getD "bulk_discovery".toList), some false⟩].Sublist log)
  | monitored (phases : List Text) (hforce : force = false)
    (hmem : "monitored".toList ∈ phases) (h : ⟨.getDiscovery name, some phases⟩ ∈ log)

section Discover

variable {σ : Type} {env : Env σ Request Ans} {s t : σ} {log log' : List (Exchange Request Ans)}
  {name : Text} {force : Bool}

theorem Scanned.mono (h : Scanned log name) (hsub : log.Sublist log') : Scanned log' name := by
  rcases h with ⟨e, he, hlog⟩
  exact ⟨e, he, hlog.trans hsub⟩

theorem Discovered.mono (h : Discovered force log name) (hsub : log.Sublist log') :
    Discovered force log' name := by
  cases h with
  | scanned h => exact .scanned (h.mono hsub)
  | bulk hosts started hmem hstarted h => exact .bulk hosts started hmem hstarted (h.trans hsub)
  | monitored phases hforce hmem h => exact .monitored phases hforce hmem (hsub.subset h)

/-- Nothing returns from an error. -/
theorem not_traces_die {α : Type} {error : Failure} {a : α} :
    ¬ (die error : Setup α).Traces env s log (some a) t := by
  rintro (⟨-, -, hnone⟩ | ⟨never, -⟩)
  · cases hnone
  · cases never

theorem traces_expect {what : Text} {status : Status}
    (h : (expect what status).Traces env s log (some ()) t) : status = 200 ∧ log = [] := by
  unfold expect at h
  split at h
  · rename_i hstatus
    exact ⟨hstatus, h.1⟩
  · exact absurd h not_traces_die

/-- The wait for a scan returns only with its end. -/
theorem mem_of_waitForDiscovery {n : Nat} {last : Status}
    (h : (waitForDiscovery name n last).Traces env s log (some ()) t) :
    ⟨.waitDiscovery name, (204 : Status)⟩ ∈ log := by
  induction n generalizing s log last with
  | zero => exact absurd h not_traces_die
  | succ n ih =>
      obtain ⟨before, s₁, rest, rfl, -, h⟩ := traces_call_some h
      split at h
      · obtain ⟨status, s₂, rest', rfl, -, h⟩ := traces_call_some h
        split at h
        · rename_i hdone
          rw [hdone]
          exact List.mem_cons_of_mem _ List.mem_cons_self
        · split at h
          · exact List.mem_cons_of_mem _ (List.mem_cons_of_mem _ (ih h))
          · exact absurd h not_traces_die
      · exact absurd h not_traces_die

/-- The first phase returns only with the end of a scan. -/
theorem endsScan_of_refresh (h : (refresh name).Traces env s log (some ()) t) :
    ∃ e ∈ log, EndsScan name e := by
  obtain ⟨status, s₁, rest, rfl, -, h⟩ := traces_call_some h
  split at h
  · exact ⟨_, List.mem_cons_of_mem _ (mem_of_waitForDiscovery h), Or.inr rfl⟩
  · obtain ⟨rfl, -⟩ := traces_expect h
    exact ⟨_, List.mem_cons_self, Or.inl rfl⟩

/-- `discover` returns only after a scan whose services were accepted. -/
theorem scanned_of_discover (h : (discover name).Traces env s log (some ()) t) :
    Scanned log name := by
  obtain ⟨_, s₁, log₁, log₂, rfl, hrefresh, hfix⟩ := traces_bind_some h
  obtain ⟨e, he, hends⟩ := endsScan_of_refresh hrefresh
  obtain ⟨status, s₂, rest, rfl, -, h⟩ := traces_call_some hfix
  obtain ⟨rfl, -⟩ := traces_expect h
  refine ⟨e, hends, List.Sublist.append (List.singleton_sublist.mpr he) ?_⟩
  exact List.singleton_sublist.mpr List.mem_cons_self

theorem scanned_of_discoverAll {hosts : List Text}
    (h : (discoverAll hosts).Traces env s log (some ()) t) : ∀ name ∈ hosts, Scanned log name := by
  induction hosts generalizing s t log with
  | nil => exact fun name hname => absurd hname List.not_mem_nil
  | cons host hosts ih =>
      obtain ⟨_, s₁, log₁, log₂, rfl, hfirst, hrest⟩ := traces_bind_some h
      intro name hname
      rcases List.mem_cons.mp hname with rfl | hname
      · exact (scanned_of_discover hfirst).mono (List.sublist_append_left _ _)
      · exact (ih hrest name hname).mono (List.sublist_append_right _ _)

/-- The wait for a job returns only with its end. -/
theorem mem_of_waitForJob {job : Text} {n : Nat}
    (h : (waitForJob job n).Traces env s log (some ()) t) : ⟨.getJob job, some false⟩ ∈ log := by
  induction n generalizing s log with
  | zero => exact absurd h not_traces_die
  | succ n ih =>
      obtain ⟨before, s₁, rest, rfl, -, h⟩ := traces_call_some h
      split at h
      · obtain ⟨active, s₂, rest', rfl, -, h⟩ := traces_call_some h
        split at h
        · rename_i hdone
          rw [hdone]
          exact List.mem_cons_of_mem _ List.mem_cons_self
        · exact List.mem_cons_of_mem _ (List.mem_cons_of_mem _ (ih h))
      · exact absurd h not_traces_die

/-- All hosts of a job that is waited for are discovered. -/
theorem discovered_of_bulkDiscover {hosts : List Text}
    (h : (bulkDiscover hosts).Traces env s log (some ()) t) :
    ∀ name ∈ hosts, Discovered force log name := by
  intro name hname
  obtain ⟨started, s₁, rest, rfl, -, h⟩ := traces_call_some h
  split at h
  · rename_i hstarted
    refine .bulk hosts started hname hstarted (List.Sublist.cons_cons _ ?_)
    exact List.singleton_sublist.mpr (mem_of_waitForJob h)
  · exact absurd h not_traces_die

/-- A host that is not pending has monitored services. -/
theorem discovered_of_notMem_pendingHosts {hosts pending : List Text}
    (h : (pendingHosts (!force) hosts).Traces env s log (some pending) t) :
    ∀ name ∈ hosts, name ∉ pending → Discovered force log name := by
  induction hosts generalizing s t log pending with
  | nil => exact fun name hname => absurd hname List.not_mem_nil
  | cons host hosts ih =>
      intro name hname hnot
      unfold pendingHosts at h
      split at h
      · rename_i hskip
        obtain ⟨count, s₁, log₁, log₂, rfl, hcount, h⟩ := traces_bind_some h
        obtain ⟨pending', s₂, log₃, log₄, rfl, hrest, hend⟩ := traces_bind_some h
        obtain ⟨phases, s₃, rest, rfl, -, hphases⟩ := traces_call_some hcount
        have hcounted : count = phases.map fun phases => phases.count "monitored".toList := by
          simpa using hphases.2.2
        have hpending : pending = if count.getD 0 = 0 then host :: pending' else pending' := by
          simpa using hend.2.2
        have hfound : name ∈ hosts → name ∉ pending' → Discovered force
            (⟨.getDiscovery host, phases⟩ :: rest ++ (log₃ ++ log₄)) name := by
          intro hmem hnot'
          exact (ih hrest name hmem hnot').mono
            ((List.sublist_append_left _ _).trans (List.sublist_append_right _ _))
        split at hpending
        · rw [hpending, List.mem_cons, not_or] at hnot
          exact hfound ((List.mem_cons.mp hname).resolve_left hnot.1) hnot.2
        · rename_i hsome
          rw [hpending] at hnot
          rcases List.mem_cons.mp hname with rfl | hmem
          · -- the host is left out since it has monitored services
            cases phases with
            | none =>
                rw [hcounted] at hsome
                exact absurd rfl hsome
            | some phases =>
                rw [hcounted] at hsome
                refine .monitored phases (by simpa using hskip) ?_ List.mem_cons_self
                exact List.count_pos_iff.mp (Nat.pos_of_ne_zero hsome)
          · exact hfound hmem hnot
      · obtain ⟨pending', s₂, log₃, log₄, rfl, hrest, hend⟩ := traces_bind_some h
        have hpending : pending = host :: pending' := by simpa using hend.2.2
        rw [hpending, List.mem_cons, not_or] at hnot
        exact (ih hrest name ((List.mem_cons.mp hname).resolve_left hnot.1) hnot.2).mono
          (List.sublist_append_left _ _)

/-- The shell is scanned, and the other hosts of the estate are discovered. -/
theorem discovered_of_discoverEstate {args : Args} {info : Delivery} {fqdns : List Text}
    (h : (discoverEstate args info fqdns).Traces env s log (some ()) t) :
    Scanned log info.host ∧
      ∀ name ∈ info.host :: info.fqdns ++ fqdns, Discovered args.force log name := by
  obtain ⟨_, s₁, log₁, log₂, rfl, hshell, h⟩ := traces_bind_some h
  obtain ⟨pending, s₂, log₃, log₄, rfl, hpending, h⟩ := traces_bind_some h
  have hscanned : Scanned (log₁ ++ (log₃ ++ log₄)) info.host :=
    (scanned_of_discover hshell).mono (List.sublist_append_left _ _)
  refine ⟨hscanned, fun name hname => ?_⟩
  rcases List.mem_cons.mp hname with rfl | hname
  · exact .scanned hscanned
  · by_cases hmem : name ∈ pending
    · have hlast : Discovered args.force log₄ name := by
        split at h
        · exact discovered_of_bulkDiscover h name hmem
        · exact .scanned (scanned_of_discoverAll h name hmem)
      exact hlast.mono ((List.sublist_append_right _ _).trans (List.sublist_append_right _ _))
    · exact (discovered_of_notMem_pendingHosts hpending name hname hmem).mono
        ((List.sublist_append_left _ _).trans (List.sublist_append_right _ _))

end Discover

/-! ## A whole run -/

/-- The devices of a run, by the answer of the responder's panel. -/
def layerFqdns (args : Args) (answer : Option Netsim) : List Text :=
  if args.snmp = .off then [] else (answer.map createdFqdns).getD []

/-- The planned devices of a run, by the answer of the responder's panel. -/
def layerPlan (args : Args) (answer : Option Netsim) : List Planned :=
  if args.snmp = .off then [] else (answer.map snmpPlan).getD []

/-- The responder's panel gave the answer, if the run asks it. -/
def AsksPanel (args : Args) (log : List (Exchange Request Ans)) (answer : Option Netsim) : Prop :=
  args.snmp ≠ .off → ⟨.netsimPanel, answer⟩ ∈ log

/-- Without `--force`, the run has found the fingerprint of its own configuration on the shell. -/
def FoundStored (digest : Canon → Text) (args : Args) (log : List (Exchange Request Ans)) : Prop :=
  args.force = false ∧ ∃ info answer config, ⟨.deliveryPanel, some info⟩ ∈ log ∧
    AsksPanel args log answer ∧ ⟨.getHost info.host, some config⟩ ∈ log ∧
      config.labels.get fingerprintLabel =
        some (estateFingerprint digest args info (layerPlan args answer))

/-- No activation is started. -/
def NoActivation (log : List (Exchange Request Ans)) : Prop :=
  ∀ e ∈ log, ∀ forceForeign, e.1 ≠ .activateChanges forceForeign

/-- All hosts of the estate were discovered before the first activation was started, the shell by
a scan, and the shell was scanned again behind it. -/
def DiscoversAll (args : Args) (log : List (Exchange Request Ans)) : Prop :=
  ∃ info answer before started after,
    log = before ++ ⟨.activateChanges args.forceForeign, started⟩ :: after ∧ NoActivation before ∧
      ⟨.deliveryPanel, some info⟩ ∈ before ∧ AsksPanel args before answer ∧
        (∀ name ∈ info.host :: info.fqdns ++ layerFqdns args answer,
          Discovered args.force before name) ∧
          Scanned before info.host ∧ Scanned after info.host

section Setup

variable {σ : Type} {env : Env σ Request Ans} {s t : σ} {log : List (Exchange Request Ans)}
  {args : Args} {digest : Canon → Text}

theorem noActivation_append {log log' : List (Exchange Request Ans)} :
    NoActivation (log ++ log') ↔ NoActivation log ∧ NoActivation log' :=
  List.forall_mem_append

/-- A program that leaves the running configuration alone starts no activation. -/
theorem noActivation_of_asks {α : Type} {p : Setup α} {parts : List Part} {out : Option α}
    (h : p.Asks (Within parts)) (hparts : Part.running ∉ parts)
    (htraces : p.Traces env s log out t) : NoActivation log := by
  intro e he forceForeign heq
  have hwithin := h.log htraces he
  rw [heq] at hwithin
  exact hparts (hwithin List.mem_cons_self)

theorem layer_of_plannedSnmp {plan : List Planned}
    (h : (plannedSnmp args).Traces env s log (some plan) t) :
    ∃ answer, AsksPanel args log answer ∧ plan = layerPlan args answer := by
  unfold plannedSnmp at h
  unfold AsksPanel layerPlan
  split at h
  · rename_i hoff
    refine ⟨none, fun hon => absurd hoff hon, ?_⟩
    rw [if_pos hoff]
    simpa using h.2.2
  · rename_i hon
    obtain ⟨answer, s₁, rest, rfl, -, h⟩ := traces_call_some h
    refine ⟨answer, fun _ => List.mem_cons_self, ?_⟩
    rw [if_neg hon]
    cases answer with
    | none =>
        dsimp only at h
        split at h
        · exact absurd h not_traces_die
        · simpa using h.2.2
    | some info => simpa using h.2.2

theorem layer_of_snmpLayer {result : List Text × Dict Role Ident}
    (h : (snmpLayer args).Traces env s log (some result) t) :
    ∃ answer, AsksPanel args log answer ∧ result.1 = layerFqdns args answer := by
  unfold snmpLayer at h
  unfold AsksPanel layerFqdns
  split at h
  · rename_i hoff
    have hresult : result = ([], Dict.empty) := by simpa using h.2.2
    exact ⟨none, fun hon => absurd hoff hon, by rw [if_pos hoff, hresult]⟩
  · rename_i hon
    obtain ⟨⟨fqdns, leaf⟩, s₁, log₁, log₂, rfl, hsetup, h⟩ := traces_bind_some h
    obtain ⟨_, s₂, log₃, log₄, rfl, -, hend⟩ := traces_bind_some h
    have hresult : result = (fqdns, leaf) := by simpa using hend.2.2
    obtain ⟨answer, s₃, rest, rfl, -, hdevices⟩ := traces_call_some hsetup
    refine ⟨answer, fun _ => List.mem_append_left _ List.mem_cons_self, ?_⟩
    rw [if_neg hon, hresult]
    cases answer with
    | none =>
        dsimp only at hdevices
        split at hdevices
        · exact absurd hdevices not_traces_die
        · have hnone : (fqdns, leaf) = ([], Dict.empty) := by simpa using hdevices.2.2
          rw [hnone]
          rfl
    | some info =>
        obtain ⟨_, s₄, log₅, log₆, rfl, -, hcreate⟩ := traces_bind_some hdevices
        obtain ⟨leaf', s₅, log₇, log₈, rfl, -, hrows⟩ := traces_bind_some hcreate
        obtain ⟨_, s₆, log₉, log₁₀, rfl, -, hlast⟩ := traces_bind_some hrows
        have hsome : (fqdns, leaf) = (createdFqdns info, leaf') := by simpa using hlast.2.2
        rw [hsome]
        rfl

theorem layer_of_createObjects {info : Delivery} {fqdns : List Text}
    (h : (createObjects args info).Traces env s log (some fqdns) t) :
    ∃ answer, AsksPanel args log answer ∧ fqdns = layerFqdns args answer := by
  obtain ⟨_, s₁, log₁, log₂, rfl, -, h₁⟩ := traces_bind_some h
  obtain ⟨⟨fqdns', leaf⟩, s₂, log₃, log₄, rfl, hlayer, h₂⟩ := traces_bind_some h₁
  obtain ⟨answer, hpanel, hfqdns⟩ := layer_of_snmpLayer hlayer
  refine ⟨answer, fun hon => ?_, ?_⟩
  · exact List.mem_append_right _ (List.mem_append_left _ (hpanel hon))
  · obtain ⟨_, s₃, log₅, log₆, rfl, -, h₃⟩ := traces_bind_some h₂
    obtain ⟨_, s₄, log₇, log₈, rfl, -, h₄⟩ := traces_bind_some h₃
    obtain ⟨_, s₅, log₉, log₁₀, rfl, -, h₅⟩ := traces_bind_some h₄
    obtain ⟨_, s₆, log₁₁, log₁₂, rfl, -, h₆⟩ := traces_bind_some h₅
    obtain ⟨_, s₇, log₁₃, log₁₄, rfl, -, h₇⟩ := traces_bind_some h₆
    obtain ⟨_, s₈, log₁₅, log₁₆, rfl, -, h₈⟩ := traces_bind_some h₇
    obtain ⟨_, s₉, log₁₇, log₁₈, rfl, -, h₉⟩ := traces_bind_some h₈
    have hsame : fqdns = fqdns' := by simpa using h₉.2.2
    rw [hsame]
    exact hfqdns

/-- An activation begins with its start. -/
theorem starts_of_activate {force : Bool} (h : (activate force).Traces env s log (some ()) t) :
    ∃ started rest, log = ⟨.activateChanges force, started⟩ :: rest := by
  obtain ⟨started, s₁, rest, rfl, -, -⟩ := traces_call_some h
  exact ⟨started, rest, rfl⟩

/-- A run that reconfigures the estate discovers all of it. -/
theorem discoversAll_of_reconfigure {info : Delivery} {fp : Text} {ahead : List (Exchange Request Ans)}
    (hahead : ⟨.deliveryPanel, some info⟩ ∈ ahead) (hnone : NoActivation ahead)
    (h : (reconfigure args info fp).Traces env s log (some ()) t) :
    DiscoversAll args (ahead ++ log) := by
  obtain ⟨_, s₁, log₁, log₁', rfl, hheal, h₁⟩ := traces_bind_some h
  obtain ⟨fqdns, s₂, log₂, log₂', rfl, hcreate, h₂⟩ := traces_bind_some h₁
  obtain ⟨_, s₃, log₃, log₃', rfl, hdiscover, h₃⟩ := traces_bind_some h₂
  obtain ⟨_, s₄, log₄, log₄', rfl, hactivate, h₄⟩ := traces_bind_some h₃
  obtain ⟨_, s₅, log₅, log₅', rfl, hshell, h₅⟩ := traces_bind_some h₄
  obtain ⟨answer, hpanel, rfl⟩ := layer_of_createObjects hcreate
  obtain ⟨hscanned, hall⟩ := discovered_of_discoverEstate hdiscover
  obtain ⟨started, rest, rfl⟩ := starts_of_activate hactivate
  have hsub : log₃.Sublist (ahead ++ (log₁ ++ (log₂ ++ log₃))) :=
    (List.sublist_append_right _ _).trans
      ((List.sublist_append_right _ _).trans (List.sublist_append_right _ _))
  have hfirst : NoActivation (ahead ++ (log₁ ++ (log₂ ++ log₃))) := by
    simp only [noActivation_append]
    exact ⟨hnone, noActivation_of_asks (asks_healEstate _) List.not_mem_nil hheal,
      noActivation_of_asks (asks_createObjects _ _) (by decide) hcreate,
      noActivation_of_asks (asks_discoverEstate _ _ _) List.not_mem_nil hdiscover⟩
  refine ⟨info, answer, ahead ++ (log₁ ++ (log₂ ++ log₃)), started, rest ++ (log₅ ++ log₅'),
    by simp, hfirst, List.mem_append_left _ hahead, fun hon => ?_, fun name hname => ?_, ?_, ?_⟩
  · exact List.mem_append_right _ (List.mem_append_right _ (List.mem_append_left _ (hpanel hon)))
  · exact (hall name hname).mono hsub
  · exact hscanned.mono hsub
  · exact (scanned_of_discover hshell).mono
      ((List.sublist_append_left _ _).trans (List.sublist_append_right _ _))

/-- A run that returns has found its own fingerprint, or has discovered all hosts of the estate,
whatever the site, the panels and the clock answer. -/
theorem discovered_of_setup (h : (setup digest args).Traces env s log (some ()) t) :
    FoundStored digest args log ∨ DiscoversAll args log := by
  obtain ⟨answer, s₁, rest, rfl, -, h⟩ := traces_call_some h
  cases answer with
  | none => exact absurd h not_traces_die
  | some info =>
      dsimp only at h
      split at h
      · exact absurd h not_traces_die
      · obtain ⟨plan, s₂, log₁, log₂, rfl, hplan, h⟩ := traces_bind_some h
        obtain ⟨answer, hpanel, rfl⟩ := layer_of_plannedSnmp hplan
        have hinfo : ⟨.deliveryPanel, some info⟩ ∈
            (⟨.deliveryPanel, some info⟩ :: log₁ : List (Exchange Request Ans)) :=
          List.mem_cons_self
        have hnone : NoActivation (⟨.deliveryPanel, some info⟩ :: log₁) :=
          List.forall_mem_cons.mpr ⟨fun _ => nofun,
            noActivation_of_asks (asks_plannedSnmp _) List.not_mem_nil hplan⟩
        split at h
        · rename_i hforce
          exact Or.inr (discoversAll_of_reconfigure hinfo hnone h)
        · rename_i hforce
          obtain ⟨stored, s₃, log₃, log₄, rfl, hread, hend⟩ := traces_bind_some h
          obtain ⟨host, s₄, rest, rfl, -, hstored⟩ := traces_call_some hread
          have hlabel : stored = host.bind fun host => host.labels.get fingerprintLabel := by
            simpa using hstored.2.2
          split at hend
          · rename_i hsame
            rw [hlabel] at hsame
            obtain ⟨config, rfl, hfound⟩ := Option.bind_eq_some_iff.mp hsame
            left
            refine ⟨by simpa using hforce, info, answer, config, List.mem_cons_self, ?_, ?_, hfound⟩
            · exact fun hon => List.mem_cons_of_mem _ (List.mem_append_left _ (hpanel hon))
            · simp
          · right
            have hasks : (readFingerprint info.host).Asks (Within []) :=
              asks_call (within_nil rfl) fun _ => trivial
            rw [← List.append_assoc log₁, ← List.cons_append, ← List.cons_append]
            refine discoversAll_of_reconfigure (List.mem_append_left _ hinfo) ?_ hend
            exact noActivation_append.mpr
              ⟨hnone, noActivation_of_asks hasks List.not_mem_nil hread⟩

/-- A first run with a responder. -/
theorem discovered_of_setup_core :
    ∃ t log, (setup modeDigest demoArgs).Traces (Serves corePanels) Site.empty log (some ()) t ∧
      (FoundStored modeDigest demoArgs log ∨ DiscoversAll demoArgs log) := by
  rcases exists_traces corePanels true (p := setup modeDigest demoArgs) (s := Site.empty)
    (by decide +kernel) with ⟨_, t, log, htraces⟩
  exact ⟨t, log, htraces, discovered_of_setup htraces⟩

end Setup

end Deploy
end DemoEstate
