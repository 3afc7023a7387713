import DemoEstate.Deploy.OneRule

/-!
# Trusting a stored fingerprint

Runs of the setup in turn, where any call may fail and any run may be cut short.  A run that
finds its fingerprint on the shell does nothing.  The fingerprint is stored after the last
discovery and before the last activation, so that it also stands for an activation that failed.

Main definitions:

- Definition {lit}`Executes`: a run in an environment where any call may fail.
- Structure {lit}`FastPath`: a run that finds its fingerprint.
- Definition {lit}`Performed`: the last discovery and the last activation of a run.
- Definition {lit}`Trusted`: whoever finds a fingerprint finds one of a finished run.

Main results:

- Theorem {lit}`exists_lastStored`: a fingerprint on the site was stored by one of the runs.
- Theorem {lit}`storing_split`: what a run does around the call that stores its fingerprint.
- Theorem {lit}`trusted_iff`: when fingerprints can be trusted.
-/

namespace DemoEstate
namespace Deploy

open Interaction
open Interaction.Program
open Transition

/-! ## Runs with their calls -/

/-- The run brings the site from one state to another; any call may fail. -/
def Executes (digest : Canon → Text) (s : Site) (run : SetupRun) (t : Site) : Prop :=
  (setup digest run.args).Traces (Answers run.panels) s run.log run.out t

/-- The site accepts a fingerprint for the host. -/
def Stores (host fp : Text) (e : Exchange Request Ans) : Prop :=
  ∃ labels, e = ⟨.putLabels host labels, (200 : Status)⟩ ∧ labels.get fingerprintLabel = some fp

/-- The fingerprint is the last one that the run stores on the host. -/
def StoredIn (log : List (Exchange Request Ans)) (host fp : Text) : Prop :=
  ∃ pre e post, log = pre ++ e :: post ∧ Stores host fp e ∧ ∀ e' ∈ post, ∀ fp', ¬ Stores host fp' e'

/-- The run is the last one that stores a fingerprint on the host. -/
def LastStored (runs : List SetupRun) (run : SetupRun) (host fp : Text) : Prop :=
  ∃ earlier later, runs = earlier ++ run :: later ∧ StoredIn run.log host fp ∧
    ∀ r ∈ later, ∀ e ∈ r.log, ∀ fp', ¬ Stores host fp' e

/-- The run reads the panels and the shell, finds its fingerprint there and returns. -/
structure FastPath (digest : Canon → Text) (run : SetupRun) (host fp : Text) : Prop where
  force : run.args.force = false
  shell : host = run.panels.delivery.host
  returned : run.out = some ()
  read : ∃ plan config planLog u,
    (plannedSnmp run.args).Traces (Answers run.panels) u planLog (some plan) u ∧
      fp = estateFingerprint digest run.args run.panels.delivery plan ∧
      run.log = ⟨.deliveryPanel, some run.panels.delivery⟩ :: planLog ++
        [⟨.getHost host, some config⟩] ∧
      config.labels.get fingerprintLabel = some fp

/-- The answer ends an activation with success: there was nothing to activate or nothing to wait
for, or the wait has ended.  Unlike in `Completes` of `Deploy.Activation`, the server is
trusted when it accepts the activation and names no run: no later answer could contradict it. -/
def Confirms : Exchange Request Ans → Prop
  | ⟨.activateChanges _, started⟩ =>
      started.1 = 422 ∨ (started.1 = 200 ∧ given started.2 = none)
  | ⟨.waitActivation _, status⟩ => status = (204 : Nat)
  | _ => False

/-- The last answer of a run confirms an activation. -/
def Confirmed (log : List (Exchange Request Ans)) : Prop :=
  ∃ e, log.getLast? = some e ∧ Confirms e

/-- Around the call that stores the fingerprint, the run has returned from the discovery of the
shell and from an activation that was confirmed. -/
def Performed (run : SetupRun) (host : Text) : Prop :=
  ∃ pre disc read store post fp u v w t,
    run.log = pre ++ (disc ++ read :: store :: post) ∧ Stores host fp store ∧
      (discover host).Traces (Answers run.panels) u disc (some ()) v ∧
      (activate run.args.forceForeign).Traces (Answers run.panels) w post (some ()) t ∧
      Confirmed post

/-- Whenever a further run takes the fast path, the run that stored the fingerprint it finds has
performed its last discovery and its last activation. -/
def Trusted (digest : Canon → Text) (runs : List SetupRun) (t : Site) : Prop :=
  ∀ run host fp u, Executes digest t run u → FastPath digest run host fp →
    ∀ storing, LastStored runs storing host fp → Performed storing host

/-! ## Where a fingerprint comes from -/

section Stored

variable {panels : Panels} {s t : Site} {host fp : Text} {digest : Canon → Text}

theorem storedFingerprint_setHost (name : Text) (config : HostConfig) :
    storedFingerprint (s.setHost name config) host =
      if name = host then config.labels.get fingerprintLabel else storedFingerprint s host := by
  simp only [storedFingerprint, Site.setHost, Dict.get_set]
  split <;> rfl

/-- No call but the one for the labels brings a fingerprint to a host. -/
theorem stored_of_serves {op : Request} {ans : Ans op} (hop : ∀ name labels, op ≠ .putLabels name labels)
    (h : Serves panels s op ans t) (ht : storedFingerprint t host = some fp) :
    storedFingerprint s host = some fp := by
  have hsame : t.hosts = s.hosts → storedFingerprint s host = some fp := by
    intro heq
    rwa [storedFingerprint, ← heq]
  by_cases hwrites : Part.hosts ∈ op.touches
  · cases op with
    | deleteFolder ident =>
        simp only [Serves] at h
        subst h
        obtain ⟨config, hget, hlabel⟩ := Option.bind_eq_some_iff.mp ht
        rw [Site.dropFolder, Dict.get_filter_eq_some_iff] at hget
        rw [storedFingerprint, hget.1]
        exact hlabel
    | postHost name folder attributes =>
        rcases h with ⟨-, -, -, rfl⟩ | ⟨-, rfl, -⟩
        · rw [storedFingerprint_setHost] at ht
          split at ht
          · cases ht
          · exact ht
        · exact ht
    | putHost name update =>
        rcases h with ⟨config, -, hget, rfl⟩ | ⟨-, rfl, -⟩
        · rw [storedFingerprint_setHost] at ht
          split at ht
          · rename_i heq
            rw [storedFingerprint, ← heq, hget]
            exact ht
          · exact ht
        · exact ht
    | deleteHost name =>
        simp only [Serves] at h
        subst h
        simp only [storedFingerprint, Site.dropHost, Dict.get_erase] at ht ⊢
        split at ht
        · cases ht
        · exact ht
    | _ => simp [Request.touches] at hwrites
  · apply hsame
    apply hosts_eq h hwrites
    cases op with
    | putLabels name labels => exact absurd rfl (hop name labels)
    | _ => simp [Request.touches]

/-- A fingerprint on a host has just been stored, or it was there before and none was stored. -/
theorem stored_of_answers {op : Request} {ans : Ans op} (h : Answers panels s op ans t)
    (ht : storedFingerprint t host = some fp) :
    Stores host fp ⟨op, ans⟩ ∨
      (storedFingerprint s host = some fp ∧ ∀ fp', ¬ Stores host fp' ⟨op, ans⟩) := by
  by_cases hop : ∀ name labels, op ≠ .putLabels name labels
  · right
    constructor
    · rcases h with h | ⟨-, rfl⟩
      · exact stored_of_serves hop h ht
      · exact ht
    · rintro fp' ⟨labels, heq, -⟩
      exact hop host labels (congrArg Sigma.fst heq)
  · push Not at hop
    obtain ⟨name, labels, rfl⟩ := hop
    have hrefused : ans ≠ (200 : Status) → t = s → storedFingerprint s host = some fp ∧
        ∀ fp', ¬ Stores host fp' ⟨.putLabels name labels, ans⟩ := by
      rintro hne rfl
      refine ⟨ht, ?_⟩
      rintro fp' ⟨labels', heq, -⟩
      cases heq
      exact hne rfl
    rcases h with (⟨config, rfl, -, rfl⟩ | ⟨hne, heq, -⟩) | ⟨hne, heq⟩
    · rw [storedFingerprint_setHost] at ht
      split at ht
      · rename_i heq
        subst heq
        exact Or.inl ⟨labels, rfl, ht⟩
      · rename_i hother
        refine Or.inr ⟨ht, ?_⟩
        rintro fp' ⟨labels', heq, -⟩
        cases heq
        exact hother rfl
    · exact Or.inr (hrefused hne heq)
    · exact Or.inr (hrefused hne heq)

/-- After a program, cut short or not, a fingerprint on a host is the last one that was stored, or
the one that was there before. -/
theorem stored_of_traces {α : Type} {p : Setup α} {log : List (Exchange Request Ans)}
    {out : Option α} (h : p.Traces (Answers panels) s log out t)
    (ht : storedFingerprint t host = some fp) :
    StoredIn log host fp ∨
      (storedFingerprint s host = some fp ∧ ∀ e ∈ log, ∀ fp', ¬ Stores host fp' e) := by
  induction p generalizing s log with
  | done a =>
      obtain ⟨rfl, rfl, -⟩ := h
      exact Or.inr ⟨ht, fun e he => absurd he List.not_mem_nil⟩
  | ask op next ih =>
      rcases h with ⟨rfl, rfl, -⟩ | ⟨ans, s', rest, rfl, hans, hrest⟩
      · exact Or.inr ⟨ht, fun e he => absurd he List.not_mem_nil⟩
      · rcases ih ans hrest with ⟨pre, e, post, rfl, hstores, hnone⟩ | ⟨hs', hnone⟩
        · exact Or.inl ⟨⟨op, ans⟩ :: pre, e, post, rfl, hstores, hnone⟩
        · rcases stored_of_answers hans hs' with hstores | ⟨hs, hnot⟩
          · exact Or.inl ⟨[], _, rest, rfl, hstores, hnone⟩
          · refine Or.inr ⟨hs, fun e he => ?_⟩
            rcases List.mem_cons.mp he with rfl | he
            · exact hnot
            · exact hnone e he

/-- A fingerprint on the site was stored by one of the runs. -/
theorem exists_lastStored {runs : List SetupRun} (h : Run (Executes digest) s runs t)
    (ht : storedFingerprint t host = some fp) :
    (∃ run, LastStored runs run host fp) ∨
      (storedFingerprint s host = some fp ∧ ∀ r ∈ runs, ∀ e ∈ r.log, ∀ fp', ¬ Stores host fp' e) := by
  induction h with
  | nil s => exact Or.inr ⟨ht, fun r hr => absurd hr List.not_mem_nil⟩
  | @cons s s' t run runs head _ ih =>
      rcases ih ht with ⟨last, earlier, later, rfl, hstored, hlater⟩ | ⟨hs', hnone⟩
      · exact Or.inl ⟨last, run :: earlier, later, rfl, hstored, hlater⟩
      · rcases stored_of_traces head hs' with hstored | ⟨hs, hnot⟩
        · exact Or.inl ⟨run, [], runs, rfl, hstored, hnone⟩
        · refine Or.inr ⟨hs, fun r hr => ?_⟩
          rcases List.mem_cons.mp hr with rfl | hr
          · exact hnot
          · exact hnone r hr

theorem LastStored.mem {runs : List SetupRun} {run : SetupRun} (h : LastStored runs run host fp) :
    run ∈ runs := by
  obtain ⟨_, _, rfl, -⟩ := h
  exact List.mem_append_right _ List.mem_cons_self

theorem LastStored.storedIn {runs : List SetupRun} {run : SetupRun}
    (h : LastStored runs run host fp) : StoredIn run.log host fp := by
  obtain ⟨_, _, -, hstored, -⟩ := h
  exact hstored

theorem StoredIn.exists_mem {log : List (Exchange Request Ans)} (h : StoredIn log host fp) :
    ∃ e ∈ log, Stores host fp e := by
  obtain ⟨_, e, _, rfl, hstores, -⟩ := h
  exact ⟨e, List.mem_append_right _ List.mem_cons_self, hstores⟩

/-- Only one run is the last one to store a fingerprint on a host. -/
theorem LastStored.unique {runs : List SetupRun} {run run' : SetupRun} {fp' : Text}
    (h : LastStored runs run host fp) (h' : LastStored runs run' host fp') : run = run' := by
  obtain ⟨earlier, later, rfl, ⟨pre, e, post, hlog, hstores, -⟩, hlater⟩ := h
  obtain ⟨earlier', later', heq, ⟨pre', e', post', hlog', hstores', -⟩, hlater'⟩ := h'
  have hmem : e ∈ run.log := by simp [hlog]
  have hmem' : e' ∈ run'.log := by simp [hlog']
  rcases List.append_eq_append_iff.mp heq with ⟨mid, rfl, hmid⟩ | ⟨mid, rfl, hmid⟩
  · cases mid with
    | nil => exact (List.cons.inj hmid).1
    | cons r mid =>
        obtain ⟨rfl, rfl⟩ := List.cons.inj hmid
        exact absurd hstores' (hlater run' (by simp) e' hmem' fp')
  · cases mid with
    | nil => exact (List.cons.inj hmid).1.symm
    | cons r mid =>
        obtain ⟨rfl, rfl⟩ := List.cons.inj hmid
        exact absurd hstores (hlater' run (by simp) e hmem fp)

/-- A program whose calls write nothing leaves the site alone, whether they fail or not. -/
theorem site_of_log {α : Type} {p : Setup α} {log : List (Exchange Request Ans)} {out : Option α}
    (h : p.Traces (Answers panels) s log out t) (hlog : ∀ e ∈ log, Within [.running] e.1) : t = s := by
  induction p generalizing s log with
  | done a => exact h.2.1
  | ask op next ih =>
      rcases h with ⟨-, heq, -⟩ | ⟨ans, s', rest, rfl, hans, hrest⟩
      · exact heq
      · rw [ih ans hrest fun e he => hlog e (List.mem_cons_of_mem _ he)]
        rcases hans with hans | ⟨-, heq⟩
        · have hasks : (call op : Setup (Ans op)).Asks (Within [.running]) :=
            ⟨hlog _ List.mem_cons_self, fun _ => trivial⟩
          have hcall : (call op).Runs (Serves panels) s ans s' := ⟨ans, s', hans, rfl, rfl⟩
          exact site_of_asks hasks hcall
        · exact heq

end Stored

/-! ## Around the call that stores the fingerprint -/

section Split

variable {panels : Panels} {s t : Site} {host fp fp' : Text} {digest : Canon → Text} {args : Args}
  {info : Delivery} {log : List (Exchange Request Ans)} {out : Option Unit}
  {e : Exchange Request Ans}

theorem Stores.not_within (h : Stores host fp e) {parts : List Part} (hparts : Part.labels ∉ parts) :
    ¬ Within parts e.1 := by
  obtain ⟨labels, rfl, -⟩ := h
  exact fun hwithin => hparts (hwithin (by simp [Request.touches]))

/-- The call that stores the fingerprint comes right after a read of the shell, and is the last
one of its function. -/
theorem writeFingerprint_split (h : (writeFingerprint info.host fp).Traces (Answers panels) s log out t)
    (he : e ∈ log) (hstores : Stores host fp' e) :
    host = info.host ∧ fp' = fp ∧ ∃ read, log = [read, e] ∧
      (writeFingerprint info.host fp).Traces (Answers panels) s [read, e] (some ()) t := by
  rcases traces_call.mp h with ⟨rfl, -⟩ | ⟨read, s₁, rest, rfl, hread, hrest⟩
  · exact absurd he List.not_mem_nil
  · rcases List.mem_cons.mp he with rfl | he
    · obtain ⟨labels, heq, -⟩ := hstores
      cases heq
    · dsimp only at hrest
      split at hrest
      · obtain ⟨rfl, -⟩ := hrest
        exact absurd he List.not_mem_nil
      · rename_i hnew
        rcases traces_call.mp hrest with ⟨rfl, -⟩ | ⟨status, s₂, rest, rfl, hput, hend⟩
        · exact absurd he List.not_mem_nil
        · rcases List.mem_cons.mp he with rfl | he
          · obtain ⟨labels, heq, hlabel⟩ := hstores
            cases heq
            rw [Dict.get_set_self, Option.some.injEq] at hlabel
            obtain ⟨rfl, rfl, -⟩ := hend
            refine ⟨rfl, hlabel.symm, ⟨_, read⟩, rfl, ?_⟩
            refine traces_call.mpr (Or.inr ⟨read, s₁, _, rfl, hread, ?_⟩)
            dsimp only
            rw [if_neg hnew]
            exact traces_call.mpr (Or.inr ⟨_, t, [], rfl, hput, rfl, rfl, Or.inl rfl⟩)
          · exact absurd (asks_expect.log hend he) (hstores.not_within List.not_mem_nil)

/-- Around the call that stores the fingerprint, a run has returned from the discovery of the
shell, and goes on with the activation. -/
theorem reconfigure_split (h : (reconfigure args info fp).Traces (Answers panels) s log out t)
    (he : e ∈ log) (hstores : Stores host fp' e) :
    host = info.host ∧ fp' = fp ∧ ∃ pre disc read post u v w,
      log = pre ++ (disc ++ [read, e]) ++ post ∧
      (discover info.host).Traces (Answers panels) u disc (some ()) v ∧
      (activate args.forceForeign).Traces (Answers panels) w post out t ∧
      Reaches (Answers panels) (reconfigure args info fp) s (pre ++ (disc ++ [read, e]))
        (activate args.forceForeign) w := by
  have hnil : ¬ Within [.running] e.1 := hstores.not_within (by decide)
  obtain ⟨_, s₁, l₁, r₁, rfl, he, h₁, h⟩ := (asks_healEstate _).skip h he hnil
  obtain ⟨fqdns, s₂, l₂, r₂, rfl, he, h₂, h⟩ :=
    (asks_createObjects _ _).skip h he (hstores.not_within (by simp))
  obtain ⟨_, s₃, l₃, r₃, rfl, he, h₃, h⟩ := (asks_discoverEstate _ _ _).skip h he hnil
  obtain ⟨_, s₄, l₄, r₄, rfl, he, h₄, h⟩ := (asks_activate _).skip h he hnil
  obtain ⟨_, s₅, disc, r₅, rfl, he, h₅, h⟩ := (asks_discover _).skip h he hnil
  have hpre : Reaches (Answers panels) (reconfigure args info fp) s (l₁ ++ (l₂ ++ (l₃ ++ (l₄ ++ disc))))
      (writeFingerprint info.host fp >>= fun _ => activate args.forceForeign) s₅ :=
    (reaches_bind h₁).trans <| (reaches_bind h₂).trans <| (reaches_bind h₃).trans <|
      (reaches_bind h₄).trans (reaches_bind h₅)
  rcases traces_bind.mp h with ⟨rfl, hcut⟩ | ⟨_, s₆, l₆, post, rfl, hwrite, hlast⟩
  · obtain ⟨hhost, hfp, read, rfl, hwrite⟩ := writeFingerprint_split hcut he hstores
    refine ⟨hhost, hfp, l₁ ++ (l₂ ++ (l₃ ++ l₄)), disc, read, [], s₄, s₅, t, by simp, h₅,
      Or.inl ⟨rfl, rfl, rfl⟩, ?_⟩
    have hall := hpre.trans (reaches_bind hwrite)
    simpa using hall
  · have hmem : e ∈ l₆ := by
      rcases List.mem_append.mp he with he | he
      · exact he
      · exact absurd ((asks_activate _).log hlast he) hnil
    obtain ⟨hhost, hfp, read, rfl, hwrite⟩ := writeFingerprint_split hwrite hmem hstores
    refine ⟨hhost, hfp, l₁ ++ (l₂ ++ (l₃ ++ l₄)), disc, read, post, s₄, s₅, s₆, by simp, h₅, hlast, ?_⟩
    have hall := hpre.trans (reaches_bind hwrite)
    simpa using hall

theorem not_mem_of_die {error : Failure} (h : (die error : Setup Unit).Traces (Answers panels) s log out t) :
    log = [] := by
  rcases h with ⟨hnil, -⟩ | ⟨never, -⟩
  · exact hnil
  · exact nomatch never

/-- What a run does up to the call that stores its fingerprint, and after it. -/
theorem storing_split {run : SetupRun} (h : Executes digest s run t) (he : e ∈ run.log)
    (hstores : Stores host fp e) :
    host = run.panels.delivery.host ∧
      (run.panels.delivery.carried.filter fun h => h.state = none).map Carried.name = [] ∧
      ∃ plan planLog pre disc read post u v w,
        fp = estateFingerprint digest run.args run.panels.delivery plan ∧
        (plannedSnmp run.args).Traces (Answers run.panels) s planLog (some plan) s ∧
        run.log = pre ++ (disc ++ [read, e]) ++ post ∧
        (discover host).Traces (Answers run.panels) u disc (some ()) v ∧
        (activate run.args.forceForeign).Traces (Answers run.panels) w post run.out t ∧
        Reaches (Answers run.panels) (setup digest run.args) s (pre ++ (disc ++ [read, e]))
          (activate run.args.forceForeign) w := by
  have hnil : ¬ Within [.running] e.1 := hstores.not_within (by decide)
  rcases run with ⟨args, panels, log, out⟩
  change (setup digest args).Traces (Answers panels) s log out t at h
  change e ∈ log at he
  rcases traces_call.mp h with ⟨rfl, -⟩ | ⟨answer, s₁, rest, rfl, hanswer, hrun⟩
  · exact absurd he List.not_mem_nil
  · replace he : e ∈ rest := by
      rcases List.mem_cons.mp he with rfl | he
      · exact absurd (within_nil rfl) hnil
      · exact he
    rcases hanswer with ⟨rfl, rfl⟩ | ⟨rfl, -⟩
    · dsimp only at hrun
      split at hrun
      · rw [not_mem_of_die hrun] at he
        exact absurd he List.not_mem_nil
      · rename_i hmissing
        obtain ⟨plan, s₂, planLog, rest₂, rfl, he₂, hplan, hrun₂⟩ :=
          (asks_plannedSnmp _).skip hrun he hnil
        obtain rfl := site_of_log hplan fun e he => (asks_plannedSnmp _).log hplan he
        generalize hfp : estateFingerprint digest args panels.delivery plan = current at hrun₂
        -- forced or not, the run comes to the reconfiguration
        have hpanel : ∀ l out' t', (if args.force then reconfigure args panels.delivery current
            else do
              let stored ← readFingerprint panels.delivery.host
              if stored = some current then pure ()
              else reconfigure args panels.delivery current).Traces (Answers panels) s₂ l out' t' →
            (setup digest args).Traces (Answers panels) s₂
              (⟨.deliveryPanel, some panels.delivery⟩ :: planLog ++ l) out' t' := by
          intro l out' t' hrest
          refine traces_call.mpr (Or.inr ⟨some panels.delivery, s₂, planLog ++ l, rfl,
            Or.inl ⟨rfl, rfl⟩, ?_⟩)
          dsimp only
          rw [if_neg hmissing]
          refine traces_bind.mpr (Or.inr ⟨plan, s₂, planLog, l, rfl, hplan, ?_⟩)
          rw [hfp]
          exact hrest
        have hreconfigure : ∃ l r s₃, rest₂ = l ++ r ∧ e ∈ r ∧
            (reconfigure args panels.delivery current).Traces (Answers panels) s₃ r out t ∧
            Reaches (Answers panels) (setup digest args) s₂
              (⟨.deliveryPanel, some panels.delivery⟩ :: planLog ++ l)
              (reconfigure args panels.delivery current) s₃ := by
          split at hrun₂
          · rename_i hforce
            refine ⟨[], rest₂, s₂, rfl, he₂, hrun₂, fun l out' t' hrest => ?_⟩
            rw [List.append_nil]
            apply hpanel
            rw [if_pos hforce]
            exact hrest
          · rename_i hforce
            have hread : (readFingerprint panels.delivery.host).Asks (Within [.running]) :=
              asks_call (within_nil rfl) fun _ => trivial
            obtain ⟨stored, s₃, l, r, hlog, he₃, hstored, hrun₃⟩ := hread.skip hrun₂ he₂ hnil
            split at hrun₃
            · obtain ⟨rfl, -⟩ := hrun₃
              exact absurd he₃ List.not_mem_nil
            · rename_i hdiffers
              refine ⟨l, r, s₃, hlog, he₃, hrun₃, fun l' out' t' hrest => ?_⟩
              rw [List.append_assoc]
              apply hpanel
              rw [if_neg hforce]
              refine traces_bind.mpr (Or.inr ⟨stored, s₃, l, l', rfl, hstored, ?_⟩)
              rw [if_neg hdiffers]
              exact hrest
        obtain ⟨l, r, s₃, rfl, he₃, hrun₃, hreach⟩ := hreconfigure
        obtain ⟨rfl, rfl, pre, disc, read, post, u, v, w, rfl, hdisc, hpost, hlast⟩ :=
          reconfigure_split hrun₃ he₃ hstores
        refine ⟨rfl, by simpa using hmissing, plan, planLog,
          ⟨.deliveryPanel, some panels.delivery⟩ :: planLog ++ l ++ pre, disc, read, post, u, v, w,
          hfp.symm, hplan, by simp, hdisc, hpost, ?_⟩
        have hall := hreach.trans hlast
        simpa using hall
    · have hnone := not_mem_of_die hrun
      rw [hnone] at he
      exact absurd he List.not_mem_nil

end Split

/-! ## The last activation -/

section Confirmed

variable {panels : Panels} {s t s' : Site} {log : List (Exchange Request Ans)} {out : Option Unit}

theorem not_confirmed_nil : ¬ Confirmed [] :=
  fun ⟨_, hlast, _⟩ => nomatch hlast

theorem confirmed_singleton {e : Exchange Request Ans} : Confirmed [e] ↔ Confirms e := by
  simp [Confirmed]

/-- What confirms an activation is the last answer. -/
theorem confirmed_append (pre : List (Exchange Request Ans)) (hlog : log ≠ []) :
    Confirmed (pre ++ log) ↔ Confirmed log := by
  rw [Confirmed, Confirmed, List.getLast?_append_of_ne_nil _ hlog]

theorem confirmed_cons {e : Exchange Request Ans} (hlog : log ≠ []) :
    Confirmed (e :: log) ↔ Confirmed log :=
  confirmed_append [e] hlog

/-- A wait whose last answer confirms the activation has come to its end. -/
theorem waitForActivation_confirmed {run : Text} {n : Nat}
    (h : (waitForActivation run n).Traces (Answers panels) s log out t) (hlast : Confirmed log) :
    (waitForActivation run n).Traces (Answers panels) s log (some ()) t := by
  induction n generalizing s log with
  | zero =>
      obtain ⟨rfl, -⟩ := h
      exact absurd hlast not_confirmed_nil
  | succ n ih =>
      rcases traces_call.mp h with ⟨rfl, -⟩ | ⟨before, s₁, rest, rfl, hbefore, hrest⟩
      · exact absurd hlast not_confirmed_nil
      · refine traces_call.mpr (Or.inr ⟨before, s₁, rest, rfl, hbefore, ?_⟩)
        by_cases hnil : rest = []
        · subst hnil
          exact absurd (confirmed_singleton.mp hlast) id
        · rw [confirmed_cons hnil] at hlast
          split at hrest
          · rename_i htime
            rw [if_pos htime]
            rcases traces_call.mp hrest with ⟨rfl, -⟩ | ⟨status, s₂, rest₂, rfl, hstatus, hend⟩
            · exact absurd rfl hnil
            · refine traces_call.mpr (Or.inr ⟨status, s₂, rest₂, rfl, hstatus, ?_⟩)
              have hagain : status ≠ 204 → Confirmed rest₂ := by
                intro hstatus
                by_cases hnil : rest₂ = []
                · subst hnil
                  exact absurd (confirmed_singleton.mp hlast) hstatus
                · exact (confirmed_cons hnil).mp hlast
              split at hend
              · rename_i hdone
                rw [if_pos hdone]
                exact ⟨hend.1, hend.2.1, Or.inl rfl⟩
              · rename_i hdone
                rw [if_neg hdone]
                split at hend
                · rename_i hredirect
                  rw [if_pos hredirect]
                  exact ih hend (hagain hdone)
                · rw [not_mem_of_die hend] at hagain
                  exact absurd (hagain hdone) not_confirmed_nil
          · exact absurd hrest.1 hnil

/-- An activation whose last answer confirms it has come to its end. -/
theorem activate_confirmed {forceForeign : Bool}
    (h : (activate forceForeign).Traces (Answers panels) s log out t) (hlast : Confirmed log) :
    (activate forceForeign).Traces (Answers panels) s log (some ()) t := by
  rcases traces_call.mp h with ⟨rfl, -⟩ | ⟨started, s₁, rest, rfl, hstarted, hrest⟩
  · exact absurd hlast not_confirmed_nil
  · refine traces_call.mpr (Or.inr ⟨started, s₁, rest, rfl, hstarted, ?_⟩)
    have hagain : ¬ (started.1 = 422 ∨ (started.1 = 200 ∧ given started.2 = none)) →
        Confirmed rest := by
      intro hstarted
      by_cases hnil : rest = []
      · subst hnil
        exact absurd (confirmed_singleton.mp hlast) hstarted
      · exact (confirmed_cons hnil).mp hlast
    have hdie : ∀ error : Failure,
        (die error : Setup Unit).Traces (Answers panels) s₁ rest out t →
          started.1 = 422 ∨ (started.1 = 200 ∧ given started.2 = none) := by
      intro error hend
      by_contra hstarted
      rw [not_mem_of_die hend] at hagain
      exact not_confirmed_nil (hagain hstarted)
    split at hrest
    · rename_i hnothing
      rw [if_pos hnothing]
      exact ⟨hrest.1, hrest.2.1, Or.inl rfl⟩
    · rename_i hnothing
      rw [if_neg hnothing]
      split at hrest
      · rename_i hok
        rw [if_pos hok]
        split at hrest
        · exact ⟨hrest.1, hrest.2.1, Or.inl rfl⟩
        · rename_i run hrun
          refine waitForActivation_confirmed hrest (hagain ?_)
          simp [hnothing, hrun]
      · rename_i hok
        split at hrest
        · exact absurd (hdie _ hrest) (by simp [hnothing, hok])
        · exact absurd (hdie _ hrest) (by simp [hnothing, hok])

/-- The devices are planned without the site. -/
theorem plannedSnmp_traces {args : Args} {plan : List Planned}
    (h : (plannedSnmp args).Traces (Answers panels) s log (some plan) s) :
    (plannedSnmp args).Traces (Answers panels) s' log (some plan) s' := by
  unfold plannedSnmp at h ⊢
  split
  · rename_i hoff
    rw [if_pos hoff] at h
    exact ⟨h.1, rfl, h.2.2⟩
  · rename_i hoff
    rw [if_neg hoff] at h
    obtain ⟨info, s₁, rest, rfl, hinfo, hrest⟩ := traces_call_some h
    have hinfo' : Answers panels s' .netsimPanel info s' := by
      rcases hinfo with ⟨hinfo, -⟩ | ⟨hinfo, -⟩
      · exact Or.inl ⟨hinfo, rfl⟩
      · exact Or.inr ⟨hinfo, rfl⟩
    refine traces_call.mpr (Or.inr ⟨info, s', rest, rfl, hinfo', ?_⟩)
    cases info with
    | some info => exact ⟨hrest.1, rfl, hrest.2.2⟩
    | none =>
        dsimp only at hrest ⊢
        split at hrest
        · rcases hrest with ⟨-, -, hnone⟩ | ⟨never, -⟩
          · exact nomatch hnone
          · exact nomatch never
        · rename_i hon
          rw [if_neg hon]
          exact ⟨hrest.1, rfl, hrest.2.2⟩

end Confirmed

/-! ## When fingerprints can be trusted -/

section Trusted

variable {digest : Canon → Text} {runs : List SetupRun} {run : SetupRun} {s t : Site}
  {host fp : Text}

/-- A run that finds its fingerprint leaves the site alone. -/
theorem FastPath.site_eq (h : FastPath digest run host fp) (hrun : Executes digest s run t) :
    t = s ∧ storedFingerprint s host = some fp := by
  obtain ⟨plan, config, planLog, u, hplan, hfp, hlog, hlabel⟩ := h.read
  have hreads : ∀ e ∈ run.log, Within [.running] e.1 := by
    intro e he
    rw [hlog, List.cons_append, List.mem_cons, List.mem_append, List.mem_singleton] at he
    rcases he with rfl | he | rfl
    · exact within_nil rfl
    · exact (asks_plannedSnmp _).log hplan he
    · exact within_nil rfl
  rw [Executes] at hrun
  refine ⟨site_of_log hrun hreads, ?_⟩
  rw [hlog] at hrun
  obtain ⟨u', hcut, hread⟩ := traces_concat hrun
  have hu' : u' = s := by
    apply site_of_log hcut
    intro e he
    apply hreads
    rw [hlog]
    exact List.mem_append_left _ he
  rw [hu'] at hread
  rcases hread with ⟨hget, -⟩ | ⟨hnone, -⟩
  · rw [storedFingerprint, ← hget]
    exact hlabel
  · cases hnone

/-- A run that does not force and finds its fingerprint on the shell takes the fast path. -/
theorem exists_fastPath {args : Args} {panels : Panels} {plan : List Planned}
    {planLog : List (Exchange Request Ans)}
    (hmissing : (panels.delivery.carried.filter fun h => h.state = none).map Carried.name = [])
    (hplan : (plannedSnmp args).Traces (Answers panels) s planLog (some plan) s)
    (hfp : fp = estateFingerprint digest args panels.delivery plan)
    (hstored : storedFingerprint t panels.delivery.host = some fp) :
    ∃ run, Executes digest t run t ∧ FastPath digest run panels.delivery.host fp := by
  obtain ⟨config, hget, hlabel⟩ := Option.bind_eq_some_iff.mp hstored
  let unforced : Args := { args with force := false }
  have hplan' : (plannedSnmp unforced).Traces (Answers panels) t planLog (some plan) t :=
    plannedSnmp_traces hplan
  refine ⟨⟨unforced, panels, ⟨.deliveryPanel, some panels.delivery⟩ :: planLog ++
    [⟨.getHost panels.delivery.host, some config⟩], some ()⟩, ?_, rfl, rfl, rfl,
    plan, config, planLog, t, hplan', hfp, rfl, hlabel⟩
  refine traces_call.mpr (Or.inr ⟨some panels.delivery, t, _, rfl, Or.inl ⟨rfl, rfl⟩, ?_⟩)
  dsimp only
  rw [if_neg (not_not.mpr hmissing)]
  refine traces_bind.mpr (Or.inr ⟨plan, t, planLog, _, rfl, hplan', ?_⟩)
  rw [if_neg (by simp [unforced])]
  refine traces_call.mpr (Or.inr ⟨some config, t, [], rfl, Or.inl ⟨hget.symm, rfl⟩, ?_⟩)
  have hequal : (config.labels.get fingerprintLabel) =
      some (estateFingerprint digest unforced panels.delivery plan) := by
    rw [hlabel, hfp]
    rfl
  dsimp only
  rw [Option.bind_some, if_pos hequal]
  exact ⟨rfl, rfl, Or.inl rfl⟩

/-- A run that stored a fingerprint has performed its last steps as soon as its last answer
confirms an activation. -/
theorem performed_of_confirmed (hstored : StoredIn run.log host fp) (h : Executes digest s run t)
    (hlast : Confirmed run.log) : Performed run host := by
  obtain ⟨e, he, hstores⟩ := hstored.exists_mem
  obtain ⟨-, -, plan, planLog, pre, disc, read, post, u, v, w, -, -, hsplit, hdisc, hpost, -⟩ :=
    storing_split h he hstores
  have hconfirmed : Confirmed post := by
    by_cases hnil : post = []
    · -- the call that stores the fingerprint confirms nothing
      obtain ⟨labels, rfl, -⟩ := hstores
      subst hnil
      have hput : pre ++ (disc ++ [read, ⟨.putLabels host labels, (200 : Status)⟩]) ++ [] =
          (pre ++ (disc ++ [read])) ++ [⟨.putLabels host labels, (200 : Status)⟩] := by simp
      rw [hsplit, hput, confirmed_append _ (List.cons_ne_nil _ _), confirmed_singleton] at hlast
      exact absurd hlast id
    · rwa [hsplit, confirmed_append _ hnil] at hlast
  exact ⟨pre, disc, read, e, post, fp, u, v, w, t, by simp [hsplit], hstores, hdisc,
    activate_confirmed hpost hconfirmed, hconfirmed⟩

theorem Performed.confirmed (h : Performed run host) : Confirmed run.log := by
  obtain ⟨pre, disc, read, e, post, _, _, _, _, _, hlog, -, -, -, hlast⟩ := h
  have hne : post ≠ [] := by
    rintro rfl
    exact not_confirmed_nil hlast
  rw [hlog, show pre ++ (disc ++ read :: e :: post) = (pre ++ (disc ++ [read, e])) ++ post by simp,
    confirmed_append _ hne]
  exact hlast

/-- After any history, fingerprints can be trusted exactly when each run whose fingerprint is
still on its shell has come to the answer that confirms an activation. -/
theorem trusted_iff (h : Run (Executes digest) s runs t) :
    Trusted digest runs t ↔
      ∀ storing host fp, LastStored runs storing host fp → storedFingerprint t host = some fp →
        Confirmed storing.log := by
  constructor
  · intro htrusted storing host fp hlast hstored
    obtain ⟨e, he, hstores⟩ := hlast.storedIn.exists_mem
    obtain ⟨u, v, hexec⟩ := h.exists_step hlast.mem
    obtain ⟨rfl, hmissing, plan, planLog, -, -, -, -, -, -, -, hfp, hplan, -⟩ :=
      storing_split hexec he hstores
    obtain ⟨run, hrun, hfast⟩ := exists_fastPath hmissing hplan hfp hstored
    exact (htrusted run _ fp t hrun hfast storing hlast).confirmed
  · intro hconfirmed run host fp u hrun hfast storing hlast
    have hstored := (hfast.site_eq hrun).2
    obtain ⟨u, v, hexec⟩ := h.exists_step hlast.mem
    exact performed_of_confirmed hlast.storedIn hexec (hconfirmed storing host fp hlast hstored)

/-- A first run of the setup on an empty site, to its end. -/
theorem exists_first_run :
    ∃ log t, Executes modeDigest Site.empty ⟨demoArgs, bareShell, log, some ()⟩ t ∧
      storedFingerprint t bareShell.delivery.host = some "v12-s".toList := by
  obtain ⟨⟨_, t⟩, hrun, hlabel⟩ := Option.map_eq_some_iff.mp
    (by decide +kernel : ((setup modeDigest demoArgs).run (serve bareShell true) Site.empty).map
      (fun r => storedFingerprint r.2 bareShell.delivery.host) = some (some "v12-s".toList))
  have hserved : (setup modeDigest demoArgs).Runs (Answers bareShell) Site.empty () t :=
    (runs_of_serve hrun).mono fun _ _ _ _ => Or.inl
  obtain ⟨log, hlog⟩ := exists_traces_of_runs hserved
  exact ⟨log, t, hlog, hlabel⟩

theorem trusted_iff_first :
    ∃ run t, storedFingerprint t bareShell.delivery.host = some "v12-s".toList ∧
      (Trusted modeDigest [run] t ↔
        ∀ storing host fp, LastStored [run] storing host fp → storedFingerprint t host = some fp →
          Confirmed storing.log) := by
  obtain ⟨log, t, hexec, hlabel⟩ := exists_first_run
  exact ⟨_, t, hlabel, trusted_iff (.cons hexec (.nil t))⟩

/-- The site accepts the fingerprint and fails the activation after it; the next run finds the
fingerprint and returns. -/
theorem not_trusted_failed :
    ¬ ∀ (digest : Canon → Text) (runs : List SetupRun) (s t : Site),
      Run (Executes digest) s runs t → Trusted digest runs t := by
  intro hclaim
  obtain ⟨log, t, hexec, hlabel⟩ := exists_first_run
  have hempty : storedFingerprint Site.empty bareShell.delivery.host = none := rfl
  have hstored : StoredIn log bareShell.delivery.host "v12-s".toList := by
    rcases stored_of_traces hexec hlabel with hstored | ⟨hthere, -⟩
    · exact hstored
    · rw [hempty] at hthere
      exact nomatch hthere
  obtain ⟨e, he, hstores⟩ := hstored.exists_mem
  obtain ⟨-, hmissing, plan, planLog, pre, disc, read, post, u, v, w, hfp, hplan, -, -, hpost,
    hreach⟩ := storing_split hexec he hstores
  have hsame : t = w := site_of_log hpost fun e he => (asks_activate _).log hpost he
  subst hsame
  -- the same run again, but its last activation is refused
  let refused : Exchange Request Ans := ⟨.activateChanges false, (500, none)⟩
  have hrefused : (activate false).Traces (Answers bareShell) t [refused] none t :=
    Or.inr ⟨(500, none), t, [], rfl, Or.inr ⟨trivial, rfl⟩, Or.inl ⟨rfl, rfl, rfl⟩⟩
  let failed : SetupRun :=
    ⟨demoArgs, bareShell, (pre ++ (disc ++ [read, e])) ++ [refused], none⟩
  have hfailed : Executes modeDigest Site.empty failed t := hreach _ _ _ hrefused
  have hlast : LastStored [failed] failed bareShell.delivery.host "v12-s".toList := by
    refine ⟨[], [], rfl, ⟨pre ++ (disc ++ [read]), e, [refused], by simp [failed], hstores, ?_⟩, ?_⟩
    · rintro e' he' fp' ⟨labels, heq, -⟩
      rw [List.mem_singleton.mp he'] at heq
      exact nomatch congrArg Sigma.fst heq
    · exact fun r hr => absurd hr List.not_mem_nil
  obtain ⟨run, hrun, hfast⟩ := exists_fastPath hmissing hplan hfp hlabel
  have hperformed := hclaim modeDigest [failed] Site.empty t (.cons hfailed (.nil t)) run _ _ t
    hrun hfast failed hlast
  have hconfirmed := (confirmed_append _ (List.cons_ne_nil _ _)).mp hperformed.confirmed
  rcases confirmed_singleton.mp hconfirmed with hnothing | ⟨hok, -⟩
  · revert hnothing
    decide
  · revert hok
    decide

end Trusted

end Deploy
end DemoEstate
