import DemoEstate.Library.Transition
import DemoEstate.Library.Dict
import DemoEstate.Netsim.Devices

/-!
# Starting the estate natively

The native runtime keeps a process that already runs: the delivery shell whenever its process is
alive, the network responder after a look at its devices, a flag and the hash of its code.  A
kept process has the configuration of the start it came from.

Main definitions:

- Definition {lit}`cmdUp`: a start of the estate, and which processes it keeps.
- Definition {lit}`ReuseSound`: a kept process is as a fresh one would be.

Main results:

- Theorem {lit}`startEnv_eq_iff`, {lit}`devices_eq_iff`: when two starts configure a process alike.
- Theorem {lit}`reuseSound_iff`: when reuse is sound.
- Theorem {lit}`reuseSound_of_run`: reuse along a run of starts that agree.
-/

namespace DemoEstate
namespace Launch

open Netsim

/-! ## The configuration of a start -/

inductive Mode
  | selfHosted
  | cloud
deriving DecidableEq

inductive Scale
  | minimal
  | standard
  | full
  | company
deriving DecidableEq

/-- What a scale consists of. -/
structure ScaleSpec where
  hosts : Text
  snmp : Bool
  fleet : Bool
deriving DecidableEq

/-- The scales; no host is named where the whole roster runs. -/
def scales : Scale → ScaleSpec
  | .minimal => { hosts := "payment-api,db-postgres-01".toList, snmp := false, fleet := false }
  | .standard => { hosts := [], snmp := false, fleet := false }
  | .full => { hosts := [], snmp := true, fleet := false }
  | .company => { hosts := [], snmp := true, fleet := true }

/-- The arguments of a start. -/
structure UpArgs where
  mode : Mode
  scale : Scale
  replicas : ℤ
  noSnmp : Bool
  force : Bool
deriving DecidableEq

def deliveryFor : Mode → Text
  | .selfHosted => "datasource".toList
  | .cloud => "piggyback".toList

/-- The environment that tells the shell what to carry. -/
def shellEnv (args : UpArgs) : List (Text × Text) :=
  [("ESTATE_HOSTS".toList, (scales args.scale).hosts),
   ("ESTATE_REPLICAS".toList, Text.str args.replicas),
   ("ESTATE_FLEET".toList, if (scales args.scale).fleet then ['1'] else ['0']),
   ("DELIVERY_MODE".toList, deliveryFor args.mode)]

def agentOutputDir : Text :=
  "/var/tmp/cmk-demo-agent-output".toList

/-- What a native start adds to the inherited environment. -/
def startEnv (args : UpArgs) : List (Text × Text) :=
  shellEnv args ++
    [("AGENT_PORT".toList, "6559".toList), ("HTTP_PORT".toList, "8099".toList)] ++
    if deliveryFor args.mode = "datasource".toList then [("AGENT_OUTPUT_DIR".toList, agentOutputDir)]
    else []

/-- The replayed devices: how many, and the start of their names. -/
def replayRoster : List (Nat × String) :=
  [(2, "sw-dc-dist-"), (6, "sw-dc-tor-"), (2, "sw-dc-tor-"), (1, "sw-dc-oob-"), (2, "fw-"),
   (1, "fw-dmz-"), (2, "lb-"), (2, "nas-"), (2, "san-fc-"), (16, "oob-idrac-"), (1, "ntp-gps-"),
   (3, "ups-dc-"), (4, "pdu-dc-"), (2, "pdu-dc-"), (2, "pdu-dc-"), (6, "env-dc-"), (2, "env-dc-"),
   (1, "sw-hq-dist-"), (7, "sw-hq-f"), (7, "sw-hq-f"), (2, "wlc-"), (6, "prt-hq-"), (6, "prt-hq-"),
   (1, "ups-hq-"), (2, "pdu-hq-"), (1, "env-hq-"), (1, "rt-wh1-"), (3, "wh1-sw-"), (2, "wh1-sw-"),
   (4, "wh1-prt-"), (1, "wh1-ups-"), (1, "wh1-pdu-"), (1, "wh1-env-"), (1, "rt-wh2-"),
   (3, "wh2-sw-"), (2, "wh2-sw-"), (4, "wh2-prt-"), (1, "wh2-ups-"), (1, "wh2-pdu-"),
   (1, "wh2-env-"), (1, "rt-inet-")]

/-- Number the devices of a row; a name that was used before is continued. -/
def expandRow (acc : List Text × Dict String Nat) (row : Nat × String) :
    List Text × Dict String Nat :=
  let start := (acc.2.get row.2).getD 1
  (acc.1 ++ (List.range' start row.1).map fun n => row.2.toList ++ SwAccess.twoDigits n,
    acc.2.set row.2 (start + row.1))

/-- The names of the replayed devices; the walk of every model is in the library. -/
def replayShorts : List Text :=
  (replayRoster.foldl expandRow ([], Dict.empty)).1

/-- The names of the devices that the responder assembles. -/
def assembleDevices (fleet : Bool) (accessSwitches : ℤ) : List Text :=
  SwCore.short :: (List.range' 1 (max 1 accessSwitches).toNat).map SwAccess.short ++
    [RtWan.short, Ups.short] ++ if fleet then replayShorts else []

/-- The devices of a responder, by the arguments of its start. -/
def devices (args : UpArgs) : List Text :=
  assembleDevices (scales args.scale).fleet args.replicas

/-! ## Starting and keeping -/

/-- The machine: the hash of the responder's code, and the processes that run, by the arguments
of their starts. -/
structure Machine where
  sig : Text
  shell : Option UpArgs
  netsim : Option UpArgs
  sigFile : Option Text

/-- A shell that is alive is kept. -/
def shellUp (args : UpArgs) (w : Machine) : Machine × Bool :=
  if w.shell.isSome then (w, true) else ({ w with shell := some args }, false)

/-- The responder carries the replayed devices if it names one of the top-of-rack switches. -/
def runningFleet (shorts : List Text) : Bool :=
  shorts.any fun short => "sw-dc-tor".toList.isPrefixOf short

/-- The code changed since the responder was started. -/
def stale (w : Machine) : Bool :=
  w.sigFile.map (Text.strip Text.isSpace) ≠ some w.sig

/-- The running responder passes for the wanted one. -/
def netsimReusable (args : UpArgs) (w : Machine) : Bool :=
  match w.netsim with
  | some started =>
      runningFleet (devices started) == (scales args.scale).fleet && !args.force && !stale w
  | none => false

/-- A responder that passes is kept, any other one restarted. -/
def netsimUp (args : UpArgs) (w : Machine) : Machine × Bool :=
  if netsimReusable args w then (w, true)
  else ({ w with netsim := some args, sigFile := some w.sig }, false)

/-- The start wants the network layer. -/
def wantsSnmp (args : UpArgs) : Bool :=
  (scales args.scale).snmp && !args.noSnmp && args.mode ≠ .cloud

/-- Which of the processes a start kept. -/
structure Kept where
  shell : Bool
  netsim : Bool

/-- A start of the estate. -/
def cmdUp (args : UpArgs) (w : Machine) : Machine × Kept :=
  let afterShell := shellUp args w
  if wantsSnmp args then
    let afterNetsim := netsimUp args afterShell.1
    (afterNetsim.1, { shell := afterShell.2, netsim := afterNetsim.2 })
  else (afterShell.1, { shell := afterShell.2, netsim := false })

/-- What the start keeps is configured as a fresh start would configure it. -/
structure ReuseSound (w : Machine) (args : UpArgs) : Prop where
  shell : (cmdUp args w).2.shell = true → ∀ started, w.shell = some started →
    startEnv started = startEnv args
  netsim : (cmdUp args w).2.netsim = true → ∀ started, w.netsim = some started →
    devices started = devices args

/-! ## Alike configurations -/

/-- Two starts run the same shell: same delivery, replicas, hosts and fleet. -/
structure SameShell (started args : UpArgs) : Prop where
  mode : started.mode = args.mode
  replicas : started.replicas = args.replicas
  hosts : (scales started.scale).hosts = (scales args.scale).hosts
  fleet : (scales started.scale).fleet = (scales args.scale).fleet

theorem deliveryFor_injective : Function.Injective deliveryFor := by
  intro a b h
  cases a <;> cases b <;> first | rfl | exact absurd h (by decide)

/-- The environments of two shells agree exactly if the starts agree. -/
theorem startEnv_eq_iff {started args : UpArgs} :
    startEnv started = startEnv args ↔ SameShell started args := by
  constructor
  · intro h
    have hshell : shellEnv started = shellEnv args := by
      have hlength : ∀ a, (shellEnv a).length = 4 := fun _ => rfl
      have htake := congrArg (List.take 4) h
      simpa only [startEnv, List.append_assoc, List.take_left' (hlength _)] using htake
    simp only [shellEnv, List.cons.injEq, Prod.mk.injEq, true_and, and_true] at hshell
    obtain ⟨hhosts, hreplicas, hfleet, hmode⟩ := hshell
    constructor
    case mode => exact deliveryFor_injective hmode
    case replicas => exact Text.str_injective hreplicas
    case hosts => exact hhosts
    case fleet =>
      cases hs : (scales started.scale).fleet <;> cases ha : (scales args.scale).fleet <;>
        simp_all
  · rintro ⟨hmode, hreplicas, hhosts, hfleet⟩
    rw [startEnv, startEnv, shellEnv, shellEnv, hmode, hreplicas, hhosts, hfleet]

/-- With the same fleet two responders carry the same devices exactly if they have the same
number of access switches, which is at least one. -/
theorem devices_eq_iff {started args : UpArgs}
    (hfleet : (scales started.scale).fleet = (scales args.scale).fleet) :
    devices started = devices args ↔ max 1 started.replicas = max 1 args.replicas := by
  constructor
  · intro h
    have hlength := congrArg List.length h
    simp only [devices, assembleDevices, hfleet, List.length_append, List.length_cons,
      List.length_map, List.length_range'] at hlength
    omega
  · intro h
    rw [devices, devices, assembleDevices, assembleDevices, hfleet, h]

/-- The responder is told by the top-of-rack switches. -/
theorem runningFleet_devices (args : UpArgs) :
    runningFleet (devices args) = (scales args.scale).fleet := by
  have htor : replayShorts.any (fun short => "sw-dc-tor".toList.isPrefixOf short) = true := by
    decide
  have haccess : ∀ ns : List Nat,
      (ns.map SwAccess.short).any (fun short => "sw-dc-tor".toList.isPrefixOf short) = false := by
    intro ns
    rw [List.any_map, List.any_eq_false]
    exact fun n _ => Bool.false_ne_true
  rw [runningFleet, devices, assembleDevices, List.any_append, List.any_append, List.any_cons,
    haccess]
  cases (scales args.scale).fleet with
  | true => rw [if_pos rfl, htor, Bool.or_true]
  | false => rfl

/-! ## When reuse is sound -/

theorem cmdUp_shell (args : UpArgs) (w : Machine) : (cmdUp args w).2.shell = w.shell.isSome := by
  rw [cmdUp, shellUp]
  split <;> split <;> simp_all

/-- The shell is started or kept before the responder is looked at. -/
theorem netsimReusable_shellUp (args : UpArgs) (w : Machine) :
    netsimReusable args (shellUp args w).1 = netsimReusable args w := by
  rw [shellUp]
  split <;> rfl

theorem cmdUp_netsim (args : UpArgs) (w : Machine) :
    (cmdUp args w).2.netsim = (wantsSnmp args && netsimReusable args w) := by
  rw [cmdUp, netsimUp, netsimReusable_shellUp]
  cases wantsSnmp args <;> cases netsimReusable args w <;> rfl

/-- The start that the running responder came from passes for the wanted one. -/
theorem netsimReusable_iff {args started : UpArgs} {w : Machine} (h : w.netsim = some started) :
    netsimReusable args w = true ↔
      (scales started.scale).fleet = (scales args.scale).fleet ∧ args.force = false ∧
        stale w = false := by
  rw [netsimReusable, h]
  simp [runningFleet_devices, and_assoc]

/-- Where the starts of the kept processes agree with the wanted one, reuse is sound. -/
theorem reuseSound_of {w : Machine} {args : UpArgs}
    (hshell : ∀ started, w.shell = some started → SameShell started args)
    (hnetsim : ∀ started, w.netsim = some started → wantsSnmp args = true →
      (scales started.scale).fleet = (scales args.scale).fleet → args.force = false →
      stale w = false → max 1 started.replicas = max 1 args.replicas) : ReuseSound w args := by
  constructor
  · exact fun _ started h => startEnv_eq_iff.mpr (hshell started h)
  · intro hkept started h
    rw [cmdUp_netsim, Bool.and_eq_true] at hkept
    obtain ⟨hfleet, hforce, hstale⟩ := (netsimReusable_iff h).mp hkept.2
    exact (devices_eq_iff hfleet).mpr (hnetsim started h hkept.1 hfleet hforce hstale)

/-- Reuse is sound exactly if a live shell came from a start with the same delivery, replicas,
hosts and fleet, and a responder that is kept from one with as many access switches. -/
theorem reuseSound_iff (w : Machine) (args : UpArgs) :
    ReuseSound w args ↔
      (∀ started, w.shell = some started → SameShell started args) ∧
        ∀ started, w.netsim = some started → wantsSnmp args = true →
          (scales started.scale).fleet = (scales args.scale).fleet → args.force = false →
          stale w = false → max 1 started.replicas = max 1 args.replicas := by
  constructor
  · rintro ⟨hshell, hnetsim⟩
    constructor
    · intro started h
      apply startEnv_eq_iff.mp
      apply hshell _ started h
      rw [cmdUp_shell, h]
      rfl
    · intro started h hwants hfleet hforce hstale
      apply (devices_eq_iff hfleet).mp
      apply hnetsim _ started h
      rw [cmdUp_netsim, hwants, (netsimReusable_iff h).mpr ⟨hfleet, hforce, hstale⟩]
      rfl
  · exact fun ⟨hshell, hnetsim⟩ => reuseSound_of hshell hnetsim

/-- A machine on which nothing runs. -/
def Machine.idle (sig : Text) : Machine where
  sig := sig
  shell := none
  netsim := none
  sigFile := none

/-- The default start. -/
def fullArgs : UpArgs where
  mode := .selfHosted
  scale := .full
  replicas := 1
  noSnmp := false
  force := false

/-- A second start with more replicas keeps the processes of the first one. -/
theorem not_reuseSound_replicas :
    ¬ ReuseSound (cmdUp fullArgs (Machine.idle [])).1 { fullArgs with replicas := 3 } := by
  intro h
  have henv := startEnv_eq_iff.mp (h.shell (by decide) fullArgs rfl)
  exact absurd henv.replicas (by decide)

/-! ## Runs of starts -/

/-- What happens on the machine. -/
inductive Event
  | up (args : UpArgs)
  | shellExit
  | netsimExit
  | edit (sig : Text)

def Machine.step (w : Machine) : Event → Machine
  | .up args => (cmdUp args w).1
  | .shellExit => { w with shell := none }
  | .netsimExit => { w with netsim := none }
  | .edit sig => { w with sig := sig }

/-- A start agrees with the first one; other events are free. -/
def Event.AgreesWith (first : UpArgs) : Event → Prop
  | .up args => SameShell args first
  | _ => True

/-- Every process came from a start that agrees with the first one. -/
def Machine.AgreesWith (first : UpArgs) (w : Machine) : Prop :=
  ∀ started, w.shell = some started ∨ w.netsim = some started → SameShell started first

theorem SameShell.symm {started args : UpArgs} (h : SameShell started args) :
    SameShell args started :=
  ⟨h.mode.symm, h.replicas.symm, h.hosts.symm, h.fleet.symm⟩

theorem SameShell.trans {a b c : UpArgs} (hab : SameShell a b) (hbc : SameShell b c) :
    SameShell a c :=
  ⟨hab.mode.trans hbc.mode, hab.replicas.trans hbc.replicas, hab.hosts.trans hbc.hosts,
    hab.fleet.trans hbc.fleet⟩

/-- A start leaves a process that ran before or its own. -/
theorem cmdUp_cases {args started : UpArgs} {w : Machine}
    (h : (cmdUp args w).1.shell = some started ∨ (cmdUp args w).1.netsim = some started) :
    w.shell = some started ∨ w.netsim = some started ∨ started = args := by
  have hshell : ∀ w, (netsimUp args w).1.shell = w.shell := by
    intro w
    rw [netsimUp]
    split <;> rfl
  have hnetsim : ∀ w, (netsimUp args w).1.netsim = w.netsim ∨
      (netsimUp args w).1.netsim = some args := by
    intro w
    rw [netsimUp]
    split
    · exact Or.inl rfl
    · exact Or.inr rfl
  have hkept : (shellUp args w).1.netsim = w.netsim ∧
      ((shellUp args w).1.shell = w.shell ∨ (shellUp args w).1.shell = some args) := by
    rw [shellUp]
    split
    · exact ⟨rfl, Or.inl rfl⟩
    · exact ⟨rfl, Or.inr rfl⟩
  rw [cmdUp] at h
  split at h
  · dsimp only at h
    rw [hshell] at h
    have hnet := hnetsim (shellUp args w).1
    grind
  · grind

theorem step_agreesWith {first : UpArgs} {w : Machine} {e : Event} (hw : w.AgreesWith first)
    (he : e.AgreesWith first) : (w.step e).AgreesWith first := by
  intro started h
  cases e with
  | up args =>
      rcases cmdUp_cases h with hshell | hnetsim | rfl
      · exact hw started (Or.inl hshell)
      · exact hw started (Or.inr hnetsim)
      · exact he
  | shellExit => exact hw started (Or.inr (h.resolve_left (fun hnone => nomatch hnone)))
  | netsimExit => exact hw started (Or.inl (h.resolve_right (fun hnone => nomatch hnone)))
  | edit sig => exact hw started h

/-- Along a run whose starts agree, every start reuses soundly. -/
theorem reuseSound_of_run {first : UpArgs} {sig : Text} {events : List Event} {w : Machine}
    (hrun : Transition.Run
      (Transition.Meeting (fun w e w' => w' = w.step e) fun _ e => e.AgreesWith first)
      (Machine.idle sig) events w)
    {args : UpArgs} (hargs : SameShell args first) : ReuseSound w args := by
  have hagrees : w.AgreesWith first := by
    apply hrun.invariant
    · rintro w e w' hw ⟨rfl, he⟩
      exact step_agreesWith hw he
    · rintro started (h | h) <;> cases h
  apply reuseSound_of
  · exact fun started h => (hagrees started (Or.inl h)).trans hargs.symm
  · intro started h _ _ _ _
    rw [((hagrees started (Or.inr h)).trans hargs.symm).replicas]

end Launch
end DemoEstate
