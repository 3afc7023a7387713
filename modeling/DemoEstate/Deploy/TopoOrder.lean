import Mathlib.Data.Fintype.Card
import Mathlib.Data.Set.Finite.Basic
import Mathlib.Logic.Relation
import Mathlib.Order.WellFounded
import DemoEstate.Deploy.Effects
import DemoEstate.Library.Precedence

/-!
# The order in which the devices are created

The rounds emit a device after the parent it declares.  The parent written for a device whose
declared parent is not in the map is the core switch, which the rounds know nothing about.

Main results:

- Theorem {lit}`topoOrder_perm`: the order has exactly the devices of the map.
- Theorem {lit}`topoOrder_sound`: the rounds come to an end, with each device once and, where the
  declared parents have no cycle, after its parent.
- Theorem {lit}`parentsFirst_topoOrder_iff`: each device follows the parent written for it
  exactly if the core switch is the first of the devices without a declared parent.
- Theorem {lit}`parentsFirst_created_iff`: the same for the hosts a run of
  {lit}`setup_snmp` creates.
-/

namespace DemoEstate
namespace Deploy

open Interaction
open Interaction.Program
open Precedence
open Relation

/-! ## Declared parents -/

/-- A device of the map declares a device of the map as its parent. -/
def Declares (devices : Dict Text Device) (child parent : Text) : Prop :=
  parent ∈ devices.keys ∧ ∃ dev, devices.get child = some dev ∧ given dev.parent = some parent

/-- The declared parents have no cycle. -/
def Acyclic (devices : Dict Text Device) : Prop :=
  ∀ short, ¬ TransGen (Declares devices) short short

theorem isReady_iff {remaining : List (Text × Device)} {e : Text × Device} :
    isReady remaining e = true ↔
      ∀ parent, given e.2.parent = some parent → parent ∉ remaining.map Prod.fst := by
  unfold isReady
  split
  · rename_i hnone
    simp [hnone]
  · rename_i parent hsome
    simp [hsome]

section Rounds

variable {devices : Dict Text Device} {remaining : List (Text × Device)}

/-- Among the remaining devices some one has no declared parent. -/
theorem exists_ready (hacyclic : Acyclic devices)
    (hsub : ∀ e ∈ remaining, e ∈ devices.entries) (hne : remaining ≠ []) :
    remaining.filter (isReady remaining) ≠ [] := by
  let Key := { short : Text // short ∈ remaining.map Prod.fst }
  let above : Key → Key → Prop := fun a b => TransGen (Declares devices) b.1 a.1
  have : Finite Key := (List.finite_toSet (remaining.map Prod.fst)).to_subtype
  have : IsTrans Key above := ⟨fun a b c hab hbc => TransGen.trans hbc hab⟩
  have : Std.Irrefl above := ⟨fun a h => hacyclic a.1 h⟩
  have hwf : WellFounded above := Finite.wellFounded_of_trans_of_irrefl above
  rcases List.exists_mem_of_ne_nil remaining hne with ⟨e₀, he₀⟩
  rcases hwf.has_min Set.univ ⟨⟨e₀.1, List.mem_map_of_mem he₀⟩, trivial⟩ with ⟨⟨short, hshort⟩, -, hmin⟩
  rcases List.mem_map.mp hshort with ⟨e, he, rfl⟩
  have hready : isReady remaining e = true := by
    refine isReady_iff.mpr fun parent hparent hmem => ?_
    have hkey : parent ∈ devices.keys := by
      rcases List.mem_map.mp hmem with ⟨e', he', rfl⟩
      exact List.mem_map_of_mem (hsub e' he')
    exact hmin ⟨parent, hmem⟩ trivial
      (TransGen.single ⟨hkey, e.2, Dict.get_eq_some_iff.mpr (hsub e he), hparent⟩)
  exact List.ne_nil_of_mem (List.mem_filter.mpr ⟨he, hready⟩)

theorem length_rest_lt (h : remaining.filter (isReady remaining) ≠ []) :
    (remaining.filter fun e => !isReady remaining e).length < remaining.length := by
  have hsum := (List.filter_append_perm (isReady remaining) remaining).length_eq
  rw [List.length_append] at hsum
  have hpos := List.length_pos_iff.mpr h
  omega

theorem mem_sortedDevices {e : Text × Device} : e ∈ sortedDevices remaining ↔ e ∈ remaining :=
  List.mem_insertionSort _

/-- The rounds emit every device once. -/
theorem topoRounds_perm {n : Nat} (hn : remaining.length ≤ n) :
    (topoRounds n remaining).Perm remaining := by
  induction n generalizing remaining with
  | zero =>
      rw [List.length_eq_zero_iff.mp (Nat.le_zero.mp hn)]
      exact List.Perm.refl []
  | succ n ih =>
      unfold topoRounds
      split
      · exact List.perm_insertionSort _ _
      · rename_i hready
        have hlt := length_rest_lt hready
        have hrest := @ih (remaining.filter fun e => !isReady remaining e) (by omega)
        exact ((List.perm_insertionSort _ _).append hrest).trans
          (List.filter_append_perm _ _)

theorem topoOrder_perm (devices : Dict Text Device) :
    (topoOrder devices).Perm devices.entries :=
  topoRounds_perm le_rfl

/-- Rounds beyond the number of devices emit nothing. -/
theorem topoRounds_of_le {n m : Nat} (hn : remaining.length ≤ n) (hm : remaining.length ≤ m) :
    topoRounds n remaining = topoRounds m remaining := by
  induction n generalizing remaining m with
  | zero =>
      rw [List.length_eq_zero_iff.mp (Nat.le_zero.mp hn)]
      cases m <;> rfl
  | succ n ih =>
      cases m with
      | zero =>
          rw [List.length_eq_zero_iff.mp (Nat.le_zero.mp hm)]
          rfl
      | succ m =>
          unfold topoRounds
          split
          · rfl
          · rename_i hready
            have hlt := length_rest_lt hready
            rw [ih (m := m) (by omega) (by omega)]

/-- A device needs the parent it declares, where the map has it. -/
def NeedsParent (present : List Text) (e : Text × Device) (parent : Text) : Prop :=
  given e.2.parent = some parent ∧ parent ∈ present

/-- A round with a ready device emits no device before a parent that remains. -/
theorem respects_topoRounds (hacyclic : Acyclic devices) {n : Nat} (hn : remaining.length ≤ n)
    (hsub : ∀ e ∈ remaining, e ∈ devices.entries) :
    Respects Prod.fst (NeedsParent (remaining.map Prod.fst)) (topoRounds n remaining) := by
  induction n generalizing remaining with
  | zero => exact respects_nil
  | succ n ih =>
      by_cases hne : remaining = []
      · subst hne
        exact respects_nil
      · have hready := exists_ready hacyclic hsub hne
        have hlt := length_rest_lt hready
        rw [topoRounds, if_neg hready, respects_append]
        constructor
        · apply respects_of_free
          rintro e he parent ⟨hparent, hmem⟩
          have hfree := (List.mem_filter.mp (mem_sortedDevices.mp he)).2
          exact isReady_iff.mp hfree parent hparent hmem
        · rintro pre e post heq parent ⟨hparent, hmem⟩
          obtain ⟨e', he', rfl⟩ := List.mem_map.mp hmem
          by_cases hfree : isReady remaining e' = true
          · left
            exact List.mem_map_of_mem (mem_sortedDevices.mpr (List.mem_filter.mpr ⟨he', hfree⟩))
          · right
            refine ih (by omega) ?_ pre e post heq e'.1 ⟨hparent, ?_⟩
            · exact fun e he => hsub e (List.mem_filter.mp he).1
            · exact List.mem_map_of_mem (List.mem_filter.mpr ⟨he', by simpa using hfree⟩)

/-- The rounds are over when as many have passed as there are devices, each device is emitted
once, and where the declared parents have no cycle each follows its parent. -/
theorem topoOrder_sound (devices : Dict Text Device) :
    (∀ n, devices.entries.length ≤ n → topoRounds n devices.entries = topoOrder devices) ∧
      (topoOrder devices).Perm devices.entries ∧
      (Acyclic devices → Respects Prod.fst (NeedsParent devices.keys) (topoOrder devices)) := by
  refine ⟨?_, topoOrder_perm devices, ?_⟩
  · intro n hn
    exact topoRounds_of_le hn le_rfl
  · intro hacyclic
    exact respects_topoRounds hacyclic le_rfl fun _ he => he

end Rounds

/-! ## Parents before children -/

/-- Each host names only hosts that were created before it. -/
def ParentsFirst : List Text → List (Text × Attributes) → Prop
  | _, [] => True
  | created, host :: rest =>
      (∀ p ∈ parentNames host.2, p ∈ created) ∧ ParentsFirst (host.1 :: created) rest

instance : (created : List Text) → (hosts : List (Text × Attributes)) →
    Decidable (ParentsFirst created hosts)
  | _, [] => isTrue trivial
  | created, host :: rest =>
      have := instDecidableParentsFirst (host.1 :: created) rest
      inferInstanceAs (Decidable (_ ∧ _))

theorem parentsFirst_append {created : List Text} {hosts hosts' : List (Text × Attributes)} :
    ParentsFirst created (hosts ++ hosts') ↔
      ParentsFirst created hosts ∧
        ParentsFirst ((hosts.map Prod.fst).reverse ++ created) hosts' := by
  induction hosts generalizing created with
  | nil => simp [ParentsFirst]
  | cons host hosts ih => simp [ParentsFirst, ih, and_assoc]

theorem parentsFirst_of_forall {created : List Text} {hosts : List (Text × Attributes)}
    (h : ∀ host ∈ hosts, ∀ p ∈ parentNames host.2, p ∈ created) :
    ParentsFirst created hosts := by
  induction hosts generalizing created with
  | nil => trivial
  | cons host hosts ih =>
      refine ⟨h host List.mem_cons_self, ih fun host' hmem p hp => ?_⟩
      exact List.mem_cons_of_mem _ (h host' (List.mem_cons_of_mem _ hmem) p hp)

/-- The host written for a device. -/
def deviceHost (info : Netsim) (e : Text × Device) : Text × Attributes :=
  (e.2.fqdn, deviceAttributes info e.1 e.2)

section Parents

variable {info : Netsim}

theorem fqdn_injOn {e e' : Text × Device} (he : e ∈ info.devices.entries)
    (he' : e' ∈ info.devices.entries) (h : e.2.fqdn = e'.2.fqdn) : e = e' := by
  rw [(info.named e he).2.2, (info.named e' he').2.2] at h
  exact List.inj_on_of_nodup_map info.devices.nodup he he' (List.append_cancel_right h)

theorem fqdn_ne_nil {e : Text × Device} (he : e ∈ info.devices.entries) : e.2.fqdn ≠ [] := by
  rw [(info.named e he).2.2]
  simp

theorem given_fqdn {e : Text × Device} (he : e ∈ info.devices.entries) :
    given (some e.2.fqdn) = some e.2.fqdn := by
  simp [given, fqdn_ne_nil he]

/-- The core switch: the first device of the map with its name. -/
def coreSwitch (devices : Dict Text Device) : Option (Text × Device) :=
  devices.entries.find? fun e => "sw-core".toList.isPrefixOf e.1

theorem parentNames_deviceAttributes (short : Text) (dev : Device) :
    parentNames (deviceAttributes info short dev) =
      ((given (parentFqdn info.devices dev)).filter (· ≠ dev.fqdn)).toList := by
  simp only [parentNames, deviceAttributes]
  cases (given (parentFqdn info.devices dev)).filter (· ≠ dev.fqdn) <;> rfl

/-- The parent written for a device that declares one of the map. -/
theorem parent_of_declares {e : Text × Device} {parent : Text} {dev : Device}
    (hparent : given e.2.parent = some parent)
    (hdev : info.devices.get parent = some dev) {p : Text}
    (hp : p ∈ parentNames (deviceAttributes info e.1 e.2)) : p = dev.fqdn := by
  have hgiven : e.2.parent = some parent := (Option.filter_eq_some_iff.mp hparent).1
  have hmem := Dict.get_eq_some_iff.mp hdev
  have hwritten : parentFqdn info.devices e.2 = some dev.fqdn := by
    simp only [parentFqdn, hgiven, Option.getD_some, hdev, Option.map_some, given_fqdn hmem]
  rw [parentNames_deviceAttributes, hwritten, given_fqdn hmem] at hp
  rw [Option.mem_toList, Option.filter_eq_some_iff, Option.some.injEq] at hp
  exact hp.1.symm

/-- The parent written for a device that declares none of the map is the core switch. -/
theorem parents_of_isReady {e : Text × Device} (he : e ∈ info.devices.entries)
    (hready : isReady info.devices.entries e = true) :
    parentNames (deviceAttributes info e.1 e.2) =
      match coreSwitch info.devices with
      | some core => if core = e then [] else [core.2.fqdn]
      | none => [] := by
  have hmissing : info.devices.get (e.2.parent.getD []) = none := by
    rw [Dict.get_eq_none_iff]
    intro hkey
    cases hparent : e.2.parent with
    | none =>
        rw [hparent] at hkey
        rcases List.mem_map.mp hkey with ⟨e', he', hnil⟩
        exact (info.named e' he').1 hnil
    | some parent =>
        rw [hparent] at hkey
        by_cases hnil : parent = []
        · rcases List.mem_map.mp hkey with ⟨e', he', hnil'⟩
          exact (info.named e' he').1 (hnil'.trans hnil)
        · exact isReady_iff.mp hready parent (by simp [hparent, given, hnil]) hkey
  have hwritten : parentFqdn info.devices e.2 = (coreSwitch info.devices).map fun c => c.2.fqdn := by
    simp only [parentFqdn, hmissing]
    rfl
  rw [parentNames_deviceAttributes, hwritten]
  cases hcore : coreSwitch info.devices with
  | none => rfl
  | some core =>
      have hmem : core ∈ info.devices.entries := List.mem_of_find?_eq_some hcore
      simp only [Option.map_some, given_fqdn hmem]
      by_cases hsame : core = e
      · simp [hsame]
      · have hne : core.2.fqdn ≠ e.2.fqdn := fun heq => hsame (fqdn_injOn hmem he heq)
        simp [hsame, hne]

/-- Devices whose declared parents are created or remain follow their parents. -/
theorem parentsFirst_topoRounds (hacyclic : Acyclic info.devices) {n : Nat}
    {remaining : List (Text × Device)} {created : List Text} (hn : remaining.length ≤ n)
    (hsub : ∀ e ∈ remaining, e ∈ info.devices.entries)
    (hparents : ∀ e ∈ remaining, ∃ parent dev, given e.2.parent = some parent ∧
      info.devices.get parent = some dev ∧
        (dev.fqdn ∈ created ∨ parent ∈ remaining.map Prod.fst)) :
    ParentsFirst created ((topoRounds n remaining).map (deviceHost info)) := by
  induction n generalizing remaining created with
  | zero => trivial
  | succ n ih =>
      by_cases hne : remaining = []
      · subst hne
        trivial
      · have hready := exists_ready hacyclic hsub hne
        have hlt := length_rest_lt hready
        rw [topoRounds, if_neg hready, List.map_append, parentsFirst_append]
        constructor
        · refine parentsFirst_of_forall fun host hhost p hp => ?_
          rcases List.mem_map.mp hhost with ⟨e, he, rfl⟩
          rcases List.mem_filter.mp (mem_sortedDevices.mp he) with ⟨hmem, hfree⟩
          rcases hparents e hmem with ⟨parent, dev, hparent, hdev, hcreated | hremains⟩
          · exact parent_of_declares hparent hdev hp ▸ hcreated
          · exact absurd hremains (isReady_iff.mp hfree parent hparent)
        · apply ih
          · omega
          · exact fun e he => hsub e (List.mem_filter.mp he).1
          · intro e he
            rcases List.mem_filter.mp he with ⟨hmem, -⟩
            rcases hparents e hmem with ⟨parent, dev, hparent, hdev, hplace⟩
            refine ⟨parent, dev, hparent, hdev, ?_⟩
            rcases hplace with hcreated | hremains
            · exact Or.inl (List.mem_append_right _ hcreated)
            · rcases List.mem_map.mp hremains with ⟨e', he', rfl⟩
              by_cases hfree : isReady remaining e' = true
              · left
                have hsame : e'.2 = dev :=
                  Option.some.inj ((Dict.get_eq_some_iff.mpr (hsub e' he')).symm.trans hdev)
                refine List.mem_append_left _ (List.mem_reverse.mpr ?_)
                rw [List.map_map]
                refine List.mem_map.mpr ⟨e', mem_sortedDevices.mpr ?_, by simp [deviceHost, hsame]⟩
                exact List.mem_filter.mpr ⟨he', hfree⟩
              · right
                exact List.mem_map_of_mem (List.mem_filter.mpr ⟨he', by simpa using hfree⟩)

/-- The core switch, if there is one, declares no parent of the map and is the first by name
of the devices that do not. -/
def CoreFirst (devices : Dict Text Device) : Prop :=
  ∀ core, coreSwitch devices = some core →
    isReady devices.entries core = true ∧
      ∀ e ∈ devices.entries, isReady devices.entries e = true → core.1 ≤ e.1

/-- The first round puts every device after its written parent exactly if the core switch
comes first in it. -/
theorem parentsFirst_firstRound_iff (hacyclic : Acyclic info.devices) :
    ParentsFirst [] ((sortedDevices (info.devices.entries.filter
        (isReady info.devices.entries))).map (deviceHost info)) ↔
      CoreFirst info.devices := by
  have hmem : ∀ e, e ∈ sortedDevices (info.devices.entries.filter
      (isReady info.devices.entries)) ↔
        e ∈ info.devices.entries ∧ isReady info.devices.entries e = true := fun e => by
    rw [mem_sortedDevices, List.mem_filter]
  have hsorted : (sortedDevices (info.devices.entries.filter
      (isReady info.devices.entries))).Pairwise fun d e => d.1 ≤ e.1 := by
    have : Std.Total fun d e : Text × Device => d.1 ≤ e.1 := ⟨fun d e => le_total d.1 e.1⟩
    have : IsTrans (Text × Device) fun d e => d.1 ≤ e.1 := ⟨fun _ _ _ => le_trans⟩
    exact List.pairwise_insertionSort _ _
  generalize sortedDevices (info.devices.entries.filter
    (isReady info.devices.entries)) = first at hmem hsorted
  cases hcore : coreSwitch info.devices with
  | none =>
      refine ⟨fun _ core hsome => absurd (hcore.symm.trans hsome) (by simp), fun _ => ?_⟩
      refine parentsFirst_of_forall fun host hhost p hp => ?_
      rcases List.mem_map.mp hhost with ⟨e, he, rfl⟩
      rcases (hmem e).mp he with ⟨hentry, hready⟩
      simp [deviceHost, parents_of_isReady hentry hready, hcore] at hp
  | some core =>
      have hcoreEntry : core ∈ info.devices.entries := List.mem_of_find?_eq_some hcore
      cases first with
      | nil =>
          refine absurd ?_ (exists_ready hacyclic (fun _ he => he)
            (List.ne_nil_of_mem hcoreEntry))
          rw [List.eq_nil_iff_forall_not_mem]
          intro e he
          exact absurd ((hmem e).mpr (List.mem_filter.mp he)) List.not_mem_nil
      | cons e rest =>
          rcases (hmem e).mp List.mem_cons_self with ⟨hentry, hready⟩
          have hleast : ∀ e' ∈ rest, e.1 ≤ e'.1 := (List.pairwise_cons.mp hsorted).1
          rw [List.map_cons, ParentsFirst]
          constructor
          · rintro ⟨hhead, -⟩
            have hsame : core = e := by
              by_contra hne
              have hp := hhead core.2.fqdn
                (by simp [deviceHost, parents_of_isReady hentry hready, hcore, hne])
              exact absurd hp List.not_mem_nil
            subst hsame
            intro core' hcore'
            cases hcore.symm.trans hcore'
            refine ⟨hready, fun e' he' hready' => ?_⟩
            rcases List.mem_cons.mp ((hmem e').mpr ⟨he', hready'⟩) with rfl | hrest
            · exact le_rfl
            · exact hleast e' hrest
          · intro hfirst
            rcases hfirst core hcore with ⟨hcoreReady, hcoreLeast⟩
            have hsame : core = e := by
              rcases List.mem_cons.mp ((hmem core).mpr ⟨hcoreEntry, hcoreReady⟩) with heq | hrest
              · exact heq
              · have hkey : core.1 = e.1 :=
                  le_antisymm (hcoreLeast e hentry hready) (hleast core hrest)
                exact List.inj_on_of_nodup_map info.devices.nodup hcoreEntry hentry hkey
            subst hsame
            refine ⟨by simp [deviceHost, parents_of_isReady hentry hready, hcore], ?_⟩
            refine parentsFirst_of_forall fun host hhost p hp => ?_
            rcases List.mem_map.mp hhost with ⟨e', he', rfl⟩
            rcases (hmem e').mp (List.mem_cons_of_mem _ he') with ⟨hentry', hready'⟩
            simp only [deviceHost, parents_of_isReady hentry' hready', hcore] at hp
            split at hp
            · exact absurd hp List.not_mem_nil
            · simpa [deviceHost] using hp

/-- Every device follows its written parent exactly if the core switch is the first of the
devices that declare no parent of the map. -/
theorem parentsFirst_topoOrder_iff (hacyclic : Acyclic info.devices) :
    ParentsFirst [] ((topoOrder info.devices).map (deviceHost info)) ↔
      CoreFirst info.devices := by
  rw [← parentsFirst_firstRound_iff hacyclic, topoOrder]
  cases hlength : info.devices.entries.length with
  | zero =>
      rw [List.length_eq_zero_iff.mp hlength]
      rfl
  | succ n =>
      have hne : info.devices.entries ≠ [] := List.ne_nil_of_length_eq_add_one hlength
      have hready := exists_ready hacyclic (fun _ he => he) hne
      have hlt := length_rest_lt hready
      rw [topoRounds, if_neg hready, List.map_append, parentsFirst_append]
      refine and_iff_left ?_
      apply parentsFirst_topoRounds hacyclic
      · omega
      · exact fun e he => (List.mem_filter.mp he).1
      · intro e he
        rcases List.mem_filter.mp he with ⟨hmem, hnot⟩
        have hdeclares : ∃ parent, given e.2.parent = some parent ∧
            parent ∈ info.devices.entries.map Prod.fst := by
          by_contra hno
          simp only [not_exists, not_and] at hno
          simp [isReady_iff.mpr hno] at hnot
        rcases hdeclares with ⟨parent, hparent, hkey⟩
        rcases List.mem_map.mp hkey with ⟨e', he', rfl⟩
        refine ⟨e'.1, e'.2, hparent, Dict.get_eq_some_iff.mpr he', ?_⟩
        by_cases hfree : isReady info.devices.entries e' = true
        · left
          rw [List.append_nil, List.mem_reverse, List.map_map]
          refine List.mem_map.mpr ⟨e', mem_sortedDevices.mpr ?_, rfl⟩
          exact List.mem_filter.mpr ⟨he', hfree⟩
        · right
          exact List.mem_map_of_mem (List.mem_filter.mpr ⟨he', by simpa using hfree⟩)

end Parents

/-! ## The hosts a run creates -/

/-- The hosts that were created, oldest first. -/
def creations (log : List (Exchange Request Ans)) : List (Text × Attributes) :=
  log.filterMap fun e =>
    match e with
    | ⟨.postHost name _ attributes, status⟩ =>
        if (status : Status) = 200 then some (name, attributes) else none
    | _ => none

section Created

variable {α : Type} {panels : Panels} {s t : Site} {log : List (Exchange Request Ans)}
  {parts : List Part} {out : Option α}

theorem creations_append (log log' : List (Exchange Request Ans)) :
    creations (log ++ log') = creations log ++ creations log' :=
  List.filterMap_append

theorem creations_of_asks {p : Setup α} (h : p.Asks (Within parts)) (hparts : Part.hosts ∉ parts)
    (htraces : p.Traces (Serves panels) s log out t) : creations log = [] := by
  rw [creations, List.filterMap_eq_nil_iff]
  rintro ⟨op, ans⟩ hmem
  have hop := h.log htraces hmem
  cases op with
  | postHost name folder attributes => exact absurd (hop List.mem_cons_self) hparts
  | _ => rfl

theorem creations_ensureHost {name : Text} {folder : Ident} {attributes : Attributes} {u : Unit}
    (hnew : s.hosts.get name = none)
    (h : (ensureHost name folder attributes).Traces (Serves panels) s log (some u) t) :
    creations log = [(name, attributes)] := by
  rcases traces_call_some h with ⟨existing, s₁, rest, rfl, ⟨rfl, rfl⟩, hcreate⟩
  rw [hnew] at hcreate
  rcases traces_call_some hcreate with ⟨status, s₂, rest', rfl, -, hend⟩
  rcases runs_expect.mp (runs_of_traces hend) with ⟨rfl, -⟩
  have hrest : creations rest' = [] :=
    creations_of_asks asks_expect List.not_mem_nil hend
  change creations ([⟨.getHost name, _⟩, ⟨.postHost name folder attributes, 200⟩] ++ rest') = _
  rw [creations_append, hrest]
  rfl

theorem creations_createRows {root : Ident} {leaf leaf' : Dict Role Ident} {rows : List Row}
    (hnew : ∀ row ∈ rows, s.hosts.get row.name = none) (hnodup : (rows.map Row.name).Nodup)
    (h : (createRows root leaf rows).Traces (Serves panels) s log (some leaf') t) :
    creations log = rows.map fun row => (row.name, row.attributes) := by
  induction rows generalizing leaf s log with
  | nil =>
      rcases h with ⟨rfl, -⟩
      rfl
  | cons row rows ih =>
      rcases traces_bind_some h with ⟨⟨folder, leaf₁⟩, s₁, log₁, log', rfl, hfolder, h⟩
      rcases traces_bind_some h with ⟨_, s₂, log₂, log₃, rfl, hhost, hrest⟩
      rw [List.map_cons, List.nodup_cons] at hnodup
      have hhosts₁ : s₁.hosts = s.hosts :=
        hosts_of_asks (asks_leafFor _ _ _) (by decide) (by decide) (runs_of_traces hfolder)
      have hnew₁ : s₁.hosts.get row.name = none := by
        rw [hhosts₁]
        exact hnew row List.mem_cons_self
      have hnew₂ : ∀ row' ∈ rows, s₂.hosts.get row'.name = none := by
        intro row' hrow'
        have hne : row'.name ≠ row.name := fun heq =>
          hnodup.1 (heq ▸ List.mem_map_of_mem hrow')
        rw [(runs_ensureHost (runs_of_traces hhost)).1, Function.update_of_ne hne, hhosts₁]
        exact hnew row' (List.mem_cons_of_mem _ hrow')
      rw [creations_append, creations_append,
        creations_of_asks (asks_leafFor _ _ _) (by decide) hfolder,
        creations_ensureHost hnew₁ hhost, ih hnew₂ hnodup.2 hrest]
      rfl

theorem nodup_deviceRows (info : Netsim) : ((deviceRows info).map Row.name).Nodup := by
  have hentries : (info.devices.entries.map fun e => e.2.fqdn).Nodup :=
    List.Nodup.map_on (fun e he e' he' => fqdn_injOn he he')
      (List.Nodup.of_map _ info.devices.nodup)
  rw [deviceRows, List.map_map]
  exact ((topoOrder_perm info.devices).map _).nodup_iff.mpr hentries

/-- On a site without hosts the devices are created in their topological order. -/
theorem creations_setupSnmp {info : Netsim} {args : Args} {leaf : Dict Role Ident}
    {result : List Text × Dict Role Ident} (hpanel : panels.netsim = some info)
    (hempty : s.hosts = Dict.empty)
    (h : (setupSnmp args leaf).Traces (Serves panels) s log (some result) t) :
    creations log = (topoOrder info.devices).map (deviceHost info) := by
  rcases traces_call_some h with ⟨answer, s₁, rest, rfl, ⟨rfl, rfl⟩, hrun⟩
  rw [hpanel] at hrun
  rcases traces_bind_some hrun with ⟨_, s₂, log₁, log₂, rfl, hheal, hrun⟩
  rcases traces_bind_some hrun with ⟨leaf', s₃, log₃, log₄, rfl, hrows, hrun⟩
  rcases traces_bind_some hrun with ⟨_, s₄, log₅, log₆, rfl, haccess, hlast, -⟩
  have hs₂ : s₂ = s₁ := site_of_asks (asks_healDevices _) (runs_of_traces hheal)
  have hnew : ∀ row ∈ deviceRows info, s₂.hosts.get row.name = none := by
    intro row _
    rw [hs₂, hempty, Dict.get_empty]
  rw [← List.singleton_append, hlast]
  simp only [creations_append, creations_createRows hnew (nodup_deviceRows info) hrows,
    creations_of_asks (asks_healDevices _) List.not_mem_nil hheal,
    creations_of_asks (asks_ensureSnmpAccess _ _) (by decide) haccess, deviceRows, List.map_map]
  simp [creations, deviceHost, deviceRow, Function.comp_def]

/-- On a site without hosts every device that {lit}`setup_snmp` creates names no parent, or
one that the same call has created before, exactly if the core switch is the first by name of
the devices whose declared parent is not in the map. -/
theorem parentsFirst_created_iff {info : Netsim} {args : Args} {leaf : Dict Role Ident}
    {result : List Text × Dict Role Ident} (hpanel : panels.netsim = some info)
    (hacyclic : Acyclic info.devices) (hempty : s.hosts = Dict.empty)
    (h : (setupSnmp args leaf).Traces (Serves panels) s log (some result) t) :
    ParentsFirst [] (creations log) ↔ CoreFirst info.devices := by
  rw [creations_setupSnmp hpanel hempty h]
  exact parentsFirst_topoOrder_iff hacyclic

end Created

theorem acyclic_of_depth {devices : Dict Text Device} (depth : Text → Nat)
    (h : ∀ e ∈ devices.entries, ∀ p ∈ devices.keys, given e.2.parent = some p →
      depth p < depth e.1) : Acyclic devices := by
  have hlt : ∀ child parent, TransGen (Declares devices) child parent →
      depth parent < depth child := by
    intro child parent hpath
    induction hpath with
    | single hedge =>
        rcases hedge with ⟨hkey, dev, hdev, hparent⟩
        exact h (child, dev) (Dict.get_eq_some_iff.mp hdev) _ hkey hparent
    | tail _ hedge ih =>
        rcases hedge with ⟨hkey, dev, hdev, hparent⟩
        exact (h (_, dev) (Dict.get_eq_some_iff.mp hdev) _ hkey hparent).trans ih
  exact fun short hcycle => absurd (hlt short short hcycle) (lt_irrefl _)

/-- The core switch with the access switch below it. -/
def coreAndAccess : Netsim where
  domain := "demo".toList
  devices := Dict.ofRows
    [("sw-core-01".toList, ⟨"sw-core-01.demo".toList, none, none, none, "healthy".toList, false⟩),
      ("sw-access-01".toList, ⟨"sw-access-01.demo".toList, some "sw-core-01".toList, none, none,
        "healthy".toList, false⟩)]
  live := true
  snmpPort := none
  named := by decide +kernel

/-- The core switch with a load balancer whose switch was left out of the selection. -/
def coreAndBalancer : Netsim where
  domain := "demo".toList
  devices := Dict.ofRows
    [("sw-core-01".toList, ⟨"sw-core-01.demo".toList, none, none, none, "healthy".toList, false⟩),
      ("lb-01".toList, ⟨"lb-01.demo".toList, some "sw-dc-dist-01".toList, none, none,
        "healthy".toList, false⟩)]
  live := true
  snmpPort := none
  named := by decide +kernel

theorem host_notMem_core : bareShell.delivery.host ∉ coreAndAccess.fqdns := by decide +kernel

/-- The panels with the core switch and the access switch. -/
def corePanels : Panels :=
  bareShellWith coreAndAccess host_notMem_core

/-- The panels with the core switch and the load balancer. -/
def balancerPanels : Panels :=
  bareShellWith coreAndBalancer (by decide +kernel)

/-- A site with the root folder of the estate. -/
def demoFolder : Site :=
  Site.empty.addFolder ["demo".toList]

theorem exists_traces {α : Type} (panels : Panels) (strict : Bool) {p : Setup α} {s : Site}
    (h : (p.run (serve panels strict) s).isSome = true) :
    ∃ a t log, p.Traces (Serves panels) s log (some a) t := by
  rcases Option.isSome_iff_exists.mp h with ⟨⟨a, t⟩, hrun⟩
  rcases exists_traces_of_runs (runs_of_serve hrun) with ⟨log, hlog⟩
  exact ⟨a, t, log, hlog⟩

theorem topoOrder_sound_core :
    Respects Prod.fst (NeedsParent coreAndAccess.devices.keys) (topoOrder coreAndAccess.devices) :=
  (topoOrder_sound coreAndAccess.devices).2.2 (acyclic_of_depth List.length (by decide +kernel))

theorem parentsFirst_created_iff_core :
    ∃ result t log,
      (setupSnmp demoArgs Dict.empty).Traces (Serves corePanels) demoFolder log (some result) t ∧
        (ParentsFirst [] (creations log) ↔ CoreFirst coreAndAccess.devices) := by
  rcases exists_traces corePanels true (p := setupSnmp demoArgs Dict.empty)
    (s := demoFolder) (by decide +kernel) with ⟨result, t, log, htraces⟩
  exact ⟨result, t, log, htraces, parentsFirst_created_iff rfl
    (acyclic_of_depth List.length (by decide +kernel)) rfl htraces⟩

/-- The load balancer is created before the core switch that it names as its parent. -/
theorem not_parentsFirst_balancer :
    ¬ ∀ (panels : Panels) (info : Netsim) (args : Args) (leaf : Dict Role Ident) (s t : Site)
      (log : List (Exchange Request Ans)) (result : List Text × Dict Role Ident),
      panels.netsim = some info → Acyclic info.devices → s.hosts = Dict.empty →
      (setupSnmp args leaf).Traces (Serves panels) s log (some result) t →
      ParentsFirst [] (creations log) := by
  intro hclaim
  rcases exists_traces balancerPanels false (p := setupSnmp demoArgs Dict.empty)
    (s := demoFolder) (by decide +kernel) with ⟨result, t, log, htraces⟩
  have hparents := hclaim balancerPanels coreAndBalancer demoArgs Dict.empty demoFolder t log
    result rfl (acyclic_of_depth List.length (by decide +kernel)) rfl htraces
  rw [creations_setupSnmp rfl rfl htraces] at hparents
  revert hparents
  decide +kernel

end Deploy
end DemoEstate
