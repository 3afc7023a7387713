import DemoEstate.Netsim.ReplayModel

/-!
# Replayed devices

An instance of a recorded walk renders the model's static text as it stands and
gives every slot the instance's own value.  A full rendering and a refresh of the
dynamic slots share the rendering of a slot.

Main results:

- Theorem {lit}`slotValue_ensures`: a slot shows a value its contract allows.
- Theorem {lit}`walk_ensures` and {lit}`dynamicRows_ensures`: the rows of a walk and
  of a refresh.
-/

namespace DemoEstate
namespace Netsim

open Interaction
open Snmp (Row Oid Result parseOid)

/-! ## Walk files and instances -/

/-- The rows of a walk file: an OID, a blank and the value on each line. -/
def readRows (content : Text) : List Row :=
  (Text.fileLines content).map (Text.cut ' ')

/-- A walk file; its OIDs are written with digits and dots. -/
structure WalkFile where
  content : Text
  numeric : ∀ row ∈ readRows content, Numeric row.1

def WalkFile.rows (file : WalkFile) : List Row :=
  readRows file.content

/-- An instance of the model of a walk file. -/
structure ReplayDevice where
  short : Text
  location : Text
  file : WalkFile
  model : ReplayModel
  loaded : ReplayModel.ofRows file.rows = .ok model
  short_plain : Text.Plain short
  location_plain : Text.Plain location

/-! ## Hardware identities -/

/-- The characters that replace one of a serial number. -/
def serialAlphabet (pf : Platform) (c : Char) : Text :=
  if pf.isDigit c then "0123456789".toList
  else if pf.isUpper c then "ABCDEFGHJKLMNPQRSTUVWXYZ".toList
  else "abcdefghjkmnpqrstuvwxyz".toList

/-- Rewrite one character; the state also keeps the choices drawn so far. -/
def rewriteChar (pf : Platform) (seed : Seed) (state : Text × List Nat) (p : Char × Nat) :
    Text × List Nat :=
  let alphabet := serialAlphabet pf p.1
  let drawn := alphabet.length :: state.2
  (state.1.set p.2 (alphabet.getD (pf.choice seed drawn) '0'), drawn)

/-- Rewrite the last four alphanumeric characters of a serial number. -/
def mutateSerial (pf : Platform) (short value : Text) : Text :=
  let seed := Seed.text (short ++ ':' :: value ++ ":ident-v1".toList)
  let alnum := value.zipIdx.filter fun p => pf.isAlnum p.1
  ((alnum.drop (alnum.length - 4)).foldl (rewriteChar pf seed) (value, [])).1

/-- Read an integer in base 36. -/
def intBase36 (s : Text) : Option ℤ :=
  Text.intIn 36 s

theorem plain_serialAlphabet (pf : Platform) (c : Char) : Text.Plain (serialAlphabet pf c) := by
  unfold serialAlphabet
  split
  · decide
  split
  · decide
  · decide

theorem plain_foldl_rewriteChar (pf : Platform) (seed : Seed) (places : List (Char × Nat))
    {state : Text × List Nat} (hstate : Text.Plain state.1) :
    Text.Plain (places.foldl (rewriteChar pf seed) state).1 := by
  induction places generalizing state with
  | nil => exact hstate
  | cons p places ih =>
      refine ih fun c hc => ?_
      rcases List.mem_or_eq_of_mem_set hc with hc | rfl
      · exact hstate c hc
      · exact plain_getD (plain_serialAlphabet pf p.1) _

/-- A rewritten serial number has no line break that the recorded one has not. -/
theorem plain_mutateSerial (pf : Platform) {short value : Text} (hvalue : Text.Plain value) :
    Text.Plain (mutateSerial pf short value) :=
  plain_foldl_rewriteChar pf _ _ hvalue

namespace ReplayDevice

/-- The generator that tells instances of a model apart. -/
def seed (d : ReplayDevice) : Seed :=
  .text (d.short ++ ":replay-v1".toList)

def rateJit (d : ReplayDevice) (pf : Platform) : ℚ≥0 :=
  pf.uniform d.seed 0 (7 / 10) (13 / 10)

def uptimeExtra (d : ReplayDevice) (pf : Platform) : ℚ≥0 :=
  pf.uniform d.seed 1 0 120 * 86400

/-- The offset of an instance's hardware addresses; the third draw is the phase of
its gauges and counters. -/
def macOff (d : ReplayDevice) (pf : Platform) : Nat :=
  pf.randrange d.seed 3 1 (2 ^ 24)

/-- The identity an instance shows for a recorded one: the vendor part of a hardware
address stays, and the service code is that of the rewritten service tag. -/
def identityValue (d : ReplayDevice) (pf : Platform) (slot : Slot) : Result Text :=
  match slot.kind with
  | .ifmac =>
      let raw := match parseHexValue slot.key with
        | some (b :: bytes) => b :: bytes
        | _ => List.replicate 6 0
      let low := ((raw.drop 3).foldl (fun n b => n * 256 + b) 0 + d.macOff pf) % 2 ^ 24
      .ok (hexBytes (raw.take 3 ++ [low / 65536, low / 256 % 256, low % 256]))
  | .svccode =>
      match d.model.dellSvctag with
      | some tag =>
          match intBase36 (mutateSerial pf d.short tag) with
          | some n => .ok (Text.str n)
          | none => .error .valueError
      | none => .ok slot.key
  | _ => .ok (mutateSerial pf d.short slot.key)

/-- The remembered identity of a slot, computed and remembered at its first use. -/
def identity (d : ReplayDevice) (pf : Platform) (slot : Slot) : Render Text := do
  match ← Render.getIdent slot.oid with
  | some v => pure v
  | none =>
      let v ← Render.ofResult (d.identityValue pf slot)
      Render.setIdent slot.oid v
      pure v

/-! ## Rendering -/

/-- The sample of a counter key: its base rate is the recorded one, shifted for the
instance and capped at the line rate. -/
def sampleOp (d : ReplayDevice) (pf : Platform) (key : Text) : Op :=
  .sample (d.short ++ '.' :: key) ((d.model.rates.get key).getD 0 * d.rateJit pf)
    (d.model.caps.get key)

/-- Sample a counter key once in a rendering. -/
def sampleOnce (d : ReplayDevice) (pf : Platform) (key : Text) (sampled : Dict Text ℤ) :
    Render (ℤ × Dict Text ℤ) := do
  match sampled.get key with
  | some v => pure (v, sampled)
  | none =>
      let v ← Render.sample (d.short ++ '.' :: key)
        ((d.model.rates.get key).getD 0 * d.rateJit pf) (d.model.caps.get key)
      pure (v, sampled.set key v)

/-- The value of a slot, and the samples taken so far. -/
def slotValue (d : ReplayDevice) (pf : Platform) (slot : Slot) (elapsed now : ℚ)
    (sampled : Dict Text ℤ) : Render (Text × Dict Text ℤ) := do
  match slot.kind with
  | .sysname => pure (d.short ++ '.' :: pf.domain, sampled)
  | .syslocation => pure (d.location, sampled)
  | .uptime => pure (Text.str (int (slot.recorded + elapsed * 100) % u32), sampled)
  | .hrcpu =>
      let v ← Render.gauge (d.short ++ ".hrcpu.".toList ++ slot.key) slot.recorded 3
      pure (Text.str (max 1 (min 97 (round v))), sampled)
  | .apcdate => pure (pf.date (now - 37 * 86400), sampled)
  | .ctr32 =>
      let (v, sampled) ← d.sampleOnce pf slot.key sampled
      pure (Text.str (v % u32), sampled)
  | .ctr64 =>
      let (v, sampled) ← d.sampleOnce pf slot.key sampled
      pure (Text.str v, sampled)
  | .ifmac | .serial | .svctag | .svccode =>
      let v ← d.identity pf slot
      pure (v, sampled)

/-- Render segments from the samples taken so far. -/
def walkFrom (d : ReplayDevice) (pf : Platform) (elapsed now : ℚ) :
    List Segment → Dict Text ℤ → Render Text
  | [], _ => pure []
  | .static text :: segments, sampled => do
      let rest ← walkFrom d pf elapsed now segments sampled
      pure (text ++ rest)
  | .slot slot :: segments, sampled => do
      let (v, sampled) ← d.slotValue pf slot elapsed now sampled
      let rest ← walkFrom d pf elapsed now segments sampled
      pure (rowLine (slot.oid, v) ++ rest)

/-- The time since the process start, as the instance counts it. -/
def elapsed (d : ReplayDevice) (pf : Platform) (now : ℚ) : ℚ :=
  now - pf.start + d.uptimeExtra pf

/-- The walk of an instance. -/
def walk (d : ReplayDevice) (pf : Platform) (now : ℚ) : Render Text :=
  d.walkFrom pf (d.elapsed pf now) now d.model.segments Dict.empty

/-- Render the rows of some slots from the samples taken so far. -/
def rowsFrom (d : ReplayDevice) (pf : Platform) (elapsed now : ℚ) :
    List Slot → Dict Text ℤ → Render (List Row)
  | [], _ => pure []
  | slot :: slots, sampled => do
      let (v, sampled) ← d.slotValue pf slot elapsed now sampled
      let rest ← rowsFrom d pf elapsed now slots sampled
      pure ((slot.oid, v) :: rest)

/-- The rows whose values move between polls. -/
def dynamicRows (d : ReplayDevice) (pf : Platform) (now : ℚ) : Render (List Row) :=
  d.rowsFrom pf (d.elapsed pf now) now
    ((slots d.model.segments).filter fun slot => slot.kind.isDynamic) Dict.empty

/-! ## What a slot shows -/

/-- A contract lets an instance render some slots. -/
structure Allows (d : ReplayDevice) (pf : Platform) (c : Program.Contract Op Ans)
    (slots : List Slot) : Prop where
  sample : ∀ name rate cap, c.asks (.sample name rate cap)
  gauge : ∀ name base amp, c.asks (.gauge name base amp)
  getIdent : ∀ oid, c.asks (.getIdent oid)
  setIdent : ∀ slot ∈ slots, slot.kind.isIdentity = true → ∀ v,
    d.identityValue pf slot = .ok v → c.asks (.setIdent slot.oid v)
  raise : ∀ slot ∈ slots, slot.kind.isIdentity = true → ∀ e,
    d.identityValue pf slot = .error e → c.asks .raise

/-- The values a slot shows under a contract. -/
def Shows (d : ReplayDevice) (pf : Platform) (c : Program.Contract Op Ans) (elapsed now : ℚ)
    (slot : Slot) (v : Text) : Prop :=
  match slot.kind with
  | .sysname => v = d.short ++ '.' :: pf.domain
  | .syslocation => v = d.location
  | .uptime => v = Text.str (int (slot.recorded + elapsed * 100) % u32)
  | .hrcpu => ∃ w : ℚ,
      c.answers (.gauge (d.short ++ ".hrcpu.".toList ++ slot.key) slot.recorded 3) w ∧
        v = Text.str (max 1 (min 97 (round w)))
  | .apcdate => v = pf.date (now - 37 * 86400)
  | .ctr32 => ∃ n : ℤ, c.answers (d.sampleOp pf slot.key) n ∧ v = Text.str (n % u32)
  | .ctr64 => ∃ n : ℤ, c.answers (d.sampleOp pf slot.key) n ∧ v = Text.str n
  | .ifmac | .serial | .svctag | .svccode =>
      d.identityValue pf slot = .ok v ∨ c.answers (.getIdent slot.oid) (some v)

/-- The samples taken so far are answers of the contract. -/
def Sampled (d : ReplayDevice) (pf : Platform) (c : Program.Contract Op Ans)
    (sampled : Dict Text ℤ) : Prop :=
  ∀ key n, sampled.get key = some n → c.answers (d.sampleOp pf key) n

variable {d : ReplayDevice} {pf : Platform} {c : Program.Contract Op Ans} {elapsed now : ℚ}

theorem sampled_empty : d.Sampled pf c Dict.empty := by
  intro key n h
  simp at h

theorem sampleOnce_ensures (hsample : ∀ name rate cap, c.asks (.sample name rate cap))
    (key : Text) {sampled : Dict Text ℤ} (hsampled : d.Sampled pf c sampled) :
    (d.sampleOnce pf key sampled).Ensures c fun out =>
      c.answers (d.sampleOp pf key) out.1 ∧ d.Sampled pf c out.2 := by
  unfold sampleOnce
  cases hkey : sampled.get key with
  | some v => exact ⟨hsampled key v hkey, hsampled⟩
  | none =>
      refine Program.ensures_call (hsample _ _ _) fun v hv => ⟨hv, ?_⟩
      intro key' n hn
      rw [Dict.get_set] at hn
      split at hn
      · rename_i heq
        cases hn
        exact heq ▸ hv
      · exact hsampled key' n hn

theorem identity_ensures {slots : List Slot} (hallows : d.Allows pf c slots) {slot : Slot}
    (hslot : slot ∈ slots) (hkind : slot.kind.isIdentity = true) :
    (d.identity pf slot).Ensures c fun v =>
      d.identityValue pf slot = .ok v ∨ c.answers (.getIdent slot.oid) (some v) := by
  unfold identity
  refine Program.ensures_call (hallows.getIdent slot.oid) fun remembered hremembered => ?_
  cases remembered with
  | some v => exact Or.inr hremembered
  | none =>
      cases hvalue : d.identityValue pf slot with
      | error e => exact ⟨hallows.raise slot hslot hkind e hvalue, fun v => nomatch v⟩
      | ok v =>
          exact ⟨hallows.setIdent slot hslot hkind v hvalue, fun _ _ => Or.inl rfl⟩

/-- A slot shows a value its contract allows. -/
theorem slotValue_ensures {slots : List Slot} (hallows : d.Allows pf c slots) {slot : Slot}
    (hslot : slot ∈ slots) {sampled : Dict Text ℤ} (hsampled : d.Sampled pf c sampled) :
    (d.slotValue pf slot elapsed now sampled).Ensures c fun out =>
      d.Shows pf c elapsed now slot out.1 ∧ d.Sampled pf c out.2 := by
  have hidentity : slot.kind.isIdentity = true →
      (d.identity pf slot >>= fun v => pure (v, sampled)).Ensures c fun out =>
        (d.identityValue pf slot = .ok out.1 ∨ c.answers (.getIdent slot.oid) (some out.1)) ∧
          d.Sampled pf c out.2 := fun hkind =>
    Program.ensures_bind.mpr ((identity_ensures hallows hslot hkind).mono fun v hv => ⟨hv, hsampled⟩)
  unfold slotValue Shows
  cases hkind : slot.kind with
  | sysname => exact ⟨rfl, hsampled⟩
  | syslocation => exact ⟨rfl, hsampled⟩
  | uptime => exact ⟨rfl, hsampled⟩
  | hrcpu =>
      exact Program.ensures_call (hallows.gauge _ _ _) fun w hw => ⟨⟨w, hw, rfl⟩, hsampled⟩
  | apcdate => exact ⟨rfl, hsampled⟩
  | ctr32 =>
      exact Program.ensures_bind.mpr ((sampleOnce_ensures hallows.sample slot.key hsampled).mono
        fun out hout => ⟨⟨out.1, hout.1, rfl⟩, hout.2⟩)
  | ctr64 =>
      exact Program.ensures_bind.mpr ((sampleOnce_ensures hallows.sample slot.key hsampled).mono
        fun out hout => ⟨⟨out.1, hout.1, rfl⟩, hout.2⟩)
  | ifmac => exact hidentity (by rw [hkind]; rfl)
  | serial => exact hidentity (by rw [hkind]; rfl)
  | svctag => exact hidentity (by rw [hkind]; rfl)
  | svccode => exact hidentity (by rw [hkind]; rfl)

/-- An identity has no line break that the recorded one has not. -/
theorem plain_identityValue {slot : Slot} (hkey : Text.Plain slot.key) {v : Text}
    (h : d.identityValue pf slot = .ok v) : Text.Plain v := by
  unfold identityValue at h
  split at h
  · cases h
    exact plain_hexBytes _
  · split at h
    · split at h
      · cases h
        exact Text.plain_str _
      · cases h
    · cases h
      exact hkey
  · cases h
    exact plain_mutateSerial pf hkey

/-- Whatever a slot shows is plain, as long as the identities are. -/
theorem plain_of_shows {slot : Slot} {v : Text}
    (hident : slot.kind.isIdentity = true →
      d.identityValue pf slot = .ok v ∨ c.answers (.getIdent slot.oid) (some v) → Text.Plain v)
    (h : d.Shows pf c elapsed now slot v) : Text.Plain v := by
  unfold Shows at h
  cases hkind : slot.kind <;> simp only [hkind] at h
  case sysname =>
    rw [h]
    exact d.short_plain.append (Text.Plain.cons rfl pf.domain_plain)
  case syslocation => exact h ▸ d.location_plain
  case uptime => exact h ▸ Text.plain_str _
  case hrcpu =>
    rcases h with ⟨w, -, rfl⟩
    exact Text.plain_str _
  case apcdate => exact h ▸ pf.date_plain _
  case ctr32 =>
    rcases h with ⟨n, -, rfl⟩
    exact Text.plain_str _
  case ctr64 =>
    rcases h with ⟨n, -, rfl⟩
    exact Text.plain_str _
  all_goals exact hident (by rw [hkind]; rfl) h

/-! ## What a walk and a refresh show -/

/-- The rows a piece renders. -/
def Renders (d : ReplayDevice) (pf : Platform) (c : Program.Contract Op Ans) (elapsed now : ℚ)
    (piece : Piece) (row : Row) : Prop :=
  row.1 = piece.row.1 ∧
    match piece.slot with
    | none => row.2 = piece.row.2
    | some slot => d.Shows pf c elapsed now slot row.2

theorem walkFrom_pending (static : Text) (segments : List Segment) (sampled : Dict Text ℤ) :
    d.walkFrom pf elapsed now (pending static ++ segments) sampled =
      d.walkFrom pf elapsed now segments sampled >>= fun rest => pure (static ++ rest) := by
  unfold pending
  split
  · rename_i hnil
    simp only [hnil, List.nil_append, Program.pure_eq_done]
    exact (Program.bind_done _).symm
  · rfl

/-- What the joined pieces render, behind the text collected so far. -/
theorem walkFrom_ensures {all : List Slot} (hallows : d.Allows pf c all) (pieces : List Piece)
    (hslots : ∀ slot ∈ pieces.filterMap Piece.slot, slot ∈ all) (static : Text)
    {sampled : Dict Text ℤ} (hsampled : d.Sampled pf c sampled) :
    (d.walkFrom pf elapsed now (joinFrom static pieces) sampled).Ensures c fun text =>
      ∃ rows, List.Forall₂ (d.Renders pf c elapsed now) pieces rows ∧
        text = static ++ rows.flatMap rowLine := by
  induction pieces generalizing static sampled with
  | nil =>
      rw [joinFrom, ← List.append_nil (pending static), walkFrom_pending]
      exact ⟨[], .nil, rfl⟩
  | cons piece pieces ih =>
      rcases piece with ⟨row, _ | slot, hreads⟩
      · refine (ih hslots (static ++ rowLine row) hsampled).mono fun text htext => ?_
        rcases htext with ⟨rows, hrows, rfl⟩
        exact ⟨row :: rows, .cons ⟨rfl, rfl⟩ hrows, by simp⟩
      · have hslot : slot ∈ all := hslots slot (by simp)
        have hrest : ∀ s ∈ pieces.filterMap Piece.slot, s ∈ all := fun s hs =>
          hslots s (by simpa using Or.inr (by simpa using hs))
        rw [joinFrom, walkFrom_pending, walkFrom]
        refine Program.ensures_bind.mpr (Program.ensures_bind.mpr
          ((slotValue_ensures hallows hslot hsampled).mono fun out hout => ?_))
        refine Program.ensures_bind.mpr ((ih hrest [] hout.2).mono fun text htext => ?_)
        rcases htext with ⟨rows, hrows, rfl⟩
        refine ⟨(slot.oid, out.1) :: rows, .cons ⟨(hreads slot rfl).oid_eq, hout.1⟩ hrows, ?_⟩
        simp

/-- The rows of a walk. -/
theorem walk_ensures {pieces : List Piece} (hsegments : d.model.segments = joinFrom [] pieces)
    (hallows : d.Allows pf c (pieces.filterMap Piece.slot)) :
    (d.walk pf now).Ensures c fun text =>
      ∃ rows, List.Forall₂ (d.Renders pf c (d.elapsed pf now) now) pieces rows ∧
        text = rows.flatMap rowLine := by
  rw [walk, hsegments]
  exact walkFrom_ensures hallows pieces (fun _ hs => hs) [] sampled_empty

theorem rowsFrom_ensures {all some : List Slot} (hallows : d.Allows pf c all)
    (hsome : ∀ slot ∈ some, slot ∈ all) {sampled : Dict Text ℤ}
    (hsampled : d.Sampled pf c sampled) :
    (d.rowsFrom pf elapsed now some sampled).Ensures c fun rows =>
      List.Forall₂ (fun slot row => row.1 = slot.oid ∧ d.Shows pf c elapsed now slot row.2)
        some rows := by
  induction some generalizing sampled with
  | nil => exact .nil
  | cons slot some ih =>
      refine Program.ensures_bind.mpr ((slotValue_ensures hallows
        (hsome slot List.mem_cons_self) hsampled).mono fun out hout => ?_)
      exact Program.ensures_bind.mpr ((ih (fun s hs => hsome s (List.mem_cons_of_mem _ hs))
        hout.2).mono fun rest hrest => .cons ⟨rfl, hout.1⟩ hrest)

/-- The rows of a refresh. -/
theorem dynamicRows_ensures {pieces : List Piece}
    (hsegments : d.model.segments = joinFrom [] pieces)
    (hallows : d.Allows pf c (pieces.filterMap Piece.slot)) :
    (d.dynamicRows pf now).Ensures c fun rows =>
      List.Forall₂
        (fun slot row => row.1 = slot.oid ∧ d.Shows pf c (d.elapsed pf now) now slot row.2)
        ((pieces.filterMap Piece.slot).filter fun slot => slot.kind.isDynamic) rows := by
  rw [dynamicRows, hsegments, slots_joinFrom]
  exact rowsFrom_ensures hallows (fun slot hs => (List.mem_filter.mp hs).1) sampled_empty

end ReplayDevice

end Netsim
end DemoEstate
