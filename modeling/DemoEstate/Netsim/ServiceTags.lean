import DemoEstate.Netsim.Identities

/-!
# Service tags of an instance

The express service code of a chassis is its service tag, read in base 36.  An instance rewrites
the recorded tag and reads the code off the rewritten one.

Main definitions:

- Definitions {lit}`TagRow` and {lit}`CodeRow`: a recorded service tag, and a recorded code.
- Definition {lit}`maskSerial`: a tag with the characters masked that an instance rewrites.
- Definition {lit}`ServesCode`: renderings of an instance never fail, and show the code of the tag.

Main results:

- Theorem {lit}`dellSvctag_eq`: a model keeps the first recorded tag.
- Theorem {lit}`servesCode_iff`: an instance serves the code if the masked tag is a numeral.
-/

namespace DemoEstate
namespace Netsim

open Interaction
open Snmp (Row Oid Result)

/-! ## Recorded tags and codes -/

/-- A recorded service tag that is no blank. -/
def TagRow (row : Row) : Prop :=
  (dellSvctagPrefixes.any fun p => (behind p row.1).isSome) ∧ Text.strip Text.isSpace row.2 ≠ []

instance : DecidablePred TagRow := fun row =>
  inferInstanceAs (Decidable (_ ∧ Text.strip Text.isSpace row.2 ≠ []))

/-- A recorded service code that is a number. -/
def CodeRow (row : Row) : Prop :=
  (behind dellSvccodePrefix row.1).isSome ∧ (Text.intOf (Text.strip Text.isSpace row.2)).isSome

instance : DecidablePred CodeRow := fun row =>
  inferInstanceAs (Decidable (_ ∧ (Text.intOf (Text.strip Text.isSpace row.2)).isSome = true))

/-- The slot of a recorded tag. -/
def tagSlot (row : Row) : Slot :=
  ⟨.svctag, row.1, Text.strip Text.isSpace row.2, 0⟩

/-- The slot of a recorded code. -/
def codeSlot (row : Row) : Slot :=
  ⟨.svccode, row.1, Text.strip Text.isSpace row.2, 0⟩

namespace ReplayModel

variable {m m' : ReplayModel}

/-- Keep the first of the recorded tags. -/
def keepTag (m : ReplayModel) (tag : Text) : ReplayModel :=
  { m with dellSvctag := some (m.dellSvctag.getD tag) }

/-- The place of a recorded tag is in no other table of identities. -/
theorem behind_of_tagRow {row : Row} (h : TagRow row) {q : Oid} (hq : q ∈ hardwarePrefixes)
    (hne : q ∉ dellSvctagPrefixes) : behind q row.1 = none := by
  rcases List.any_eq_true.mp h.1 with ⟨p, hp, hbehind⟩
  have hmem : p ∈ ucdPrefix :: hardwarePrefixes :=
    List.mem_cons_of_mem _ (List.mem_append_right _ hp)
  exact behind_hardware hmem (List.mem_cons_of_mem _ hq) (fun heq => hne (heq ▸ hp)) hbehind

/-- The place of a recorded code is in no other table of identities. -/
theorem behind_of_code {oid : Text} (h : (behind dellSvccodePrefix oid).isSome) {q : Oid}
    (hq : q ∈ hardwarePrefixes) (hne : q ≠ dellSvccodePrefix) : behind q oid = none :=
  behind_hardware (by decide) (List.mem_cons_of_mem _ hq) hne.symm h

theorem not_tagRow_of_code {row : Row} (h : (behind dellSvccodePrefix row.1).isSome) :
    ¬ TagRow row := by
  intro htag
  rw [behind_of_tagRow htag (by decide) (by decide)] at h
  cases h

theorem classify_tagRow {row : Row} (h : TagRow row) :
    m.classify row.1 row.2 = .ok (m.keepTag (Text.strip Text.isSpace row.2), some (tagSlot row)) := by
  rcases List.any_eq_true.mp h.1 with ⟨p, hp, hbehind⟩
  have hmac : behind ifmacPrefix row.1 = none := behind_of_tagRow h (by decide) (by decide)
  have hserial : behind entSerialPrefix row.1 = none := behind_of_tagRow h (by decide) (by decide)
  have hidentity : m.identitySlot row.1 row.2 =
      some (m.keepTag (Text.strip Text.isSpace row.2), tagSlot row) := by
    simp only [identitySlot, hmac, hserial, Option.isSome_none, Bool.false_eq_true, false_and,
      if_false]
    exact if_pos h
  exact classify_hardware (List.mem_append_right _ hp) hbehind hidentity

theorem classify_codeRow {row : Row} (h : CodeRow row) :
    m.classify row.1 row.2 = .ok (m, some (codeSlot row)) := by
  have hmac : behind ifmacPrefix row.1 = none := behind_of_code h.1 (by decide) (by decide)
  have hserial : behind entSerialPrefix row.1 = none := behind_of_code h.1 (by decide) (by decide)
  have htag := not_tagRow_of_code h.1
  have hidentity : m.identitySlot row.1 row.2 = some (m, codeSlot row) := by
    simp only [identitySlot, hmac, hserial, Option.isSome_none, Bool.false_eq_true, false_and,
      if_false]
    exact (if_neg htag).trans (if_pos h)
  exact classify_hardware (by decide) h.1 hidentity

/-- The tag that is kept after a row. -/
theorem dellSvctag_of_classify {row : Row} {out : Option Slot}
    (h : m.classify row.1 row.2 = .ok (m', out)) :
    m'.dellSvctag = m.dellSvctag.or
      (if TagRow row then some (Text.strip Text.isSpace row.2) else none) := by
  by_cases hrow : TagRow row
  · rw [classify_tagRow hrow, Except.ok.injEq, Prod.mk.injEq] at h
    rw [← h.1, if_pos hrow, keepTag]
    cases m.dellSvctag <;> rfl
  · rw [if_neg hrow, Option.or_none]
    cases classification_of_classify h with
    | static | plain | counter | hardware | code => rfl
    | tag hplace hvalue => exact absurd ⟨hplace, hvalue⟩ hrow

/-- The first of the recorded tags is kept. -/
theorem Classifies.dellSvctag_eq {pieces : List Piece} (h : Classifies m pieces m') :
    m'.dellSvctag = m.dellSvctag.or
      (((pieces.map Piece.row).find? TagRow).map fun row => Text.strip Text.isSpace row.2) := by
  induction h with
  | nil => exact Option.or_none.symm
  | @cons m m₁ m' piece pieces segments hrow hrest ih =>
      rw [ih, dellSvctag_of_classify hrow, Option.or_assoc, List.map_cons]
      by_cases htag : TagRow piece.row
      · rw [if_pos htag, List.find?_cons_of_pos (by simpa using htag)]
        rfl
      · rw [if_neg htag, List.find?_cons_of_neg (by simpa using htag)]
        rfl

/-- A model keeps the first recorded tag. -/
theorem dellSvctag_eq {rows : List Row} (h : ofRows rows = .ok m) :
    m.dellSvctag = (rows.find? TagRow).map fun row => Text.strip Text.isSpace row.2 := by
  rcases ofRows_classifies h with ⟨m₀, pieces, hscan, rfl, -, hclassifies⟩
  rcases scan_finds hscan with ⟨linerate, uptimeRec, rfl⟩
  exact hclassifies.dellSvctag_eq

end ReplayModel

/-! ## Slots under the places of tags and codes -/

/-- A row whose slot keeps an identity is an address or a serial number, a tag, or a code. -/
theorem Classified.identity_cases {row : Row} {slot : Slot} (h : Classified row (some slot))
    (hkind : slot.kind.isIdentity = true) :
    (∃ p ∈ [ifmacPrefix, entSerialPrefix], (behind p row.1).isSome) ∨ TagRow row ∨
      (behind dellSvccodePrefix row.1).isSome ∧ slot.kind = .svccode := by
  rcases h with ⟨m₀, m₁, hclass⟩
  cases ReplayModel.classification_of_classify hclass with
  | plain hreads hidentity =>
      rw [hidentity] at hkind
      cases hkind
  | counter hplace => cases hplace <;> cases hkind
  | hardware _ hplace => exact Or.inl hplace
  | tag hplace hvalue => exact Or.inr (Or.inl ⟨hplace, hvalue⟩)
  | code hplace => exact Or.inr (Or.inr ⟨hplace, rfl⟩)

/-- An identity under the place of a tag is a tag. -/
theorem Classified.tagRow {row : Row} {slot : Slot} (h : Classified row (some slot))
    (hkind : slot.kind.isIdentity = true) {tag : Row} (htag : TagRow tag) (hoid : row.1 = tag.1) :
    TagRow row := by
  rcases h.identity_cases hkind with ⟨p, hp, hbehind⟩ | hrow | ⟨hcode, -⟩
  · simp only [List.mem_cons, List.not_mem_nil, or_false] at hp
    rw [hoid] at hbehind
    rcases hp with rfl | rfl
    · rw [ReplayModel.behind_of_tagRow htag (by decide) (by decide)] at hbehind
      cases hbehind
    · rw [ReplayModel.behind_of_tagRow htag (by decide) (by decide)] at hbehind
      cases hbehind
  · exact hrow
  · exact absurd htag (ReplayModel.not_tagRow_of_code (hoid ▸ hcode))

/-- An identity under the place of a code is a code. -/
theorem Classified.code_kind {row : Row} {slot : Slot} (h : Classified row (some slot))
    (hkind : slot.kind.isIdentity = true) (hoid : (behind dellSvccodePrefix row.1).isSome) :
    slot.kind = .svccode := by
  rcases h.identity_cases hkind with ⟨p, hp, hbehind⟩ | hrow | ⟨-, hcode⟩
  · simp only [List.mem_cons, List.not_mem_nil, or_false] at hp
    rcases hp with rfl | rfl
    · rw [ReplayModel.behind_of_code hoid (by decide) (by decide)] at hbehind
      cases hbehind
    · rw [ReplayModel.behind_of_code hoid (by decide) (by decide)] at hbehind
      cases hbehind
  · exact absurd hrow (ReplayModel.not_tagRow_of_code hoid)
  · exact hcode

/-! ## Rewritten and masked tags -/

/-- Mask the characters of a serial number that an instance rewrites. -/
def maskSerial (pf : Platform) (value : Text) : Text :=
  let alnum := value.zipIdx.filter fun p => pf.isAlnum p.1
  (alnum.drop (alnum.length - 4)).foldl (fun s p => s.set p.2 '0') value

/-- Whatever replaces a character of a serial number is a digit of base 36. -/
theorem isSome_digitIn_serialAlphabet (pf : Platform) (c : Char) (i : Nat) :
    (Text.digitIn 36 ((serialAlphabet pf c).getD i '0')).isSome := by
  have halphabet : ∀ x ∈ serialAlphabet pf c, (Text.digitIn 36 x).isSome = true := by
    unfold serialAlphabet
    split
    · exact List.all_eq_true.mp (by decide)
    split
    · exact List.all_eq_true.mp (by decide)
    · exact List.all_eq_true.mp (by decide)
  rw [List.getD_eq_getElem?_getD]
  cases h : (serialAlphabet pf c)[i]? with
  | none => decide
  | some x => exact halphabet x (List.mem_of_getElem? h)

/-- A rewritten serial number has the shape of the masked one. -/
theorem sameShape_mutateSerial (pf : Platform) (short value : Text) :
    List.Forall₂ (Text.SameShape 36) (mutateSerial pf short value) (maskSerial pf value) := by
  have hplaces : ∀ (seed : Seed) (places : List (Char × Nat)) (state : Text × List Nat) (s : Text),
      List.Forall₂ (Text.SameShape 36) state.1 s →
        List.Forall₂ (Text.SameShape 36) (places.foldl (rewriteChar pf seed) state).1
          (places.foldl (fun s p => s.set p.2 '0') s) := by
    intro seed places
    induction places with
    | nil => exact fun state s h => h
    | cons p places ih =>
        intro state s h
        refine ih _ _ (h.set ?_ p.2)
        exact Or.inr ⟨isSome_digitIn_serialAlphabet pf p.1 _, by decide⟩
  exact hplaces _ _ _ _ (List.forall₂_same.mpr fun c _ => Or.inl rfl)

/-- A rewritten tag is read as a number if the masked one is. -/
theorem isSome_intBase36_mutateSerial (pf : Platform) (short value : Text) :
    (intBase36 (mutateSerial pf short value)).isSome = (intBase36 (maskSerial pf value)).isSome :=
  Text.isSome_intIn_congr (by decide) (sameShape_mutateSerial pf short value)

/-! ## Served codes -/

/-- No rendering of an instance fails, and its walks show every recorded code as that of the tag
they show for a recorded one. -/
structure ServesCode (d : ReplayDevice) (pf : Platform) (tag : Row) : Prop where
  renders : ∀ now, (d.walk pf now).Asks (· ≠ .raise) ∧ (d.dynamicRows pf now).Asks (· ≠ .raise)
  shows : ∀ now memo text memo', Remembers (d.Rewrites pf) memo →
    (d.walk pf now).Runs (d.meanwhile pf) memo text memo' → ∃ rows, text = rows.flatMap rowLine ∧
      rows.map Prod.fst = d.file.rows.map Prod.fst ∧
        ∀ a ∈ d.file.rows.zip rows, a.1 = tag → ∀ b ∈ d.file.rows.zip rows, CodeRow b.1 →
          ∃ n, intBase36 a.2.2 = some n ∧ b.2.2 = Text.str n

/-- A contract under which nothing is raised. -/
def unraised : Program.Contract Op Ans where
  asks op := op ≠ .raise
  answers _ _ := True

namespace ReplayDevice

variable {d : ReplayDevice} {pf : Platform} {tag : Text}

theorem identityValue_code (htag : d.model.dellSvctag = some tag) {slot : Slot}
    (hkind : slot.kind = .svccode) {v : Text} :
    d.identityValue pf slot = .ok v ↔
      ∃ n, intBase36 (mutateSerial pf d.short tag) = some n ∧ v = Text.str n := by
  simp only [identityValue, hkind, htag]
  cases intBase36 (mutateSerial pf d.short tag) with
  | none => simp
  | some n => simp [eq_comm]

/-- If the tag has a code, every identity can be rewritten. -/
theorem exists_identityValue (htag : d.model.dellSvctag = some tag)
    (hcode : (intBase36 (mutateSerial pf d.short tag)).isSome) (slot : Slot) :
    ∃ v, d.identityValue pf slot = .ok v := by
  by_cases hkind : slot.kind = .svccode
  · rcases Option.isSome_iff_exists.mp hcode with ⟨n, hn⟩
    exact ⟨Text.str n, (identityValue_code htag hkind).mpr ⟨n, hn, rfl⟩⟩
  · unfold identityValue
    split
    · exact ⟨_, rfl⟩
    · exact absurd ‹_› hkind
    · exact ⟨_, rfl⟩

/-- If every identity can be rewritten, no rendering raises. -/
theorem renders_of_identities (h : ∀ slot, ∃ v, d.identityValue pf slot = .ok v) (now : ℚ) :
    (d.walk pf now).Asks (· ≠ .raise) ∧ (d.dynamicRows pf now).Asks (· ≠ .raise) := by
  rcases ReplayModel.ofRows_segments d.loaded with ⟨pieces, -, hsegments⟩
  have hallows : d.Allows pf unraised (pieces.filterMap Piece.slot) := by
    constructor
    · exact fun _ _ _ => by simp [unraised]
    · exact fun _ _ _ => by simp [unraised]
    · exact fun _ => by simp [unraised]
    · exact fun _ _ _ _ _ => by simp [unraised]
    · intro slot _ _ e herror
      rcases h slot with ⟨v, hv⟩
      rw [hv] at herror
      cases herror
  exact ⟨(walk_ensures hsegments hallows).asks fun _ _ => trivial,
    (dynamicRows_ensures hsegments hallows).asks fun _ _ => trivial⟩

/-- Unless it raises, a rendering is answered while others run. -/
theorem exists_runs {α : Type} {p : Render α} (h : p.Asks (· ≠ .raise)) (memo : Dict Text Text) :
    ∃ a memo', p.Runs (d.meanwhile pf) memo a memo' := by
  refine h.exists_runs (fun memo op hop => ?_) memo
  have hmine : ∃ ans own, Memorizes memo op ans own := by
    cases op with
    | raise => exact absurd rfl hop
    | sample => exact ⟨(0 : ℤ), memo, rfl⟩
    | gauge => exact ⟨(0 : ℚ), memo, rfl⟩
    | getState => exact ⟨Incident.healthy, memo, rfl⟩
    | degradedMinutes => exact ⟨(0 : ℚ≥0), memo, rfl⟩
    | ramp => exact ⟨(0 : ℚ≥0), memo, rfl⟩
    | loadOper => exact ⟨(0 : Nat), memo, rfl⟩
    | storeOper => exact ⟨(), memo, rfl⟩
    | load => exact ⟨(0 : ℚ≥0), memo, rfl⟩
    | store => exact ⟨(), memo, rfl⟩
    | getIdent oid => exact ⟨memo.get oid, memo, rfl, rfl⟩
    | setIdent oid v => exact ⟨(), memo.set oid v, rfl⟩
  rcases hmine with ⟨ans, own, hown⟩
  exact ⟨ans, own, own, hown, .refl own, fun _ _ hv => Or.inl hv⟩

variable {row : Row}

/-- The first recorded tag is rewritten where it stands. -/
theorem rewrites_tag (hfirst : d.file.rows.find? TagRow = some row) :
    d.Rewrites pf row.1 (mutateSerial pf d.short (Text.strip Text.isSpace row.2)) := by
  rcases ReplayModel.ofRows_classifies d.loaded with ⟨m₀, pieces, -, hpieces, hsegments, hclassifies⟩
  rw [← hpieces, List.find?_map, Option.map_eq_some_iff] at hfirst
  rcases hfirst with ⟨piece, hfind, rfl⟩
  rcases List.find?_eq_some_iff_append.mp hfind with ⟨htag, before, behind, rfl, hbefore⟩
  have htag : TagRow piece.row := by simpa using htag
  have hpiece : piece ∈ before ++ piece :: behind := by simp
  rcases hclassifies.exists_classify hpiece with ⟨m₁, m₂, hclass⟩
  rw [ReplayModel.classify_tagRow htag, Except.ok.injEq, Prod.mk.injEq] at hclass
  have hslots : slots d.model.segments =
      before.filterMap Piece.slot ++ tagSlot piece.row :: behind.filterMap Piece.slot := by
    rw [hsegments, slots_joinFrom, List.filterMap_append,
      List.filterMap_cons_some hclass.2.symm]
  refine rewrites_of_first hslots rfl ?_ rfl
  intro slot hslot hkind hoid
  rcases List.mem_filterMap.mp hslot with ⟨other, hother, hslot⟩
  have hclassified : Classified other.row (some slot) :=
    hslot ▸ hclassifies.exists_classify (List.mem_append_left _ hother)
  have hrow : other.row.1 = piece.row.1 := by rw [← (other.reads slot hslot).oid_eq, hoid]; rfl
  simpa [hclassified.tagRow hkind htag hrow] using hbefore other hother

/-- What is remembered under the place of a code is the code of the rewritten tag. -/
theorem code_of_rewrites (htag : d.model.dellSvctag = some tag) (hrow : CodeRow row) {v : Text}
    (hv : d.Rewrites pf row.1 v) :
    ∃ n, intBase36 (mutateSerial pf d.short tag) = some n ∧ v = Text.str n := by
  rcases hv with ⟨slot, hfind, hvalue⟩
  rcases ReplayModel.ofRows_classifies d.loaded with ⟨m₀, pieces, -, -, hsegments, hclassifies⟩
  rcases List.mem_filter.mp (List.mem_of_find?_eq_some hfind) with ⟨hslot, hkind⟩
  have hoid : slot.oid = row.1 := by simpa using List.find?_some hfind
  rw [hsegments, slots_joinFrom] at hslot
  rcases List.mem_filterMap.mp hslot with ⟨piece, hpiece, hslot⟩
  have hclassified : Classified piece.row (some slot) := hslot ▸ hclassifies.exists_classify hpiece
  have hplace : (behind dellSvccodePrefix piece.row.1).isSome := by
    rw [← (piece.reads slot hslot).oid_eq, hoid]
    exact hrow.1
  exact (identityValue_code htag (hclassified.code_kind hkind hplace)).mp hvalue

/-- Walks show the rewritten tag and its code. -/
theorem walk_shows_code (hfirst : d.file.rows.find? TagRow = some row) {now : ℚ}
    {memo memo' : Dict Text Text} (hmemo : Remembers (d.Rewrites pf) memo) {text : Text}
    (hrun : (d.walk pf now).Runs (d.meanwhile pf) memo text memo') :
    ∃ rows, text = rows.flatMap rowLine ∧ rows.map Prod.fst = d.file.rows.map Prod.fst ∧
      (∀ a ∈ d.file.rows.zip rows, a.1 = row →
        a.2.2 = mutateSerial pf d.short (Text.strip Text.isSpace row.2)) ∧
      ∀ b ∈ d.file.rows.zip rows, CodeRow b.1 →
        ∃ n, intBase36 (mutateSerial pf d.short (Text.strip Text.isSpace row.2)) = some n ∧
          b.2.2 = Text.str n := by
  have hkept : d.model.dellSvctag = some (Text.strip Text.isSpace row.2) := by
    rw [ReplayModel.dellSvctag_eq d.loaded, hfirst, Option.map_some]
  have htag : TagRow row := by simpa using List.find?_some hfirst
  rcases ReplayModel.ofRows_classifies d.loaded with ⟨m₀, pieces, -, hpieces, hsegments, hclassifies⟩
  rcases walk_identities hsegments hmemo hrun with ⟨rows, rfl, hrows, -⟩
  rw [← hpieces, List.map_map]
  refine ⟨rows, rfl, hrows.map_eq_map fun piece row h => h.1, ?_, ?_⟩
  · intro a ha heq
    rcases hrows.exists_of_mem_zip ha with ⟨piece, hpiece, hrow, hshown⟩
    rcases hclassifies.exists_classify hpiece with ⟨m₁, m₂, hclass⟩
    rw [hrow, heq, ReplayModel.classify_tagRow htag, Except.ok.injEq, Prod.mk.injEq] at hclass
    exact (hshown.2 _ hclass.2.symm rfl).unique (rewrites_tag hfirst)
  · intro b hb hcode
    rcases hrows.exists_of_mem_zip hb with ⟨piece, hpiece, hrow, hshown⟩
    rcases hclassifies.exists_classify hpiece with ⟨m₁, m₂, hclass⟩
    rw [hrow, ReplayModel.classify_codeRow hcode, Except.ok.injEq, Prod.mk.injEq] at hclass
    exact code_of_rewrites hkept hcode (hshown.2 _ hclass.2.symm rfl)

end ReplayDevice

variable {d : ReplayDevice} {pf : Platform} {tag : Row}

/-- An instance serves the code of a tag that is a numeral when it is masked. -/
theorem ServesCode.of_masked (hfirst : d.file.rows.find? TagRow = some tag)
    (hmasked : (intBase36 (maskSerial pf (Text.strip Text.isSpace tag.2))).isSome) :
    ServesCode d pf tag where
  renders := by
    have hkept : d.model.dellSvctag = some (Text.strip Text.isSpace tag.2) := by
      rw [ReplayModel.dellSvctag_eq d.loaded, hfirst, Option.map_some]
    rw [← isSome_intBase36_mutateSerial pf d.short] at hmasked
    exact ReplayDevice.renders_of_identities (ReplayDevice.exists_identityValue hkept hmasked)
  shows := by
    intro now memo text memo' hmemo hrun
    rcases ReplayDevice.walk_shows_code hfirst hmemo hrun with ⟨rows, htext, hoids, htags, hcodes⟩
    refine ⟨rows, htext, hoids, fun a ha heq b hb hcode => ?_⟩
    rw [htags a ha heq]
    exact hcodes b hb hcode

/-- Where a code is recorded, a rendering shows it only if the masked tag is a numeral. -/
theorem ServesCode.masked (h : ServesCode d pf tag)
    (hfirst : d.file.rows.find? TagRow = some tag) {code : Row} (hmem : code ∈ d.file.rows)
    (hcode : CodeRow code) : (intBase36 (maskSerial pf (Text.strip Text.isSpace tag.2))).isSome := by
  obtain ⟨text, memo, hrun⟩ : ∃ text memo,
      (d.walk pf 0).Runs (d.meanwhile pf) Dict.empty text memo :=
    ReplayDevice.exists_runs (h.renders 0).1 Dict.empty
  have hmemo : Remembers (d.Rewrites pf) Dict.empty := ReplayDevice.memorized_nil.remembers
  rcases ReplayDevice.walk_shows_code hfirst hmemo hrun with ⟨rows, -, hoids, -, hcodes⟩
  have hlength : d.file.rows.length = rows.length := by
    simpa using (congrArg List.length hoids).symm
  rw [← List.map_fst_zip hlength.le] at hmem
  rcases List.mem_map.mp hmem with ⟨b, hb, rfl⟩
  rcases hcodes b hb hcode with ⟨n, hn, -⟩
  rw [← isSome_intBase36_mutateSerial pf d.short, hn, Option.isSome_some]

/-- Where a code is recorded, an instance serves the code of the first recorded tag if and only if
that is a numeral of base 36 once the characters to be rewritten are masked. -/
theorem servesCode_iff (hfirst : d.file.rows.find? TagRow = some tag)
    (hcode : ∃ code ∈ d.file.rows, CodeRow code) :
    ServesCode d pf tag ↔
      (intBase36 (maskSerial pf (Text.strip Text.isSpace tag.2))).isSome := by
  rcases hcode with ⟨code, hmem, hcode⟩
  exact ⟨fun h => h.masked hfirst hmem hcode, ServesCode.of_masked hfirst⟩

/-! ## A tag and a model name -/

/-- The tag of a chassis and its code. -/
def tagAndCode : List Row :=
  [(oidText [1, 3, 6, 1, 4, 1, 674, 10892, 1, 300, 10, 1, 11, 1], "7Z5QT02".toList),
    (oidText (dellSvccodePrefix ++ [1]), "17363441234".toList)]

/-- A code, and behind it the name of a model in the place of a tag. -/
def codeAndName : List Row :=
  [(oidText (dellSvccodePrefix ++ [1]), "17363441234".toList),
    (oidText [1, 3, 6, 1, 4, 1, 674, 10892, 1, 1400, 90, 1, 6, 1, 1], "PowerEdge R720xd".toList)]

/-- A walk file of a tag and its code. -/
def chassisWalk : WalkFile where
  content := tagAndCode.flatMap rowLine
  numeric := by decide +kernel

/-- A walk file of a code and a model name. -/
def firmwareWalk : WalkFile where
  content := codeAndName.flatMap rowLine
  numeric := by decide +kernel

def idrac01 : ReplayDevice where
  short := "idrac-01".toList
  location := "rack".toList
  file := chassisWalk
  model := ReplayModel.parsed chassisWalk.rows
  loaded := ReplayModel.ofRows_eq_parsed (by decide +kernel)
  short_plain := by decide
  location_plain := plain_rack

def idrac02 : ReplayDevice where
  short := "idrac-02".toList
  location := "rack".toList
  file := firmwareWalk
  model := ReplayModel.parsed firmwareWalk.rows
  loaded := ReplayModel.ofRows_eq_parsed (by decide +kernel)
  short_plain := by decide
  location_plain := plain_rack

theorem servesCode_iff_idrac01 : ServesCode idrac01 Platform.still
    (oidText [1, 3, 6, 1, 4, 1, 674, 10892, 1, 300, 10, 1, 11, 1], "7Z5QT02".toList) := by
  have hfirst : chassisWalk.rows.find? TagRow = some
      (oidText [1, 3, 6, 1, 4, 1, 674, 10892, 1, 300, 10, 1, 11, 1], "7Z5QT02".toList) := by
    decide +kernel
  have hcode : ∃ code ∈ chassisWalk.rows, CodeRow code := by decide +kernel
  exact (servesCode_iff hfirst hcode).mpr (by decide +kernel)

/-- The name of a model is no numeral, and no rendering with its code returns. -/
theorem not_servesCode_modelName : ¬ ∀ (d : ReplayDevice) (pf : Platform) (tag : Row),
    d.file.rows.find? TagRow = some tag → (∃ code ∈ d.file.rows, CodeRow code) →
      ServesCode d pf tag := by
  intro hall
  have hfirst : firmwareWalk.rows.find? TagRow = some
      (oidText [1, 3, 6, 1, 4, 1, 674, 10892, 1, 1400, 90, 1, 6, 1, 1],
        "PowerEdge R720xd".toList) := by
    decide +kernel
  have hcode : (oidText (dellSvccodePrefix ++ [1]), "17363441234".toList) ∈ firmwareWalk.rows ∧
      CodeRow (oidText (dellSvccodePrefix ++ [1]), "17363441234".toList) := by
    decide +kernel
  have hserves := hall idrac02 Platform.still _ hfirst ⟨_, hcode⟩
  have hmasked : intBase36 (maskSerial Platform.still
      (Text.strip Text.isSpace "PowerEdge R720xd".toList)) = none := by
    decide +kernel
  have hsome := hserves.masked hfirst hcode.1 hcode.2
  rw [hmasked] at hsome
  cases hsome

end Netsim
end DemoEstate
