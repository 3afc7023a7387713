import DemoEstate.Library.Edits
import DemoEstate.Walklib.Nameless

/-!
# Walks without real addresses

The scrub writes made-up addresses over the addresses that a text has when names, e-mail addresses
and serial tokens are replaced.  It looks for whole runs of digits and dots.

Main definitions:

- Structure {lit}`RealAddress`: an address in a text, of a network that is not local.
- Definition {lit}`Scrubbed`: every real address of a value is replaced by a made-up one.
- Definition {lit}`Found`: the address is still there, in a run that is an address itself.

Main results:

- Theorem {lit}`runToken_reIp`: the scrub writes over the runs that are addresses.
- Theorem {lit}`scrubbed_iff`: the scrub replaces the real addresses that are found.
-/

namespace DemoEstate
namespace Walklib

open Tokens

/-! ## Addresses -/

/-- One to three digits. -/
def isGroup (g : Text) : Bool :=
  decide (1 ≤ g.length ∧ g.length ≤ 3) && g.all Char.isDigit

/-- Four groups of digits with dots between them. -/
def isAddress (s : Text) : Bool :=
  (s.splitOn '.').length == 4 && (s.splitOn '.').all isGroup

/-- The first group is that of a local address. -/
def isLocal (s : Text) : Bool :=
  (Text.cut '.' s).1 ∈ ["0".toList, "127".toList, "255".toList]

/-- An address of 10.77.0.0/16. -/
def Mapped (s : Text) : Prop :=
  ∃ i j, i < 256 ∧ j < 256 ∧ s = "10.77.".toList ++ Text.decimal i ++ '.' :: Text.decimal j

/-- A digit or a dot. -/
def isAddressChar (c : Char) : Bool :=
  c.isDigit || c == '.'

section Address

variable {s g : Text}

theorem isGroup_iff : isGroup g = true ↔
    (∀ c ∈ g, c.isDigit = true) ∧ 1 ≤ g.length ∧ g.length ≤ 3 := by
  simp [isGroup, and_comm]

theorem dot_notMem_group (h : isGroup g = true) : '.' ∉ g := fun hdot =>
  absurd ((isGroup_iff.mp h).1 '.' hdot) (by decide)

/-- Groups of digits, with as many dots between them. -/
def Dotted : Nat → Text → Prop
  | 0, s => isGroup s = true
  | n + 1, s => ∃ g rest, isGroup g = true ∧ Dotted n rest ∧ s = g ++ '.' :: rest

theorem dotted_intercalate {gs : List Text} (hgs : ∀ g ∈ gs, isGroup g = true) {n : Nat}
    (hlength : gs.length = n + 1) : Dotted n (['.'].intercalate gs) := by
  induction n generalizing gs with
  | zero =>
      match gs, hlength with
      | [g], _ => simpa [List.intercalate, Dotted] using hgs g (by simp)
  | succ n ih =>
      match gs, hlength with
      | g :: g' :: gs, hlength =>
          refine ⟨g, ['.'].intercalate (g' :: gs), hgs g (by simp), ?_, by simp [List.intercalate]⟩
          exact ih (fun x hx => hgs x (List.mem_cons_of_mem _ hx)) (by simpa using hlength)

theorem Dotted.splitOn {n : Nat} (h : Dotted n s) :
    (s.splitOn '.').length = n + 1 ∧ ∀ g ∈ s.splitOn '.', isGroup g = true := by
  have hgroup : ∀ {g : Text}, isGroup g = true → g.splitOn '.' = [g] := fun hg =>
    List.splitOnP_eq_singleton fun c hc =>
      Netsim.beq_dot_of_isDigit ((isGroup_iff.mp hg).1 c hc)
  induction n generalizing s with
  | zero =>
      rw [hgroup h]
      exact ⟨rfl, fun g hg => List.mem_singleton.mp hg ▸ h⟩
  | succ n ih =>
      obtain ⟨g, rest, hg, hrest, rfl⟩ := h
      rw [List.splitOn_append_cons_self, hgroup hg, List.singleton_append]
      refine ⟨by rw [List.length_cons, (ih hrest).1], fun x hx => ?_⟩
      rcases List.mem_cons.mp hx with rfl | hx
      · exact hg
      · exact (ih hrest).2 x hx

theorem isAddress_iff : isAddress s = true ↔ Dotted 3 s := by
  rw [isAddress, Bool.and_eq_true, beq_iff_eq, List.all_eq_true]
  constructor
  · intro h
    have hjoin : ['.'].intercalate (s.splitOn '.') = s := List.intercalate_splitOn '.'
    rw [← hjoin]
    exact dotted_intercalate h.2 h.1
  · exact fun h => h.splitOn

theorem Dotted.isAddressChar {n : Nat} (h : Dotted n s) : ∀ c ∈ s, isAddressChar c = true := by
  have hgroup : ∀ {g : Text}, isGroup g = true → ∀ c ∈ g, Walklib.isAddressChar c = true := by
    intro g hg c hc
    rw [Walklib.isAddressChar, (isGroup_iff.mp hg).1 c hc, Bool.true_or]
  induction n generalizing s with
  | zero => exact hgroup h
  | succ n ih =>
      obtain ⟨g, rest, hg, hrest, rfl⟩ := h
      intro c hc
      rcases List.mem_append.mp hc with hc | hc
      · exact hgroup hg c hc
      rcases List.mem_cons.mp hc with rfl | hc
      · rfl
      · exact ih hrest c hc

theorem Dotted.count_dot {n : Nat} (h : Dotted n s) : s.count '.' = n := by
  induction n generalizing s with
  | zero => exact List.count_eq_zero.mpr (dot_notMem_group h)
  | succ n ih =>
      obtain ⟨g, rest, hg, hrest, rfl⟩ := h
      rw [List.count_append, List.count_cons_self, List.count_eq_zero.mpr (dot_notMem_group hg),
        ih hrest, Nat.zero_add]

theorem Dotted.exists_cons {n : Nat} (h : Dotted n s) :
    ∃ c rest, s = c :: rest ∧ c.isDigit = true := by
  have hgroup : ∀ {g : Text}, isGroup g = true → ∃ c rest, g = c :: rest ∧ c.isDigit = true := by
    intro g hg
    obtain ⟨hdigits, hlength, -⟩ := isGroup_iff.mp hg
    match g with
    | c :: rest => exact ⟨c, rest, rfl, hdigits c List.mem_cons_self⟩
  cases n with
  | zero => exact hgroup h
  | succ n =>
      obtain ⟨g, rest, hg, -, rfl⟩ := h
      obtain ⟨c, more, rfl, hc⟩ := hgroup hg
      exact ⟨c, more ++ '.' :: rest, rfl, hc⟩

end Address

/-! ## The pattern of addresses -/

/-- Groups of digits, separated by dots. -/
def dottedGroups : Nat → List Atom
  | 0 => [.run Char.isDigit 1 (some 3)]
  | n + 1 => .run Char.isDigit 1 (some 3) :: .char '.' :: dottedGroups n

theorem reIp_eq : reIp =
    .notBehind isAddressChar :: (dottedGroups 3 ++ [.notAhead isAddressChar]) :=
  rfl

theorem matchLength_notAhead (last : Option Char) (rest : Text) :
    matchLength [.notAhead isAddressChar] last rest =
      if rest.head?.any isAddressChar then none else some 0 := by
  rw [matchLength, matchLength]

/-- Dotted groups are matched in front of another character. -/
theorem matchLength_dottedGroups {n : Nat} {last : Option Char} {rest : Text} {k : Nat} :
    matchLength (dottedGroups n ++ [.notAhead isAddressChar]) last rest = some k ↔
      ∃ s rest', rest = s ++ rest' ∧ Dotted n s ∧ rest'.head?.any isAddressChar = false ∧
        k = s.length := by
  induction n generalizing last rest k with
  | zero =>
      constructor
      · intro h
        obtain ⟨g, rest', m, rfl, hg, hleast, hmost, hm, rfl⟩ := exists_run h
        have hend := (matchLength_notAhead (lastOf last g) rest').symm.trans hm
        split at hend
        · cases hend
        · rename_i hnot
          cases hend
          exact ⟨g, rest', rfl, isGroup_iff.mpr ⟨hg, hleast, hmost 3 rfl⟩, by simpa using hnot, rfl⟩
      · rintro ⟨g, rest', rfl, hg, hnot, rfl⟩
        obtain ⟨hdigits, hleast, hmost⟩ := isGroup_iff.mp hg
        apply matchLength_run (m := 0) hdigits hleast (by rintro k ⟨⟩; exact hmost)
        · cases rest' with
          | nil => rfl
          | cons c rest' =>
              simp only [isAddressChar, List.head?_cons, Option.any_some, Bool.or_eq_false_iff] at hnot
              simpa using hnot.1
        · exact (matchLength_notAhead (lastOf last g) rest').trans (if_neg (by simp [hnot]))
  | succ n ih =>
      constructor
      · intro h
        obtain ⟨g, rest', m, rfl, hg, hleast, hmost, hm, rfl⟩ := exists_run h
        obtain ⟨d, rest'', m', rfl, hd, hlow, hhigh, hm', rfl⟩ := exists_run hm
        obtain ⟨s, rest₃, rfl, hs, hnot, rfl⟩ := ih.mp hm'
        have hone : d.length = 1 := Nat.le_antisymm (hhigh 1 rfl) hlow
        obtain ⟨c, rfl⟩ := List.length_eq_one_iff.mp hone
        have hdot : c = '.' := by simpa using hd c (by simp)
        refine ⟨g ++ '.' :: s, rest₃, by simp [hdot], ?_, hnot, by simp; omega⟩
        exact ⟨g, s, isGroup_iff.mpr ⟨hg, hleast, hmost 3 rfl⟩, hs, rfl⟩
      · rintro ⟨s, rest', rfl, ⟨g, more, hg, hmore, rfl⟩, hnot, rfl⟩
        obtain ⟨hdigits, hleast, hmost⟩ := isGroup_iff.mp hg
        obtain ⟨c, more', rfl, hc⟩ := hmore.exists_cons
        have hrest : matchLength (dottedGroups n ++ [.notAhead isAddressChar]) (some '.')
            (c :: more' ++ rest') = some (c :: more').length :=
          ih.mpr ⟨c :: more', rest', rfl, hmore, hnot, rfl⟩
        have hdot : matchLength (.char '.' :: (dottedGroups n ++ [.notAhead isAddressChar]))
            (lastOf last g) ('.' :: (c :: more' ++ rest')) = some (1 + (c :: more').length) := by
          apply matchLength_run (g := ['.']) (by simp) (by simp) (by simp)
          · simpa using Netsim.beq_dot_of_isDigit hc
          · exact hrest
        have hlength : (g ++ '.' :: c :: more').length = g.length + (1 + (c :: more').length) := by
          simp
          omega
        rw [List.append_assoc, hlength]
        exact matchLength_run hdigits hleast (by rintro k ⟨⟩; exact hmost) rfl hdot

/-- The scrub writes over the runs that are addresses. -/
theorem runToken_reIp :
    RunToken (matchLength reIp) isAddressChar fun r => isAddress r = true where
  iff_run last s n := by
    rw [reIp_eq, matchLength]
    cases hlast : last.any isAddressChar with
    | true => simp
    | false =>
        simp only [Bool.false_eq_true, if_false, true_and]
        rw [matchLength_dottedGroups]
        constructor
        · rintro ⟨r, rest, rfl, hr, hnot, hlength⟩
          have hrun := takeWhile_run hr.isAddressChar hnot
          rw [hrun, isAddress_iff, hlength]
          exact ⟨hr, rfl⟩
        · rintro ⟨hgood, hlength⟩
          refine ⟨s.takeWhile isAddressChar, s.dropWhile isAddressChar,
            List.takeWhile_append_dropWhile.symm, isAddress_iff.mp hgood, ?_, hlength.symm⟩
          apply any_head?_of_takeWhile (r := s.takeWhile isAddressChar)
          rw [List.takeWhile_append_dropWhile]

/-! ## Made-up addresses -/

section Mapped

variable {sha256 : Text → Vector UInt8 32} {s g : Text}

theorem prefix_group_iff {w g rest : Text} (hw : '.' ∉ w) (hg : '.' ∉ g) :
    (w ++ ['.']).isPrefixOf (g ++ '.' :: rest) = true ↔ g = w := by
  rw [List.isPrefixOf_iff_prefix]
  constructor
  · rintro ⟨more, hmore⟩
    rw [List.append_assoc, List.singleton_append] at hmore
    have hcut := congrArg (Text.cut '.') hmore
    rw [Text.cut_append hw, Text.cut_append hg] at hcut
    exact (Prod.mk.inj hcut).1.symm
  · rintro rfl
    exact ⟨rest, by simp⟩

/-- The start of an address tells whether it is local. -/
theorem startsLocal_eq (h : isAddress s = true) :
    ("127.".toList.isPrefixOf s || "0.".toList.isPrefixOf s || "255.".toList.isPrefixOf s ||
      s == "0.0.0.0".toList) = isLocal s := by
  obtain ⟨g, rest, hg, -, rfl⟩ := isAddress_iff.mp h
  have hdot := dot_notMem_group hg
  have h127 : "127.".toList.isPrefixOf (g ++ '.' :: rest) = decide (g = "127".toList) :=
    Bool.eq_iff_iff.mpr ((prefix_group_iff (w := "127".toList) (by decide) hdot).trans (by simp))
  have h0 : "0.".toList.isPrefixOf (g ++ '.' :: rest) = decide (g = "0".toList) :=
    Bool.eq_iff_iff.mpr ((prefix_group_iff (w := "0".toList) (by decide) hdot).trans (by simp))
  have h255 : "255.".toList.isPrefixOf (g ++ '.' :: rest) = decide (g = "255".toList) :=
    Bool.eq_iff_iff.mpr ((prefix_group_iff (w := "255".toList) (by decide) hdot).trans (by simp))
  have hzero : g ++ '.' :: rest = "0.0.0.0".toList → g = "0".toList := by
    intro heq
    have hcut := congrArg (Text.cut '.') heq
    rw [Text.cut_append hdot] at hcut
    exact (Prod.mk.inj hcut).1
  rw [h127, h0, h255, isLocal, Text.cut_append hdot, Bool.eq_iff_iff]
  simp only [Bool.or_eq_true, decide_eq_true_eq, beq_iff_eq, List.mem_cons, List.not_mem_nil,
    or_false]
  constructor
  · rintro (((h | h) | h) | h)
    · exact Or.inr (Or.inl h)
    · exact Or.inl h
    · exact Or.inr (Or.inr h)
    · exact Or.inl (hzero h)
  · rintro (h | h | h)
    · exact Or.inl (Or.inl (Or.inr h))
    · exact Or.inl (Or.inl (Or.inl h))
    · exact Or.inl (Or.inr h)

/-- What stands in for an address is made up, unless it is local. -/
theorem mapped_mapIp_iff (h : isAddress s = true) :
    Mapped (mapIp sha256 s) ↔ isLocal s = false := by
  rw [mapIp, startsLocal_eq h]
  cases hlocal : isLocal s with
  | true =>
      refine iff_of_false ?_ (by simp)
      rintro ⟨i, j, -, -, rfl⟩
      have hcut : ("10.77.".toList ++ Text.decimal i ++ '.' :: Text.decimal j) =
          "10".toList ++ '.' :: ("77.".toList ++ Text.decimal i ++ '.' :: Text.decimal j) :=
        rfl
      rw [hcut, isLocal, Text.cut_append (by decide)] at hlocal
      exact absurd hlocal (by simp)
  | false =>
      refine iff_of_true ⟨_, _, UInt8.toNat_lt _, ?_, rfl⟩ rfl
      split
      · decide
      · exact UInt8.toNat_lt _

theorem Mapped.ascii (h : Mapped s) : ∀ c ∈ s, c.toNat < 128 := by
  obtain ⟨i, j, -, -, rfl⟩ := h
  have hstart : ∀ c ∈ "10.77.".toList, c.toNat < 128 := List.all_iff_forall_prop.mp (by decide)
  intro c hc
  simp only [List.mem_append, List.mem_cons] at hc
  rcases hc with (hc | hc) | rfl | hc
  · exact hstart c hc
  · exact ascii_decimal hc
  · decide
  · exact ascii_decimal hc

end Mapped

/-! ## Real addresses in a value -/

/-- An address of a network that is not local; neither a digit nor a digit and a dot stands before
it, and neither a digit nor a dot and a digit behind it. -/
structure RealAddress (p : Spot) : Prop where
  four : isAddress p.part = true
  real : isLocal p.part = false
  before : ∀ c, [c] <:+ p.before → c.isDigit = false
  before_dot : ∀ c, [c, '.'] <:+ p.before → c.isDigit = false
  behind : ∀ c, [c] <+: p.behind → c.isDigit = false
  behind_dot : ∀ c, ['.', c] <+: p.behind → c.isDigit = false

/-- The text of a value. -/
def shownText (value : Text) : Text :=
  (decodeHex value).getD value

/-- The text of what is written for a value. -/
def resultText (value result : Text) : Option Text :=
  if (decodeHex value).isSome then (quotedBytes result).map textOf else some result

/-- A text as it is read from what is written for a value; in pairs a question mark stands for
what is no ASCII character. -/
def legible (value s : Text) : Text :=
  if (decodeHex value).isSome then textOf (asciiCodes s) else s

section Scrub

variable (sha256 : Text → Vector UInt8 32) (name model : Text)

/-- The replacements of names, e-mail addresses and serial tokens keep a part of a text. -/
def Arrives (p q : Spot) : Prop :=
  ∃ p₁ p₂,
    (if 3 ≤ name.length then Keeps (wordToken fold name) (fun _ => modelName model) p p₁
      else p₁ = p) ∧
      Keeps (matchLength reEmail) (fun _ => contact) p₁ p₂ ∧
        Keeps (matchLength reSn) (fun _ => serialToken) p₂ q

/-- A made-up address is written over a part of a text, and over the run that it then stands in. -/
def Replaced (p q : Spot) : Prop :=
  ∃ p₃, Arrives name model p p₃ ∧ Overwrites (matchLength reIp) (mapIp sha256) p₃ q ∧
    Mapped q.part

/-- Every real address of a value is replaced by a made-up one, which shows in the scrubbed
value. -/
def Scrubbed (value : Text) : Prop :=
  ∀ p : Spot, p.text = shownText value → RealAddress p → ∃ q, Replaced sha256 name model p q ∧
    resultText value (scrubValue sha256 value name model []) =
      some (legible value q.before ++ (q.part ++ legible value q.behind))

/-- No name, e-mail address or serial token is in a text. -/
structure Quiet (t : Text) : Prop where
  names : 3 ≤ name.length → puts (wordToken fold name) (fun _ => modelName model) t = []
  emails : puts (matchLength reEmail) (fun _ => contact) t = []
  serials : puts (matchLength reSn) (fun _ => serialToken) t = []

/-- The address is no part of a name, an e-mail address or a serial token, and once these are
replaced, the digits and dots around it leave it an address that is not local. -/
def Found (p : Spot) : Prop :=
  ∃ q, Arrives name model p q ∧ isAddress (q.run isAddressChar) = true ∧
    isLocal (q.run isAddressChar) = false

end Scrub

section Scrub

variable {sha256 : Text → Vector UInt8 32} {name model value : Text} {p q : Spot}

theorem Arrives.part_eq (h : Arrives name model p q) : q.part = p.part := by
  obtain ⟨p₁, p₂, hname, hemail, hserial⟩ := h
  rw [hserial.part_eq, hemail.part_eq]
  split at hname
  · exact hname.part_eq
  · rw [hname]

theorem Arrives.text_eq (h : Arrives name model p q) :
    q.text = scrubSerials (scrubEmails (scrubName name model p.text)) := by
  obtain ⟨p₁, p₂, hname, hemail, hserial⟩ := h
  rw [hserial.text_eq, hemail.text_eq]
  split at hname
  · rename_i hlong
    rw [hname.text_eq, scrubName, if_pos hlong]
    rfl
  · rename_i hshort
    rw [hname, scrubName, if_neg hshort]
    rfl

/-- Where nothing is replaced, a part stays where it is. -/
theorem Quiet.arrives_iff (h : Quiet name model p.text) : Arrives name model p q ↔ q = p := by
  have hname : ∀ p₁, (if 3 ≤ name.length then
      Keeps (wordToken fold name) (fun _ => modelName model) p p₁ else p₁ = p) ↔ p₁ = p := by
    intro p₁
    split
    · rename_i hlong
      exact keeps_iff_of_puts_eq_nil (h.names hlong)
    · exact Iff.rfl
  unfold Arrives
  simp only [hname]
  constructor
  · rintro ⟨p₁, p₂, rfl, hemail, hserial⟩
    cases (keeps_iff_of_puts_eq_nil h.emails).mp hemail
    exact (keeps_iff_of_puts_eq_nil h.serials).mp hserial
  · rintro rfl
    exact ⟨q, q, rfl, (keeps_iff_of_puts_eq_nil h.emails).mpr rfl,
      (keeps_iff_of_puts_eq_nil h.serials).mpr rfl⟩

/-- Where nothing else is replaced, an address is found if no dot stands next to it. -/
theorem RealAddress.found_iff (hreal : RealAddress p) (hquiet : Quiet name model p.text) :
    Found name model p ↔ ¬ ['.'] <:+ p.before ∧ ¬ ['.'] <+: p.behind := by
  have hfound : Found name model p ↔
      isAddress (p.run isAddressChar) = true ∧ isLocal (p.run isAddressChar) = false := by
    unfold Found
    simp only [hquiet.arrives_iff, exists_eq_left]
  rw [hfound]
  constructor
  · rintro ⟨haddress, -⟩
    have hcount := (isAddress_iff.mp haddress).count_dot
    rw [Spot.run, List.count_append, List.count_append,
      (isAddress_iff.mp hreal.four).count_dot] at hcount
    constructor
    · rintro ⟨a, ha⟩
      have hdot : '.' ∈ p.before.rtakeWhile isAddressChar := by
        rw [← ha, List.rtakeWhile_concat_pos _ _ _ (by decide)]
        simp
      have := List.count_pos_iff.mpr hdot
      omega
    · rintro ⟨b, hb⟩
      have hdot : '.' ∈ p.behind.takeWhile isAddressChar := by
        rw [← hb, List.singleton_append, List.takeWhile_cons_of_pos (by decide)]
        simp
      have := List.count_pos_iff.mpr hdot
      omega
  · rintro ⟨hbefore, hbehind⟩
    have hnot : ∀ c : Char, c.isDigit = false → c ≠ '.' → ¬ isAddressChar c = true := by
      intro c hdigit hdot
      simp [isAddressChar, hdigit, hdot]
    have hx : p.before.rtakeWhile isAddressChar = [] := by
      apply List.rtakeWhile_eq_nil_iff.mpr
      intro hne
      have hlast : [p.before.getLast hne] <:+ p.before :=
        ⟨p.before.dropLast, List.dropLast_append_getLast hne⟩
      apply hnot _ (hreal.before _ hlast)
      intro hdot
      exact hbefore (hdot ▸ hlast)
    have hy : p.behind.takeWhile isAddressChar = [] := by
      cases hb : p.behind with
      | nil => rfl
      | cons c b =>
          have hhead : [c] <+: p.behind := ⟨b, by rw [hb]; rfl⟩
          apply List.takeWhile_cons_of_neg
          apply hnot c (hreal.behind c hhead)
          rintro rfl
          exact hbehind hhead
    rw [Spot.run, hx, hy, List.nil_append, List.append_nil]
    exact ⟨hreal.four, hreal.real⟩

/-- The text of a scrubbed value is the scrubbed text. -/
theorem resultText_scrubValue :
    resultText value (scrubValue sha256 value name model []) =
      some (legible value (scrubText sha256 name model [] (shownText value))) := by
  unfold resultText legible shownText scrubValue
  cases hdecode : decodeHex value with
  | none => simp
  | some decoded =>
      simp only [Option.isSome_some, if_true, Option.getD_some]
      split
      · rename_i hsame
        obtain ⟨raw, hraw, rfl, -⟩ := decodeHex_eq_some hdecode
        rw [hraw, hsame, textOf_asciiCodes (ascii_of_decodeHex hdecode)]
        rfl
      · rw [quotedBytes_encodeHex]
        rfl

theorem legible_text (hpart : ∀ c ∈ q.part, c.toNat < 128) :
    legible value q.text = legible value q.before ++ (q.part ++ legible value q.behind) := by
  unfold legible
  split
  · have happend : ∀ s t : Text, textOf (asciiCodes (s ++ t)) =
        textOf (asciiCodes s) ++ textOf (asciiCodes t) := by
      intro s t
      rw [asciiCodes, textOf, List.map_append, List.map_append]
      rfl
    rw [Spot.text, happend, happend, textOf_asciiCodes hpart]
  · rfl

/-- A real address is replaced exactly if it is found. -/
theorem replaced_iff_found (haddress : isAddress p.part = true) :
    (∃ q, Replaced sha256 name model p q) ↔ Found name model p := by
  have hruns : ∀ {p₃ : Spot}, Arrives name model p p₃ → ∀ new,
      (∃ q, Overwrites (matchLength reIp) (mapIp sha256) p₃ q ∧ q.part = new) ↔
        isAddress (p₃.run isAddressChar) = true ∧ new = mapIp sha256 (p₃.run isAddressChar) := by
    intro p₃ harrives new
    have hdotted := isAddress_iff.mp haddress
    rw [← harrives.part_eq] at hdotted
    obtain ⟨c, rest, hcons, -⟩ := hdotted.exists_cons
    exact runToken_reIp.overwrites_iff hdotted.isAddressChar (by rw [hcons]; simp)
  constructor
  · rintro ⟨q, p₃, harrives, hover, hmapped⟩
    obtain ⟨hgood, hnew⟩ := (hruns harrives q.part).mp ⟨q, hover, rfl⟩
    rw [hnew, mapped_mapIp_iff hgood] at hmapped
    exact ⟨p₃, harrives, hgood, hmapped⟩
  · rintro ⟨p₃, harrives, hgood, hreal⟩
    obtain ⟨q, hover, hnew⟩ := (hruns harrives _).mpr ⟨hgood, rfl⟩
    exact ⟨q, p₃, harrives, hover, by rwa [hnew, mapped_mapIp_iff hgood]⟩

/-- The scrub replaces every real address of a value exactly if every one is found. -/
theorem scrubbed_iff : Scrubbed sha256 name model value ↔
    ∀ p : Spot, p.text = shownText value → RealAddress p → Found name model p := by
  constructor
  · intro h p htext hreal
    obtain ⟨q, hreplaced, -⟩ := h p htext hreal
    exact (replaced_iff_found hreal.four).mp ⟨q, hreplaced⟩
  · intro h p htext hreal
    obtain ⟨q, hreplaced⟩ : ∃ q, Replaced sha256 name model p q :=
      (replaced_iff_found hreal.four).mpr (h p htext hreal)
    refine ⟨q, hreplaced, ?_⟩
    obtain ⟨p₃, harrives, hover, hmapped⟩ := hreplaced
    have hscrub : q.text = scrubText sha256 name model [] (shownText value) := by
      rw [hover.text_eq, harrives.text_eq, htext]
      rfl
    rw [resultText_scrubValue, ← hscrub, legible_text hmapped.ascii]

end Scrub

/-! ## An address at the end of a sentence -/

/-- An address with the full stop of a sentence behind it. -/
def endOfSentence : Spot :=
  ⟨"Server at ".toList, "10.0.0.1".toList, ['.']⟩

theorem realAddress_endOfSentence : RealAddress endOfSentence where
  four := by decide +kernel
  real := by decide
  before c hc := by
    have hlast : [c] <+: ' ' :: "ta revreS".toList := List.reverse_prefix.mpr hc
    rw [(List.cons_prefix_cons.mp hlast).1]
    rfl
  before_dot c hc := by
    have hlast : ['.', c] <+: ' ' :: "ta revreS".toList := List.reverse_prefix.mpr hc
    exact absurd (List.cons_prefix_cons.mp hlast).1 (by decide)
  behind c hc := by
    have hhead : [c] <+: ['.'] := hc
    rw [(List.cons_prefix_cons.mp hhead).1]
    rfl
  behind_dot c hc := by
    have hlength : 2 ≤ 1 := hc.length_le
    exact absurd hlength (by decide)

/-- The full stop keeps the address from being replaced. -/
theorem not_scrubbed_endOfSentence :
    ¬ ∀ (sha256 : Text → Vector UInt8 32) (name model value : Text),
      Scrubbed sha256 name model value := by
  intro hall
  have htext : endOfSentence.text = shownText "Server at 10.0.0.1.".toList := by decide
  have hquiet : Quiet "core".toList switchModel endOfSentence.text := by
    constructor
    · decide +kernel
    · decide +kernel
    · decide +kernel
  obtain ⟨q, hreplaced, -⟩ := hall zeroDigest "core".toList switchModel _ endOfSentence htext
    realAddress_endOfSentence
  have hfound := (replaced_iff_found realAddress_endOfSentence.four).mp ⟨q, hreplaced⟩
  exact ((realAddress_endOfSentence.found_iff hquiet).mp hfound).2 List.prefix_rfl

end Walklib
end DemoEstate
