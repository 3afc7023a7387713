import DemoEstate.Library.Edits
import DemoEstate.Walklib.Curate

/-!
# Walks without the device's name

The scrub takes the recorded name out of every text that it reads.  It does not read quoted pairs
of which one byte is not printable, and these keep the name.  A text that it puts in can spell the
name together with what stands beside it, and quoted pairs can have the name in their digits.

Main definitions:

- Definition {lit}`Nameless`: no written value shows the name.
- Structure {lit}`Paired`: the name in the digits of the pairs of a part.
- Definition {lit}`Remains`: a value that keeps the name, or gets it back.
- Definition {lit}`Leaks`: a row that keeps the name.

Main results:

- Theorem {lit}`shows_scrubValue_iff`: when a scrubbed value shows the name.
- Theorem {lit}`nameless_iff`: when the written rows are without the name.
-/

namespace DemoEstate
namespace Walklib

open Netsim (hexChar hexBytes oidKey rowLe)
open Snmp (Row)
open Tokens

/-! ## Showing a name -/

/-- The name is in the text, in capital or small letters. -/
def Holds (name text : Text) : Prop :=
  name.map fold <:+: text.map fold

instance (name text : Text) : Decidable (Holds name text) :=
  inferInstanceAs (Decidable (_ <:+: _))

/-- The name is in the value, or in the bytes of its quoted pairs. -/
def Shows (name value : Text) : Prop :=
  Holds name value ∨ ∃ raw ∈ quotedBytes value, Holds name (textOf raw)

instance (name value : Text) : Decidable (Shows name value) := by
  unfold Shows
  infer_instance

/-- No row shows the name. -/
def Nameless (name : Text) (rows : List Row) : Prop :=
  ∀ row ∈ rows, ¬ Shows name row.2

instance (name : Text) (rows : List Row) : Decidable (Nameless name rows) :=
  inferInstanceAs (Decidable (∀ _ ∈ _, _))

/-- The name that a walk records, as a text or as the bytes of quoted pairs. -/
def recordedName (rows : List Row) : Text :=
  let value := ((rows.find? (·.1 = sysNameOid)).map Prod.snd).getD []
  (quotedBytes value).elim value textOf

/-- The texts that stand in for others in every walk of a model. -/
def fixedTexts (model : Text) : List Text :=
  [modelName model, contact, location, serialToken]

/-- The part is the name, in capital or small letters. -/
def Names (name : Text) (q : Spot) : Prop :=
  q.part.map fold = name.map fold

/-- The pairs of a text, each with the space after it. -/
def pairs (t : Text) : Text :=
  (asciiCodes t).flatMap fun b => [hexChar (b / 16), hexChar (b % 16), ' ']

/-- The pairs of a part of a text, with the quotes where the text starts and ends. -/
def pairsOf (q : Spot) : Text :=
  (if q.before = [] then ['"'] else []) ++ (pairs q.part ++ if q.behind = [] then ['"'] else [])

/-- The name is in the pairs of the part, and in those of no shorter part of it. -/
structure Paired (name : Text) (q : Spot) : Prop where
  holds : Holds name (pairsOf q)
  least : ∀ r : Spot, r.text = q.text → q.before <+: r.before → q.behind <:+ r.behind →
    Holds name (pairsOf r) → r = q

section Model

variable (sha256 : Text → Vector UInt8 32) (model : Text) (cfg : Config) (read name : Text)

/-- The replacements of the scrub for the name that it reads, in their order. -/
def passes : List Pass :=
  (if 3 ≤ read.length then [(wordToken fold read, fun _ => modelName model)] else []) ++
    [(matchLength reEmail, fun _ => contact), (matchLength reSn, fun _ => serialToken),
      (matchLength reIp, mapIp sha256)]

/-- A text keeps the name that the scrub does not read, or a text put in spells a name together
with what is left beside it. -/
def RemainsIn (t : Text) : Prop :=
  (read ≠ name ∧ ∃ p q, p.text = t ∧ Names name p ∧ KeepsAll (passes sha256 model read) p q) ∨
    ∃ q, Names name q ∧ Emerges (passes sha256 model read) t q

/-- A text has the name in the digits of its pairs: in those of a part that is kept, or in those
of a part that a text put in brings about. -/
def RemainsInPairs (t : Text) : Prop :=
  ∃ q, Paired name q ∧
    ((∃ p, p.text = t ∧ KeepsAll (passes sha256 model read) p q) ∨
      Emerges (passes sha256 model read) t q)

/-- Quoted pairs that the scrub does not decode have the name in their bytes, and the name that it
reads is not in their digits. -/
def Undecoded (value : Text) : Prop :=
  (∃ raw ∈ quotedBytes value, Holds name (textOf raw)) ∧ (3 ≤ read.length → ¬ Holds read value)

/-- A scrubbed value keeps the name or gets it back. -/
def Remains (value : Text) : Prop :=
  match decodeHex value with
  | some decoded =>
      RemainsIn sha256 model read name decoded ∨ RemainsInPairs sha256 model read name decoded
  | none => RemainsIn sha256 model read name value ∨ Undecoded read name value

/-- A row that is written with the name: a scrubbed value in which it remains, the value of a
serial number that is kept, or a number made up for the row. -/
def Leaks (row : Row) : Prop :=
  stripped cfg row.1 = false ∧
    match handling row.1 with
    | .ifPhys => Shows name (fakeMac sha256 model (lastArc row.1))
    | .serial => Shows name (if blank row.2 then row.2 else fakeSerial sha256 model row.1)
    | .scrub => Remains sha256 model read name row.2
    | _ => False

end Model

section Shows

variable {sha256 : Text → Vector UInt8 32} {model read name value t : Text}

theorem not_shows_of_not_quoted (hquoted : quotedBytes value = none) (h : ¬ Holds name value) :
    ¬ Shows name value := by
  rintro (hvalue | ⟨raw, hraw, -⟩)
  · exact h hvalue
  · rw [hquoted] at hraw
    cases hraw

/-- A text holds the name exactly if one of its parts is the name. -/
theorem holds_iff : Holds name t ↔ ∃ q : Spot, q.text = t ∧ Names name q := by
  constructor
  · rintro ⟨x, y, hxy⟩
    obtain ⟨u, behind, rfl, hu, -⟩ := List.map_eq_append_iff.mp hxy.symm
    obtain ⟨before, part, rfl, -, hpart⟩ := List.map_eq_append_iff.mp hu
    exact ⟨⟨before, part, behind⟩, (List.append_assoc _ _ _).symm, hpart⟩
  · rintro ⟨q, rfl, hname⟩
    rw [Holds, ← hname]
    exact (List.infix_append' _ _ _).map fold

/-! ## What the scrub does to a text -/

theorem exists_suffix_char {p : List Atom} {c : Char} (hc : .char c ∈ p) {last : Option Char}
    {s u : Text} (hs : s <:+ u) {n : Nat} (h : matchLength p last s = some n) :
    c ∈ s.take n ∧ c ∈ u := by
  obtain ⟨d, hd, hdc⟩ := exists_accepted hc Nat.one_pos h
  rw [beq_iff_eq.mp hdc] at hd
  exact ⟨hd, hs.subset (List.mem_of_mem_take hd)⟩

theorem dot_mem_mapIp {ip : Text} (h : '.' ∈ ip) : '.' ∈ mapIp sha256 ip := by
  unfold mapIp
  split
  · exact h
  · exact List.mem_append_left _ (List.mem_append_left _ (by decide))

theorem dot_mem_of_mem_puts {r : Text} (h : r ∈ puts (matchLength reIp) (mapIp sha256) t) :
    '.' ∈ r := by
  obtain ⟨last, s, n, hs, htoken, rfl⟩ := exists_token (mem_puts.mp h)
  have hdot : Atom.char '.' ∈ reIp := by simp [reIp]
  exact dot_mem_mapIp (exists_suffix_char hdot hs htoken).1

theorem eq_of_mem_puts {token : Token} {text r : Text} (h : r ∈ puts token (fun _ => text) t) :
    r = text := by
  obtain ⟨-, -, -, -, -, hr⟩ := exists_token (mem_puts.mp h)
  exact hr

theorem scrubText_eq_replaceAll :
    scrubText sha256 name model [] t = replaceAll (passes sha256 model name) t := by
  rw [scrubText, List.foldl_nil, scrubName, passes]
  split <;> rfl

/-- A part of a scrubbed text has been kept, or it emerges. -/
theorem text_eq_scrubText_iff {q : Spot} :
    q.text = scrubText sha256 name model [] t ↔
      (∃ p, p.text = t ∧ KeepsAll (passes sha256 model name) p q) ∨
        Emerges (passes sha256 model name) t q := by
  rw [scrubText_eq_replaceAll, text_eq_replaceAll_iff]

/-- The scrub keeps no part that is the name that it reads. -/
theorem not_keepsAll_read (hname : 3 ≤ name.length) {p q : Spot} (hp : Names name p) :
    ¬ KeepsAll (passes sha256 model name) p q := by
  have hne : name ≠ [] := by
    rintro rfl
    cases hname
  rw [passes, if_pos hname, List.singleton_append]
  rintro ⟨m, hkeeps, -⟩
  exact not_keeps_word hne hp hkeeps

/-- A scrubbed text holds the name exactly if it remains. -/
theorem holds_scrubText_iff (hname : 3 ≤ name.length) :
    Holds name (scrubText sha256 read model [] t) ↔ RemainsIn sha256 model read name t := by
  rw [holds_iff]
  constructor
  · rintro ⟨q, htext, hq⟩
    rcases text_eq_scrubText_iff.mp htext with ⟨p, hp, hkeeps⟩ | hemerges
    · have hpart : Names name p := by rwa [Names, ← hkeeps.part_eq]
      refine Or.inl ⟨?_, p, q, hp, hpart, hkeeps⟩
      rintro rfl
      exact not_keepsAll_read hname hpart hkeeps
    · exact Or.inr ⟨q, hq, hemerges⟩
  · rintro (⟨-, p, q, hp, hpart, hkeeps⟩ | ⟨q, hq, hemerges⟩)
    · refine ⟨q, text_eq_scrubText_iff.mpr (Or.inl ⟨p, hp, hkeeps⟩), ?_⟩
      rwa [Names, hkeeps.part_eq]
    · exact ⟨q, text_eq_scrubText_iff.mpr (Or.inr hemerges), hq⟩

/-! ## Quoted pairs and the scrub -/

/-- A character of quoted pairs. -/
def isPairChar (c : Char) : Bool :=
  c == '"' || c == ' ' || hexDigits.contains c

theorem isPairChar_hexChar (n : Nat) : isPairChar (hexChar n) = true := by
  by_cases hn : n < 16
  · have := (idxOf_hexChar hn).1
    simp [isPairChar, this]
  · have hzero : hexChar n = '0' := by
      rw [hexChar, List.getD_eq_getElem?_getD, List.getElem?_eq_none (not_lt.mp hn)]
      rfl
    rw [hzero]
    decide

theorem isPairChar_of_mem_hexBytes {raw : List Nat} {c : Char} (h : c ∈ hexBytes raw) :
    isPairChar c = true := by
  induction raw with
  | nil =>
      simp only [hexBytes, List.flatMap_nil, List.cons_append, List.nil_append, List.mem_cons,
        List.not_mem_nil, or_false, or_self] at h
      rw [h]
      decide
  | cons b raw ih =>
      rw [hexBytes_cons] at h
      simp only [List.mem_cons] at h
      rcases h with rfl | rfl | rfl | rfl | h
      · decide
      · exact isPairChar_hexChar _
      · exact isPairChar_hexChar _
      · decide
      · exact ih (List.mem_of_mem_tail h)

theorem pairs_append (t u : Text) : pairs (t ++ u) = pairs t ++ pairs u := by
  rw [pairs, asciiCodes, List.map_append, List.flatMap_append]
  rfl

theorem encodeHex_eq_pairs (t : Text) : encodeHex t = '"' :: pairs t ++ ['"'] :=
  rfl

/-- The pairs of a part are a piece of the quoted pairs of the whole text. -/
theorem pairsOf_within (q : Spot) : pairsOf q <:+: encodeHex q.text := by
  obtain ⟨x, hx⟩ : (if q.before = [] then ['"'] else []) <:+ '"' :: pairs q.before := by
    split
    · rename_i hnil
      rw [hnil]
      exact List.suffix_rfl
    · exact List.nil_suffix
  obtain ⟨y, hy⟩ : (if q.behind = [] then ['"'] else []) <+: pairs q.behind ++ ['"'] := by
    split
    · rename_i hnil
      rw [hnil]
      exact List.prefix_rfl
    · exact List.nil_prefix
  have hend : pairs (q.part ++ q.behind) ++ ['"'] =
      pairs q.part ++ ((if q.behind = [] then ['"'] else []) ++ y) := by
    rw [pairs_append, List.append_assoc, hy]
  refine ⟨x, y, ?_⟩
  rw [encodeHex_eq_pairs, Spot.text, pairs_append, ← List.cons_append, List.append_assoc _ _ ['"'],
    hend, ← hx, pairsOf]
  simp only [List.append_assoc]

/-- A name in the pairs of a part is in those of a least part. -/
theorem exists_paired {q : Spot} (h : Holds name (pairsOf q)) :
    ∃ r : Spot, r.text = q.text ∧ Paired name r := by
  induction hn : q.part.length using Nat.strong_induction_on generalizing q with
  | _ n ih =>
      by_cases hleast : ∀ r : Spot, r.text = q.text → q.before <+: r.before →
          q.behind <:+ r.behind → Holds name (pairsOf r) → r = q
      · exact ⟨q, rfl, h, hleast⟩
      · push Not at hleast
        obtain ⟨r, htext, hbefore, hbehind, hr, hne⟩ := hleast
        have hshort : r.part.length < n := by
          rw [← hn]
          exact not_le.mp fun hlong => hne (Spot.eq_of_length htext hbefore hbehind hlong)
        obtain ⟨r', htext', hr'⟩ := ih _ hshort hr rfl
        exact ⟨r', htext'.trans htext, hr'⟩

/-- The quoted pairs of a text hold the name exactly if a least part of it does. -/
theorem holds_encodeHex_iff :
    Holds name (encodeHex t) ↔ ∃ q : Spot, q.text = t ∧ Paired name q := by
  constructor
  · intro h
    have hwhole : pairsOf ⟨[], t, []⟩ = encodeHex t := rfl
    obtain ⟨q, htext, hq⟩ := exists_paired (hwhole ▸ h)
    exact ⟨q, by rw [htext, Spot.text, List.nil_append, List.append_nil], hq⟩
  · rintro ⟨q, rfl, hq⟩
    exact hq.holds.trans ((pairsOf_within q).map fold)

/-- The pairs of a scrubbed text hold the name exactly if it remains in them. -/
theorem holds_encodeHex_scrubText_iff :
    Holds name (encodeHex (scrubText sha256 read model [] t)) ↔
      RemainsInPairs sha256 model read name t := by
  rw [holds_encodeHex_iff]
  exact exists_congr fun q => and_comm.trans (and_congr_right fun _ => text_eq_scrubText_iff)

/-- Where everything put in would show, no e-mail address, serial token or address has been
replaced. -/
theorem scrubText_eq_scrubName_of_forall {P : Char → Prop}
    (h : ∀ c ∈ scrubText sha256 name model [] t, P c) (hP : ∀ c ∈ ['.', 'S', 'n'], ¬ P c) :
    scrubText sha256 name model [] t = scrubName name model t := by
  have hips : scrubText sha256 name model [] t =
      scrubSerials (scrubEmails (scrubName name model t)) := by
    apply replace_eq_self_of_forall h
    exact fun r hr => ⟨'.', dot_mem_of_mem_puts hr, hP '.' (by decide)⟩
  rw [hips] at h ⊢
  have hserials : scrubSerials (scrubEmails (scrubName name model t)) =
      scrubEmails (scrubName name model t) := by
    apply replace_eq_self_of_forall h
    exact fun r hr => ⟨'S', eq_of_mem_puts hr ▸ (by decide), hP 'S' (by decide)⟩
  rw [hserials] at h ⊢
  apply replace_eq_self_of_forall h
  exact fun r hr => ⟨'n', eq_of_mem_puts hr ▸ (by decide), hP 'n' (by decide)⟩

/-- The name that is put in shows. -/
theorem m_mem_of_mem_puts {token : Token} {r : Text}
    (h : r ∈ puts token (fun _ => modelName model) t) : 'm' ∈ r :=
  eq_of_mem_puts h ▸ List.mem_append_left _ (by decide)

/-- A scrubbed text in which everything put in would show has not been changed. -/
theorem scrubText_eq_self_of_forall {P : Char → Prop}
    (h : ∀ c ∈ scrubText sha256 name model [] t, P c)
    (hP : ∀ c ∈ ['.', 'S', 'n', 'm'], ¬ P c) : scrubText sha256 name model [] t = t := by
  have hnamed := scrubText_eq_scrubName_of_forall h fun c hc => hP c (by grind)
  rw [hnamed] at h ⊢
  unfold scrubName at h ⊢
  split
  · rename_i hname
    rw [if_pos hname] at h
    apply replace_eq_self_of_forall h
    exact fun r hr => ⟨'m', m_mem_of_mem_puts hr, hP 'm' (by decide)⟩
  · rfl

theorem not_isPairChar : ∀ c ∈ ['.', 'S', 'n', 'm'], ¬ isPairChar c = true :=
  List.all_iff_forall_prop.mp (by decide)

/-- A scrubbed text made of the characters of quoted pairs has not been changed. -/
theorem scrubText_eq_self (h : ∀ c ∈ scrubText sha256 name model [] t, isPairChar c = true) :
    scrubText sha256 name model [] t = t :=
  scrubText_eq_self_of_forall h not_isPairChar

/-- Such a text does not hold the name that the scrub reads. -/
theorem not_holds_of_isPairChar (hname : 3 ≤ name.length)
    (h : ∀ c ∈ scrubText sha256 name model [] t, isPairChar c = true) : ¬ Holds name t := by
  rw [scrubText_eq_scrubName_of_forall h fun c hc => not_isPairChar c (by grind), scrubName,
    if_pos hname] at h
  have hputs : puts (wordToken fold name) (fun _ => modelName model) t = [] := by
    apply List.eq_nil_iff_forall_not_mem.mpr
    intro r hr
    exact not_isPairChar 'm' (by decide) (h 'm' ((infix_replace hr).subset (m_mem_of_mem_puts hr)))
  rw [holds_iff]
  rintro ⟨p, rfl, hp⟩
  have hne : name ≠ [] := by
    rintro rfl
    cases hname
  exact not_keeps_word hne hp ((keeps_iff_of_puts_eq_nil hputs).mpr rfl)

/-- Nothing is replaced in quoted pairs of which the name is no piece. -/
theorem scrubText_hexBytes {raw : List Nat}
    (hunpaired : 3 ≤ name.length → ¬ Holds name (hexBytes raw)) :
    scrubText sha256 name model [] (hexBytes raw) = hexBytes raw := by
  have hpattern : ∀ (p : List Atom) (write : Text → Text) (c : Char), .char c ∈ p →
      isPairChar c = false → replace (matchLength p) write (hexBytes raw) = hexBytes raw := by
    intro p write c hc hpair
    apply replace_eq_self
    apply puts_eq_nil
    intro last s hs n htoken
    have hmem := isPairChar_of_mem_hexBytes (exists_suffix_char hc hs htoken).2
    rw [hpair] at hmem
    cases hmem
  have hnamed : scrubName name model (hexBytes raw) = hexBytes raw := by
    unfold scrubName
    split
    · rename_i hname
      apply replace_eq_self
      apply puts_eq_nil
      intro last s hs n htoken
      unfold wordToken at htoken
      split at htoken
      · rename_i hstarts
        exact hunpaired hname (List.infix_iff_prefix_suffix.mpr ⟨_, hstarts, hs.map fold⟩)
      · cases htoken
    · rfl
  have hemails : scrubEmails (hexBytes raw) = hexBytes raw :=
    hpattern reEmail _ '@' (by simp [reEmail]) (by decide)
  have hserials : scrubSerials (hexBytes raw) = hexBytes raw :=
    hpattern reSn _ 'S' (by simp [reSn]) (by decide)
  have hips : scrubIps sha256 (hexBytes raw) = hexBytes raw :=
    hpattern reIp _ '.' (by simp [reIp]) (by decide)
  rw [scrubText, List.foldl_nil, hnamed, hemails, hserials, hips]

/-- What the scrub makes of a text is quoted pairs only if the text is, and nothing in it is
replaced. -/
theorem quotedBytes_scrubText_iff {raw : List Nat} :
    quotedBytes (scrubText sha256 name model [] t) = some raw ↔
      quotedBytes t = some raw ∧ (3 ≤ name.length → ¬ Holds name t) := by
  constructor
  · intro h
    have hpairs : ∀ c ∈ scrubText sha256 name model [] t, isPairChar c = true := by
      rw [(quotedBytes_eq_some.mp h).1]
      exact fun c hc => isPairChar_of_mem_hexBytes hc
    constructor
    · rwa [scrubText_eq_self hpairs] at h
    · exact fun hname => not_holds_of_isPairChar hname hpairs
  · rintro ⟨hraw, hunpaired⟩
    rw [(quotedBytes_eq_some.mp hraw).1] at hunpaired ⊢
    rw [scrubText_hexBytes hunpaired]
    exact quotedBytes_eq_some.mpr ⟨rfl, (quotedBytes_eq_some.mp hraw).2⟩

/-! ## ASCII texts -/

theorem ascii_decimal {n : Nat} {c : Char} (h : c ∈ Text.decimal n) : c.toNat < 128 := by
  have hdigit := Text.isDigit_of_mem_decimal h
  simp only [Char.isDigit, Bool.and_eq_true, decide_eq_true_eq, UInt32.le_iff_toNat_le] at hdigit
  have hnine : '9'.val.toNat = 57 := rfl
  have hcode : c.toNat = c.val.toNat := rfl
  omega

theorem ascii_mapIp {ip : Text} (h : ∀ c ∈ ip, c.toNat < 128) : ∀ c ∈ mapIp sha256 ip, c.toNat < 128 := by
  intro c hc
  unfold mapIp at hc
  split at hc
  · exact h c hc
  · rcases List.mem_append.mp hc with hc | hc
    · rcases List.mem_append.mp hc with hc | hc
      · have hall : ∀ c ∈ "10.77.".toList, c.toNat < 128 :=
          List.all_iff_forall_prop.mp (by decide)
        exact hall c hc
      · exact ascii_decimal hc
    · rcases List.mem_cons.mp hc with rfl | hc
      · decide
      · exact ascii_decimal hc

/-- The scrub of an ASCII text is one. -/
theorem ascii_scrubText (hmodel : ∀ c ∈ model, c.toNat < 128) (ht : ∀ c ∈ t, c.toNat < 128) :
    ∀ c ∈ scrubText sha256 name model [] t, c.toNat < 128 := by
  have hput : ∀ (token : Token) (text u : Text), (∀ c ∈ text, c.toNat < 128) →
      ∀ r ∈ puts token (fun _ => text) u, ∀ c ∈ r, c.toNat < 128 := by
    intro token text u htext r hr
    rw [eq_of_mem_puts hr]
    exact htext
  have hnamed : ∀ c ∈ scrubName name model t, c.toNat < 128 := by
    unfold scrubName
    split
    · apply forall_mem_replace ht (hput _ _ _ _)
      intro c hc
      rcases List.mem_append.mp hc with hc | hc
      · have hall : ∀ c ∈ "mr-".toList, c.toNat < 128 :=
          List.all_iff_forall_prop.mp (by decide)
        exact hall c hc
      · exact hmodel c hc
    · exact ht
  have hemails : ∀ c ∈ scrubEmails (scrubName name model t), c.toNat < 128 :=
    forall_mem_replace hnamed (hput _ _ _ (List.all_iff_forall_prop.mp (by decide)))
  have hserials : ∀ c ∈ scrubSerials (scrubEmails (scrubName name model t)), c.toNat < 128 :=
    forall_mem_replace hemails (hput _ _ _ (List.all_iff_forall_prop.mp (by decide)))
  apply forall_mem_replace hserials
  intro r hr
  obtain ⟨last, s, n, hs, -, rfl⟩ := exists_token (mem_puts.mp hr)
  exact ascii_mapIp fun c hc => hserials c (hs.subset (List.mem_of_mem_take hc))

/-! ## The written values -/

theorem asciiCodes_textOf {raw : List Nat} (h : ∀ b ∈ raw, b < 128) :
    asciiCodes (textOf raw) = raw := by
  have hall : ∀ i : Fin 128, (if (Char.ofNat i).toNat < 128 then (Char.ofNat i).toNat
      else '?'.toNat) = i := by decide
  rw [asciiCodes, textOf, List.map_map]
  exact (List.map_congr_left fun b hb => hall ⟨b, h b hb⟩).trans (List.map_id raw)

/-- Decoded pairs are written as the pairs of the scrubbed text. -/
theorem scrubValue_of_decodeHex {decoded : Text} (h : decodeHex value = some decoded) :
    scrubValue sha256 value read model [] = encodeHex (scrubText sha256 read model [] decoded) := by
  rw [scrubValue, h]
  dsimp only
  split
  · rename_i hsame
    obtain ⟨raw, hraw, rfl, hascii⟩ := decodeHex_eq_some h
    rw [hsame, encodeHex, asciiCodes_textOf hascii]
    exact (quotedBytes_eq_some.mp hraw).1
  · rfl

/-- A scrubbed value shows the name exactly if it remains in the value. -/
theorem shows_scrubValue_iff (hmodel : ∀ c ∈ model, c.toNat < 128) (hname : 3 ≤ name.length) :
    Shows name (scrubValue sha256 value read model []) ↔
      Remains sha256 model read name value := by
  unfold Remains
  cases hdecode : decodeHex value with
  | some decoded =>
      have htext : textOf (asciiCodes (scrubText sha256 read model [] decoded)) =
          scrubText sha256 read model [] decoded :=
        textOf_asciiCodes (ascii_scrubText hmodel (ascii_of_decodeHex hdecode))
      dsimp only
      rw [scrubValue_of_decodeHex hdecode, Shows, quotedBytes_encodeHex, or_comm,
        holds_encodeHex_scrubText_iff, ← holds_scrubText_iff hname]
      simp only [Option.mem_def, Option.some.injEq, exists_eq_left', htext]
  | none =>
      dsimp only
      rw [scrubValue, hdecode, Shows, ← holds_scrubText_iff hname]
      dsimp only
      apply or_congr_right
      rw [Undecoded]
      simp only [Option.mem_def, quotedBytes_scrubText_iff]
      constructor
      · rintro ⟨raw, ⟨hraw, hunpaired⟩, hholds⟩
        exact ⟨⟨raw, hraw, hholds⟩, hunpaired⟩
      · rintro ⟨⟨raw, hraw, hholds⟩, hunpaired⟩
        exact ⟨raw, ⟨hraw, hunpaired⟩, hholds⟩

end Shows

section Curate

variable {sha256 : Text → Vector UInt8 32} {model read name content : Text} {cfg : Config}

/-- What is written for a row shows the name exactly if the row leaks it. -/
theorem shows_curateRow_iff {row : Row} (hset : cfg.set.entries = [])
    (hsub : cfg.sub = []) (hmodel : ∀ c ∈ model, c.toNat < 128) (hname : 3 ≤ name.length)
    (hfixed : ∀ text ∈ fixedTexts model, ¬ Holds name text) :
    (∃ written ∈ curateRow sha256 model cfg read row, Shows name written.2) ↔
      Leaks sha256 model cfg read name row := by
  have hget : cfg.set.get row.1 = none := by
    rw [Dict.get, hset]
    rfl
  unfold curateRow Leaks
  cases hstripped : stripped cfg row.1 with
  | true => simp
  | false =>
      simp only [Bool.false_eq_true, if_false, hget, Option.getD_none, Option.mem_def,
        Option.some.injEq, exists_eq_left', true_and]
      have htext : ∀ text ∈ fixedTexts model, quotedBytes text = none → ¬ Shows name text :=
        fun text htext hquoted => not_shows_of_not_quoted hquoted (hfixed text htext)
      unfold curateValue
      cases hhandling : handling row.1 with
      | sysName => exact iff_of_false (htext _ (by simp [fixedTexts]) rfl) id
      | sysContact => exact iff_of_false (htext _ (by simp [fixedTexts]) rfl) id
      | sysLocation => exact iff_of_false (htext _ (by simp [fixedTexts]) rfl) id
      | ifAlias =>
          apply iff_of_false _ id
          apply not_shows_of_not_quoted rfl
          intro hholds
          rw [Holds, List.map_nil, List.infix_nil, List.map_eq_nil_iff] at hholds
          rw [hholds] at hname
          cases hname
      | ifPhys => exact Iff.rfl
      | serial => exact Iff.rfl
      | scrub =>
          simp only [hsub]
          exact shows_scrubValue_iff hmodel hname

end Curate

/-! ## Two walks -/

/-- A model without overrides and replacements of its own. -/
def plainConfig : Config :=
  ⟨[], Dict.empty, []⟩

def switchModel : Text := "huawei-s6730".toList

def coreName : Text := "core".toList

/-- A walk with the device's name in a text and in printable pairs. -/
def printableWalk : Text :=
  ".1.1 at CORE\n.1.2 \"63 6F 72 65 20 \"\n.1.3.6.1.2.1.1.5.0 core\n".toList

/-- A walk with the device's name in pairs that end with a zero byte. -/
def terminatedWalk : Text :=
  ".1.3.6.1.2.1.1.5.0 core\n.1.3.6.1.4.1.9.1.1.0 \"63 6F 72 65 00 \"\n".toList

/-- The digest of any text is a row of zeros. -/
def zeroDigest : Text → Vector UInt8 32 := fun _ => Vector.replicate 32 0

end Walklib
end DemoEstate
