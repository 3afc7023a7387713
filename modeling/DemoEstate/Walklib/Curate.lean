import Mathlib.Data.Bool.AllAny
import DemoEstate.Library.Dict
import DemoEstate.Library.Tokens
import DemoEstate.Netsim.Render

/-!
# Curating recorded walks

A recorded walk becomes a walk of the library: whole subtrees are left out, the identifying rows
are rewritten, and every other value is scrubbed of the device's name, of e-mail addresses, serial
tokens and IP addresses, as a text or as quoted hexadecimal pairs of one.

Main definitions:

- Definition {lit}`scrubText`: the replacements made in a text.
- Definition {lit}`scrubValue`: the scrub of a plain or hexadecimal value.
- Definition {lit}`curate`: the rows written for a recorded walk.

Main results:

- Theorem {lit}`quotedBytes_eq_some`: which values are quoted pairs.
- Theorem {lit}`quotedBytes_encodeHex`: what a written pair text is read as.
-/

namespace DemoEstate
namespace Walklib

open Netsim (hexChar hexBytes oidKey rowLe)
open Snmp (Row)
open Tokens

/-! ## The rows of a walk -/

/-- The rows of a recorded walk. -/
def parseWalk (content : Text) : List Row :=
  ((Text.fileLines content).filter fun line => ['.'].isPrefixOf line).map (Text.cut ' ')

/-- The subtrees left out of every walk. -/
def globalStrip : List Text :=
  [".1.3.6.1.2.1.3.".toList, ".1.3.6.1.2.1.4.".toList, ".1.3.6.1.2.1.5.".toList,
    ".1.3.6.1.2.1.6.".toList, ".1.3.6.1.2.1.7.".toList, ".1.3.6.1.2.1.10.".toList,
    ".1.3.6.1.2.1.14.".toList, ".1.3.6.1.2.1.15.".toList, ".1.3.6.1.2.1.16.".toList,
    ".1.3.6.1.2.1.17.".toList, ".1.3.6.1.2.1.25.4.".toList, ".1.3.6.1.2.1.25.5.".toList,
    ".1.3.6.1.2.1.25.6.".toList, ".1.3.6.1.2.1.26.".toList, ".1.0.8802.".toList,
    ".1.3.6.1.4.1.9.9.23.".toList, ".1.3.6.1.4.1.9.9.43.".toList, ".1.3.6.1.6.3.".toList]

def sysNameOid : Text := ".1.3.6.1.2.1.1.5.0".toList

def sysContactOid : Text := ".1.3.6.1.2.1.1.4.0".toList

def sysLocationOid : Text := ".1.3.6.1.2.1.1.6.0".toList

def ifAliasPrefix : Text := ".1.3.6.1.2.1.31.1.1.1.18.".toList

def ifPhysPrefix : Text := ".1.3.6.1.2.1.2.2.1.6.".toList

/-- The columns of serial numbers, in every walk. -/
def serialPrefixes : List Text :=
  [".1.3.6.1.2.1.47.1.1.1.1.11.".toList, ".1.3.6.1.2.1.47.1.1.1.1.14.".toList,
    ".1.3.6.1.2.1.47.1.1.1.1.15.".toList, ".1.3.6.1.2.1.43.5.1.1.17.".toList,
    ".1.3.6.1.4.1.318.1.1.1.1.2.3.".toList, ".1.3.6.1.4.1.318.1.4.1.4.".toList,
    ".1.3.6.1.4.1.318.1.4.2.4.1.2.".toList, ".1.3.6.1.4.1.12356.100.1.1.1.".toList,
    ".1.3.6.1.4.1.6574.1.5.2.".toList, ".1.3.6.1.4.1.674.10892.5.1.3.2.".toList,
    ".1.3.6.1.4.1.674.10892.5.1.3.3.".toList, ".1.3.6.1.4.1.674.10892.5.4.300.1.1.11.".toList]

/-! ## Quoted hexadecimal pairs -/

/-- The upper-case hexadecimal digits. -/
def hexDigits : Text :=
  "0123456789ABCDEF".toList

/-- The bytes of pairs with a space after each, up to the closing quote. -/
def pairBytes : Text → Option (List Nat)
  | ['"'] => some []
  | a :: b :: ' ' :: rest =>
      if a ∈ hexDigits ∧ b ∈ hexDigits then
        (pairBytes rest).map fun raw => (hexDigits.idxOf a * 16 + hexDigits.idxOf b) :: raw
      else none
  | _ => none

/-- The bytes of a value that consists of quoted pairs. -/
def quotedBytes : Text → Option (List Nat)
  | '"' :: rest => pairBytes rest
  | _ => none

/-- The text of some bytes, one character each. -/
def textOf (raw : List Nat) : Text :=
  raw.map Char.ofNat

/-- The text of quoted pairs; it must be printable or have a line break. -/
def decodeHex (value : Text) : Option Text :=
  (quotedBytes value).bind fun raw =>
    if raw.all (· < 128) then
      if (textOf raw).all Text.isPrintable ∨ '\r' ∈ textOf raw ∨ '\n' ∈ textOf raw then
        some (textOf raw)
      else none
    else none

/-- The ASCII codes of a text, with a question mark for every other character. -/
def asciiCodes (text : Text) : List Nat :=
  text.map fun c => if c.toNat < 128 then c.toNat else '?'.toNat

def encodeHex (text : Text) : Text :=
  hexBytes (asciiCodes text)

/-! ## Scrubbing a value -/

/-- The characters matched alike when case is ignored, of the first 256. -/
def fold (c : Char) : Char :=
  if ('A' ≤ c ∧ c ≤ 'Z') ∨ (0xC0 ≤ c.toNat ∧ c.toNat ≤ 0xDE ∧ c.toNat ≠ 0xD7) then
    Char.ofNat (c.toNat + 32)
  else c

/-- A word character, of the first 256. -/
def isWord (c : Char) : Bool :=
  c.isAlphanum || c == '_' ||
    c.toNat ∈ [0xAA, 0xB2, 0xB3, 0xB5, 0xB9, 0xBA, 0xBC, 0xBD, 0xBE] ||
      (0xC0 ≤ c.toNat && c.toNat ≤ 0xFF && c.toNat != 0xD7 && c.toNat != 0xF7)

/-- An e-mail address. -/
def reEmail : List Atom :=
  [.run (fun c => c.isAlphanum || "._%+-".toList.contains c) 1 none, .char '@',
    .run (fun c => c.isAlphanum || ".-".toList.contains c) 1 none, .char '.',
    .run Char.isAlpha 2 none]

/-- A serial token. -/
def reSn : List Atom :=
  [.boundary isWord, .char 'S', .char 'N', .run (· == ':') 0 (some 1), .run (· == ' ') 0 (some 1),
    .run (fun c => c.isAlphanum || c == '-') 4 none]

/-- An IP address, with no digit or dot around it. -/
def reIp : List Atom :=
  let digits : Atom := .run Char.isDigit 1 (some 3)
  [.notBehind fun c => c.isDigit || c == '.', digits, .char '.', digits, .char '.', digits,
    .char '.', digits, .notAhead fun c => c.isDigit || c == '.']

section Scrub

/- The SHA-256 digest of a text. -/
variable (sha256 : Text → Vector UInt8 32)

/-- Another address for an IP address, unless it is a local one. -/
def mapIp (ip : Text) : Text :=
  if "127.".toList.isPrefixOf ip || "0.".toList.isPrefixOf ip || "255.".toList.isPrefixOf ip ||
      ip == "0.0.0.0".toList then ip
  else
    let h := sha256 ip
    "10.77.".toList ++ Text.decimal h[0].toNat ++ '.' ::
      Text.decimal (if h[1] = 0 then 1 else h[1].toNat)

/-- A serial number made up for a row. -/
def fakeSerial (model oid : Text) : Text :=
  let h := sha256 (model ++ ':' :: oid)
  "MR".toList ++ (h.toList.take 5).flatMap fun b => [hexChar (b.toNat / 16), hexChar (b.toNat % 16)]

/-- A hardware address made up for an interface. -/
def fakeMac (model index : Text) : Text :=
  let h := sha256 (model ++ ':' :: index)
  hexBytes [0x00, 0x1B, 0x2C, h[0].toNat, h[1].toNat, h[2].toNat]

/-- The name that a model's walk gets. -/
def modelName (model : Text) : Text :=
  "mr-".toList ++ model

def contact : Text := "netops@meridian-retail.com".toList

def location : Text := "Meridian Retail".toList

def serialToken : Text := "SN:MR0000000000".toList

/-- Replace the recorded name, unless it is very short. -/
def scrubName (sysName model : Text) (t : Text) : Text :=
  if 3 ≤ sysName.length then replace (wordToken fold sysName) (fun _ => modelName model) t else t

def scrubEmails (t : Text) : Text :=
  replace (matchLength reEmail) (fun _ => contact) t

def scrubSerials (t : Text) : Text :=
  replace (matchLength reSn) (fun _ => serialToken) t

def scrubIps (t : Text) : Text :=
  replace (matchLength reIp) (mapIp sha256) t

/-- The replacements in a text: those of every model, then the model's own. -/
def scrubText (sysName model : Text) (subs : List (Text → Text)) (t : Text) : Text :=
  subs.foldl (fun t sub => sub t)
    (scrubIps sha256 (scrubSerials (scrubEmails (scrubName sysName model t))))

/-- The scrub of a value, plain or in quoted pairs. -/
def scrubValue (value sysName model : Text) (subs : List (Text → Text)) : Text :=
  match decodeHex value with
  | some decoded =>
      let scrubbed := scrubText sha256 sysName model subs decoded
      if scrubbed = decoded then value else encodeHex scrubbed
  | none => scrubText sha256 sysName model subs value

end Scrub

/-! ## Curating a walk -/

/-- What the registry has for a model: more subtrees to leave out, values for single rows, and
more replacements. -/
structure Config where
  strip : List Text
  set : Dict Text Text
  sub : List (Text → Text)

/-- What becomes of the value of a row. -/
inductive Handling where
  | sysName
  | sysContact
  | sysLocation
  | ifAlias
  | ifPhys
  | serial
  | scrub
deriving DecidableEq

def handling (oid : Text) : Handling :=
  if oid = sysNameOid then .sysName
  else if oid = sysContactOid then .sysContact
  else if oid = sysLocationOid then .sysLocation
  else if ifAliasPrefix.isPrefixOf oid then .ifAlias
  else if ifPhysPrefix.isPrefixOf oid then .ifPhys
  else if serialPrefixes.any (·.isPrefixOf oid) then .serial
  else .scrub

/-- Only blanks and quotes. -/
def blank (value : Text) : Bool :=
  (Text.strip (· == '"') (Text.strip Text.isSpace value)).isEmpty

/-- The last arc of an OID. -/
def lastArc (oid : Text) : Text :=
  (oid.reverse.takeWhile (· != '.')).reverse

/-- The name recorded in a walk, as curating takes it. -/
def sysName (rows : List Row) : Text :=
  let value := ((rows.find? (·.1 = sysNameOid)).map Prod.snd).getD []
  if (quotedBytes value).isSome then (decodeHex value).getD [] else value

section Curate

variable (sha256 : Text → Vector UInt8 32) (model : Text) (cfg : Config)

/-- The new value of a row without an override. -/
def curateValue (name : Text) (row : Row) : Text :=
  match handling row.1 with
  | .sysName => modelName model
  | .sysContact => contact
  | .sysLocation => location
  | .ifAlias => []
  | .ifPhys => fakeMac sha256 model (lastArc row.1)
  | .serial => if blank row.2 then row.2 else fakeSerial sha256 model row.1
  | .scrub => scrubValue sha256 row.2 name model cfg.sub

/-- Whether a row is left out. -/
def stripped (oid : Text) : Bool :=
  (globalStrip ++ cfg.strip).any (·.isPrefixOf oid)

def curateRow (name : Text) (row : Row) : Option Row :=
  if stripped cfg row.1 then none
  else some (row.1, (cfg.set.get row.1).getD (curateValue sha256 model cfg name row))

/-- The sorted rows written for a recorded walk; an OID without a sort key ends the program. -/
def curate (content : Text) : Option (List Row) :=
  let rows := parseWalk content
  let out := rows.filterMap (curateRow sha256 model cfg (sysName rows))
  if out.all fun row => (oidKey row.1).isSome then some (out.insertionSort rowLe) else none

end Curate

/-! ## Reading quoted pairs -/

section Quoted

theorem idxOf_hexChar {n : Nat} (h : n < 16) :
    hexChar n ∈ hexDigits ∧ hexDigits.idxOf (hexChar n) = n := by
  have hall : ∀ i : Fin 16, hexChar i ∈ hexDigits ∧ hexDigits.idxOf (hexChar i) = i := by decide
  exact hall ⟨n, h⟩

theorem hexChar_idxOf {c : Char} (h : c ∈ hexDigits) :
    hexDigits.idxOf c < 16 ∧ hexChar (hexDigits.idxOf c) = c := by
  have hall : ∀ c ∈ hexDigits, hexDigits.idxOf c < 16 ∧ hexChar (hexDigits.idxOf c) = c :=
    List.all_iff_forall_prop.mp (by decide)
  exact hall c h

theorem hexBytes_cons (b : Nat) (raw : List Nat) :
    hexBytes (b :: raw) = '"' :: hexChar (b / 16) :: hexChar (b % 16) :: ' ' :: (hexBytes raw).tail :=
  rfl

/-- Pairs are read as the bytes they were written for. -/
theorem pairBytes_tail {raw : List Nat} (hraw : ∀ b ∈ raw, b < 256) :
    pairBytes (hexBytes raw).tail = some raw := by
  induction raw with
  | nil => rfl
  | cons b raw ih =>
      have hb : b < 256 := hraw b List.mem_cons_self
      obtain ⟨hhigh, hhighIdx⟩ := idxOf_hexChar (n := b / 16) (by omega)
      obtain ⟨hlow, hlowIdx⟩ := idxOf_hexChar (n := b % 16) (by omega)
      rw [hexBytes_cons, List.tail_cons, pairBytes, if_pos ⟨hhigh, hlow⟩,
        ih fun b hb => hraw b (List.mem_cons_of_mem _ hb), hhighIdx, hlowIdx]
      simp only [Option.map_some, Option.some.injEq, List.cons.injEq, and_true]
      omega

/-- What is read as pairs was written for its bytes. -/
theorem eq_tail_of_pairBytes {s : Text} {raw : List Nat} (h : pairBytes s = some raw) :
    s = (hexBytes raw).tail ∧ ∀ b ∈ raw, b < 256 := by
  fun_induction pairBytes s generalizing raw with
  | case1 =>
      cases h
      exact ⟨rfl, fun b hb => absurd hb List.not_mem_nil⟩
  | case2 a b rest hdigits ih =>
      obtain ⟨raw', hraw', rfl⟩ := Option.map_eq_some_iff.mp h
      obtain ⟨hrest, hbytes⟩ := ih hraw'
      obtain ⟨ha, haChar⟩ := hexChar_idxOf hdigits.1
      obtain ⟨hb, hbChar⟩ := hexChar_idxOf hdigits.2
      constructor
      · rw [hexBytes_cons, List.tail_cons, ← hrest,
          show (hexDigits.idxOf a * 16 + hexDigits.idxOf b) / 16 = hexDigits.idxOf a by omega,
          show (hexDigits.idxOf a * 16 + hexDigits.idxOf b) % 16 = hexDigits.idxOf b by omega,
          haChar, hbChar]
      · intro c hc
        rcases List.mem_cons.mp hc with rfl | hc
        · omega
        · exact hbytes c hc
  | case3 => cases h
  | case4 => cases h

/-- The values that are quoted pairs. -/
theorem quotedBytes_eq_some {value : Text} {raw : List Nat} :
    quotedBytes value = some raw ↔ value = hexBytes raw ∧ ∀ b ∈ raw, b < 256 := by
  constructor
  · intro h
    unfold quotedBytes at h
    split at h
    · obtain ⟨hrest, hraw⟩ := eq_tail_of_pairBytes h
      exact ⟨by rw [hrest]; rfl, hraw⟩
    · cases h
  · rintro ⟨rfl, hraw⟩
    exact pairBytes_tail hraw

/-- A text written in pairs is read as its ASCII codes. -/
theorem quotedBytes_encodeHex (text : Text) :
    quotedBytes (encodeHex text) = some (asciiCodes text) := by
  rw [quotedBytes_eq_some]
  refine ⟨rfl, fun b hb => ?_⟩
  obtain ⟨c, -, rfl⟩ := List.mem_map.mp hb
  split
  · omega
  · decide

theorem textOf_asciiCodes {text : Text} (h : ∀ c ∈ text, c.toNat < 128) :
    textOf (asciiCodes text) = text := by
  have hchar : ∀ c ∈ text, (Char.ofNat ∘ fun c : Char => if c.toNat < 128 then c.toNat else 63) c =
      id c := by
    intro c hc
    rw [Function.comp_apply, if_pos (h c hc), Char.ofNat_toNat, id_eq]
  rw [textOf, asciiCodes, List.map_map]
  exact (List.map_congr_left hchar).trans (List.map_id text)

/-- A decoded value is quoted pairs of ASCII codes. -/
theorem decodeHex_eq_some {value text : Text} (h : decodeHex value = some text) :
    ∃ raw, quotedBytes value = some raw ∧ text = textOf raw ∧ ∀ b ∈ raw, b < 128 := by
  obtain ⟨raw, hraw, htext⟩ := Option.bind_eq_some_iff.mp h
  split at htext
  · rename_i hascii
    split at htext
    · cases htext
      exact ⟨raw, hraw, rfl, fun b hb => by simpa using List.all_eq_true.mp hascii b hb⟩
    · cases htext
  · cases htext

/-- A decoded value is an ASCII text. -/
theorem ascii_of_decodeHex {value text : Text} (h : decodeHex value = some text) :
    ∀ c ∈ text, c.toNat < 128 := by
  obtain ⟨raw, -, rfl, hbytes⟩ := decodeHex_eq_some h
  intro c hc
  obtain ⟨b, hb, rfl⟩ := List.mem_map.mp hc
  have hall : ∀ i : Fin 128, (Char.ofNat i).toNat < 128 := by decide
  exact hall ⟨b, hbytes b hb⟩

end Quoted

end Walklib
end DemoEstate
