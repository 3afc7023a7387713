import Mathlib.Data.List.Forall2
import DemoEstate.Library.Text

/-!
# Numerals in a base

Reading a signed integer in a base up to 36: the digits of every script count as decimal digits,
letters follow them, and single underscores may stand between two digits.  A text around which
blanks have been stripped is read.

Main definitions:

- Definition {lit}`intIn`: the integer that a text is read as.
- Definition {lit}`SameShape`: texts that differ only in which digits they have.

Main results:

- Theorem {lit}`isSome_intIn_congr`: texts of the same shape are read or refused together.
-/

namespace Text

/-! ## Digits -/

/-- The zeros of the scripts; the other nine digits follow each of them. -/
def digitZeros : List Nat :=
  [0x30, 0x660, 0x6F0, 0x7C0, 0x966, 0x9E6, 0xA66, 0xAE6, 0xB66, 0xBE6, 0xC66, 0xCE6, 0xD66, 0xDE6,
    0xE50, 0xED0, 0xF20, 0x1040, 0x1090, 0x17E0, 0x1810, 0x1946, 0x19D0, 0x1A80, 0x1A90, 0x1B50,
    0x1BB0, 0x1C40, 0x1C50, 0xA620, 0xA8D0, 0xA900, 0xA9D0, 0xA9F0, 0xAA50, 0xABF0, 0xFF10, 0x104A0,
    0x10D30, 0x11066, 0x110F0, 0x11136, 0x111D0, 0x112F0, 0x11450, 0x114D0, 0x11650, 0x116C0,
    0x11730, 0x118E0, 0x11950, 0x11C50, 0x11D50, 0x11DA0, 0x16A60, 0x16AC0, 0x16B50, 0x1D7CE,
    0x1D7D8, 0x1D7E2, 0x1D7EC, 0x1D7F6, 0x1E140, 0x1E2F0, 0x1E950, 0x1FBF0]

/-- The value of a decimal digit of any script. -/
def decimalDigit (c : Char) : Option Nat :=
  (digitZeros.find? fun z => z ≤ c.toNat && c.toNat < z + 10).map (c.toNat - ·)

/-- The value of a letter behind the decimal digits. -/
def letterDigit (c : Char) : Option Nat :=
  if 'a' ≤ c ∧ c ≤ 'z' then some (c.toNat - 'a'.toNat + 10)
  else if 'A' ≤ c ∧ c ≤ 'Z' then some (c.toNat - 'A'.toNat + 10)
  else none

/-- The value of a digit in a base. -/
def digitIn (base : Nat) (c : Char) : Option Nat :=
  ((decimalDigit c).or (letterDigit c)).filter (· < base)

/-! ## Numerals -/

/-- Read the digits behind a number; a single underscore may stand before each. -/
def moreDigits (base : Nat) : Nat → Text → Option Nat
  | n, [] => some n
  | n, c :: s =>
      if c = '_' then
        match s with
        | [] => none
        | d :: s => (digitIn base d).bind fun k => moreDigits base (n * base + k) s
      else (digitIn base c).bind fun k => moreDigits base (n * base + k) s

/-- Read a numeral without sign. -/
def numeralIn (base : Nat) : Text → Option Nat
  | [] => none
  | c :: s => (digitIn base c).bind fun n => moreDigits base n s

/-- A numeral behind the prefix that marks hexadecimal ones, and an underscore that may follow it. -/
def dropHexPrefix : Text → Text
  | c :: x :: s =>
      if decimalDigit c = some 0 ∧ (x = 'x' ∨ x = 'X') then
        if s.head? = some '_' then s.drop 1 else s
      else c :: x :: s
  | s => s

/-- Read an unsigned integer in a base. -/
def natIn (base : Nat) (s : Text) : Option Nat :=
  numeralIn base (if base = 16 then dropHexPrefix s else s)

/-- Read an integer in a base. -/
def intIn (base : Nat) : Text → Option ℤ
  | '-' :: s => (natIn base s).map fun n : Nat => -(n : ℤ)
  | '+' :: s => (natIn base s).map fun n : Nat => (n : ℤ)
  | s => (natIn base s).map fun n : Nat => (n : ℤ)

/-! ## Texts of the same shape -/

/-- Equal, or both digits. -/
def SameShape (base : Nat) (c d : Char) : Prop :=
  c = d ∨ ((digitIn base c).isSome ∧ (digitIn base d).isSome)

section SameShape

variable {base : Nat} {c d : Char}

theorem not_digitIn {c : Char} (hdecimal : decimalDigit c = none) (hletter : letterDigit c = none) :
    digitIn base c = none := by
  rw [digitIn, hdecimal, hletter]
  rfl

theorem SameShape.isSome_digitIn (h : SameShape base c d) :
    (digitIn base c).isSome = (digitIn base d).isSome := by
  rcases h with rfl | ⟨hc, hd⟩
  · rfl
  · rw [hc, hd]

/-- A character that is no digit has only its own shape. -/
theorem SameShape.eq_iff (h : SameShape base c d) {e : Char} (he : digitIn base e = none) :
    c = e ↔ d = e := by
  rcases h with rfl | ⟨hc, hd⟩
  · rfl
  · constructor
    · rintro rfl
      simp [he] at hc
    · rintro rfl
      simp [he] at hd

/-- Both ways of going on behind a digit are read or refused together. -/
theorem isSome_bind_digitIn (h : SameShape base c d) {f g : Nat → Option Nat}
    (hfg : ∀ m n, (f m).isSome = (g n).isSome) :
    ((digitIn base c).bind f).isSome = ((digitIn base d).bind g).isSome := by
  have hshape := h.isSome_digitIn
  cases hc : digitIn base c with
  | none =>
      rw [hc, Option.isSome_none, eq_comm, Option.isSome_eq_false_iff, Option.isNone_iff_eq_none]
        at hshape
      rw [hshape]
      rfl
  | some m =>
      rw [hc, Option.isSome_some, eq_comm, Option.isSome_iff_exists] at hshape
      rcases hshape with ⟨n, hd⟩
      rw [hd]
      exact hfg m n

theorem isSome_moreDigits_congr {s t : Text} (h : List.Forall₂ (SameShape base) s t) (m n : Nat) :
    (moreDigits base m s).isSome = (moreDigits base n t).isSome := by
  have hunderscore : digitIn base '_' = none := not_digitIn (by decide) (by decide)
  match h with
  | .nil => rfl
  | @List.Forall₂.cons _ _ _ c d s t hcd hst =>
      by_cases hc : c = '_'
      · have hd : d = '_' := (hcd.eq_iff hunderscore).mp hc
        rw [moreDigits.eq_def, moreDigits.eq_def]
        simp only [hc, hd, if_true]
        match hst with
        | .nil => rfl
        | .cons hcd' hst' =>
            exact isSome_bind_digitIn hcd' fun i j => isSome_moreDigits_congr hst' _ _
      · have hd : d ≠ '_' := mt (hcd.eq_iff hunderscore).mpr hc
        rw [moreDigits.eq_def, moreDigits.eq_def]
        simp only [hc, hd, if_false]
        exact isSome_bind_digitIn hcd fun i j => isSome_moreDigits_congr hst _ _
termination_by s.length

theorem isSome_numeralIn_congr {s t : Text} (h : List.Forall₂ (SameShape base) s t) :
    (numeralIn base s).isSome = (numeralIn base t).isSome := by
  cases h with
  | nil => rfl
  | cons hcd hst => exact isSome_bind_digitIn hcd fun _ _ => isSome_moreDigits_congr hst _ _

/-- Texts of the same shape are read or refused together, unless a prefix is read. -/
theorem isSome_intIn_congr (hbase : base ≠ 16) {s t : Text}
    (h : List.Forall₂ (SameShape base) s t) : (intIn base s).isSome = (intIn base t).isSome := by
  have hnat : ∀ {s t : Text}, List.Forall₂ (SameShape base) s t →
      (natIn base s).isSome = (natIn base t).isSome := by
    intro s t hst
    rw [natIn, natIn, if_neg hbase, if_neg hbase, isSome_numeralIn_congr hst]
  have hminus : digitIn base '-' = none := not_digitIn (by decide) (by decide)
  have hplus : digitIn base '+' = none := not_digitIn (by decide) (by decide)
  have hread : ∀ s : Text, (intIn base s).isSome =
      (natIn base (if s.head? = some '-' ∨ s.head? = some '+' then s.drop 1 else s)).isSome := by
    intro s
    unfold intIn
    split
    · simp
    · simp
    · rename_i hnotMinus hnotPlus
      rw [Option.isSome_map, if_neg]
      rintro (hhead | hhead)
      · exact hnotMinus _ (List.eq_cons_of_mem_head? hhead)
      · exact hnotPlus _ (List.eq_cons_of_mem_head? hhead)
  rw [hread, hread]
  cases h with
  | nil => rfl
  | @cons c d s t hcd hst =>
      have hsign : ((c :: s).head? = some '-' ∨ (c :: s).head? = some '+') ↔
          ((d :: t).head? = some '-' ∨ (d :: t).head? = some '+') := by
        simp only [List.head?_cons, Option.some.injEq, hcd.eq_iff hminus, hcd.eq_iff hplus]
      by_cases hc : (c :: s).head? = some '-' ∨ (c :: s).head? = some '+'
      · rw [if_pos hc, if_pos (hsign.mp hc)]
        exact hnat hst
      · rw [if_neg hc, if_neg (mt hsign.mpr hc)]
        exact hnat (.cons hcd hst)

end SameShape

end Text
