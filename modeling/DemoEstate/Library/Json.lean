import Mathlib.Data.List.Infix
import Mathlib.Data.Rat.Defs
import DemoEstate.Library.Dict
import DemoEstate.Library.Text

/-!
# JSON values in a scripting language

What a decoder makes of a JSON text, and the operations of the language on such values.  An
operation that the type of a value does not support raises an error and has no result here.

Main definitions:

- Definitions {lit}`Json.contains`, {lit}`Json.index` and {lit}`Json.get`: look for a key.
- Definition {lit}`Json.pair`: unpack a value into two.
- Definition {lit}`Json.Finds`: what a look for a key in a container leads to.

Main results:

- Theorem {lit}`Json.isSome_withKey_iff`: when a look for a key raises nothing.
- Theorem {lit}`Json.withKey_eq`: what such a look comes to.
-/

/-- A decoded value.  The members of an object stand in the order of the text. -/
inductive Json where
  | null
  | bool (b : Bool)
  | num (q : ℚ)
  | nan
  | inf (negative : Bool)
  | str (s : Text)
  | arr (items : List Json)
  | obj (members : List (Text × Json))

namespace Json

/-- The value of a key among the members of an object. -/
def lookup (members : List (Text × Json)) (key : Text) : Option Json :=
  (members.find? fun m => m.1 = key).map Prod.snd

/-- The members made of the entries of a dictionary. -/
theorem lookup_entries {ν : Type} (d : Dict Text ν) (f : ν → Json) (key : Text) :
    lookup (d.entries.map fun e => (e.1, f e.2)) key = (d.get key).map f := by
  unfold lookup Dict.get
  induction d.entries with
  | nil => rfl
  | cons e es ih =>
      by_cases hkey : e.1 = key
      · simp [Dict.find, hkey]
      · simpa [Dict.find, hkey] using ih

/-- The value is the string. -/
def isStr (key : Text) : Json → Bool
  | str s => s = key
  | _ => false

/-- The value is an object. -/
def isObj : Json → Bool
  | obj _ => true
  | _ => false

/-- `key in value`: a key of an object, an item of a list, or a piece of a string. -/
def contains (key : Text) : Json → Option Bool
  | obj members => some (lookup members key).isSome
  | arr items => some (items.any (isStr key))
  | str s => some (decide (key <:+: s))
  | _ => none

/-- `value[key]`. -/
def index (key : Text) : Json → Option Json
  | obj members => lookup members key
  | _ => none

/-- `value.get(key, default)`. -/
def get (value : Json) (key : Text) (default : Json) : Option Json :=
  match value with
  | obj members => some ((lookup members key).getD default)
  | _ => none

/-- `first, second = value`: the items of a list, the characters of a string or the keys of an
object, if there are two. -/
def pair : Json → Option (Json × Json)
  | arr [first, second] => some (first, second)
  | str [c, d] => some (str [c], str [d])
  | obj [(key, _), (key', _)] => some (str key, str key')
  | _ => none

/-- A look for the key raises nothing, and it finds the key only in an object, where the value
is a good one. -/
def Finds (key : Text) (good : Json → Prop) : Json → Prop
  | obj members => ∀ value ∈ lookup members key, good value
  | arr items => ∀ item ∈ items, isStr key item = false
  | str s => ¬ key <:+: s
  | _ => False

/-- `f(value[key]) if key in value else default`, where the function may raise an error. -/
def withKey {α : Type} (key : Text) (f : Json → Option α) (default : α) (container : Json) :
    Option α := do
  let inside ← container.contains key
  if inside then (container.index key).bind f else some default

/-- A look for a key comes to a result exactly if it finds a value that the function accepts, or
none. -/
theorem isSome_withKey_iff {α : Type} {key : Text} {f : Json → Option α} {default : α}
    {container : Json} :
    (withKey key f default container).isSome = true ↔
      container.Finds key fun value => (f value).isSome = true := by
  unfold withKey Finds
  cases container with
  | obj members => cases hlookup : lookup members key <;> simp [contains, index, hlookup]
  | arr items =>
      have hnone : items.any (isStr key) = false ↔ ∀ item ∈ items, isStr key item = false := by
        simp
      refine Iff.trans ?_ hnone
      cases hinside : items.any (isStr key) <;> simp [contains, index, hinside]
  | str s =>
      by_cases hinside : key <:+: s <;> simp [contains, index, hinside]
  | _ => simp [contains]

/-- The result of a look for a key. -/
theorem withKey_eq {α : Type} {key : Text} {f : Json → Option α} {default a : α} {container : Json}
    (h : withKey key f default container = some a) :
    a = ((container.index key).bind f).getD default := by
  cases container with
  | obj members =>
      cases hlookup : lookup members key with
      | none => simpa [withKey, contains, index, hlookup] using h.symm
      | some value =>
          have hvalue : f value = some a := by
            simpa [withKey, contains, index, hlookup] using h
          simp [index, hlookup, hvalue]
  | arr items =>
      simp only [withKey, contains, index, Option.bind_eq_bind, Option.bind_some,
        Option.bind_none, Option.ite_none_left_eq_some, Option.some.injEq] at h
      exact h.2.symm
  | str s =>
      simp only [withKey, contains, index, Option.bind_eq_bind, Option.bind_some,
        Option.bind_none, Option.ite_none_left_eq_some, Option.some.injEq] at h
      exact h.2.symm
  | _ => simp [withKey, contains] at h

end Json
