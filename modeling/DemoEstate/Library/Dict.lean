import Mathlib.Data.List.Nodup

/-!
# Insertion-ordered dictionaries

The dictionary of a scripting language: an assignment to a present key keeps
the key's place, an assignment to a new key appends it.  Keys are distinct by
construction.

Main results:

- Theorem {lit}`get_set`: a read after an assignment.
- Theorem {lit}`mem_keys_set`: an assignment adds exactly its key.
- Theorem {lit}`get_ofRows_of_nodup`: a dictionary built from rows with
  distinct keys returns the value of each row.
-/

/-- Entries with distinct keys, in order of first insertion. -/
structure Dict (κ ν : Type) where
  entries : List (κ × ν)
  nodup : (entries.map Prod.fst).Nodup
deriving DecidableEq

namespace Dict

variable {κ ν : Type} [DecidableEq κ]

/-! ## Reading and assigning entries -/

/-- The value of a key among entries. -/
def find : List (κ × ν) → κ → Option ν
  | [], _ => none
  | (k', v) :: es, k => if k' = k then some v else find es k

/-- Assign a key among entries, in place or at the end. -/
def assign : List (κ × ν) → κ → ν → List (κ × ν)
  | [], k, v => [(k, v)]
  | (k', v') :: es, k, v => if k' = k then (k, v) :: es else (k', v') :: assign es k v

theorem find_assign (es : List (κ × ν)) (k k' : κ) (v : ν) :
    find (assign es k v) k' = if k = k' then some v else find es k' := by
  induction es with
  | nil => rfl
  | cons e es ih =>
      rcases e with ⟨k₀, v₀⟩
      by_cases h₀ : k₀ = k
      · subst h₀
        by_cases h : k₀ = k' <;> simp [assign, find, h]
      · by_cases h : k₀ = k'
        · subst h
          simp [assign, find, h₀, Ne.symm h₀]
        · simp [assign, find, h₀, h, ih]

theorem find_eq_none_iff {es : List (κ × ν)} {k : κ} :
    find es k = none ↔ k ∉ es.map Prod.fst := by
  induction es with
  | nil => simp [find]
  | cons e es ih =>
      rcases e with ⟨k₀, v₀⟩
      by_cases h : k₀ = k
      · simp [find, h]
      · simp [find, h, ih, Ne.symm h]

theorem find_eq_some_of_mem {es : List (κ × ν)} (hnodup : (es.map Prod.fst).Nodup) {k : κ}
    {v : ν} (h : (k, v) ∈ es) : find es k = some v := by
  induction es with
  | nil => simp at h
  | cons e es ih =>
      rcases e with ⟨k₀, v₀⟩
      simp only [List.map_cons, List.nodup_cons] at hnodup
      rcases List.mem_cons.mp h with heq | htail
      · simp only [Prod.mk.injEq] at heq
        simp [find, heq.1, heq.2]
      · have hne : k₀ ≠ k := by
          rintro rfl
          exact hnodup.1 (List.mem_map_of_mem (f := Prod.fst) htail)
        simp [find, hne, ih hnodup.2 htail]

theorem mem_of_find_eq_some {es : List (κ × ν)} {k : κ} {v : ν} (h : find es k = some v) :
    (k, v) ∈ es := by
  induction es with
  | nil => simp [find] at h
  | cons e es ih =>
      rcases e with ⟨k₀, v₀⟩
      by_cases h₀ : k₀ = k
      · simp only [find, h₀, if_true, Option.some.injEq] at h
        simp [h₀, h]
      · simp only [find, h₀, if_false] at h
        exact List.mem_cons_of_mem _ (ih h)

/-- Earlier entries of a key come before later ones. -/
theorem find_append (es es' : List (κ × ν)) (k : κ) :
    find (es ++ es') k = (find es k).or (find es' k) := by
  induction es with
  | nil => rfl
  | cons e es ih =>
      rcases e with ⟨k₀, v₀⟩
      by_cases h : k₀ = k
      · simp [find, h]
      · simp [find, h, ih]

/-- Assigning a present key changes no key; assigning a new one appends it. -/
theorem map_fst_assign (es : List (κ × ν)) (k : κ) (v : ν) :
    (assign es k v).map Prod.fst =
      if k ∈ es.map Prod.fst then es.map Prod.fst else es.map Prod.fst ++ [k] := by
  induction es with
  | nil => rfl
  | cons e es ih =>
      rcases e with ⟨k₀, v₀⟩
      by_cases h₀ : k₀ = k
      · simp [assign, h₀]
      · by_cases h : k ∈ es.map Prod.fst
        · rw [if_pos h] at ih
          simp only [assign, if_neg h₀, List.map_cons, ih]
          rw [if_pos (List.mem_cons_of_mem _ h)]
        · rw [if_neg h] at ih
          simp only [assign, if_neg h₀, List.map_cons, ih]
          rw [if_neg (by simpa [Ne.symm h₀] using h), List.cons_append]

/-! ## Dictionaries -/

/-- The dictionary without entries. -/
def empty : Dict κ ν where
  entries := []
  nodup := List.nodup_nil

/-- The value of a key. -/
def get (d : Dict κ ν) (k : κ) : Option ν :=
  find d.entries k

/-- The keys in insertion order. -/
def keys (d : Dict κ ν) : List κ :=
  d.entries.map Prod.fst

/-- Assign a key. -/
def set (d : Dict κ ν) (k : κ) (v : ν) : Dict κ ν where
  entries := assign d.entries k v
  nodup := by
    rw [map_fst_assign]
    split
    · exact d.nodup
    · rename_i hnew
      exact List.nodup_append.mpr ⟨d.nodup, List.nodup_singleton k, by
        rintro a ha b hb rfl
        exact hnew (List.mem_singleton.mp hb ▸ ha)⟩

/-- Remove a key. -/
def erase (d : Dict κ ν) (k : κ) : Dict κ ν where
  entries := d.entries.filter fun e => e.1 ≠ k
  nodup := d.nodup.sublist (List.filter_sublist.map Prod.fst)

/-- Keep the entries that meet a condition. -/
def filter (p : κ → ν → Bool) (d : Dict κ ν) : Dict κ ν where
  entries := d.entries.filter fun e => p e.1 e.2
  nodup := d.nodup.sublist (List.filter_sublist.map Prod.fst)

/-- Change every value, keeping the keys. -/
def mapValues {μ : Type} (f : κ → ν → μ) (d : Dict κ ν) : Dict κ μ where
  entries := d.entries.map fun e => (e.1, f e.1 e.2)
  nodup := by
    rw [List.map_map]
    exact d.nodup

/-- Assign the rows in order, so that the last row of a key wins. -/
def update (d : Dict κ ν) (rows : List (κ × ν)) : Dict κ ν :=
  rows.foldl (fun d r => d.set r.1 r.2) d

/-- The dictionary of a list of rows. -/
def ofRows (rows : List (κ × ν)) : Dict κ ν :=
  empty.update rows

variable {d : Dict κ ν} {k k' : κ} {v : ν} {rows : List (κ × ν)}

theorem get_set (d : Dict κ ν) (k k' : κ) (v : ν) :
    (d.set k v).get k' = if k = k' then some v else d.get k' :=
  find_assign d.entries k k' v

@[simp]
theorem get_set_self (d : Dict κ ν) (k : κ) (v : ν) : (d.set k v).get k = some v := by
  simp [get_set]

theorem get_set_of_ne (d : Dict κ ν) (v : ν) (h : k ≠ k') : (d.set k v).get k' = d.get k' := by
  simp [get_set, h]

/-- Assigning the value that is there changes nothing. -/
theorem set_eq_self (h : d.get k = some v) : d.set k v = d := by
  have hassign : ∀ es : List (κ × ν), find es k = some v → assign es k v = es := by
    intro es
    induction es with
    | nil => exact fun h => nomatch h
    | cons e es ih =>
        rcases e with ⟨k₀, v₀⟩
        by_cases h₀ : k₀ = k
        · intro hfind
          simp only [find, h₀, if_true, Option.some.injEq] at hfind
          simp [assign, h₀, hfind]
        · intro hfind
          simp only [find, h₀, if_false] at hfind
          simp [assign, h₀, ih hfind]
  cases d with
  | mk entries nodup => simp only [set, hassign entries h]

@[simp]
theorem get_empty (k : κ) : (empty : Dict κ ν).get k = none :=
  rfl

theorem get_eq_none_iff : d.get k = none ↔ k ∉ d.keys :=
  find_eq_none_iff

theorem get_eq_some_iff : d.get k = some v ↔ (k, v) ∈ d.entries :=
  ⟨mem_of_find_eq_some, find_eq_some_of_mem d.nodup⟩

theorem mem_keys_iff : k ∈ d.keys ↔ ∃ v, d.get k = some v := by
  rw [← not_iff_not, ← get_eq_none_iff, Option.eq_none_iff_forall_ne_some]
  simp

theorem mem_keys_set : k' ∈ (d.set k v).keys ↔ k' = k ∨ k' ∈ d.keys := by
  rw [mem_keys_iff, mem_keys_iff]
  by_cases h : k = k'
  · simp [h]
  · simp [get_set_of_ne d v h, Ne.symm h]

/-- Assigning a present key keeps the keys and their order. -/
theorem keys_set_of_mem (h : k ∈ d.keys) : (d.set k v).keys = d.keys := by
  exact (map_fst_assign d.entries k v).trans (if_pos h)

/-- Everything in the first dictionary is in the second. -/
def Extends (d d' : Dict κ ν) : Prop :=
  ∀ k v, d.get k = some v → d'.get k = some v

theorem Extends.refl (d : Dict κ ν) : d.Extends d := fun _ _ h => h

theorem Extends.trans {d₁ d₂ d₃ : Dict κ ν} (h : d₁.Extends d₂) (h' : d₂.Extends d₃) :
    d₁.Extends d₃ := fun k v hget => h' k v (h k v hget)

theorem extends_set (h : d.get k = none) (v : ν) : d.Extends (d.set k v) := by
  intro k' v' hget
  have hne : k ≠ k' := by
    rintro rfl
    rw [h] at hget
    cases hget
  rw [get_set_of_ne d v hne, hget]

theorem get_erase (d : Dict κ ν) (k k' : κ) :
    (d.erase k).get k' = if k = k' then none else d.get k' := by
  by_cases h : k = k'
  · rw [if_pos h, get_eq_none_iff]
    simp [keys, erase, h]
  · rw [if_neg h]
    refine Option.ext fun v => ?_
    rw [get_eq_some_iff, get_eq_some_iff]
    simp [erase, Ne.symm h]

theorem get_filter_eq_some_iff {p : κ → ν → Bool} :
    (d.filter p).get k = some v ↔ d.get k = some v ∧ p k v = true := by
  rw [get_eq_some_iff, get_eq_some_iff]
  exact List.mem_filter

theorem get_mapValues {μ : Type} (f : κ → ν → μ) (d : Dict κ ν) (k : κ) :
    (d.mapValues f).get k = (d.get k).map (f k) := by
  refine Option.ext fun m => ?_
  rw [get_eq_some_iff, Option.map_eq_some_iff]
  simp only [mapValues, List.mem_map, Prod.mk.injEq, get_eq_some_iff]
  constructor
  · rintro ⟨⟨k', v⟩, hmem, rfl, rfl⟩
    exact ⟨v, hmem, rfl⟩
  · rintro ⟨v, hmem, rfl⟩
    exact ⟨(k, v), hmem, rfl, rfl⟩

@[simp]
theorem update_nil (d : Dict κ ν) : d.update [] = d :=
  rfl

@[simp]
theorem update_cons (d : Dict κ ν) (r : κ × ν) (rows : List (κ × ν)) :
    d.update (r :: rows) = (d.set r.1 r.2).update rows :=
  rfl

/-- A key that no row assigns keeps its value. -/
theorem get_update_of_notMem (d : Dict κ ν) (h : k ∉ rows.map Prod.fst) :
    (d.update rows).get k = d.get k := by
  induction rows generalizing d with
  | nil => rfl
  | cons r rows ih =>
      simp only [List.map_cons, List.mem_cons, not_or] at h
      rw [update_cons, ih _ h.2, get_set_of_ne d r.2 (Ne.symm h.1)]

/-- A key that some row assigns has the value of such a row. -/
theorem get_update_of_mem (d : Dict κ ν) (h : k ∈ rows.map Prod.fst) :
    ∃ v, (k, v) ∈ rows ∧ (d.update rows).get k = some v := by
  induction rows generalizing d with
  | nil => simp at h
  | cons r rows ih =>
      rw [update_cons]
      by_cases htail : k ∈ rows.map Prod.fst
      · rcases ih (d.set r.1 r.2) htail with ⟨v, hv, hget⟩
        exact ⟨v, List.mem_cons_of_mem r hv, hget⟩
      · have hk : k = r.1 := by simpa [htail] using h
        refine ⟨r.2, by simp [hk], ?_⟩
        rw [get_update_of_notMem _ htail, hk, get_set_self]

/-- With distinct keys, every row's value is the one read back. -/
theorem get_update_of_nodup (d : Dict κ ν) (hnodup : (rows.map Prod.fst).Nodup)
    (h : (k, v) ∈ rows) : (d.update rows).get k = some v := by
  rcases get_update_of_mem d (List.mem_map_of_mem (f := Prod.fst) h) with ⟨v', hv', hget⟩
  rw [hget, ← find_eq_some_of_mem hnodup hv', find_eq_some_of_mem hnodup h]

theorem mem_keys_update : k ∈ (d.update rows).keys ↔ k ∈ d.keys ∨ k ∈ rows.map Prod.fst := by
  by_cases h : k ∈ rows.map Prod.fst
  · rcases get_update_of_mem d h with ⟨v, -, hget⟩
    simp [h, mem_keys_iff, hget]
  · simp [h, mem_keys_iff, get_update_of_notMem d h]

theorem mem_keys_ofRows : k ∈ (ofRows rows).keys ↔ k ∈ rows.map Prod.fst := by
  rw [ofRows, mem_keys_update]
  simp [keys, empty]

theorem get_ofRows_of_nodup (hnodup : (rows.map Prod.fst).Nodup) (h : (k, v) ∈ rows) :
    (ofRows rows).get k = some v :=
  get_update_of_nodup empty hnodup h

/-- Where only some items changed their value, updating with those gives the
dictionary of all changed items. -/
theorem get_update_filter {ι : Type} {items : List ι} {f g : ι → κ × ν} {p : ι → Bool}
    (hkey : ∀ i ∈ items, (f i).1 = (g i).1) (hrest : ∀ i ∈ items, p i = false → f i = g i)
    (hnodup : (items.map fun i => (g i).1).Nodup) (k : κ) :
    ((ofRows (items.map f)).update ((items.filter p).map g)).get k =
      (ofRows (items.map g)).get k := by
  have hkeys : (items.map f).map Prod.fst = items.map fun i => (g i).1 := by
    rw [List.map_map]
    exact List.map_congr_left hkey
  have hnodup' : (((items.filter p).map g).map Prod.fst).Nodup := by
    rw [List.map_map]
    exact hnodup.sublist (List.filter_sublist.map _)
  by_cases hk : k ∈ items.map fun i => (g i).1
  · rcases List.mem_map.mp hk with ⟨i, hi, rfl⟩
    have hright : (ofRows (items.map g)).get (g i).1 = some (g i).2 :=
      get_ofRows_of_nodup (by rw [List.map_map]; exact hnodup) (List.mem_map_of_mem hi)
    rw [hright]
    cases hp : p i with
    | true =>
        exact get_update_of_nodup _ hnodup' (List.mem_map_of_mem (List.mem_filter.mpr ⟨hi, hp⟩))
    | false =>
        have hnot : (g i).1 ∉ ((items.filter p).map g).map Prod.fst := by
          intro hmem
          rw [List.map_map] at hmem
          rcases List.mem_map.mp hmem with ⟨j, hj, heq⟩
          rcases List.mem_filter.mp hj with ⟨hj, hpj⟩
          rw [List.inj_on_of_nodup_map hnodup hj hi heq, hp] at hpj
          cases hpj
        rw [get_update_of_notMem _ hnot, ← hrest i hi hp]
        exact get_ofRows_of_nodup (hkeys ▸ hnodup) (List.mem_map_of_mem hi)
  · have hnot : k ∉ ((items.filter p).map g).map Prod.fst := by
      intro hmem
      rw [List.map_map] at hmem
      rcases List.mem_map.mp hmem with ⟨j, hj, rfl⟩
      exact hk (List.mem_map_of_mem (List.mem_filter.mp hj).1)
    rw [get_update_of_notMem _ hnot, get_eq_none_iff.mpr, get_eq_none_iff.mpr]
    · rw [mem_keys_ofRows, List.map_map]
      exact hk
    · rw [mem_keys_ofRows, hkeys]
      exact hk

end Dict
