import DemoEstate.Library.Dict
import Mathlib.Data.Int.CardIntervalMod

/-!
# Groups, and dealing a group out in turn

Rows collected in a dictionary of lists, the change of a value in place, and the round-robin
over a pool.

Main definitions:

- Definition {lit}`Dict.group`: the rows of each key.
- Definition {lit}`Dict.modify`: the change of one value.
- Definition {lit}`Dealing.deal`: the items in turn to the members of a pool.

Main results:

- Theorem {lit}`Dict.getD_group`: a group holds the rows of its key, in order.
- Theorem {lit}`Dict.get_foldl_modify`: a value meets the changes of its own key.
- Theorem {lit}`Dealing.length_filter_deal_le`: two members of a pool differ by one item at most.
-/

namespace Dict

variable {κ ν : Type} [DecidableEq κ]

/-! ## Groups -/

/-- Append to the list of a key, which starts empty. -/
def push (d : Dict κ (List ν)) (k : κ) (v : ν) : Dict κ (List ν) :=
  d.set k ((d.get k).getD [] ++ [v])

/-- The rows of each key, the keys in the order of their first rows. -/
def group (rows : List (κ × ν)) : Dict κ (List ν) :=
  rows.foldl (fun d r => d.push r.1 r.2) empty

theorem getD_foldl_push (d : Dict κ (List ν)) (rows : List (κ × ν)) (k : κ) :
    ((rows.foldl (fun d r => d.push r.1 r.2) d).get k).getD [] =
      (d.get k).getD [] ++ (rows.filter fun r => r.1 = k).map Prod.snd := by
  induction rows generalizing d with
  | nil => simp
  | cons r rows ih =>
      rw [List.foldl_cons, ih, push, get_set]
      by_cases h : r.1 = k
      · simp [h]
      · simp [h]

/-- A group holds the rows of its key, in order. -/
theorem getD_group (rows : List (κ × ν)) (k : κ) :
    ((group rows).get k).getD [] = (rows.filter fun r => r.1 = k).map Prod.snd := by
  rw [group, getD_foldl_push]
  rfl

theorem mem_keys_foldl_push (d : Dict κ (List ν)) (rows : List (κ × ν)) (k : κ) :
    k ∈ (rows.foldl (fun d r => d.push r.1 r.2) d).keys ↔ k ∈ d.keys ∨ k ∈ rows.map Prod.fst := by
  induction rows generalizing d with
  | nil => simp
  | cons r rows ih =>
      rw [List.foldl_cons, ih, push, mem_keys_set, List.map_cons, List.mem_cons]
      tauto

/-- The groups are those of the rows' keys. -/
theorem mem_keys_group {rows : List (κ × ν)} {k : κ} :
    k ∈ (group rows).keys ↔ k ∈ rows.map Prod.fst := by
  rw [group, mem_keys_foldl_push]
  simp [keys, empty]

/-- Among rows with distinct keys, a key has one row. -/
theorem filter_key_eq {rows : List (κ × ν)} (hnodup : (rows.map Prod.fst).Nodup) {r : κ × ν}
    (h : r ∈ rows) : (rows.filter fun r' => r'.1 = r.1) = [r] := by
  induction rows with
  | nil => exact absurd h List.not_mem_nil
  | cons r' rows ih =>
      simp only [List.map_cons, List.nodup_cons] at hnodup
      rcases List.mem_cons.mp h with rfl | hrest
      · have hnone : (rows.filter fun r' => r'.1 = r.1) = [] := by
          rw [List.filter_eq_nil_iff]
          intro r' hr' heq
          exact hnodup.1 (List.mem_map.mpr ⟨r', hr', of_decide_eq_true heq⟩)
        rw [List.filter_cons_of_pos (by simp), hnone]
      · have hne : r'.1 ≠ r.1 := fun heq =>
          hnodup.1 (List.mem_map.mpr ⟨r, hrest, heq.symm⟩)
        rw [List.filter_cons_of_neg (by simpa using hne), ih hnodup.2 hrest]

/-- What is collected from the entry of one key. -/
theorem flatMap_entries {μ : Type} (d : Dict κ ν) (k : κ) (f : κ → ν → List μ) :
    (d.entries.flatMap fun e => if e.1 = k then f e.1 e.2 else []) =
      ((d.get k).map (f k)).getD [] := by
  have hentries : ∀ es : List (κ × ν), (es.map Prod.fst).Nodup →
      (es.flatMap fun e => if e.1 = k then f e.1 e.2 else []) =
        ((find es k).map (f k)).getD [] := by
    intro es hnodup
    induction es with
    | nil => rfl
    | cons e es ih =>
        simp only [List.map_cons, List.nodup_cons] at hnodup
        rw [List.flatMap_cons, ih hnodup.2]
        by_cases h : e.1 = k
        · have hrest : find es k = none := find_eq_none_iff.mpr (h ▸ hnodup.1)
          simp [find, h, hrest]
        · simp [find, h]
  exact hentries d.entries d.nodup

/-! ## Changing a value in place -/

/-- Change the value of a key that is there. -/
def modify (d : Dict κ ν) (k : κ) (f : ν → ν) : Dict κ ν :=
  d.mapValues fun k' v => if k' = k then f v else v

theorem get_modify (d : Dict κ ν) (k k' : κ) (f : ν → ν) :
    (d.modify k f).get k' = (d.get k').map fun v => if k' = k then f v else v :=
  get_mapValues _ d k'

/-- A value meets the changes of its own key, in order. -/
theorem get_foldl_modify {ρ : Type} (key : ρ → κ) (f : ρ → ν → ν) (d : Dict κ ν)
    (rows : List ρ) (k : κ) :
    (rows.foldl (fun d r => d.modify (key r) (f r)) d).get k =
      (d.get k).map fun v => (rows.filter fun r => key r = k).foldl (fun v r => f r v) v := by
  induction rows generalizing d with
  | nil => simp
  | cons r rows ih =>
      rw [List.foldl_cons, ih, get_modify, Option.map_map]
      by_cases h : key r = k
      · simp [h, Function.comp_def]
      · simp [h, Ne.symm h, Function.comp_def]

end Dict

/-! ## Dealing in turn -/

namespace Dealing

variable {α β : Type}

/-- Deal the items in turn to the members of the pool; an empty pool takes none. -/
def deal (pool : List β) (items : List α) : List (α × β) :=
  items.zipIdx.filterMap fun e => (pool[e.2 % pool.length]?).map fun b => (e.1, b)

@[simp]
theorem deal_nil (items : List α) : deal ([] : List β) items = [] := by
  simp [deal]

/-- The next item goes to the member whose turn it is. -/
theorem deal_concat {pool : List β} (hpool : pool ≠ []) (items : List α) (a : α) :
    deal pool (items ++ [a]) = deal pool items ++
      [(a, pool.get ⟨items.length % pool.length, Nat.mod_lt _ (List.length_pos_iff.mpr hpool)⟩)] := by
  have hlt : items.length % pool.length < pool.length :=
    Nat.mod_lt _ (List.length_pos_iff.mpr hpool)
  simp [deal, List.zipIdx_append, List.filterMap_append, List.getElem?_eq_getElem hlt]

/-- Every item is dealt once, in order. -/
theorem map_fst_deal {pool : List β} (hpool : pool ≠ []) (items : List α) :
    (deal pool items).map Prod.fst = items := by
  induction items using List.reverseRecOn with
  | nil => rfl
  | append_singleton items a ih => rw [deal_concat hpool, List.map_append, ih]; rfl

theorem mem_pool_of_mem_deal {pool : List β} {items : List α} {a : α} {b : β}
    (h : (a, b) ∈ deal pool items) : b ∈ pool := by
  obtain ⟨e, -, he⟩ := List.mem_filterMap.mp h
  obtain ⟨b', hb', heq⟩ := Option.map_eq_some_iff.mp he
  cases heq
  exact List.mem_of_getElem? hb'

theorem mem_items_of_mem_deal {pool : List β} {items : List α} {a : α} {b : β}
    (h : (a, b) ∈ deal pool items) : a ∈ items := by
  have hpool : pool ≠ [] := List.ne_nil_of_mem (mem_pool_of_mem_deal h)
  rw [← map_fst_deal hpool items]
  exact List.mem_map_of_mem (f := Prod.fst) h

/-- A member gets the items at its own places in the turn. -/
theorem length_filter_deal [DecidableEq β] {pool : List β} (hnodup : pool.Nodup) {j : Nat}
    (hj : j < pool.length) (items : List α) :
    ((deal pool items).filter fun e => e.2 = pool[j]).length =
      items.length.count (· ≡ j [MOD pool.length]) := by
  have hpool : pool ≠ [] := List.length_pos_iff.mp (by omega)
  induction items using List.reverseRecOn with
  | nil => rfl
  | append_singleton items a ih =>
      have hlt : items.length % pool.length < pool.length :=
        Nat.mod_lt _ (List.length_pos_iff.mpr hpool)
      have hturn : pool[items.length % pool.length] = pool[j] ↔
          items.length ≡ j [MOD pool.length] := by
        rw [hnodup.getElem_inj_iff, Nat.ModEq, Nat.mod_eq_of_lt hj]
      rw [deal_concat hpool, List.filter_append, List.length_append, ih, List.length_append,
        List.length_singleton, Nat.count_succ]
      by_cases hmod : items.length ≡ j [MOD pool.length]
      · simp [hmod, hturn.mpr hmod]
      · simp [hmod, mt hturn.mp hmod]

/-- Two members of a pool differ by one item at most. -/
theorem length_filter_deal_le [DecidableEq β] {pool : List β} (hnodup : pool.Nodup) {b b' : β}
    (hb : b ∈ pool) (hb' : b' ∈ pool) (items : List α) :
    ((deal pool items).filter fun e => e.2 = b).length ≤
      ((deal pool items).filter fun e => e.2 = b').length + 1 := by
  obtain ⟨j, hj, rfl⟩ := List.mem_iff_getElem.mp hb
  obtain ⟨j', hj', rfl⟩ := List.mem_iff_getElem.mp hb'
  rw [length_filter_deal hnodup hj, length_filter_deal hnodup hj',
    Nat.count_modEq_card _ (by omega), Nat.count_modEq_card _ (by omega)]
  split <;> split <;> omega

end Dealing
