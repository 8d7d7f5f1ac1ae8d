import Mathlib.Data.Finmap

/-! # Filling a finite map from a list of pairs

`insertAll` assigns the pairs in order, so the last pair of a key is the one a
lookup finds, and a key of the old map is found only where the list has none.
-/

namespace Lib

variable {α β : Type} [DecidableEq α]

/-- `m[k] = v` for each pair in turn. -/
def insertAll (m : Finmap fun _ : α => β) : List (α × β) → Finmap fun _ : α => β
  | [] => m
  | kv :: rest => insertAll (m.insert kv.1 kv.2) rest

def lastValue (k : α) : List (α × β) → Option β
  | [] => none
  | kv :: rest => (lastValue k rest).or (if kv.1 = k then some kv.2 else none)

theorem lookup_insertAll (k : α) (m : Finmap fun _ : α => β) (kvs : List (α × β)) :
    (insertAll m kvs).lookup k = (lastValue k kvs).or (m.lookup k) := by
  induction kvs generalizing m with
  | nil => simp [insertAll, lastValue]
  | cons kv rest ih =>
      rw [insertAll, ih, lastValue, Option.or_assoc]
      congr 1
      by_cases hk : kv.1 = k
      · rw [if_pos hk, ← hk, Finmap.lookup_insert]
        simp
      · rw [if_neg hk, Finmap.lookup_insert_of_ne m (Ne.symm hk)]
        simp

/-- An empty map that has been filled holds the last value of each key. -/
theorem lookup_insertAll_empty (k : α) (kvs : List (α × β)) :
    (insertAll (∅ : Finmap fun _ : α => β) kvs).lookup k = lastValue k kvs := by
  rw [lookup_insertAll, Finmap.lookup_empty, Option.or_none]

theorem lastValue_eq_none_iff (k : α) (kvs : List (α × β)) :
    lastValue k kvs = none ↔ ∀ kv ∈ kvs, kv.1 ≠ k := by
  induction kvs with
  | nil => simp [lastValue]
  | cons kv rest ih => simp [lastValue, Option.or_eq_none_iff, ih, and_comm]

theorem mem_of_lastValue {k : α} {v : β} {kvs : List (α × β)} (h : lastValue k kvs = some v) :
    (k, v) ∈ kvs := by
  induction kvs with
  | nil => cases h
  | cons kv rest ih =>
      rcases Option.or_eq_some_iff.1 h with hrest | ⟨-, hfirst⟩
      · exact List.mem_cons_of_mem kv (ih hrest)
      · split_ifs at hfirst with hk
        rw [← hk, ← Option.some.inj hfirst]
        exact List.mem_cons_self

/-- A key that comes in the list has a last value. -/
theorem exists_lastValue {kv : α × β} {kvs : List (α × β)} (h : kv ∈ kvs) :
    ∃ v, lastValue kv.1 kvs = some v := by
  cases hlast : lastValue kv.1 kvs with
  | some v => exact ⟨v, rfl⟩
  | none => exact absurd rfl ((lastValue_eq_none_iff _ _).1 hlast kv h)

/-- Where no key comes twice, the last pair of a key is its only one. -/
theorem lastValue_eq_some_iff {kvs : List (α × β)} (h : (kvs.map Prod.fst).Nodup) (k : α) (v : β) :
    lastValue k kvs = some v ↔ (k, v) ∈ kvs := by
  induction kvs with
  | nil => simp [lastValue]
  | cons kv rest ih =>
      obtain ⟨hfresh, hrest⟩ := List.nodup_cons.1 h
      rw [lastValue, Option.or_eq_some_iff, ih hrest, List.mem_cons]
      by_cases hk : kv.1 = k
      · subst hk
        have hnone : lastValue kv.1 rest = none := by
          rw [lastValue_eq_none_iff]
          exact fun kv' hmem heq => hfresh (heq ▸ List.mem_map_of_mem hmem)
        have hnot : (kv.1, v) ∉ rest := fun hmem => hfresh (List.mem_map.2 ⟨_, hmem, rfl⟩)
        simp [hnone, hnot, Prod.ext_iff, eq_comm]
      · have hne : (k, v) ≠ kv := fun heq => hk (by rw [← heq])
        simp [hk, hne]

/-- A map is filled again from a list of its entries, in any order. -/
theorem insertAll_empty_of_entries {m : Finmap fun _ : α => β} {kvs : List (α × β)}
    (hnodup : (kvs.map Prod.fst).Nodup) (h : ∀ k v, (k, v) ∈ kvs ↔ m.lookup k = some v) :
    insertAll ∅ kvs = m := by
  apply Finmap.ext_lookup
  intro k
  apply Option.ext
  intro v
  rw [lookup_insertAll, Finmap.lookup_empty, Option.or_none, lastValue_eq_some_iff hnodup, h]

/-- The last value of a key does not change when the map was filled before with keys of the list. -/
theorem insertAll_insertAll_of_subset {kvs kvs' : List (α × β)}
    (h : ∀ kv ∈ kvs, ∃ kv' ∈ kvs', kv'.1 = kv.1) :
    insertAll (insertAll ∅ kvs) kvs' = insertAll (∅ : Finmap fun _ : α => β) kvs' := by
  apply Finmap.ext_lookup
  intro k
  rw [lookup_insertAll, lookup_insertAll, lookup_insertAll, Finmap.lookup_empty]
  cases hlast : lastValue k kvs' with
  | some v => simp
  | none =>
      have hnone : lastValue k kvs = none := by
        rw [lastValue_eq_none_iff] at hlast ⊢
        intro kv hkv hk
        rcases h kv hkv with ⟨kv', hmem, heq⟩
        exact hlast kv' hmem (heq.trans hk)
      simp [hnone]

/-- Every key of the first list is found after the second has been assigned as well. -/
theorem subset_of_insertAll_eq {kvs kvs' : List (α × β)}
    (h : insertAll (insertAll ∅ kvs) kvs' = insertAll (∅ : Finmap fun _ : α => β) kvs') :
    ∀ kv ∈ kvs, ∃ kv' ∈ kvs', kv'.1 = kv.1 := by
  intro kv hkv
  by_contra hno
  have hnone : lastValue kv.1 kvs' = none := by
    rw [lastValue_eq_none_iff]
    intro kv' hmem heq
    exact hno ⟨kv', hmem, heq⟩
  have hlook := congrArg (Finmap.lookup kv.1) h
  rw [lookup_insertAll, lookup_insertAll, lookup_insertAll, hnone, Finmap.lookup_empty] at hlook
  have hlast : lastValue kv.1 kvs = none := by simpa using hlook
  exact (lastValue_eq_none_iff _ _).1 hlast kv hkv rfl

end Lib
