import Mathlib.Data.List.AList
import Mathlib.Data.List.Sort

/-!
# Maps that are read in the order of their keys

A map whose keys are in a linear order, and the list of its values sorted by their keys. A sorted
list without repetitions is determined by its members, so the values come out the same however the
keys are collected, as long as none is left out.
-/

namespace SortedMap

open List

variable {κ α β : Type*} [LinearOrder κ] {l : List κ} {m : AList fun _ : κ => α}

theorem pairwise_lt_insertionSort (h : l.Nodup) :
    (l.insertionSort (· ≤ ·)).Pairwise (· < ·) := by
  have hnodup : (l.insertionSort (· ≤ ·)).Pairwise (· ≠ ·) :=
    (perm_insertionSort _ l).nodup_iff.mpr h
  exact (pairwise_insertionSort (· ≤ ·) l).imp₂ (fun _ _ => lt_of_le_of_ne) hnodup

def sortedValues (m : AList fun _ : κ => α) : List α :=
  (m.keys.insertionSort (· ≤ ·)).filterMap m.lookup

theorem filterMap_lookup (hl : l.Nodup) (hkeys : ∀ k ∈ m.keys, k ∈ l) :
    (l.insertionSort (· ≤ ·)).filterMap m.lookup = sortedValues m := by
  have hsorted : (l.insertionSort (· ≤ ·)).filter (· ∈ m) = m.keys.insertionSort (· ≤ ·) := by
    refine Pairwise.eq_of_mem_iff ((pairwise_lt_insertionSort hl).filter _)
      (pairwise_lt_insertionSort m.keys_nodup) fun k => ?_
    rw [mem_filter, mem_insertionSort, mem_insertionSort, decide_eq_true_eq, AList.mem_keys]
    exact ⟨fun h => h.2, fun h => ⟨hkeys k h, h⟩⟩
  rw [sortedValues, ← hsorted, filterMap_filter]
  refine filterMap_congr fun k _ => ?_
  by_cases hk : k ∈ m
  · simp [hk]
  · simp [hk, AList.lookup_eq_none.mpr hk]

theorem map_sortedValues {f : α → β} {entries : List (κ × β)}
    (hsorted : (entries.map Prod.fst).Pairwise (· < ·))
    (h : ∀ k b, (k, b) ∈ entries ↔ ∃ a, m.lookup k = some a ∧ f a = b) :
    (sortedValues m).map f = entries.map Prod.snd := by
  have hkeys : m.keys.insertionSort (· ≤ ·) = entries.map Prod.fst := by
    refine Pairwise.eq_of_mem_iff (pairwise_lt_insertionSort m.keys_nodup) hsorted fun k => ?_
    rw [mem_insertionSort, ← AList.mem_keys, ← AList.lookup_isSome, Option.isSome_iff_exists]
    constructor
    · rintro ⟨a, ha⟩
      exact mem_map.mpr ⟨(k, f a), (h k (f a)).mpr ⟨a, ha, rfl⟩, rfl⟩
    · intro hk
      obtain ⟨⟨_, b⟩, hmem, rfl⟩ := mem_map.mp hk
      obtain ⟨a, ha, _⟩ := (h _ b).mp hmem
      exact ⟨a, ha⟩
  rw [sortedValues, hkeys, map_filterMap, filterMap_map, ← filterMap_eq_map]
  refine filterMap_congr fun x hx => ?_
  obtain ⟨a, ha, hfa⟩ := (h x.1 x.2).mp hx
  simp [ha, hfa]

end SortedMap
