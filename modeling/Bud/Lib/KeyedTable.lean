import Mathlib.Data.List.Nodup

/-!
# A table with a primary key

The rows of a table, with the proof that no two of them have the same key. A row is updated by a map
over the table that leaves every key as it is, and inserted only where its key is new, so that the
proof is carried along and never asked for again.
-/

structure KeyedTable {α κ : Type*} (key : α → κ) where
  rows : List α
  nodup : (rows.map key).Nodup

namespace KeyedTable

open List

variable {α κ : Type*} [DecidableEq κ] {key : α → κ}

def empty : KeyedTable key := ⟨[], List.nodup_nil⟩

def get? (t : KeyedTable key) (k : κ) : Option α := t.rows.find? (key · = k)

def map (t : KeyedTable key) (f : α → α) (hf : ∀ a, key (f a) = key a) : KeyedTable key where
  rows := t.rows.map f
  nodup := by
    rw [List.map_map, show key ∘ f = key from funext hf]
    exact t.nodup

def insert? (t : KeyedTable key) (a : α) : Option (KeyedTable key) :=
  if h : key a ∈ t.rows.map key then none
  else some
    { rows := t.rows ++ [a]
      nodup := by
        rw [List.map_append]
        exact List.nodup_append'.mpr
          ⟨t.nodup, List.nodup_singleton _, fun _ hk hka => h (List.mem_singleton.mp hka ▸ hk)⟩ }

variable {t t' : KeyedTable key} {a : α} {k : κ} {f : α → α} {hf : ∀ a, key (f a) = key a}

theorem key_of_get? (h : t.get? k = some a) : key a = k :=
  of_decide_eq_true (find?_some (p := fun a => decide (key a = k)) h)

theorem mem_of_get? (h : t.get? k = some a) : a ∈ t.rows := mem_of_find?_eq_some h

/-- **A row is the one that is found by its key.** -/
theorem get?_of_mem (h : a ∈ t.rows) : t.get? (key a) = some a := by
  have hfound : (t.get? (key a)).isSome := find?_isSome.mpr ⟨a, h, decide_eq_true rfl⟩
  obtain ⟨b, hb⟩ := Option.isSome_iff_exists.mp hfound
  rw [hb, inj_on_of_nodup_map t.nodup (mem_of_get? hb) h (key_of_get? hb)]

theorem get?_eq_some : t.get? k = some a ↔ a ∈ t.rows ∧ key a = k := by
  constructor
  · exact fun h => ⟨mem_of_get? h, key_of_get? h⟩
  · rintro ⟨hmem, rfl⟩
    exact get?_of_mem hmem

omit [DecidableEq κ] in
@[simp] theorem rows_map : (t.map f hf).rows = t.rows.map f := rfl

theorem get?_map : (t.map f hf).get? k = (t.get? k).map f := by
  rw [get?, rows_map, find?_map]
  simp only [Function.comp_def, hf]
  rfl

theorem get?_of_insert? (h : t.insert? a = some t') : t.get? (key a) = none := by
  unfold insert? at h
  split at h
  · cases h
  · rename_i hfresh
    refine find?_eq_none.mpr fun b hb hkey => hfresh ?_
    exact mem_map.mpr ⟨b, hb, of_decide_eq_true hkey⟩

theorem get?_insert? (h : t.insert? a = some t') :
    t'.get? k = if key a = k then some a else t.get? k := by
  unfold insert? at h
  split at h
  · cases h
  · rename_i hfresh
    cases h
    by_cases hk : key a = k
    · rw [if_pos hk, get?_eq_some]
      exact ⟨mem_append_right _ (mem_singleton_self a), hk⟩
    · rw [if_neg hk, get?, find?_append, find?_cons_of_neg (by simpa using hk)]
      simp [get?]

end KeyedTable
