import Mathlib.Data.List.Induction

/-!
# Rows collected by a key

A map from keys to groups, filled row by row: the first row with a key starts its group, and the
group has each row with that key added to it. The map is a list of entries, in the order in which
the keys have come.
-/

namespace Grouping

open List

variable {α κ γ : Type*} [DecidableEq κ] {key : α → κ} {start : α → γ} {add : γ → α → γ}

variable (key start add) in
def addTo : List (κ × γ) → α → List (κ × γ)
  | [], row => [(key row, add (start row) row)]
  | (k, g) :: groups, row =>
    if k = key row then (k, add g row) :: groups else (k, g) :: addTo groups row

variable (key start add) in
def group (rows : List α) : List (κ × γ) := rows.foldl (addTo key start add) []

variable (start add) in
/-- The group that rows make which all have the same key. -/
def collect (k : κ) : List α → List (κ × γ)
  | [] => []
  | row :: rows => [(k, (row :: rows).foldl add (start row))]

theorem filter_addTo {groups : List (κ × γ)} {row : α} {k : κ} :
    (addTo key start add groups row).filter (·.1 = k) =
      if key row = k then addTo key start add (groups.filter (·.1 = k)) row
      else groups.filter (·.1 = k) := by
  induction groups with
  | nil =>
    by_cases hrow : key row = k
    · simp [addTo, hrow]
    · simp [addTo, hrow]
  | cons entry groups ih =>
    obtain ⟨k', g⟩ := entry
    rw [addTo]
    by_cases hk : k' = key row
    · subst hk
      by_cases hrow : key row = k
      · simp [addTo, hrow]
      · simp [hrow]
    · rw [if_neg hk, filter_cons, ih]
      by_cases hrow : key row = k
      · have hk' : k' ≠ k := fun h => hk (h.trans hrow.symm)
        simp [hrow, hk']
      · rw [if_neg hrow, if_neg hrow, filter_cons]

theorem collect_append {rows : List α} {row : α} :
    collect start add (key row) (rows ++ [row]) =
      addTo key start add (collect start add (key row) rows) row := by
  cases rows with
  | nil => rfl
  | cons first rows =>
    rw [cons_append, collect, collect, addTo, if_pos rfl, ← cons_append, foldl_append]
    rfl

/-- **The group of a key.** -/
theorem filter_group (k : κ) (rows : List α) :
    (group key start add rows).filter (·.1 = k) =
      collect start add k (rows.filter (key · = k)) := by
  induction rows using reverseRecOn with
  | nil => rfl
  | append_singleton rows row ih =>
    rw [group, foldl_append, foldl_cons, foldl_nil, filter_addTo, filter_append]
    rw [group] at ih
    by_cases hrow : key row = k
    · subst hrow
      have hself : [row].filter (fun other => decide (key other = key row)) = [row] := by simp
      rw [if_pos rfl, ih, hself, collect_append]
    · have hother : [row].filter (fun other => decide (key other = k)) = [] := by simp [hrow]
      rw [if_neg hrow, ih, hother, append_nil]

end Grouping
