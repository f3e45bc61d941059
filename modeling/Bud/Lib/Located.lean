import Mathlib.Data.List.Basic

/-!
# Consecutive elements with their positions

`located o xs` is `xs` with the positions `o`, `o + 1`, … of its elements in some longer sequence.
Cutting the list and restricting the positions are the same thing, which is what the lemmas say:
a slice that is computed by arithmetic on offsets is the part whose positions lie in a range.
-/

namespace Located

open List

variable {α : Type*}

def located : ℕ → List α → List (ℕ × α)
  | _, [] => []
  | o, x :: xs => (o, x) :: located (o + 1) xs

@[simp] theorem located_nil (o : ℕ) : located o ([] : List α) = [] := rfl

@[simp] theorem length_located (o : ℕ) (xs : List α) : (located o xs).length = xs.length := by
  induction xs generalizing o with
  | nil => rfl
  | cons x xs ih => rw [located, length_cons, ih, length_cons]

@[simp] theorem map_snd_located (o : ℕ) (xs : List α) : (located o xs).map Prod.snd = xs := by
  induction xs generalizing o with
  | nil => rfl
  | cons x xs ih => rw [located, map_cons, ih]

variable {xs : List α}

@[simp] theorem located_eq_nil_iff {o : ℕ} : located o xs = [] ↔ xs = [] := by
  rw [← length_eq_zero_iff, length_located, length_eq_zero_iff]

theorem mem_located {o : ℕ} {p : ℕ × α} (h : p ∈ located o xs) : o ≤ p.1 ∧ p.1 < o + xs.length := by
  induction xs generalizing o with
  | nil => simp at h
  | cons x xs ih =>
    rw [located, mem_cons] at h
    rw [length_cons]
    rcases h with rfl | h
    · exact ⟨Nat.le_refl _, by omega⟩
    · have := ih h
      omega

theorem located_drop (o : ℕ) (xs : List α) (n : ℕ) :
    (located o xs).drop n = located (o + n) (xs.drop n) := by
  induction xs generalizing o n with
  | nil => simp
  | cons x xs ih =>
    cases n with
    | zero => rfl
    | succ n => rw [located, drop_succ_cons, ih, drop_succ_cons, Nat.add_assoc, Nat.add_comm 1]

theorem located_take (o : ℕ) (xs : List α) (n : ℕ) :
    (located o xs).take n = located o (xs.take n) := by
  induction xs generalizing o n with
  | nil => simp
  | cons x xs ih =>
    cases n with
    | zero => rfl
    | succ n => rw [located, take_succ_cons, ih, take_succ_cons, located]

theorem located_append (o : ℕ) (xs ys : List α) :
    located o (xs ++ ys) = located o xs ++ located (o + xs.length) ys := by
  induction xs generalizing o with
  | nil => rfl
  | cons x xs ih =>
    rw [cons_append, located, ih, located, cons_append, length_cons, Nat.add_assoc, Nat.add_comm 1]

theorem filter_le_located (a o : ℕ) (xs : List α) :
    (located o xs).filter (fun p => a ≤ p.1) = located (max o a) (xs.drop (a - o)) := by
  induction xs generalizing o with
  | nil => simp
  | cons x xs ih =>
    rw [located, filter_cons, ih]
    by_cases h : a ≤ o
    · rw [if_pos (by simpa using h), Nat.sub_eq_zero_of_le h, Nat.sub_eq_zero_of_le (by omega),
        Nat.max_eq_left h, Nat.max_eq_left (by omega), drop_zero, drop_zero, located]
    · rw [if_neg (by simpa using h), Nat.max_eq_right (by omega), Nat.max_eq_right (by omega),
        show a - o = a - (o + 1) + 1 by omega, drop_succ_cons]

theorem filter_lt_located (b o : ℕ) (xs : List α) :
    (located o xs).filter (fun p => p.1 < b) = located o (xs.take (b - o)) := by
  induction xs generalizing o with
  | nil => simp
  | cons x xs ih =>
    rw [located, filter_cons, ih]
    by_cases h : o < b
    · rw [if_pos (by simpa using h), show b - o = b - (o + 1) + 1 by omega, take_succ_cons,
        located]
    · rw [if_neg (by simpa using h), Nat.sub_eq_zero_of_le (by omega),
        Nat.sub_eq_zero_of_le (by omega)]
      rfl

theorem head?_located {o : ℕ} (h : xs ≠ []) : (located o xs).head?.map Prod.fst = some o := by
  obtain ⟨x, xs, rfl⟩ := exists_cons_of_ne_nil h
  rfl

theorem getLast?_located {o : ℕ} (h : xs ≠ []) :
    (located o xs).getLast?.map (fun p => p.1 + 1) = some (o + xs.length) := by
  induction xs generalizing o with
  | nil => exact absurd rfl h
  | cons x xs ih =>
    cases xs with
    | nil => rfl
    | cons y ys =>
      rw [located, located, getLast?_cons_cons, ← located, ih (cons_ne_nil _ _),
        length_cons, length_cons, length_cons]
      congr 1
      omega

theorem pairwise_located (o : ℕ) (xs : List α) :
    (located o xs).Pairwise (fun p q => p.1 < q.1) := by
  induction xs generalizing o with
  | nil => exact Pairwise.nil
  | cons x xs ih =>
    refine pairwise_cons.mpr ⟨fun q hq => ?_, ih (o + 1)⟩
    exact (mem_located hq).1

theorem filter_after_take {ps : List (ℕ × α)} {n : ℕ} {last : ℕ × α}
    (hps : ps.Pairwise fun p q => p.1 < q.1) (hlast : (ps.take n).getLast? = some last) :
    ps.filter (fun p => last.1 + 1 ≤ p.1) = ps.drop n := by
  have hsplit := take_append_drop n ps
  obtain ⟨init, hinit⟩ := getLast?_eq_some_iff.mp hlast
  rw [← hsplit, hinit, append_assoc, singleton_append] at hps
  obtain ⟨-, hlt, hbefore⟩ := pairwise_append.mp hps
  conv_lhs => rw [← hsplit, hinit, append_assoc, singleton_append]
  rw [filter_append, filter_cons_of_neg (by simp), filter_eq_nil_iff.mpr,
    nil_append, filter_eq_self]
  · intro p hp
    exact decide_eq_true ((pairwise_cons.mp hlt).1 p hp)
  · intro p hp
    have := hbefore p hp last mem_cons_self
    simp
    omega

end Located
