import Mathlib.Data.List.Basic

/-!
# Cutting a list into bounded chunks

`chunks n l` cuts `l` into consecutive pieces of at most `n` elements, as a slice's `chunks(n)`
does for `n ≥ 1`. The recursion is on the length, which every cut decreases.
-/

namespace Chunks

open List

variable {α : Type*}

def cut (n : ℕ) : ℕ → List α → List (List α)
  | _, [] => []
  | 0, _ :: _ => []
  | fuel + 1, a :: l => (a :: l).take n :: cut n fuel ((a :: l).drop n)

def chunks (n : ℕ) (l : List α) : List (List α) := cut n l.length l

variable {n : ℕ}

theorem flatten_cut (hn : 0 < n) :
    ∀ (fuel : ℕ) (l : List α), l.length ≤ fuel → (cut n fuel l).flatten = l := by
  intro fuel
  induction fuel with
  | zero =>
    intro l hl
    obtain rfl : l = [] := length_eq_zero_iff.mp (by omega)
    rfl
  | succ fuel ih =>
    intro l hl
    cases l with
    | nil => rfl
    | cons a l =>
      rw [cut, flatten_cons, ih _ (by rw [length_drop]; simp at hl ⊢; omega),
        take_append_drop]

/-- **Nothing is lost or reordered.** -/
theorem flatten_chunks (hn : 0 < n) (l : List α) : (chunks n l).flatten = l :=
  flatten_cut hn l.length l (Nat.le_refl _)

theorem chunks_of_length_le {l : List α} (hl : l ≠ []) (hn : l.length ≤ n) : chunks n l = [l] := by
  obtain ⟨a, l, rfl⟩ := exists_cons_of_ne_nil hl
  rw [chunks, length_cons, cut, take_of_length_le hn, drop_of_length_le hn]
  cases l <;> rfl

theorem mem_cut (hn : 0 < n) :
    ∀ (fuel : ℕ) (l : List α), ∀ c ∈ cut n fuel l, 0 < c.length ∧ c.length ≤ n := by
  intro fuel
  induction fuel with
  | zero =>
    intro l c hc
    cases l <;> simp [cut] at hc
  | succ fuel ih =>
    intro l c hc
    cases l with
    | nil => simp [cut] at hc
    | cons a l =>
      rw [cut, mem_cons] at hc
      rcases hc with rfl | hc
      · rw [length_take, length_cons]
        omega
      · exact ih _ c hc

/-- Every chunk is non-empty and within the bound. -/
theorem mem_chunks (hn : 0 < n) {l c : List α} (hc : c ∈ chunks n l) :
    0 < c.length ∧ c.length ≤ n :=
  mem_cut hn l.length l c hc

end Chunks
