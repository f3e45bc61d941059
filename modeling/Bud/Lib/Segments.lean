import Bud.Lib.Located

/-!
# Offset-tagged segments

A byte stream cut into segments, each tagged with its absolute offset, as it travels through a FIFO
channel. `Contiguous a segs` says that the first segment starts at `a` and each further one where
the previous ended, so the tags carry no information beyond the first.
-/

namespace Segments

open Located List

variable {α : Type*}

def bytes (segs : List (ℕ × List α)) : List α := segs.flatMap Prod.snd

def Contiguous : ℕ → List (ℕ × List α) → Prop
  | _, [] => True
  | a, (offset, xs) :: segs => offset = a ∧ Contiguous (a + xs.length) segs

@[simp] theorem bytes_nil : bytes ([] : List (ℕ × List α)) = [] := rfl

@[simp] theorem bytes_cons (offset : ℕ) (xs : List α) (segs : List (ℕ × List α)) :
    bytes ((offset, xs) :: segs) = xs ++ bytes segs := rfl

@[simp] theorem bytes_concat (segs : List (ℕ × List α)) (offset : ℕ) (xs : List α) :
    bytes (segs ++ [(offset, xs)]) = bytes segs ++ xs := by
  simp [bytes]

theorem contiguous_cons_iff {a offset : ℕ} {xs : List α} {segs : List (ℕ × List α)} :
    Contiguous a ((offset, xs) :: segs) ↔ offset = a ∧ Contiguous (a + xs.length) segs :=
  Iff.rfl

theorem contiguous_concat {a : ℕ} {segs : List (ℕ × List α)} (h : Contiguous a segs)
    (xs : List α) : Contiguous a (segs ++ [(a + (bytes segs).length, xs)]) := by
  induction segs generalizing a with
  | nil => exact ⟨rfl, trivial⟩
  | cons seg segs ih =>
    obtain ⟨offset, ys⟩ := seg
    refine ⟨h.1, ?_⟩
    have := ih h.2
    rwa [Nat.add_assoc, ← List.length_append, ← bytes_cons offset] at this

theorem Contiguous.bounds {a : ℕ} {segs : List (ℕ × List α)} (h : Contiguous a segs) :
    ∀ p ∈ segs, a ≤ p.1 ∧ p.1 + p.2.length ≤ a + (bytes segs).length := by
  induction segs generalizing a with
  | nil => exact fun p hp => absurd hp not_mem_nil
  | cons seg segs ih =>
    obtain ⟨rfl, hrest⟩ := h
    rw [bytes_cons, length_append]
    refine forall_mem_cons.mpr ⟨⟨Nat.le_refl _, by omega⟩, fun p hp => ?_⟩
    have := ih hrest p hp
    omega

theorem Contiguous.pairwise {a : ℕ} {segs : List (ℕ × List α)} (h : Contiguous a segs) :
    segs.Pairwise fun p q => p.1 + p.2.length ≤ q.1 := by
  induction segs generalizing a with
  | nil => exact Pairwise.nil
  | cons seg segs ih =>
    obtain ⟨rfl, hrest⟩ := h
    exact pairwise_cons.mpr ⟨fun q hq => (hrest.bounds q hq).1, ih hrest⟩

/-- The tags are the positions of the bytes. -/
theorem Contiguous.flatMap_located {a : ℕ} {segs : List (ℕ × List α)} (h : Contiguous a segs) :
    segs.flatMap (fun p => located p.1 p.2) = located a (bytes segs) := by
  induction segs generalizing a with
  | nil => rfl
  | cons seg segs ih =>
    obtain ⟨rfl, hrest⟩ := h
    rw [flatMap_cons, ih hrest, bytes_cons, located_append]

theorem Contiguous.end_eq {a : ℕ} {segs : List (ℕ × List α)} {p : ℕ × List α}
    (h : Contiguous a (segs ++ [p])) :
    p.1 + p.2.length = a + (bytes (segs ++ [p])).length := by
  induction segs generalizing a with
  | nil => rw [h.1, bytes, nil_append, flatMap_singleton]
  | cons seg segs ih =>
    obtain ⟨rfl, hrest⟩ := h
    rw [ih hrest, cons_append, bytes_cons, length_append, Nat.add_assoc]

end Segments
