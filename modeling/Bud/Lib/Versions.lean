import Mathlib.Data.List.Nodup
import Mathlib.Data.List.Perm.Subperm
import Mathlib.Order.Nat

/-!
# A log of versions

Versions of several things are kept in one log, as they come. A version carries the key of the thing
it is a version of, a number that grows along the versions of one key, and a boundary: the clock as
it was when the version came. What happens at a later reading of the clock is under the version that
was the latest then.

A reader that comes after that cannot see how long the log was. It can go by the boundaries instead:
the version is the one with the greatest number among those whose boundaries are below the reading.
Boundaries may repeat, and then the numbers decide.
-/

namespace Versions

open List

variable {α κ : Type*} [DecidableEq κ] (key : α → κ) (number boundary : α → ℕ)

def latest (log : List α) (k : κ) : Option α := (log.filter (key · = k)).getLast?

/-- The version a reader of the log finds to be in force at `n`. -/
def inForce (log : List α) (n : ℕ) (a : α) : Bool :=
  boundary a < n && !log.any fun newer =>
    key newer = key a && number a < number newer && boundary newer < n

def Numbered (log : List α) : Prop := log.Pairwise fun a b => key a = key b → number a < number b

variable {key number boundary} {log earlier later : List α} {n : ℕ} {a b : α}

theorem inForce_iff : inForce key number boundary log n a = true ↔
    boundary a < n ∧ ∀ newer ∈ log, key newer = key a → boundary newer < n →
      number newer ≤ number a := by
  simp only [inForce, Bool.and_eq_true, decide_eq_true_eq, Bool.not_eq_true', any_eq_false,
    not_and, not_lt]
  refine and_congr_right fun _ => forall₂_congr fun newer _ => ?_
  constructor
  · intro hnone hkey hboundary
    by_contra hnumber
    exact absurd hboundary (not_lt.mpr (hnone ⟨hkey, not_le.mp hnumber⟩))
  · rintro hnone ⟨hkey, hnumber⟩
    by_contra hboundary
    exact absurd hnumber (not_lt.mpr (hnone hkey (not_le.mp hboundary)))

omit [DecidableEq κ] in
theorem Numbered.append (h : Numbered key number log)
    (hnew : ∀ b ∈ log, key b = key a → number b < number a) :
    Numbered key number (log ++ [a]) := by
  refine pairwise_append.mpr ⟨h, pairwise_singleton _ _, fun b hb c hc hkey => ?_⟩
  obtain rfl := mem_singleton.mp hc
  exact hnew b hb hkey

variable (boundary) in
/-- **One version of a key is in force at most.** -/
theorem nodup_inForce (h : Numbered key number log) (n : ℕ) :
    ((log.filter (inForce key number boundary log n)).map key).Nodup := by
  refine pairwise_map.mpr ?_
  refine ((Pairwise.sublist filter_sublist h).imp_of_mem ?_)
  intro a b ha hb hnumber heq
  obtain ⟨_, ha⟩ := mem_filter.mp ha
  obtain ⟨hmem, hb⟩ := mem_filter.mp hb
  have hle := (inForce_iff.mp ha).2 b hmem heq.symm (inForce_iff.mp hb).1
  exact absurd (hnumber heq) (not_lt.mpr hle)

theorem key_of_latest {k : κ} (h : latest key log k = some a) : key a = k :=
  of_decide_eq_true (mem_filter.mp (mem_of_getLast? h)).2

theorem latest_eq_some (h : Numbered key number log) :
    latest key log (key a) = some a ↔
      a ∈ log ∧ ∀ b ∈ log, key b = key a → number b ≤ number a := by
  have hmem : ∀ b, b ∈ log.filter (key · = key a) ↔ b ∈ log ∧ key b = key a := by simp
  have hsub : Numbered key number (log.filter (key · = key a)) :=
    Pairwise.sublist filter_sublist h
  rw [latest, getLast?_eq_some_iff]
  constructor
  · rintro ⟨init, heq⟩
    rw [heq] at hmem hsub
    refine ⟨((hmem a).mp (by simp)).1, fun b hb hkey => ?_⟩
    rcases mem_append.mp ((hmem b).mpr ⟨hb, hkey⟩) with hb | hb
    · exact ((pairwise_append.mp hsub).2.2 b hb a mem_cons_self hkey).le
    · exact mem_singleton.mp hb ▸ le_rfl
  · rintro ⟨ha, hnewest⟩
    obtain ⟨init, last, heq⟩ := eq_nil_or_concat (log.filter (key · = key a)) |>.resolve_left
      (ne_nil_of_mem ((hmem a).mpr ⟨ha, rfl⟩))
    rw [concat_eq_append] at heq
    rw [heq] at hmem hsub ⊢
    obtain ⟨hlast, hkey⟩ := (hmem last).mp (by simp)
    refine ⟨init, ?_⟩
    rcases mem_append.mp ((hmem a).mpr ⟨ha, rfl⟩) with ha | ha
    · have hlt := (pairwise_append.mp hsub).2.2 a ha last mem_cons_self hkey.symm
      exact absurd hlt (not_lt.mpr (hnewest last hlast hkey))
    · rw [mem_singleton.mp ha]

/-- **The reader finds the latest version**: when everything up to a point of the log has come
before the clock read `n`, and nothing after it has. -/
theorem inForce_iff_latest (h : Numbered key number (earlier ++ later))
    (hearlier : ∀ a ∈ earlier, boundary a < n) (hlater : ∀ a ∈ later, n ≤ boundary a) :
    a ∈ earlier ++ later ∧ inForce key number boundary (earlier ++ later) n a = true ↔
      latest key earlier (key a) = some a := by
  have hnumbered : Numbered key number earlier := (pairwise_append.mp h).1
  rw [latest_eq_some hnumbered, inForce_iff]
  constructor
  · rintro ⟨hmem, hlt, hnewest⟩
    refine ⟨?_, fun b hb hkey => hnewest b (mem_append_left _ hb) hkey (hearlier b hb)⟩
    rcases mem_append.mp hmem with hmem | hmem
    · exact hmem
    · exact absurd hlt (not_lt.mpr (hlater a hmem))
  · rintro ⟨hmem, hnewest⟩
    refine ⟨mem_append_left _ hmem, hearlier a hmem, fun b hb hkey hlt => ?_⟩
    rcases mem_append.mp hb with hb | hb
    · exact hnewest b hb hkey
    · exact absurd hlt (not_lt.mpr (hlater b hb))

end Versions
