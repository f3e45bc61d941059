import Bud.Lib.Runs
import Mathlib.Data.List.Induction
import Mathlib.Order.Nat

/-!
# Fencing by a version

A number in the state never goes down, and goes up at certain steps. Whoever has read it can tell
later, by comparing, that none of those steps has been taken in between: an answer that comes back
with an old number is refused however late it is, and one that comes back with the current number is
from after the last of them.

The steps may depend on an invariant of the system, and the number may stay the same at any other.
-/

namespace Fencing

open Runs

variable {σ A : Type*} {step : σ → A → Option σ} {Inv : σ → Prop} {version : σ → ℕ}
  {raises : σ → A → Prop} {s t : σ} {as : List A}

/-- `version` never goes down, and goes up at the steps that `raises` is about. -/
structure Fence (step : σ → A → Option σ) (Inv : σ → Prop) (version : σ → ℕ)
    (raises : σ → A → Prop) : Prop where
  inv : ∀ s a t, Inv s → step s a = some t → Inv t
  mono : ∀ s a t, Inv s → step s a = some t → version s ≤ version t
  raise : ∀ s a t, Inv s → step s a = some t → raises s a → version s < version t

namespace Fence

theorem le_of_run (h : Fence step Inv version raises) (hrun : run step as s = some t)
    (hs : Inv s) : version s ≤ version t :=
  (invariant (fun u a v (hu : Inv u ∧ version s ≤ version u) hv =>
    ⟨h.inv u a v hu.1 hv, hu.2.trans (h.mono u a v hu.1 hv)⟩) hrun ⟨hs, le_rfl⟩).2

/-- **The fence holds.** -/
theorem along_of_le (h : Fence step Inv version raises) (hrun : run step as s = some t)
    (hs : Inv s) (hle : version t ≤ version s) : Along step (fun u a => ¬raises u a) as s := by
  rw [along_iff_forall_split]
  rintro bs a cs u rfl hu hraises
  rw [run_append, hu, Option.bind_some, run_cons_eq_some] at hrun
  obtain ⟨v, hv, hrest⟩ := hrun
  have hinv : Inv u := invariant h.inv hu hs
  have hbefore : version s ≤ version u := h.le_of_run hu hs
  have hstep : version u < version v := h.raise u a v hinv hv hraises
  have hafter : version v ≤ version t := h.le_of_run hrest (h.inv u a v hinv hv)
  omega

end Fence

/-- **The last time something began to hold.** -/
theorem exists_since {P : σ → Prop} (hrun : run step as s = some t) (hs : ¬P s) (ht : P t) :
    ∃ before a after u v, as = before ++ a :: after ∧ run step before s = some u ∧
      step u a = some v ∧ run step after v = some t ∧ ¬P u ∧ P v ∧
      Along step (fun u _ => P u) after v := by
  induction as using List.reverseRecOn generalizing t with
  | nil =>
    cases hrun
    exact absurd ht hs
  | append_singleton as a ih =>
    rw [run_append, Option.bind_eq_some_iff] at hrun
    obtain ⟨u, hu, hlast⟩ := hrun
    have hstep : step u a = some t := by
      obtain ⟨_, hv, ⟨⟩⟩ := run_cons_eq_some.mp hlast
      exact hv
    -- It holds before the last step too, and has since an earlier one, or begins to at this one.
    by_cases hPu : P u
    · obtain ⟨before, b, after, v, w, rfl, hv, hw, hrest, hPv, hPw, hsince⟩ := ih hu hPu
      refine ⟨before, b, after ++ [a], v, w, by simp, hv, hw, ?_, hPv, hPw, ?_⟩
      · rw [run_append, hrest]
        exact hlast
      · refine along_append.mpr ⟨hsince, fun w' hw' => ⟨?_, fun _ _ => trivial⟩⟩
        obtain rfl : u = w' := Option.some.inj (hrest.symm.trans hw')
        exact hPu
    · exact ⟨as, a, [], u, t, rfl, hu, hstep, rfl, hPu, ht, trivial⟩

end Fencing
