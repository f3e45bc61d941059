import Mathlib.Order.Nat

/-!
# Updates that settle a row whatever comes between them

Several tasks update one row, each by a list of updates of its own, and their updates interleave in
any order. Rows are ordered by progress, and every update goes forward. A task *settles* the row,
from a state on, when the row is sure to have the property `P` by the time the task is done,
however far the other tasks take it before each of its updates.

## Main definitions

* `Settles P fs x` — the updates `fs`, from `x` on
-/

namespace Settling

variable {α : Type*} [Preorder α]

/-- Whatever progress is made before each of the updates, `P` holds after the last. -/
def Settles (P : α → Prop) : List (α → α) → α → Prop
  | [], x => P x
  | f :: fs, x => ∀ y, x ≤ y → Settles P fs (f y)

variable {P : α → Prop} {f : α → α} {fs : List (α → α)} {x y : α}

theorem Settles.mono (hP : ∀ x y, x ≤ y → P x → P y) (h : Settles P fs x) (hxy : x ≤ y) :
    Settles P fs y := by
  cases fs with
  | nil => exact hP x y hxy h
  | cons f fs => exact fun z hz => h z (hxy.trans hz)

theorem Settles.tail (h : Settles P (f :: fs) x) : Settles P fs (f x) := h x le_rfl

theorem settles_of_holds (hP : ∀ x y, x ≤ y → P x → P y) (hfs : ∀ f ∈ fs, ∀ x, x ≤ f x)
    (h : P x) : Settles P fs x := by
  induction fs generalizing x with
  | nil => exact h
  | cons f fs ih =>
    intro y hxy
    exact ih (fun g hg => hfs g (List.mem_cons_of_mem _ hg))
      (hP x _ (hxy.trans (hfs f (List.mem_cons_self ..) y)) h)

theorem settles_of_mem (hP : ∀ x y, x ≤ y → P x → P y) (hfs : ∀ f ∈ fs, ∀ x, x ≤ f x)
    (hf : f ∈ fs) (hsure : ∀ x, P (f x)) : Settles P fs x := by
  induction fs generalizing x with
  | nil => exact absurd hf List.not_mem_nil
  | cons g fs ih =>
    intro y hxy
    have hrest : ∀ f ∈ fs, ∀ x, x ≤ f x := fun g hg => hfs g (List.mem_cons_of_mem _ hg)
    rcases List.mem_cons.mp hf with rfl | hf
    · exact settles_of_holds hP hrest (hsure y)
    · exact ih hrest hf

/-- What comes before does no harm to updates that are sure of `P` anyway. -/
theorem Settles.append {gs : List (α → α)} (h : ∀ x, Settles P gs x) : Settles P (fs ++ gs) x := by
  induction fs generalizing x with
  | nil => exact h x
  | cons f fs ih => exact fun _ _ => ih

/-- Nor does what comes after. -/
theorem Settles.append_right {gs : List (α → α)} (hP : ∀ x y, x ≤ y → P x → P y)
    (hgs : ∀ g ∈ gs, ∀ x, x ≤ g x) (h : Settles P fs x) : Settles P (fs ++ gs) x := by
  induction fs generalizing x with
  | nil => exact settles_of_holds hP hgs h
  | cons f fs ih => exact fun y hy => ih (h y hy)

end Settling
