import Mathlib.Data.List.Basic

/-!
# Promises and the microtask queue

Promises as JavaScript has them. A promise settles once; a callback registered on a pending promise
is kept with it and one registered on a settled promise becomes a job at once. Settling a promise
turns its callbacks into jobs, in the order they were registered, and jobs run one at a time, first
in first out.

Promises are named by a type `P`, and a callback is a value of a type `J` that says which job it
becomes. What a job does is up to the program that uses this.

## Main definitions

* `Heap` — the promises and the queue of jobs
* `Heap.register` — `then`, for its effect on the promise it is called on
* `Heap.settle` — `resolve` with a plain value, or `reject`
-/

namespace Promises

inductive Status where
  | pending
  | fulfilled
  | rejected
  deriving DecidableEq

structure Heap (P J : Type*) where
  status : P → Status
  reactions : P → List J
  jobs : List J

variable {P J : Type*}

def Heap.empty : Heap P J :=
  { status := fun _ => .pending, reactions := fun _ => [], jobs := [] }

variable [DecidableEq P]

def Heap.register (heap : Heap P J) (p : P) (job : J) : Heap P J :=
  if heap.status p = .pending then
    { heap with reactions := Function.update heap.reactions p (heap.reactions p ++ [job]) }
  else { heap with jobs := heap.jobs ++ [job] }

def Heap.settle (heap : Heap P J) (p : P) (status : Status) : Heap P J :=
  if heap.status p = .pending then
    { status := Function.update heap.status p status
      reactions := Function.update heap.reactions p []
      jobs := heap.jobs ++ heap.reactions p }
  else heap

/-! ### What the operations do -/

@[simp] theorem Heap.status_register (heap : Heap P J) (p : P) (job : J) :
    (heap.register p job).status = heap.status := by
  rw [Heap.register]
  split
  · rfl
  · rfl

variable {heap : Heap P J}

theorem Heap.register_of_pending {p : P} (h : heap.status p = .pending) (job : J) :
    heap.register p job =
      { heap with reactions := Function.update heap.reactions p (heap.reactions p ++ [job]) } :=
  if_pos h

theorem Heap.register_of_settled {p : P} (h : heap.status p ≠ .pending) (job : J) :
    heap.register p job = { heap with jobs := heap.jobs ++ [job] } :=
  if_neg h

theorem Heap.settle_of_pending {p : P} (h : heap.status p = .pending) (status : Status) :
    heap.settle p status =
      { status := Function.update heap.status p status
        reactions := Function.update heap.reactions p []
        jobs := heap.jobs ++ heap.reactions p } :=
  if_pos h

end Promises
