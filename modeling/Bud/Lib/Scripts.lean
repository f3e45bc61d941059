import Mathlib.Tactic.Common

/-!
# Scripts whose errors can be caught

A script reads and writes a state and may throw. It runs inside a transaction, so what it has
written when it throws is still there for whoever catches the error (`attempt`); only an error that
nobody catches rolls the transaction back (`commit`). `ExceptT ε (StateM σ)` is the monad for that.

A script that makes all its checks before its first write is given by a function to a new state or
an error (`checked`), and has written nothing when its error is caught.
-/

namespace Scripts

variable {σ ε α β : Type}

abbrev Script (σ ε : Type) : Type → Type := ExceptT ε (StateM σ)

/-- What a script returns or throws, and the state it leaves. -/
def exec (x : Script σ ε α) (s : σ) : Except ε α × σ := (ExceptT.run x).run s

/-- The state after a transaction: an error that nobody has caught rolls it back. -/
def commit (x : Script σ ε α) (s : σ) : σ :=
  match exec x s with
  | (.ok _, t) => t
  | (.error _, _) => s

/-! ### Execution -/

variable {x : Script σ ε α} {s t : σ} {a : α} {e : ε}

@[simp] theorem exec_get (s : σ) : exec (get : Script σ ε σ) s = (.ok s, s) := rfl

theorem exec_bind (x : Script σ ε α) (f : α → Script σ ε β) (s : σ) :
    exec (x >>= f) s =
      match exec x s with
      | (.ok a, t) => exec (f a) t
      | (.error e, t) => (.error e, t) := by
  show (match (ExceptT.run x).run s with
    | (r, t) => (ExceptT.bindCont f r).run t) = _
  rw [exec]
  cases (ExceptT.run x).run s with
  | mk r t => cases r <;> rfl

theorem exec_bind_ok {f : α → Script σ ε β} (h : exec x s = (.ok a, t)) :
    exec (x >>= f) s = exec (f a) t := by rw [exec_bind, h]

theorem exec_bind_error {f : α → Script σ ε β} (h : exec x s = (.error e, t)) :
    exec (x >>= f) s = (.error e, t) := by rw [exec_bind, h]

theorem commit_of_error (h : exec x s = (.error e, t)) : commit x s = s := by rw [commit, h]

theorem commit_of_ok (h : exec x s = (.ok a, t)) : commit x s = t := by rw [commit, h]

/-- What a transaction returns does not matter for what it leaves. -/
theorem commit_bind_pure (x : Script σ ε α) (f : α → β) (s : σ) :
    commit (x >>= fun a => pure (f a)) s = commit x s := by
  rw [commit, commit, exec_bind]
  cases exec x s with
  | mk r t => cases r <;> rfl

/-- What can be checked without writing. -/
def ofExcept (x : Except ε α) : Script σ ε α :=
  match x with
  | .ok a => pure a
  | .error e => throw e

@[simp] theorem exec_ofExcept (x : Except ε α) (s : σ) :
    exec (ofExcept x : Script σ ε α) s = (x, s) := by cases x <;> rfl

theorem commit_ofExcept_bind (x : Except ε α) (f : α → Script σ ε β) (s : σ) :
    commit (ofExcept x >>= f) s =
      match x with
      | .ok a => commit (f a) s
      | .error _ => s := by cases x <;> rfl

/-! ### Errors that are caught -/

/-- What a script that is caught has come to; its writes stay. -/
def attempt (x : Script σ ε α) : Script σ ε (Except ε α) :=
  ExceptT.mk fun s => (.ok (exec x s).1, (exec x s).2)

@[simp] theorem exec_attempt (x : Script σ ε α) (s : σ) :
    exec (attempt x) s = (.ok (exec x s).1, (exec x s).2) := rfl

/-! ### Checks before writes -/

def checked (f : σ → Except ε (α × σ)) : Script σ ε α := do
  let (a, t) ← ofExcept (f (← get))
  set t
  return a

theorem exec_checked (f : σ → Except ε (α × σ)) (s : σ) :
    exec (checked f) s =
      match f s with
      | .ok (a, t) => (.ok a, t)
      | .error e => (.error e, s) := by
  show exec (ofExcept (f s) >>= fun at' : α × σ => (do set at'.2; return at'.1)) s = _
  rw [exec_bind, exec_ofExcept]
  cases f s with
  | ok r | error e => rfl

/-! ### Parts of a state -/

variable {τ : Type}

/-- A script on a part of the state. -/
def zoom (get : σ → τ) (put : τ → σ → σ) (x : Script τ ε α) : Script σ ε α :=
  ExceptT.mk fun s => ((exec x (get s)).1, put (exec x (get s)).2 s)

@[simp] theorem exec_zoom (get : σ → τ) (put : τ → σ → σ) (x : Script τ ε α) (s : σ) :
    exec (zoom get put x) s = ((exec x (get s)).1, put (exec x (get s)).2 s) := rfl

/-- A checked script on a part of the state that has not thrown has done what it says. -/
theorem zoom_checked_ok {get : σ → τ} {put : τ → σ → σ} {f : τ → Except ε (α × τ)}
    (h : exec (zoom get put (checked f)) s = (.ok a, t)) :
    ∃ u, f (get s) = .ok (a, u) ∧ t = put u s := by
  rw [exec_zoom, exec_checked] at h
  cases hf : f (get s) with
  | error e =>
    rw [hf] at h
    cases h
  | ok r =>
    rw [hf] at h
    obtain ⟨hr, ht⟩ := Prod.mk.inj h
    exact ⟨r.2, by rw [← Except.ok.inj hr], ht.symm⟩

/-- A checked script on a part of the state that has thrown has done nothing. -/
theorem zoom_checked_error {get : σ → τ} {put : τ → σ → σ} {f : τ → Except ε (α × τ)}
    (h : exec (zoom get put (checked f)) s = (.error e, t)) : t = put (get s) s := by
  rw [exec_zoom, exec_checked] at h
  cases hf : f (get s) with
  | error e =>
    rw [hf] at h
    exact (Prod.mk.inj h).2.symm
  | ok r =>
    rw [hf] at h
    cases h

end Scripts
