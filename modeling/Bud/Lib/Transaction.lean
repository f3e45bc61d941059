import Mathlib.Tactic.Common

/-!
# Transactions that roll back

A transaction reads and writes a state and may throw. `StateT σ (Except ε)` is the right monad for
one: the state that a computation has written is lost with it when it throws, so the caller still
has the state from before, which is what a rollback comes to.

`Post x s Q` says that if `x` commits, started in `s`, then `Q` holds of what it returns and of the
state it leaves. The rules below turn it, statement by statement, into a condition on `s`, so that
`simp` with them executes a transaction symbolically. A transaction that throws satisfies every
`Post`, and one that satisfies `Post` with `False` throws.
-/

namespace Transaction

variable {σ ε α β : Type}

abbrev Tx (σ ε : Type) : Type → Type := StateT σ (Except ε)

/-- Whatever `x` returns and leaves behind when it commits is as `Q` says. -/
def Post (x : Tx σ ε α) (s : σ) (Q : α → σ → Prop) : Prop :=
  ∀ a t, x.run s = .ok (a, t) → Q a t

def Throws (x : Tx σ ε α) (s : σ) : Prop := ∃ e, x.run s = .error e

/-- The state after the transaction: the one it leaves if it commits, and the one it started in if
it throws. -/
def after (x : Tx σ ε α) (s : σ) : σ :=
  match x.run s with
  | .ok (_, t) => t
  | .error _ => s

def result (x : Tx σ ε α) (s : σ) : Option α :=
  match x.run s with
  | .ok (a, _) => some a
  | .error _ => none

/-- The first row of a query, or an error if there is none. -/
def require (row : Option α) (e : ε) : Tx σ ε α :=
  match row with
  | some a => pure a
  | none => throw e

def check (condition : Bool) (e : ε) : Tx σ ε Unit :=
  if condition then pure () else throw e

/-! ### Rules -/

variable {x : Tx σ ε α} {s : σ} {Q Q' : α → σ → Prop}

theorem Post.mono (h : Post x s Q) (hle : ∀ a t, Q a t → Q' a t) : Post x s Q' :=
  fun a t hrun => hle a t (h a t hrun)

theorem Post.and (h : Post x s Q) (h' : Post x s Q') :
    Post x s fun a t => Q a t ∧ Q' a t :=
  fun a t hrun => ⟨h a t hrun, h' a t hrun⟩

@[simp] theorem post_pure (a : α) : Post (pure a : Tx σ ε α) s Q ↔ Q a s := by
  constructor
  · exact fun h => h a s rfl
  · rintro h _ _ ⟨⟩
    exact h

@[simp] theorem post_throw (e : ε) : Post (throw e : Tx σ ε α) s Q := by
  rintro a t ⟨⟩

@[simp] theorem post_bind {f : α → Tx σ ε β} {R : β → σ → Prop} :
    Post (x >>= f) s R ↔ Post x s fun a t => Post (f a) t R := by
  constructor
  · intro h a t hx b u hf
    exact h b u (by rw [StateT.run_bind, hx]; exact hf)
  · intro h b u hrun
    rw [StateT.run_bind] at hrun
    cases hx : x.run s with
    | error e =>
      rw [hx] at hrun
      cases hrun
    | ok r =>
      rw [hx] at hrun
      exact h r.1 r.2 hx b u hrun

@[simp] theorem post_map {f : α → β} {R : β → σ → Prop} :
    Post (f <$> x) s R ↔ Post x s fun a t => R (f a) t := by
  rw [← bind_pure_comp, post_bind]
  simp only [post_pure]

@[simp] theorem post_get {R : σ → σ → Prop} : Post (get : Tx σ ε σ) s R ↔ R s s := by
  constructor
  · exact fun h => h s s rfl
  · rintro h _ _ ⟨⟩
    exact h

@[simp] theorem post_modify {f : σ → σ} {R : Unit → σ → Prop} :
    Post (modify f : Tx σ ε PUnit) s R ↔ R () (f s) := by
  constructor
  · exact fun h => h () (f s) rfl
  · rintro h _ _ ⟨⟩
    exact h

@[simp] theorem post_require {row : Option α} {e : ε} :
    Post (require row e : Tx σ ε α) s Q ↔ ∀ a, row = some a → Q a s := by
  cases row with
  | none | some a => simp [require]

@[simp] theorem post_check {condition : Bool} {e : ε} {R : Unit → σ → Prop} :
    Post (check condition e : Tx σ ε Unit) s R ↔ (condition = true → R () s) := by
  cases condition with
  | false | true => simp [check]

@[simp] theorem post_ite {p : Prop} [Decidable p] {y : Tx σ ε α} :
    Post (if p then x else y) s Q ↔ (p → Post x s Q) ∧ (¬p → Post y s Q) := by
  by_cases hp : p
  · simp [hp]
  · simp [hp]

@[simp] theorem post_option_forM {row : Option β} {f : β → Tx σ ε PUnit} {R : PUnit → σ → Prop} :
    Post (row.forM f) s R ↔ (row = none → R () s) ∧ ∀ b, row = some b → Post (f b) s R := by
  cases row with
  | none | some b => simp [Option.forM]

/-- **The loop rule.** The invariant may speak about the rounds that are left. -/
theorem post_forM {f : α → Tx σ ε PUnit} {I : List α → σ → Prop}
    (hstep : ∀ a l s, I (a :: l) s → Post (f a) s fun _ t => I l t) {l : List α} (hs : I l s) :
    Post (l.forM f) s fun _ t => I [] t := by
  induction l generalizing s with
  | nil => exact (post_pure _).mpr hs
  | cons a l ih =>
    refine post_bind.mpr ?_
    exact (hstep a l s hs).mono fun _ t ht => ih ht

/-! ### Committed or rolled back -/

theorem throws_iff : Throws x s ↔ Post x s fun _ _ => False := by
  constructor
  · rintro ⟨e, he⟩ a t hrun
    rw [he] at hrun
    cases hrun
  · intro h
    cases hx : x.run s with
    | error e => exact ⟨e, hx⟩
    | ok r => exact (h r.1 r.2 hx).elim

theorem after_of_throws (h : Throws x s) : after x s = s := by
  obtain ⟨e, he⟩ := h
  simp [after, he]

/-- A relation that holds when nothing happens, and between the two states of a commit, holds
between the states before and after. -/
theorem after_of_post {R : σ → Prop} (hs : R s) (h : Post x s fun _ t => R t) : R (after x s) := by
  unfold after
  split
  · rename_i hx
    exact h _ _ hx
  · exact hs

theorem result_of_post {a : α} (h : Post x s Q) (ha : result x s = some a) : Q a (after x s) := by
  unfold result at ha
  unfold after
  split at ha
  · rename_i hx
    obtain rfl := Option.some.inj ha
    exact h _ _ hx
  · cases ha

end Transaction
