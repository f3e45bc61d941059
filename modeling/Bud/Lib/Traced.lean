import Mathlib.Tactic.Common

/-!
# Computations that leave a trace

A computation returns or fails, and says on the way what it does. What it has said is not taken
back, so a failure leaves the trace up to it.

The same program can be run with a check that the original lacks. `Guarded p q` says what the check
is worth: either `q` is stopped by it, and then the trace of `p` has something bad, or `p` and `q`
are the same and nothing in their trace is. The relation is closed under the ways computations are
put together, so for a program that is written once for both it is enough to look where the check
is made.
-/

/-- A computation with its trace of `ω`. -/
structure Traced (ω ε α : Type) where
  events : List ω
  result : Except ε α

namespace Traced

variable {ω ε α β : Type}

protected def bind (p : Traced ω ε α) (f : α → Traced ω ε β) : Traced ω ε β :=
  match p.result with
  | .ok a => ⟨p.events ++ (f a).events, (f a).result⟩
  | .error e => ⟨p.events, .error e⟩

instance : Monad (Traced ω ε) where
  pure a := ⟨[], .ok a⟩
  bind := Traced.bind

def fail (e : ε) : Traced ω ε α := ⟨[], .error e⟩

def tell (w : ω) : Traced ω ε Unit := ⟨[w], .ok ()⟩

def ofExcept (x : Except ε α) : Traced ω ε α := ⟨[], x⟩

def ofOption (e : ε) : Option α → Traced ω ε α
  | some a => pure a
  | none => fail e

variable {p : Traced ω ε α}

theorem bind_of_ok {a : α} (h : p.result = .ok a) (f : α → Traced ω ε β) :
    p >>= f = ⟨p.events ++ (f a).events, (f a).result⟩ := by
  show Traced.bind p f = _
  rw [Traced.bind, h]

theorem bind_of_error {e : ε} (h : p.result = .error e) (f : α → Traced ω ε β) :
    p >>= f = ⟨p.events, .error e⟩ := by
  show Traced.bind p f = _
  rw [Traced.bind, h]

theorem mem_bind_events {w : ω} (h : w ∈ p.events) (f : α → Traced ω ε β) :
    w ∈ (p >>= f).events := by
  cases hp : p.result with
  | ok a =>
    rw [bind_of_ok hp]
    exact List.mem_append_left _ h
  | error e =>
    rw [bind_of_error hp]
    exact h

/-! ### Checks -/

/-- A result is one that is wanted, or an error that is allowed. -/
def Meets (E : ε → Prop) (Q : α → Prop) : Except ε α → Prop
  | .ok a => Q a
  | .error e => E e

/-- `q` is `p` with a check that stops it before anything that is not good; without the check it
gives what is wanted, or fails with an error that is allowed. -/
inductive Guarded (good : ω → Prop) (stop : ε) (E : ε → Prop) (Q : α → Prop)
    (p q : Traced ω ε α) : Prop where
  | stopped (hstop : q.result = .error stop) (hbad : ∃ w ∈ p.events, ¬good w)
  | same (heq : p = q) (hgood : ∀ w ∈ q.events, good w) (hmeets : Meets E Q q.result)

namespace Guarded

variable {good : ω → Prop} {stop : ε} {E : ε → Prop} {Q Q' : α → Prop} {p q : Traced ω ε α}

/-- A computation that leaves no trace has nothing to check. -/
theorem of_silent (hevents : p.events = []) (hmeets : Meets E Q p.result) :
    Guarded good stop E Q p p :=
  .same rfl (fun w hw => by rw [hevents] at hw; cases hw) hmeets

theorem pure {a : α} (h : Q a) : Guarded good stop E Q (pure a) (pure a) := of_silent rfl h

theorem fail {e : ε} (h : E e) : Guarded good stop E Q (fail e) (fail e) := of_silent rfl h

theorem ofOption {x : Option α} {e : ε} (he : E e) (h : ∀ a, x = some a → Q a) :
    Guarded good stop E Q (ofOption e x) (ofOption e x) := by
  cases x with
  | none => exact fail he
  | some a => exact pure (h a rfl)

theorem tell {w : ω} (hw : good w) : Guarded good stop E (fun _ => True) (tell w) (tell w) :=
  .same rfl (fun v hv => by rw [List.mem_singleton.mp hv]; exact hw) trivial

theorem mono (h : Guarded good stop E Q p q) (hQ : ∀ a, Q a → Q' a) :
    Guarded good stop E Q' p q := by
  cases h with
  | stopped hstop hbad => exact .stopped hstop hbad
  | same heq hgood hmeets =>
    refine .same heq hgood ?_
    cases hr : q.result with
    | ok a =>
      rw [hr] at hmeets
      exact hQ a hmeets
    | error e =>
      rw [hr] at hmeets
      exact hmeets

theorem bind {R : β → Prop} {f g : α → Traced ω ε β} (h : Guarded good stop E Q p q)
    (hf : ∀ a, Q a → Guarded good stop E R (f a) (g a)) :
    Guarded good stop E R (p >>= f) (q >>= g) := by
  cases h with
  | stopped hstop hbad =>
    obtain ⟨w, hw, hnot⟩ := hbad
    exact .stopped (by rw [bind_of_error hstop]) ⟨w, mem_bind_events hw f, hnot⟩
  | same heq hgood hmeets =>
    subst heq
    cases hr : p.result with
    | error e =>
      rw [hr] at hmeets
      rw [bind_of_error hr, bind_of_error hr]
      exact .same rfl hgood hmeets
    | ok a =>
      rw [hr] at hmeets
      rw [bind_of_ok hr, bind_of_ok hr]
      cases hf a hmeets with
      | stopped hstop hbad =>
        obtain ⟨w, hw, hnot⟩ := hbad
        exact .stopped hstop ⟨w, List.mem_append_right _ hw, hnot⟩
      | same heq hgood' hmeets' =>
        refine .same (by rw [heq]) (fun w hw => ?_) hmeets'
        rcases List.mem_append.mp hw with hw | hw
        · exact hgood w hw
        · exact hgood' w hw

theorem ite {c : Prop} [Decidable c] {p' q' : Traced ω ε α}
    (h : c → Guarded good stop E Q p q) (h' : ¬c → Guarded good stop E Q p' q') :
    Guarded good stop E Q (if c then p else p') (if c then q else q') := by
  by_cases hc : c
  · rw [if_pos hc, if_pos hc]
    exact h hc
  · rw [if_neg hc, if_neg hc]
    exact h' hc

/-- A computation that is stopped by the check would have done something bad. -/
theorem exists_bad (h : Guarded good stop E Q p q) (hE : ¬E stop)
    (hstop : q.result = .error stop) : ∃ w ∈ p.events, ¬good w := by
  cases h with
  | stopped _ hbad => exact hbad
  | same _ _ hmeets =>
    rw [hstop] at hmeets
    exact absurd hmeets hE

/-- A computation that is not stopped by the check needs none. -/
theorem same_of_ne (h : Guarded good stop E Q p q) (hstop : q.result ≠ .error stop) :
    p = q ∧ (∀ w ∈ p.events, good w) ∧ Meets E Q p.result := by
  cases h with
  | stopped h _ => exact absurd h hstop
  | same heq hgood hmeets =>
    subst heq
    exact ⟨rfl, hgood, hmeets⟩

end Guarded

end Traced
