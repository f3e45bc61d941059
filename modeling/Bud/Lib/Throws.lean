import Mathlib.Data.List.Forall2

/-!
# Computations that throw

What a computation in `Except` has done if it has not thrown: every check has passed, and every
step of it has returned.
-/

namespace Throws

variable {ε α β : Type}

variable {x : Except ε α} {f : α → Except ε β}

theorem ok_of_bind {b : β} (h : x >>= f = .ok b) : ∃ a, x = .ok a ∧ f a = .ok b := by
  cases x with
  | error => cases h
  | ok a => exact ⟨a, rfl, h⟩

theorem bind_eq_ok {b : β} : x >>= f = .ok b ↔ ∃ a, x = .ok a ∧ f a = .ok b :=
  ⟨ok_of_bind, by rintro ⟨a, rfl, h⟩; exact h⟩

theorem check_bind_eq_ok {x : Except ε Unit} {f : Unit → Except ε β} {b : β} :
    x >>= f = .ok b ↔ x = .ok () ∧ f () = .ok b := by
  rw [bind_eq_ok]
  exact ⟨fun ⟨_, h⟩ => h, fun h => ⟨_, h⟩⟩

theorem forM_eq_ok {check : α → Except ε PUnit} (as : List α) :
    forM as check = .ok () ↔ ∀ a ∈ as, check a = .ok () := by
  induction as with
  | nil => simp [pure, Except.pure]
  | cons a as ih =>
    simp only [List.forM_cons, check_bind_eq_ok, ih, List.mem_cons, forall_eq_or_imp]

theorem mapM_eq_ok {as : List α} {bs : List β} :
    as.mapM f = .ok bs ↔ List.Forall₂ (fun a b => f a = .ok b) as bs := by
  induction as generalizing bs with
  | nil => simp [pure, Except.pure, eq_comm]
  | cons a as ih =>
    simp only [List.mapM_cons, bind_eq_ok, ih, List.forall₂_cons_left_iff]
    constructor
    · rintro ⟨b, hb, rest, hrest, ⟨⟩⟩
      exact ⟨b, rest, hb, hrest, rfl⟩
    · rintro ⟨b, rest, hb, hrest, rfl⟩
      exact ⟨b, hb, rest, hrest, rfl⟩

theorem ite_throw_eq_ok {p : Prop} [Decidable p] {e : ε} {a : α} :
    (if p then Except.error e else x) = .ok a ↔ ¬p ∧ x = .ok a := by
  by_cases hp : p
  · simp [hp]
  · simp [hp]

theorem ok_of_ite {p : Prop} [Decidable p] {e : ε} {a : α}
    (h : (if p then .error e else x) = .ok a) : ¬p ∧ x = .ok a :=
  ite_throw_eq_ok.mp h

theorem ok_of_map {f : α → β} {b : β} (h : x.map f = .ok b) : ∃ a, x = .ok a ∧ f a = b := by
  cases x with
  | error => cases h
  | ok a => exact ⟨a, rfl, Except.ok.inj h⟩

end Throws
