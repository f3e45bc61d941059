import Mathlib.Data.List.Basic

/-!
# Runs of a guarded step function

A system is a partial step function `step : σ → A → Option σ`, where `none` means that the action
is not enabled. A run is a list of actions, and an interleaving of several actors is a list that
mixes their actions, so a statement about every list is a statement about every interleaving.

`Along` says that every step of a run meets a condition on the action and the state it is taken
in. An invariant that only some steps preserve then holds along exactly those runs.
-/

namespace Runs

variable {σ A : Type*} (step : σ → A → Option σ)

/-- Take the actions in order; `none` as soon as one is not enabled. -/
def run : List A → σ → Option σ
  | [], s => some s
  | a :: as, s => (step s a).bind (run as)

variable {step}

theorem of_guard {p : Prop} [Decidable p] {s t : σ} (h : (if p then some s else none) = some t) :
    p ∧ t = s := by
  obtain ⟨hp, hs⟩ := Option.ite_none_right_eq_some.mp h
  exact ⟨hp, (Option.some.inj hs).symm⟩

theorem of_guard_not {p : Prop} [Decidable p] {s t : σ}
    (h : (if p then none else some s) = some t) : ¬p ∧ t = s := by
  obtain ⟨hp, hs⟩ := Option.ite_none_left_eq_some.mp h
  exact ⟨hp, (Option.some.inj hs).symm⟩

@[simp] theorem run_nil (s : σ) : run step [] s = some s := rfl

theorem run_cons_eq_some {a : A} {as : List A} {s s' : σ} :
    run step (a :: as) s = some s' ↔ ∃ t, step s a = some t ∧ run step as t = some s' := by
  rw [run, Option.bind_eq_some_iff]

theorem run_append {as bs : List A} {s : σ} :
    run step (as ++ bs) s = (run step as s).bind (run step bs) := by
  induction as generalizing s with
  | nil => rfl
  | cons a as ih =>
    rw [List.cons_append, run, run, Option.bind_assoc]
    exact congrArg _ (funext fun t => ih)

/-- The state a run on fixed actions ends in, found by taking it. -/
theorem exists_end {P : σ → Prop} [DecidablePred P] {as : List A} {s : σ}
    (h : (run step as s).any (fun t => decide (P t)) = true) :
    ∃ t, run step as s = some t ∧ P t := by
  obtain ⟨t, ht, hP⟩ := (Option.any_eq_true _ _).mp h
  exact ⟨t, ht, of_decide_eq_true hP⟩

variable (step) in
/-- Every step of the run meets `ok` in the state it is taken in. -/
def Along (ok : σ → A → Prop) : List A → σ → Prop
  | [], _ => True
  | a :: as, s => ok s a ∧ ∀ t, step s a = some t → Along ok as t

/-- The condition can be checked by taking the run. -/
instance decidableAlong {ok : σ → A → Prop} [∀ s a, Decidable (ok s a)] :
    ∀ (as : List A) (s : σ), Decidable (Along step ok as s)
  | [], _ => .isTrue trivial
  | a :: as, s =>
    match h : step s a with
    | none => decidable_of_iff (ok s a) (by simp [Along, h])
    | some t =>
      have : Decidable (Along step ok as t) := decidableAlong as t
      decidable_of_iff (ok s a ∧ Along step ok as t) (by simp [Along, h])

theorem along_of_forall {ok : σ → A → Prop} (hok : ∀ s a, ok s a) :
    ∀ (as : List A) (s : σ), Along step ok as s
  | [], _ => trivial
  | a :: as, s => ⟨hok s a, fun t _ => along_of_forall hok as t⟩

theorem along_append {ok : σ → A → Prop} {as bs : List A} {s : σ} :
    Along step ok (as ++ bs) s ↔
      Along step ok as s ∧ ∀ t, run step as s = some t → Along step ok bs t := by
  induction as generalizing s with
  | nil => simp [Along]
  | cons a as ih =>
    simp only [List.cons_append, Along, ih, run_cons_eq_some]
    constructor
    · rintro ⟨ha, hrest⟩
      refine ⟨⟨ha, fun t ht => (hrest t ht).1⟩, ?_⟩
      rintro u ⟨t, ht, hu⟩
      exact (hrest t ht).2 u hu
    · rintro ⟨⟨ha, hrest⟩, hend⟩
      exact ⟨ha, fun t ht => ⟨hrest t ht, fun u hu => hend u ⟨t, ht, hu⟩⟩⟩

/-- The condition is about every action of the run, in the state that it is taken in. -/
theorem along_iff_forall_split {ok : σ → A → Prop} {as : List A} {s : σ} :
    Along step ok as s ↔
      ∀ bs a cs t, as = bs ++ a :: cs → run step bs s = some t → ok t a := by
  constructor
  · rintro hok bs a cs t rfl hrun
    exact ((along_append.mp hok).2 t hrun).1
  · induction as generalizing s with
    | nil => exact fun _ => trivial
    | cons a as ih =>
      intro hall
      refine ⟨hall [] a as s rfl rfl, fun t ht => ih fun bs b cs u heq hrun => ?_⟩
      exact hall (a :: bs) b cs u (by rw [heq]; rfl) (run_cons_eq_some.mpr ⟨t, ht, hrun⟩)

theorem along_and {ok ok' : σ → A → Prop} {as : List A} {s : σ} (h : Along step ok as s)
    (h' : Along step ok' as s) : Along step (fun s a => ok s a ∧ ok' s a) as s := by
  induction as generalizing s with
  | nil => trivial
  | cons a as ih => exact ⟨⟨h.1, h'.1⟩, fun t ht => ih (h.2 t ht) (h'.2 t ht)⟩

/-- **The invariant rule for a system with a history, under a condition on the steps.** Each action
adds `out a` to the history, and the invariant may speak about all of it. -/
theorem invariant_history_along {β : Type*} {out : A → List β} {Inv : List β → σ → Prop}
    {ok : σ → A → Prop}
    (hstep : ∀ P s a s', Inv P s → ok s a → step s a = some s' → Inv (P ++ out a) s') :
    ∀ {as : List A} {P : List β} {s s' : σ}, Along step ok as s → run step as s = some s' →
      Inv P s → Inv (P ++ as.flatMap out) s' := by
  intro as
  induction as with
  | nil =>
    intro P s s' _ h hi
    cases h
    simpa using hi
  | cons a as ih =>
    intro P s s' hok h hi
    obtain ⟨t, ht, hrun⟩ := run_cons_eq_some.mp h
    have := ih (hok.2 t ht) hrun (hstep P s a t hi hok.1 ht)
    rwa [List.append_assoc] at this

/-- **The invariant rule for a system with a history.** -/
theorem invariant_history {β : Type*} {out : A → List β} {Inv : List β → σ → Prop}
    (hstep : ∀ P s a s', Inv P s → step s a = some s' → Inv (P ++ out a) s') {as : List A}
    {P : List β} {s s' : σ} (h : run step as s = some s') (hi : Inv P s) :
    Inv (P ++ as.flatMap out) s' :=
  invariant_history_along (fun P s a s' hi (_ : True) hs => hstep P s a s' hi hs)
    (along_of_forall (fun _ _ => trivial) as s) h hi

/-- **The invariant rule under a condition on the steps.** -/
theorem invariant_along {Inv : σ → Prop} {ok : σ → A → Prop}
    (hstep : ∀ s a s', Inv s → ok s a → step s a = some s' → Inv s') {as : List A} {s s' : σ}
    (hok : Along step ok as s) (h : run step as s = some s') (hi : Inv s) : Inv s' :=
  @invariant_history_along _ _ step Unit (fun _ => []) (fun _ => Inv) ok
    (fun _ s a s' hi hok hs => hstep s a s' hi hok hs) as [] s s' hok h hi

/-- **The invariant rule.** -/
theorem invariant {Inv : σ → Prop} (hstep : ∀ s a s', Inv s → step s a = some s' → Inv s')
    {as : List A} {s s' : σ} (h : run step as s = some s') (hi : Inv s) : Inv s' :=
  invariant_along (fun s a s' hi (_ : True) hs => hstep s a s' hi hs)
    (along_of_forall (fun _ _ => trivial) as s) h hi

/-- **Exactness.** If a step from a good state leads to a good state exactly when it meets a
condition, then a run meets the condition along its way exactly when it passes through good states
only. -/
theorem along_iff_forall_prefix {Good : σ → Prop} {ok : σ → A → Prop}
    (hstep : ∀ s a t, Good s → step s a = some t → (ok s a ↔ Good t)) {as : List A} {s s' : σ}
    (h : run step as s = some s') (hi : Good s) :
    Along step ok as s ↔ ∀ bs cs t, as = bs ++ cs → run step bs s = some t → Good t := by
  constructor
  · rintro hok bs cs t rfl hrun
    exact invariant_along (fun s a t hs hok ht => (hstep s a t hs ht).mp hok)
      (along_append.mp hok).1 hrun hi
  · induction as generalizing s with
    | nil => exact fun _ => trivial
    | cons a as ih =>
      intro hall
      obtain ⟨t, ht, hrun⟩ := run_cons_eq_some.mp h
      have hgood : Good t := hall [a] as t rfl (run_cons_eq_some.mpr ⟨t, ht, rfl⟩)
      refine ⟨(hstep s a t hi ht).mpr hgood, fun t' ht' => ?_⟩
      obtain rfl : t = t' := Option.some.inj (ht.symm.trans ht')
      refine ih hrun hgood fun bs cs u heq hu => ?_
      exact hall (a :: bs) cs u (by rw [heq]; rfl) (run_cons_eq_some.mpr ⟨t, ht, hu⟩)

/-- **The progress rule.** If in every state short of the goal some step of a kind is enabled, keeps
the invariant and lowers a measure, then steps of that kind lead to the goal. -/
theorem exists_run_of_measure {kind : A → Prop} {Inv goal : σ → Prop} (μ : σ → ℕ)
    (hstep : ∀ s, Inv s → ¬ goal s →
      ∃ a t, kind a ∧ step s a = some t ∧ Inv t ∧ μ t < μ s) {s : σ} (hi : Inv s) :
    ∃ as t, (∀ a ∈ as, kind a) ∧ run step as s = some t ∧ Inv t ∧ goal t := by
  induction hn : μ s using Nat.strongRecOn generalizing s with
  | ind n ih =>
    by_cases hgoal : goal s
    · exact ⟨[], s, fun a ha => absurd ha List.not_mem_nil, rfl, hi, hgoal⟩
    · obtain ⟨a, t, ha, ht, hti, hlt⟩ := hstep s hi hgoal
      obtain ⟨as, u, has, hrun, hui, hu⟩ := ih (μ t) (hn ▸ hlt) hti rfl
      exact ⟨a :: as, u, List.forall_mem_cons.mpr ⟨ha, has⟩,
        run_cons_eq_some.mpr ⟨t, ht, hrun⟩, hui, hu⟩

end Runs
