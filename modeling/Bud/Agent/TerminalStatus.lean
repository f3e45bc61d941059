import Bud.Agent.InvocationSteps

/-!
# Terminal statuses

An invocation that has succeeded, failed, been canceled or expired stays so, and one whose
cancellation has been requested is not leased, started or brought to success any more, as long as
the row that `claim` writes is still one it may take (`Untouched`).

Every other method locks the row before it looks at it, and none of them writes a row that is
terminal. `claim` looks at the row without locking it, and writes it without looking again. A
cancellation, an expiry or a recovery that is committed in between is lost.
-/

namespace Bud.Invocation

open ReadCommitted Invocation

variable {cap : ℕ} {s t : Sys} {act : Act} {tx id : ℕ} {row row' row'' : Row}

/-! ### What may become of a row -/

/-- A row whose cancellation has been requested is canceled, or running until its worker notices. -/
def CancelOk (row : Row) : Prop :=
  row.cancelRequestedAt ≠ none → row.status = .canceled ∨ row.status = .running

/-- What may become of `row`: it keeps a terminal status, and after a request to cancel it is
canceled, or goes on running where it ran already. -/
def Later (row row' : Row) : Prop :=
  (row.status ∈ terminal → row'.status = row.status) ∧
    (row.cancelRequestedAt ≠ none → row'.cancelRequestedAt ≠ none ∧
      (row'.status = .canceled ∨ row.status = .running ∧ row'.status = .running))

theorem Later.refl (h : CancelOk row) : Later row row := by
  refine ⟨fun _ => rfl, fun hcancel => ⟨hcancel, ?_⟩⟩
  obtain hcanceled | hrunning := h hcancel
  · exact Or.inl hcanceled
  · exact Or.inr ⟨hrunning, hrunning⟩

theorem Later.trans (h : Later row row') (h' : Later row' row'') : Later row row'' := by
  refine ⟨fun hterminal => ?_, fun hcancel => ?_⟩
  · have hstatus := h.1 hterminal
    exact (h'.1 (hstatus ▸ hterminal)).trans hstatus
  · obtain ⟨hcancel', hstatus⟩ := h.2 hcancel
    obtain ⟨hcancel'', hcanceled | ⟨hrunning, hrunning'⟩⟩ := h'.2 hcancel'
    · exact ⟨hcancel'', Or.inl hcanceled⟩
    · obtain hcanceled | ⟨hbefore, -⟩ := hstatus
      · exact absurd (hcanceled.symm.trans hrunning) (by decide)
      · exact ⟨hcancel'', Or.inr ⟨hbefore, hrunning'⟩⟩

/-! ### What methods make of a row -/

/-- A method that leaves the request to cancel as it is, and cancels where there is one. -/
theorem later_of_keeps (hstatus : row.status ∉ terminal)
    (hcancel : row'.cancelRequestedAt = row.cancelRequestedAt)
    (hcanceled : row.cancelRequestedAt ≠ none → row'.status = .canceled) :
    CancelOk row' ∧ Later row row' := by
  have hcanceled' : row'.cancelRequestedAt ≠ none → row'.status = .canceled := by
    rw [hcancel]
    exact hcanceled
  refine ⟨fun h => Or.inl (hcanceled' h), fun h => absurd h hstatus, fun h => ?_⟩
  exact ⟨hcancel ▸ h, Or.inl (hcanceled h)⟩

/-- A method that cancels, or leaves a running invocation with the request. -/
theorem later_of_cancels (hstatus : row.status ∉ terminal) (hcancel : row'.cancelRequestedAt ≠ none)
    (hcanceled : row'.status = .canceled ∨ row.status = .running ∧ row'.status = .running) :
    CancelOk row' ∧ Later row row' := by
  refine ⟨fun _ => hcanceled.imp_right And.right, fun h => absurd h hstatus, fun _ => ?_⟩
  exact ⟨hcancel, hcanceled⟩

/-- A method that gives up where a cancellation has been requested. -/
theorem later_of_lease (h : lockedLease lease identity row now statuses false .write = .write)
    (hdisjoint : ∀ status ∈ statuses, status ∉ terminal)
    (hcancel : row'.cancelRequestedAt = row.cancelRequestedAt) :
    CancelOk row' ∧ Later row row' := by
  obtain ⟨hstatus, hnone | hallowed, -⟩ := lockedLease_eq_write h
  · exact later_of_keeps (hdisjoint _ hstatus) hcancel fun hne => absurd hnone hne
  · cases hallowed

theorem or_some_ne_none (requestedAt : Option ℕ) (now : ℕ) : requestedAt.or (some now) ≠ none := by
  cases requestedAt with
  | none | some _ => simp

/-- **A method** makes of a row only what may become of it. -/
theorem Method.later {method : Method} (hok : CancelOk row)
    (h : method.next identity row choice = .write) :
    CancelOk (method.update row row choice') ∧ Later row (method.update row row choice') := by
  cases method with
  | heartbeat lease | start lease | defer lease status delaySeconds | parkBrowserHandoff lease
  | parkQuestion lease => exact later_of_lease h (by decide) rfl
  | recordAction lease => exact absurd (lockedLease_eq_write h).2.2 (by decide)
  | finish lease status outcomeCode =>
    have hdisjoint : ∀ status ∈ [Status.leased, .running], status ∉ terminal := by decide
    refine later_of_keeps (hdisjoint _ (lockedLease_eq_write h).1) rfl fun hcancel => ?_
    exact if_pos (Option.isSome_iff_ne_none.mpr hcancel)
  | requestCancel owner =>
    rw [Method.next] at h
    split at h
    · cases h
    · split at h
      · cases h
      · next hstatus =>
        rw [Method.update]
        split
        · next hrunning =>
          exact later_of_cancels hstatus (or_some_ne_none _ _) (Or.inr ⟨hrunning, hrunning⟩)
        · exact later_of_cancels hstatus (or_some_ne_none _ _) (Or.inl rfl)
  | abandonReviewed owner expectedUpdatedAt =>
    rw [Method.next] at h
    split at h
    · cases h
    · split at h
      · cases h
      · split at h
        · cases h
        · next hreview =>
          have hstatus : row.status = .needsReview := by
            by_contra hne
            exact hreview (Or.inl hne)
          refine later_of_cancels ?_ (or_some_ne_none _ _) (Or.inl rfl)
          rw [hstatus]
          decide
  | expireQueued =>
    have hqueued := swept_eq_write h
    rw [Bool.and_eq_true, Bool.and_eq_true, decide_eq_true_eq] at hqueued
    have hdisjoint : ∀ status ∈ queued, status ∉ terminal ∧ status ≠ .canceled ∧
        status ≠ .running := by decide
    obtain ⟨hstatus, hcanceled, hrunning⟩ := hdisjoint _ hqueued.1.1
    refine later_of_keeps hstatus rfl fun hcancel => ?_
    exact absurd (hok hcancel) (not_or.mpr ⟨hcanceled, hrunning⟩)
  | recoverEnded =>
    have hswept := swept_eq_write h
    rw [Bool.and_eq_true, decide_eq_true_eq] at hswept
    have hdisjoint : ∀ status ∈ [Status.waitingForUser, .waitingForBud, .waitingForModel,
        .retryWait], status ∉ terminal := by decide
    exact later_of_keeps (hdisjoint _ hswept.1) rfl fun _ => rfl
  | recoverExpired =>
    have hswept := swept_eq_write h
    rw [Bool.and_eq_true, decide_eq_true_eq] at hswept
    have hdisjoint : ∀ status ∈ [Status.leased, .running], status ∉ terminal := by decide
    refine later_of_keeps (hdisjoint _ hswept.1) rfl fun hcancel => ?_
    exact if_pos (Option.isSome_iff_ne_none.mpr hcancel)

/-! ### The condition -/

/-- The row is one that `claim` may take: what it checks when it reads the row. -/
def Takeable (row : Row) : Prop :=
  row.cancelRequestedAt = none ∧ row.status ∈ queued ++ [.waitingForUser]

instance (row : Row) : Decidable (Takeable row) := inferInstanceAs (Decidable (_ ∧ _))

def UntouchedBy (s : Sys) (tx : ℕ) : Claim → Prop
  | .lease _ id _ => ∀ row ∈ s.db.visible tx id, Takeable row
  | .expire id _ => ∀ row ∈ s.db.visible tx id, Takeable row ∨ row.status = .expired
  | _ => True

instance (s : Sys) (tx : ℕ) : ∀ claim, Decidable (UntouchedBy s tx claim)
  | .lease _ id _ => inferInstanceAs (Decidable (∀ row ∈ s.db.visible tx id, Takeable row))
  | .expire id _ => inferInstanceAs (Decidable (∀ row ∈ s.db.visible tx id,
      Takeable row ∨ row.status = .expired))
  | .candidate _ | .lockThread .. | .reread .. | .active .. | .tryCapacity .. | .capacity ..
  | .done => .isTrue trivial

/-- When `claim` writes a row, it still is one that `claim` may take; a row that `claim` is about to
expire may have been expired already. -/
def Untouched (s : Sys) (act : Act) : Prop := OnClaim UntouchedBy s act

instance (s : Sys) (act : Act) : Decidable (Untouched s act) :=
  inferInstanceAs (Decidable (OnClaim UntouchedBy s act))

theorem Takeable.notMem_terminal (h : Takeable row) : row.status ∉ terminal :=
  (by decide : ∀ status ∈ queued ++ [.waitingForUser], status ∉ terminal) _ h.2

/-- **A write** makes of a row only what may become of it. -/
theorem Wrote.later (h : Wrote s tx id row row') (hok : CancelOk row)
    (huntouched : ∀ claim, s.transaction tx = some (.claim claim) → UntouchedBy s tx claim)
    (hrow : s.db.visible tx id = some row) : CancelOk row' ∧ Later row row' := by
  cases h with
  | method hnext => exact Method.later hok hnext
  | outcome outcomeCode => exact ⟨hok, Later.refl hok⟩
  | expire now htx =>
    obtain htakeable | hexpired := huntouched _ htx row hrow
    · exact later_of_keeps htakeable.notMem_terminal rfl fun hcancel => absurd htakeable.1 hcancel
    · have hnone : row.cancelRequestedAt = none := by
        by_contra hne
        have hstatus := hok hne
        rw [hexpired] at hstatus
        exact absurd hstatus (by decide)
      refine ⟨fun hcancel => absurd hnone hcancel, fun _ => hexpired.symm, fun hcancel => ?_⟩
      exact absurd hnone hcancel
  | lease now htx =>
    have htakeable : Takeable row := huntouched _ htx row hrow
    exact later_of_keeps htakeable.notMem_terminal rfl fun hcancel => absurd htakeable.1 hcancel

/-! ### The invariant -/

structure Settled (s : Sys) : Prop where
  locked : Locked s
  cancelOk : ∀ id row, Version s.db id row → CancelOk row
  /-- What a transaction has written over a row may become of it. -/
  later : ∀ id row row', s.db.committed id = some row → s.db.draft id = some row' → Later row row'

theorem Settled.init : Settled init where
  locked := Locked.init
  cancelOk := by
    rintro id row (h | h)
    · cases h
    · cases h
  later := fun _ _ _ h => by cases h

theorem Settled.later_visible (h : Settled s) (hcommitted : s.db.committed id = some row)
    (hvisible : s.db.visible tx id = some row') : Later row row' := by
  rw [Db.visible] at hvisible
  have hrefl : s.db.committed id = some row' → Later row row' := by
    intro hcommitted'
    cases hcommitted.symm.trans hcommitted'
    exact Later.refl (h.cancelOk id row (Or.inl hcommitted))
  split at hvisible
  · obtain hdraft | ⟨-, hcommitted'⟩ := Option.or_eq_some_iff.mp hvisible
    · exact h.later id row row' hcommitted hdraft
    · exact hrefl hcommitted'
  · exact hrefl hvisible

/-! ### Steps -/

theorem Settled.wrote (h : Settled s) (huntouched : Untouched s act) (hstep : Stepped cap s act t)
    (hrow : s.db.visible act.tx id = some row) (hlock : t.db.rowLock id = some act.tx)
    (hwrote : Wrote s act.tx id row row') : CancelOk row' ∧ Later row row' :=
  hwrote.later (h.cancelOk id row (Version.of_visible hrow))
    (fun _ htx => huntouched.of_rowLock hstep htx hlock) hrow

theorem Settled.cancelOk_of_step (h : Settled s) (huntouched : Untouched s act)
    (hstep : Stepped cap s act t) (hversion : Version t.db id row) : CancelOk row := by
  have heffect := effect_of_step h.locked hstep
  obtain hold | ⟨-, -, now, rfl⟩ | ⟨old, hvisible, hlock, hwrote⟩ := heffect.version hversion
  · exact h.cancelOk id row hold
  · exact fun hcancel => absurd rfl hcancel
  · exact (h.wrote huntouched hstep hvisible hlock hwrote).1

theorem Settled.later_of_step (h : Settled s) (huntouched : Untouched s act)
    (hstep : Stepped cap s act t) (hcommitted : t.db.committed id = some row)
    (hdraft : t.db.draft id = some row') : Later row row' := by
  cases effect_of_step h.locked hstep with
  | gains hgains =>
    rw [hgains.committed] at hcommitted
    rw [hgains.draft] at hdraft
    exact h.later id row row' hcommitted hdraft
  | @wrote k old new hfree hvisible hdb hwrote =>
    have hcommitted' : s.db.committed id = some row := by rwa [hdb] at hcommitted
    rw [hdb] at hdraft
    by_cases heq : id = k
    · subst heq
      have hlock : t.db.rowLock id = some act.tx := by simp [hdb, Db.write]
      obtain rfl : new = row' := by simpa [Db.write] using hdraft
      exact (h.later_visible hcommitted' hvisible).trans
        (h.wrote huntouched hstep hvisible hlock hwrote).2
    · exact h.later id row row' hcommitted' ((Function.update_of_ne heq _ _).symm.trans hdraft)
  | inserted hdb =>
    have hcommitted' : s.db.committed id = some row := by rwa [hdb] at hcommitted
    have hne : id ≠ s.next := (h.locked.lt_next id (Or.inr ⟨row, Or.inl hcommitted'⟩)).ne
    rw [hdb] at hdraft
    exact h.later id row row' hcommitted' ((Function.update_of_ne hne _ _).symm.trans hdraft)
  | committed hdb =>
    rw [hdb] at hcommitted hdraft
    by_cases hlock : s.db.rowLock id = some act.tx
    · simp [Db.commit, hlock] at hdraft
    · exact h.later id row row' ((if_neg hlock).symm.trans hcommitted)
        ((if_neg hlock).symm.trans hdraft)
  | rolledBack hdb =>
    rw [hdb] at hcommitted hdraft
    by_cases hlock : s.db.rowLock id = some act.tx
    · simp [Db.rollback, hlock] at hdraft
    · exact h.later id row row' hcommitted ((if_neg hlock).symm.trans hdraft)

/-- **One action.** -/
theorem Settled.step (h : Settled s) (huntouched : Untouched s act)
    (hstep : step cap s act = some t) : Settled t := by
  have hstepped := stepped_of_step h.locked.held hstep
  exact ⟨h.locked.step hstep, fun _ _ => h.cancelOk_of_step huntouched hstepped,
    fun _ _ _ => h.later_of_step huntouched hstepped⟩

/-- **One action, and a committed row.** -/
theorem Settled.committed_of_step (h : Settled s) (hstep : Invocation.step cap s act = some t)
    (hrow : s.db.committed id = some row) :
    ∃ row', t.db.committed id = some row' ∧ Later row row' := by
  have hrefl := Later.refl (h.cancelOk id row (Or.inl hrow))
  have hstepped := stepped_of_step h.locked.held hstep
  cases effect_of_step h.locked hstepped with
  | gains hgains => exact ⟨row, by rwa [hgains.committed], hrefl⟩
  | wrote _ _ hdb | inserted hdb | rolledBack hdb => exact ⟨row, by rwa [hdb], hrefl⟩
  | committed hdb =>
    obtain ⟨row', hrow'⟩ : ∃ row', s.db.visible act.tx id = some row' := by
      rw [Db.visible, hrow]
      split
      · exact ⟨_, Option.or_some⟩
      · exact ⟨row, rfl⟩
    exact ⟨row', by rwa [hdb], h.later_visible hrow hrow'⟩

/-- **Terminal statuses are absorbing, along runs in which `claim` writes rows it may take.** A row
that is committed with a terminal status has that status ever after. One that is committed with a
request to cancel keeps the request and is canceled ever after, or still running if it was: it is
not leased, started or brought to success. -/
theorem later_of_untouched {before after : List Act} {row : Row}
    (huntouched : Runs.Along (Invocation.step cap) Untouched (before ++ after) Invocation.init)
    (hbefore : Runs.run (Invocation.step cap) before Invocation.init = some s)
    (hafter : Runs.run (Invocation.step cap) after s = some t)
    (hrow : s.db.committed id = some row) :
    ∃ row', t.db.committed id = some row' ∧
      (row.status ∈ terminal → row'.status = row.status) ∧
      (row.cancelRequestedAt ≠ none → row'.cancelRequestedAt ≠ none ∧
        (row'.status = .canceled ∨ row.status = .running ∧ row'.status = .running)) := by
  obtain ⟨hok, hok'⟩ := Runs.along_append.mp huntouched
  have hsettled : Settled s :=
    Runs.invariant_along (fun _ _ _ h hu hstep => h.step hu hstep) hok hbefore Settled.init
  have hstep : ∀ u act v, (Settled u ∧ ∃ row', u.db.committed id = some row' ∧ Later row row') →
      Untouched u act → step cap u act = some v →
      Settled v ∧ ∃ row', v.db.committed id = some row' ∧ Later row row' := by
    rintro u act v ⟨hu, row', hrow', hlater⟩ hact hstep
    obtain ⟨row'', hrow'', hlater'⟩ := hu.committed_of_step hstep hrow'
    exact ⟨hu.step hact hstep, row'', hrow'', hlater.trans hlater'⟩
  exact (Runs.invariant_along hstep (hok' s hbefore) hafter
    ⟨hsettled, row, hrow, Later.refl (hsettled.cancelOk id row (Or.inl hrow))⟩).2

/-- A turn is admitted, a worker has got to its last statement with it, and the owner cancels. -/
def claimedThenCanceled : List Act :=
  let turn : Identity := ⟨"thread", "bud", .human, "owner", none⟩
  Act.begin 0 (.admission turn) :: List.replicate 3 (Act.execute 0 (.plain 0 [])) ++
    [Act.commit 0] ++
    (Act.begin 1 (.claim "worker") :: .execute 1 (.plain 1 [0]) ::
      List.replicate 3 (Act.execute 1 (.plain 1 []))) ++
    [Act.begin 2 (.requestCancel "owner" 0), .execute 2 (.plain 2 []), .execute 2 (.plain 2 []),
      .commit 2]

/-- The worker gives up, another comes upon nothing, and the owner cancels once more. -/
def givenUp : List Act :=
  [.rollback 1, .begin 3 (.claim "other"), .execute 3 (.plain 3 []), .commit 3,
    .begin 4 (.requestCancel "owner" 0), .execute 4 (.plain 4 []), .commit 4]

/-- The turn stays canceled. -/
theorem later_of_untouched_givenUp : ∃ s t row row',
    Runs.run (Invocation.step 1) claimedThenCanceled Invocation.init = some s ∧
      Runs.run (Invocation.step 1) givenUp s = some t ∧ s.db.committed 0 = some row ∧
      row.status = .canceled ∧ t.db.committed 0 = some row' ∧ row'.status = .canceled := by
  have hrun : (Runs.run (step 1) claimedThenCanceled init).any (fun s =>
      (s.db.committed 0).any (·.status = .canceled) &&
        (Runs.run (step 1) givenUp s).isSome) = true := by decide
  obtain ⟨s, hs, hend⟩ := (Option.any_eq_true _ _).mp hrun
  rw [Bool.and_eq_true] at hend
  obtain ⟨row, hrow, hcanceled⟩ := (Option.any_eq_true _ _).mp hend.1
  obtain ⟨t, ht⟩ := Option.isSome_iff_exists.mp hend.2
  rw [decide_eq_true_eq] at hcanceled
  obtain ⟨row', hrow', hterminal, -⟩ := later_of_untouched (by decide) hs ht hrow
  refine ⟨s, t, row, row', hs, ht, hrow, hcanceled, hrow', ?_⟩
  exact (hterminal (by rw [hcanceled]; decide)).trans hcanceled

/-- If instead the worker runs its last statement, the turn that is canceled becomes leased, with
the request to cancel still there. -/
theorem leased_after_canceled : ∃ s t row row',
    Runs.run (Invocation.step 1) claimedThenCanceled Invocation.init = some s ∧
      Runs.run (Invocation.step 1) [.execute 1 (.plain 3 []), .commit 1] s = some t ∧
      s.db.committed 0 = some row ∧ row.status = .canceled ∧ row.cancelRequestedAt = some 2 ∧
      t.db.committed 0 = some row' ∧ row'.status = .leased ∧ row'.cancelRequestedAt = some 2 := by
  have hrun : (Runs.run (step 1) claimedThenCanceled init).any (fun s =>
      (s.db.committed 0).any
          (fun row => row.status = .canceled && row.cancelRequestedAt = some 2) &&
        (Runs.run (step 1) [.execute 1 (.plain 3 []), .commit 1] s).any fun t =>
          (t.db.committed 0).any fun row' =>
            row'.status = .leased && row'.cancelRequestedAt = some 2) = true := by decide
  obtain ⟨s, hs, hend⟩ := (Option.any_eq_true _ _).mp hrun
  rw [Bool.and_eq_true] at hend
  obtain ⟨row, hrow, hcanceled⟩ := (Option.any_eq_true _ _).mp hend.1
  obtain ⟨t, ht, hleased⟩ := (Option.any_eq_true _ _).mp hend.2
  obtain ⟨row', hrow', hleased⟩ := (Option.any_eq_true _ _).mp hleased
  rw [Bool.and_eq_true, decide_eq_true_eq, decide_eq_true_eq] at hcanceled hleased
  exact ⟨s, t, row, row', hs, ht, hrow, hcanceled.1, hcanceled.2, hrow', hleased.1, hleased.2⟩

end Bud.Invocation
