import Bud.Agent.RepositoryWrites

/-!
# A lease that is over stays over

A worker that has been given an invocation shows its lease with every call: the invocation, a fence
and its own name. The fence goes up at every claim, and at most of what takes an invocation away
from a worker; the rest only clears the worker (`defer`, `finish`). Either way the row has gone
beyond the lease (`Stale`), and it never comes back, since the fence does not go down and a worker
is only ever set by a claim, which raises it.
-/

namespace Bud.Repository

open Invocation Transaction Relation Option

variable {s t : Store} {cap : ℕ} {act : Act} {id : ℕ} {entry : Entry} {lease : Lease}
  {row row' row'' : Row}

/-! ### The order of the rows -/

/-- The fence has gone up, or it is the same and the worker is too, or there is none any more. -/
def FenceLe (row row' : Row) : Prop :=
  row.fence < row'.fence ∨
    row'.fence = row.fence ∧ (row'.workerId = row.workerId ∨ row'.workerId = none)

theorem FenceLe.rfl : FenceLe row row := .inr ⟨Eq.refl _, .inl (Eq.refl _)⟩

theorem FenceLe.trans (h : FenceLe row row') (h' : FenceLe row' row'') : FenceLe row row'' := by
  rcases h with h | ⟨hfence, hworker⟩
  · rcases h' with h' | ⟨hfence', _⟩
    · exact .inl (Nat.lt_trans h h')
    · exact .inl (hfence' ▸ h)
  · rcases h' with h' | ⟨hfence', hworker' | hworker'⟩
    · exact .inl (hfence ▸ h')
    · exact .inr ⟨hfence'.trans hfence, hworker' ▸ hworker⟩
    · exact .inr ⟨hfence'.trans hfence, .inr hworker'⟩

theorem FenceLe.fence_le (h : FenceLe row row') : row.fence ≤ row'.fence := by
  rcases h with h | ⟨h, _⟩
  · exact Nat.le_of_lt h
  · exact Nat.le_of_eq h.symm

theorem fenceLe_update (method : Method) (choice : Choice) :
    FenceLe row (method.update row row choice) := by
  cases method with
  | heartbeat | start | recordAction | expireQueued => exact .rfl
  | defer | finish => exact .inr ⟨rfl, .inr rfl⟩
  | parkBrowserHandoff | parkQuestion | abandonReviewed | recoverEnded | recoverExpired =>
    exact .inl (Nat.lt_succ_self _)
  | requestCancel =>
    by_cases hrunning : row.status = .running
    · simp only [Method.update, hrunning, if_true]
      exact .rfl
    · simp only [Method.update, hrunning, if_false]
      exact .inl (Nat.lt_succ_self _)

theorem Moved.fenceLe (h : Moved cap act s id entry row) : FenceLe entry.row row := by
  cases h with
  | same | elapse | superseded => exact .rfl
  | method => exact fenceLe_update _ _
  | lease => exact .inl (Nat.lt_succ_self _)

/-- The invocation is still there, and its row has moved on. -/
def After (id : ℕ) (row : Row) (t : Store) : Prop :=
  ∃ entry, t.invocations[id]? = some entry ∧ FenceLe row entry.row

theorem After.write (h : After id row s) (hwrite : Write cap act s t) : After id row t := by
  obtain ⟨entry, hentry, hle⟩ := h
  obtain ⟨row', hentry', hmoved⟩ := hwrite.moved hentry
  exact ⟨_, hentry', hle.trans hmoved.fenceLe⟩

theorem FenceLe.of_run (h : Runs.run (step cap) acts s = some t)
    (hentry : s.invocations[id]? = some entry) : After id entry.row t :=
  invariant_of_write (fun _ _ _ hs hwrite => hs.write hwrite) h ⟨entry, hentry, .rfl⟩

/-! ### Stale leases -/

def Stale (lease : Lease) (row : Row) : Prop :=
  lease.fence < row.fence ∨ lease.fence = row.fence ∧ row.workerId = none

theorem Stale.mono (h : Stale lease row) (hle : FenceLe row row') : Stale lease row' := by
  rcases h with h | ⟨hfence, hworker⟩
  · exact .inl (Nat.lt_of_lt_of_le h hle.fence_le)
  · rcases hle with hle | ⟨hfence', hworker' | hworker'⟩
    · exact .inl (hfence ▸ hle)
    · exact .inr ⟨hfence.trans hfence'.symm, hworker'.trans hworker⟩
    · exact .inr ⟨hfence.trans hfence'.symm, hworker'⟩

theorem stale_of_le (hle : lease.fence ≤ row.fence)
    (h : row'.fence = row.fence + 1 ∨ row'.fence = row.fence ∧ row'.workerId = none) :
    Stale lease row' := by
  rcases h with h | ⟨hfence, hworker⟩
  · exact .inl (by omega)
  · rcases Nat.lt_or_eq_of_le hle with hlt | heq
    · exact .inl (by omega)
    · exact .inr ⟨by omega, hworker⟩

theorem eq_of_matches (h : lease.matches identity row now = true) :
    row.fence = lease.fence ∧ row.workerId = lease.workerId ∧ lease.workerId ≠ none := by
  simp only [Lease.matches, Bool.and_eq_true, decide_eq_true_eq] at h
  refine ⟨h.1.1.1.2, h.1.2, ?_⟩
  rintro hnone
  simp [hnone] at h

theorem Stale.not_matches (h : Stale lease row) : lease.matches identity row now ≠ true := by
  intro hmatches
  obtain ⟨hfence, hworker, hsome⟩ := eq_of_matches hmatches
  rcases h with h | ⟨_, hnone⟩
  · omega
  · exact hsome (hworker.symm.trans hnone)

/-! ### A stale lease is refused -/

theorem throws_of_lockedLease (hentry : s.invocations[lease.id]? = some entry)
    (h : Stale lease entry.row) :
    Throws (lockedLease lease statuses allowCancellation >>= f) s := by
  refine throws_iff.mpr (post_bind.mpr (post_lockedLease.mpr ?_))
  intro found hfound hmatches
  obtain rfl : entry = found := some.inj (hentry.symm.trans hfound)
  exact (h.not_matches hmatches).elim

theorem throws_of_parkRequest {choice : RequestChoice}
    (hentry : s.invocations[lease.id]? = some entry) (h : Stale lease entry.row) :
    Throws (parkRequest tool lease callId clientId choice) s := by
  refine throws_iff.mpr ?_
  simp only [parkRequest, requestInTransaction, post_bind, post_check, post_get, post_require,
    post_ite, post_option_forM, post_throw, implies_true, and_true, filter_eq_some_iff,
    entry?_eq_some, Bool.and_eq_true, decide_eq_true_eq]
  rintro _ found ⟨⟨hfound, _⟩, _⟩
  obtain rfl : entry = found := some.inj (hentry.symm.trans hfound)
  have hrefused : entry.row.workerId = some (lease.workerId.getD "") →
      entry.row.fence ≠ lease.fence := by
    intro hworker hfence
    rcases h with h | ⟨_, hnone⟩
    · omega
    · rw [hnone] at hworker
      cases hworker
  constructor
  · intro _ _ hrunning
    exact (hrefused hrunning.1.1.1.2 hrunning.1.1.2).elim
  · intro _ hrunning
    exact (hrefused hrunning.1.1.1.2 hrunning.1.1.2).elim

/-- **A stale lease is refused by every method.** -/
theorem throws_of_stale (hlease : act.lease? = some lease)
    (hentry : s.invocations[lease.id]? = some entry) (h : Stale lease entry.row) :
    Throws (perform cap act) s := by
  cases act with
  | defer =>
    obtain rfl := some.inj hlease
    refine throws_iff.mpr (post_bind.mpr (post_check.mpr fun _ => ?_))
    exact throws_iff.mp (throws_of_lockedLease hentry h)
  | parkAppDataRequest | parkAutomationProposal | parkBootstrapProposal =>
    obtain rfl := some.inj hlease
    exact throws_of_parkRequest hentry h
  | heartbeat | start | recordAction | completeAction | finish | parkBrowserHandoff
  | parkUserBrowserHandoff | parkQuestion | prepareQuestionContinuation =>
    obtain rfl := some.inj hlease
    exact throws_of_lockedLease hentry h
  | admission | claim | requestCancel | abandonReviewed | expireQueued | recoverExpired | tick
  | outside => cases hlease

/-! ### What takes an invocation away -/

/-- The act claims the invocation again, parks it, cancels it while it is leased, recovers it or
finishes it: it changes its row from `row` to `row'`. -/
def Displaces (row row' : Row) : Act → Prop
  | .claim _ _ _ => row' ≠ row ∧ row'.status = .leased
  | .parkBrowserHandoff _ _ _ | .parkUserBrowserHandoff _ _ | .parkQuestion _ _ _
  | .parkAppDataRequest _ _ _ _ | .parkAutomationProposal _ _ _ _
  | .parkBootstrapProposal _ _ _ _ | .finish _ _ _ | .recoverExpired _ _ => row' ≠ row
  | .requestCancel _ _ => row' ≠ row ∧ row.status = .leased
  | _ => False

/-- On the way from `row`, an act that displaces its leases has either done nothing yet, or made
them stale; a claim may also have found that it is too late to start. -/
def Passed (lease : Lease) (row row' : Row) (act : Act) : Prop :=
  row' = row ∨ Stale lease row' ∨ row'.status = .expired ∧ ∃ w c a, act = .claim w c a

theorem stale_of_applies {choice : Choice} (hle : lease.fence ≤ row.fence)
    (hdisplaces : Displaces row row'' act) (happlies : act.Applies id status method) :
    Stale lease (method.update row row choice) := by
  refine stale_of_le hle ?_
  cases act with
  | parkBrowserHandoff | parkUserBrowserHandoff | parkQuestion | parkAppDataRequest
  | parkAutomationProposal | parkBootstrapProposal =>
    obtain ⟨_, rfl⟩ := happlies
    exact .inl rfl
  | finish =>
    obtain ⟨_, rfl⟩ := happlies
    exact .inr ⟨rfl, rfl⟩
  | recoverExpired =>
    rcases happlies with rfl | rfl
    · exact .inl rfl
    · exact .inl rfl
  | requestCancel =>
    obtain ⟨_, rfl⟩ := happlies
    have hleased : row.status ≠ .running := by
      rw [hdisplaces.2]
      decide
    exact .inl (by simp [Method.update, Row.released, hleased])
  | claim => exact happlies.elim
  | admission | heartbeat | start | defer | recordAction | completeAction
  | prepareQuestionContinuation | abandonReviewed | expireQueued | tick | outside =>
    exact hdisplaces.elim

theorem status_of_claimable (h : s.claimable cap id entry = true) :
    entry.row.status ∈ queued ++ [.waitingForUser] := by
  simp only [Store.claimable, Bool.and_eq_true, Bool.or_eq_true, decide_eq_true_eq] at h
  rcases h.1.1.1.1.1.1 with hqueued | ⟨hwaiting, _⟩
  · exact List.mem_append_left _ hqueued
  · exact List.mem_append_right _ (List.mem_singleton.mpr hwaiting)

theorem Passed.write (hle : lease.fence ≤ row.fence) (hdisplaces : Displaces row last act)
    (h : Passed lease row entry.row act) (hmoved : Moved cap act s id entry row') :
    Passed lease row row' act := by
  rcases h with heq | hstale | ⟨hexpired, hclaim⟩
  · cases hmoved with
    | same => exact .inl heq
    | method happlies =>
      rw [heq]
      exact .inr (.inl (stale_of_applies hle hdisplaces happlies))
    | lease => exact .inr (.inl (.inl (Nat.lt_succ_of_le (heq ▸ hle))))
    | elapse hact => exact .inr (.inr ⟨rfl, _, _, _, hact⟩)
    | superseded hact =>
      subst hact
      exact hdisplaces.elim
  · exact .inr (.inl (hstale.mono hmoved.fenceLe))
  · obtain ⟨w, c, a, rfl⟩ := hclaim
    cases hmoved with
    | same => exact .inr (.inr ⟨hexpired, _, _, _, rfl⟩)
    | method happlies => exact happlies.elim
    | lease _ hclaimable | elapse _ hclaimable =>
      have hstatus := status_of_claimable hclaimable
      rw [hexpired] at hstatus
      exact absurd hstatus (by decide)
    | superseded hact => cases hact

/-- **What takes an invocation away leaves its leases stale.** -/
theorem stale_of_displaces (hstep : step cap s act = some t)
    (hentry : s.invocations[id]? = some entry) (hentry' : t.invocations[id]? = some entry')
    (hle : lease.fence ≤ entry.row.fence) (h : Displaces entry.row entry'.row act) :
    Stale lease entry'.row := by
  have hpassed : ∃ found, t.invocations[id]? = some found ∧
      Passed lease entry.row found.row act := by
    refine invariant_of_writes (I := fun u => ∃ found, u.invocations[id]? = some found ∧
      Passed lease entry.row found.row act) ?_ (writes_of_step hstep) ⟨entry, hentry, .inl rfl⟩
    rintro u v ⟨found, hfound, hpassed⟩ hwrite
    obtain ⟨row', hrow', hmoved⟩ := hwrite.moved hfound
    exact ⟨_, hrow', hpassed.write hle h hmoved⟩
  obtain ⟨found, hfound, hpassed⟩ := hpassed
  obtain rfl : entry' = found := some.inj (hentry'.symm.trans hfound)
  have hne : entry'.row ≠ entry.row := by
    cases act with
    | claim | requestCancel => exact h.1
    | parkBrowserHandoff | parkUserBrowserHandoff | parkQuestion | parkAppDataRequest
    | parkAutomationProposal | parkBootstrapProposal | finish | recoverExpired => exact h
    | admission | heartbeat | start | defer | recordAction | completeAction
    | prepareQuestionContinuation | abandonReviewed | expireQueued | tick | outside =>
      exact h.elim
  rcases hpassed with heq | hstale | ⟨hexpired, _, _, _, rfl⟩
  · exact (hne heq).elim
  · exact hstale
  · exact absurd (hexpired.symm.trans h.2) (by decide)

/-! ### The guarantees -/

variable (cap) in
/-- **Lease fencing.** From whatever state, the fence of an invocation never goes down, and goes up
at every claim; at most one worker with one fence passes `lockedLease`; and once an invocation has
been claimed again, parked, cancelled while leased, recovered or finished, every method that is
called with a lease from before throws and leaves everything as it was. -/
theorem lease_fencing (s : Store) :
    (∀ acts t (id : ℕ) (entry : Entry), Runs.run (step cap) acts s = some t →
      s.invocations[id]? = some entry →
      ∃ entry' : Entry, t.invocations[id]? = some entry' ∧
        entry.row.fence ≤ entry'.row.fence) ∧
    (∀ workerId candidate acquired lease t,
      (claim cap workerId candidate acquired).run s = .ok (some lease, t) →
      ∃ entry entry', s.invocations[lease.id]? = some entry ∧
        t.invocations[lease.id]? = some entry' ∧ entry'.row.fence = entry.row.fence + 1 ∧
        lease = entry'.lease lease.id) ∧
    (∀ lease lease' statuses statuses' allowCancellation allowCancellation',
      ¬ Throws (lockedLease lease statuses allowCancellation) s →
      ¬ Throws (lockedLease lease' statuses' allowCancellation') s → lease.id = lease'.id →
      lease.workerId = lease'.workerId ∧ lease.fence = lease'.fence) ∧
    ∀ workerId candidate acquired lease s₁ acts s₂ act s₃ (entry entry' : Entry) acts' s₄ guarded,
      (claim cap workerId candidate acquired).run s = .ok (some lease, s₁) →
      Runs.run (step cap) acts s₁ = some s₂ → s₂.invocations[lease.id]? = some entry →
      step cap s₂ act = some s₃ → s₃.invocations[lease.id]? = some entry' →
      Displaces entry.row entry'.row act → Runs.run (step cap) acts' s₃ = some s₄ →
      guarded.lease? = some lease →
      Throws (perform cap guarded) s₄ ∧ step cap s₄ guarded = some s₄ := by
  refine ⟨?_, ?_, ?_, ?_⟩
  · intro acts t id entry hrun hentry
    obtain ⟨entry', hentry', hle⟩ := FenceLe.of_run hrun hentry
    exact ⟨entry', hentry', hle.fence_le⟩
  · intro workerId candidate acquired lease t hclaim
    obtain ⟨entry, entry', hentry, _, hrest⟩ := post_claim _ _ hclaim lease rfl
    exact ⟨entry, entry', hentry, hrest⟩
  · intro lease lease' statuses statuses' allowCancellation allowCancellation' h h' hid
    rw [throws_iff, post_lockedLease] at h h'
    push Not at h h'
    obtain ⟨entry, hentry, hmatches, _⟩ := h
    obtain ⟨entry', hentry', hmatches', _⟩ := h'
    obtain rfl : entry = entry' := some.inj (hentry.symm.trans (hid ▸ hentry'))
    obtain ⟨hfence, hworker, _⟩ := eq_of_matches hmatches
    obtain ⟨hfence', hworker', _⟩ := eq_of_matches hmatches'
    exact ⟨hworker.symm.trans hworker', hfence.symm.trans hfence'⟩
  · intro workerId candidate acquired lease s₁ acts s₂ act s₃ entry entry' acts' s₄ guarded hclaim
      hrun hentry hstep hentry' hdisplaces hrun' hlease
    obtain ⟨_, issued, _, _, hissued, _, heq⟩ := post_claim _ _ hclaim lease rfl
    have hle : lease.fence ≤ entry.row.fence := by
      obtain ⟨found, hfound, hle⟩ := FenceLe.of_run hrun hissued
      obtain rfl : entry = found := some.inj (hentry.symm.trans hfound)
      rw [heq]
      exact hle.fence_le
    have hstale := stale_of_displaces hstep hentry hentry' hle hdisplaces
    obtain ⟨last, hlast, hmoved⟩ := FenceLe.of_run hrun' hentry'
    have hthrows : Throws (perform cap guarded) s₄ :=
      throws_of_stale hlease hlast (hstale.mono hmoved)
    exact ⟨hthrows, congrArg some (after_of_throws hthrows)⟩

def exampleStore : Store :=
  after (admission exampleAdmission "c") (Store.empty 0 exampleTables)

/-- The first worker does not come back in time, its lease is recovered, and the turn is given to a
second one. What the first worker then tries is refused. -/
theorem lease_fencing_reclaimed : ∃ s₁ s₂ s₃ s₄,
    (claim 1 "w" 0 true).run exampleStore = .ok (some exampleLease, s₁) ∧
    Runs.run (step 1) [.tick 60] s₁ = some s₂ ∧
    step 1 s₂ (.recoverExpired [] [0]) = some s₃ ∧
    Runs.run (step 1) [.claim "v" 0 true] s₃ = some s₄ ∧
    Throws (perform 1 (.heartbeat exampleLease)) s₄ ∧
    step 1 s₄ (.heartbeat exampleLease) = some s₄ := by
  refine ⟨_, _, _, _, rfl, rfl, rfl, rfl, ?_⟩
  refine (lease_fencing 1 exampleStore).2.2.2 "w" 0 true exampleLease _ [.tick 60] _
    (.recoverExpired [] [0]) _ _ _ [.claim "v" 0 true] _ (.heartbeat exampleLease) rfl rfl rfl rfl
    rfl ?_ rfl rfl
  intro heq
  exact absurd (congrArg Row.fence heq) (by decide)

end Bud.Repository
