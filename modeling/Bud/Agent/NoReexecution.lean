import Bud.Agent.RepositoryWrites
import Bud.Agent.InvocationSteps

/-!
# No call is made twice

A worker asks `recordAction` before it makes a call, and makes it only if the method returns. The
action stays in the table for good, so a second worker, or the same one after a crash, is refused.
An invocation comes to an end only when all its actions have been recorded as completed, and one
whose worker was lost while it was running is set aside for the owner to look at: nobody knows how
far it got.
-/

namespace Bud.Repository

open Invocation Transaction Relation List Option

variable {s t : Store} {cap : ℕ} {act : Act} {id : ℕ} {entry : Entry} {row : Row}

/-! ### Calls -/

theorem Write.mem_keys (h : Write cap act s t) (hkey : key ∈ s.keys) : key ∈ t.keys := by
  cases h with
  | record =>
    simp only [Store.keys, map_append, mem_append]
    exact .inl hkey
  | @actions update hupdate =>
    obtain ⟨action, haction, rfl⟩ := mem_map.mp hkey
    exact mem_map.mpr ⟨update action, mem_map_of_mem haction, hupdate action⟩
  | method | lease | elapse | superseded | insert | tables | tick => exact hkey

theorem mem_keys_of_step (h : step cap s act = some t) (hkey : key ∈ s.keys) : key ∈ t.keys :=
  invariant_of_writes (I := fun s => key ∈ s.keys) (fun _ _ hs hwrite => hwrite.mem_keys hs)
    (writes_of_step h) hkey

variable {lease : Lease} {method : Method} {choice : Choice} {identity : Identity}

/-- A call is authorised when it has no action yet, and has one from then on. -/
theorem post_recordAction :
    Post (recordAction lease callId kind) s fun _ t =>
      (lease.id, callId) ∉ s.keys ∧ (lease.id, callId) ∈ t.keys := by
  simp only [recordAction, post_bind, post_lockedLease, post_insertAction]
  intro entry _ _ _ _ _ hnew
  exact ⟨hnew, by simp [Store.keys, Action.key]⟩

/-- The call that an act is told it may make. -/
def authorised (s : Store) : Act → List (ℕ × String)
  | .recordAction lease callId kind =>
    if (result (recordAction lease callId kind) s).isSome then [(lease.id, callId)] else []
  | _ => []

variable (cap) in
/-- The calls that have been authorised in a run. -/
def authorisations : List Act → Store → List (ℕ × String)
  | [], _ => []
  | act :: acts, s =>
    authorised s act ++ authorisations acts (after (perform cap act) s)

theorem authorised_cases (s : Store) (act : Act) :
    authorised s act = [] ∨ ∃ key, authorised s act = [key] ∧ key ∉ s.keys ∧
      key ∈ (after (perform cap act) s).keys := by
  cases act with
  | recordAction lease callId kind =>
    simp only [authorised, perform]
    split
    · obtain ⟨_, hresult⟩ := isSome_iff_exists.mp ‹_›
      exact .inr ⟨_, rfl, result_of_post post_recordAction hresult⟩
    · exact .inl rfl
  | admission | claim | heartbeat | start | defer | completeAction | finish | parkBrowserHandoff
  | parkUserBrowserHandoff | parkQuestion | parkAppDataRequest | parkAutomationProposal
  | parkBootstrapProposal | prepareQuestionContinuation | requestCancel | abandonReviewed
  | expireQueued | recoverExpired | tick | outside => exact .inl rfl

theorem nodup_authorisations (acts : List Act) (s : Store) :
    (authorisations cap acts s).Nodup ∧ ∀ key ∈ authorisations cap acts s, key ∉ s.keys := by
  induction acts generalizing s with
  | nil => exact ⟨nodup_nil, fun _ h => absurd h not_mem_nil⟩
  | cons act acts ih =>
    obtain ⟨hnodup, hnew⟩ := ih (after (perform cap act) s)
    have hkept {key : ℕ × String} (hkey : key ∈ s.keys) :
        key ∈ (after (perform cap act) s).keys := mem_keys_of_step rfl hkey
    simp only [authorisations]
    rcases authorised_cases s act with hnone | ⟨key, heq, hfirst, hafter⟩
    · rw [hnone, nil_append]
      exact ⟨hnodup, fun key hkey hmem => hnew key hkey (hkept hmem)⟩
    · rw [heq]
      constructor
      · exact nodup_cons.mpr ⟨fun hmem => hnew key hmem hafter, hnodup⟩
      · intro other hother hmem
        rcases mem_cons.mp hother with rfl | hother
        · exact hfirst hmem
        · exact hnew other hother (hkept hmem)

/-! ### Nothing pending -/

def concluded : List Status := [.succeeded, .failed]

/-- What has succeeded or failed has nothing pending. -/
def Settled (s : Store) : Prop :=
  ∀ id entry, s.invocations[id]? = some entry → entry.row.status ∈ concluded →
    s.hasPending id = false

theorem hasPending_eq_false : s.hasPending id = false ↔
    ∀ action ∈ s.actions, action.invocationId = id → action.pending = false := by
  simp [Store.hasPending]

/-- Only `finish` concludes an invocation, and only one with nothing pending. -/
theorem concluded_of_update (h : (method.update row row choice).status ∈ concluded) :
    row.status ∈ concluded ∨ choice.pending = false := by
  cases method with
  | heartbeat | recordAction => exact .inl h
  | finish =>
    by_cases hpending : choice.pending = true
    · simp only [Method.update, hpending, if_true] at h
      split at h <;> simp [concluded] at h
    · exact .inr (Bool.not_eq_true _ ▸ hpending)
  | requestCancel =>
    simp only [Method.update] at h
    split at h
    · exact .inl h
    · simp [concluded] at h
  | recoverExpired =>
    simp only [Method.update] at h
    split at h
    · simp [concluded] at h
    · split at h <;> simp [concluded] at h
  | defer _ status =>
    cases status <;> simp [Method.update, Deferral.status, concluded] at h
  | start | parkBrowserHandoff | parkQuestion | abandonReviewed | expireQueued | recoverEnded =>
    simp [Method.update, Row.parked, concluded] at h

theorem Moved.concluded (hmoved : Moved cap act s id entry row) (h : row.status ∈ concluded) :
    entry.row.status ∈ Repository.concluded ∨ s.hasPending id = false := by
  cases hmoved with
  | same | superseded => exact .inl h
  | method => exact concluded_of_update h
  | lease => simp [Repository.concluded, Row.leasedTo] at h
  | elapse => simp [Repository.concluded, Row.startElapsed] at h

/-- An action that is pending in a state reached by a write was so before, or its invocation is
running. -/
theorem Write.pending (h : Write cap act s t) (haction : action ∈ t.actions)
    (hpending : action.pending = true) :
    (∃ before ∈ s.actions, before.invocationId = action.invocationId ∧
        before.pending = true) ∨
      ∃ entry, s.invocations[action.invocationId]? = some entry ∧
        t.invocations[action.invocationId]? = some entry ∧ entry.row.status = .running := by
  cases h with
  | record hentry hstatus =>
    rcases mem_append.mp haction with haction | haction
    · exact .inl ⟨action, haction, rfl, hpending⟩
    · obtain rfl := mem_singleton.mp haction
      exact .inr ⟨_, hentry, hentry, hstatus hpending⟩
  | actions hkey hkeeps =>
    obtain ⟨before, hbefore, rfl⟩ := mem_map.mp haction
    exact .inl ⟨before, hbefore, (congrArg Prod.fst (hkey before)).symm, hkeeps before hpending⟩
  | method | lease | elapse | superseded | insert | tables | tick =>
    exact .inl ⟨action, haction, rfl, hpending⟩

theorem Settled.empty (now : ℕ) (tables : Outside) : Settled (Store.empty now tables) := by
  intro id entry hentry
  cases hentry

theorem Settled.write (h : Settled s) (hwrite : Write cap act s t) : Settled t := by
  intro id entry hentry hconcluded
  have hbefore : s.hasPending id = false := by
    cases hs : s.invocations[id]? with
    | some old =>
      obtain ⟨row, hrow, hmoved⟩ := hwrite.moved hs
      obtain rfl := some.inj (hentry.symm.trans hrow)
      rcases hmoved.concluded hconcluded with hold | hnone
      · exact h id old hs hold
      · exact hnone
    | none =>
      rw [hwrite.row_eq_new hs hentry] at hconcluded
      simp [Row.new, concluded] at hconcluded
  refine hasPending_eq_false.mpr fun action haction hid => ?_
  by_contra hpending
  rcases hwrite.pending haction (by simpa using hpending) with ⟨old, hold, hsame, hwas⟩ | hrunning
  · have := hasPending_eq_false.mp hbefore old hold (hsame.trans hid)
    simp [hwas] at this
  · obtain ⟨running, _, hrunning, hstatus⟩ := hrunning
    rw [hid, hentry] at hrunning
    obtain rfl := some.inj hrunning
    simp [hstatus, concluded] at hconcluded

/-! ### Lost workers -/

/-- The worker was lost while the invocation was running: its lease has run out, or the owner is to
look at it, or it has been given up. -/
def LostRow (now : ℕ) (row : Row) : Prop :=
  row.status = .running ∧ row.leaseExpiresAt.any (· ≤ now) = true ∨
    row.status = .needsReview ∨ row.status = .canceled

def Lost (id : ℕ) (s : Store) : Prop :=
  ∃ entry, s.invocations[id]? = some entry ∧ LostRow s.now entry.row

theorem matches_of_lockedLease
    (h : Invocation.lockedLease lease identity row now statuses allowCancellation .write = .write) :
    row.leaseExpiresAt.any (now < ·) = true := by
  rw [Invocation.lockedLease] at h
  split at h
  · cases h
  · next hlease =>
    simp only [Bool.or_eq_true, not_or, Bool.not_eq_true', Bool.not_eq_false] at hlease
    simp only [Lease.matches, Bool.and_eq_true] at hlease
    exact hlease.1.2

theorem LostRow.not_lease (h : LostRow now row)
    (hstatuses : ∀ status ∈ statuses, status = .leased ∨ status = .running)
    (hnext : Invocation.lockedLease lease identity row now statuses allowCancellation .write =
      .write) : False := by
  have hstatus := hstatuses _ (lockedLease_eq_write hnext).1
  rcases h with ⟨_, hexpired⟩ | hreview | hcanceled
  · have hmatches := matches_of_lockedLease hnext
    cases hlease : row.leaseExpiresAt with
    | none => simp [hlease] at hexpired
    | some expires =>
      simp only [hlease, any_some, decide_eq_true_eq] at hexpired hmatches
      omega
  · simp [hreview] at hstatus
  · simp [hcanceled] at hstatus

theorem LostRow.update (h : LostRow choice.now row)
    (hnext : method.next identity row choice = .write) :
    LostRow choice.now (method.update row row choice) ∧
      (row.status = .needsReview → (∃ owner, method = .requestCancel owner) ∨
        ∃ owner expectedUpdatedAt, method = .abandonReviewed owner expectedUpdatedAt) := by
  cases method with
  | heartbeat | start | defer | finish | parkBrowserHandoff | parkQuestion =>
    exact (h.not_lease (by simp) hnext).elim
  | recordAction =>
    have := (lockedLease_eq_write hnext).2.2
    cases this
  | requestCancel owner =>
    refine ⟨?_, fun _ => .inl ⟨owner, rfl⟩⟩
    by_cases hrunning : row.status = .running
    · rcases h with ⟨_, hexpired⟩ | hstatus | hstatus
      · exact .inl (by simp [Method.update, hrunning, hexpired])
      all_goals simp [hrunning] at hstatus
    · exact .inr (.inr (by simp [Method.update, hrunning]))
  | abandonReviewed owner expectedUpdatedAt =>
    exact ⟨.inr (.inr rfl), fun _ => .inr ⟨owner, expectedUpdatedAt, rfl⟩⟩
  | expireQueued =>
    have hqueued := swept_eq_write hnext
    simp only [Bool.and_eq_true, decide_eq_true_eq] at hqueued
    rcases h with ⟨hstatus, _⟩ | hstatus | hstatus <;> simp [hstatus, queued] at hqueued
  | recoverEnded =>
    have hwaiting := swept_eq_write hnext
    rcases h with ⟨hstatus, _⟩ | hstatus | hstatus <;> simp [hstatus] at hwaiting
  | recoverExpired =>
    have hleased := swept_eq_write hnext
    have hrunning : row.status = .running := by
      rcases h with ⟨hstatus, _⟩ | hstatus | hstatus
      · exact hstatus
      all_goals simp [hstatus] at hleased
    refine ⟨?_, fun hreview => (by simp [hrunning] at hreview)⟩
    by_cases hcancel : row.cancelRequestedAt.isSome = true
    · exact .inr (.inr (by simp [Method.update, hcancel]))
    · exact .inr (.inl (by simp [Method.update, hcancel, hrunning]))

theorem LostRow.not_claimable (h : LostRow now entry.row) : s.claimable cap id entry ≠ true := by
  intro hclaimable
  simp only [Store.claimable, Bool.and_eq_true, Bool.or_eq_true, decide_eq_true_eq] at hclaimable
  have hstatus := hclaimable.1.1.1.1.1.1
  rcases h with ⟨hlost, _⟩ | hlost | hlost <;> simp [hlost, queued] at hstatus

theorem LostRow.moved (h : LostRow s.now entry.row) (hmoved : Moved cap act s id entry row) :
    LostRow s.now row := by
  cases hmoved with
  | same | superseded => exact h
  | method _ hnext => exact (h.update hnext).1
  | lease _ hclaimable | elapse _ hclaimable => exact (h.not_claimable hclaimable).elim

theorem Lost.write (h : Lost id s) (hwrite : Write cap act s t) : Lost id t := by
  obtain ⟨entry, hentry, hlost⟩ := h
  obtain ⟨row, hrow, hmoved⟩ := hwrite.moved hentry
  refine ⟨_, hrow, ?_⟩
  have hmoved := hlost.moved hmoved
  cases hwrite with
  | tick seconds =>
    rcases hmoved with ⟨hstatus, hexpired⟩ | hstatus
    · refine .inl ⟨hstatus, ?_⟩
      cases hlease : row.leaseExpiresAt with
      | none => simp [hlease] at hexpired
      | some expires =>
        simp only [hlease, any_some, decide_eq_true_eq] at hexpired ⊢
        omega
    · exact .inr hstatus
  | method | lease | elapse | superseded | insert | record | actions | tables => exact hmoved

/-! ### Reviews -/

theorem not_write_of_canceled (h : row.status = .canceled) :
    method.next identity row choice ≠ .write := by
  intro hnext
  cases method with
  | heartbeat | start | defer | finish | parkBrowserHandoff | parkQuestion | recordAction =>
    simpa [h] using (lockedLease_eq_write hnext).1
  | requestCancel =>
    simp only [Method.next, h] at hnext
    split at hnext
    · cases hnext
    · simp [terminal] at hnext
  | abandonReviewed =>
    simp only [Method.next, h] at hnext
    split at hnext
    · cases hnext
    · split at hnext <;> simp at hnext
  | expireQueued => simp [Method.next, swept, h, queued] at hnext
  | recoverEnded | recoverExpired => simp [Method.next, swept, h] at hnext

/-- The act is the owner's decision about the invocation. -/
def Decides (id : ℕ) (act : Act) : Prop :=
  (∃ owner, act = .requestCancel owner id) ∨
    ∃ owner threadId expectedUpdatedAt audit,
      act = .abandonReviewed owner threadId id expectedUpdatedAt audit

theorem decides_of_applies (happlies : act.Applies id .needsReview method)
    (h : (∃ owner, method = .requestCancel owner) ∨ ∃ owner expectedUpdatedAt, method =
      .abandonReviewed owner expectedUpdatedAt) : Decides id act := by
  cases act with
  | requestCancel owner =>
    obtain ⟨rfl, _⟩ := happlies
    exact .inl ⟨owner, rfl⟩
  | abandonReviewed owner threadId reviewed expectedUpdatedAt audit =>
    obtain ⟨rfl, _⟩ := happlies
    exact .inr ⟨owner, threadId, expectedUpdatedAt, audit, rfl⟩
  | admission => cases happlies.1
  | heartbeat | start | defer | finish | parkBrowserHandoff | parkUserBrowserHandoff | parkQuestion
  | parkAppDataRequest | parkAutomationProposal | parkBootstrapProposal =>
    obtain ⟨_, rfl⟩ := happlies
    simp at h
  | expireQueued =>
    obtain rfl := happlies
    simp at h
  | recoverExpired => rcases happlies with rfl | rfl <;> simp at h
  | claim | recordAction | completeAction | prepareQuestionContinuation | tick | outside =>
    exact happlies.elim

def Reviewed (id : ℕ) (act : Act) (row : Row) : Prop :=
  row.status = .needsReview ∨ row.status = .canceled ∧ Decides id act

theorem Reviewed.moved (h : Reviewed id act entry.row) (hmoved : Moved cap act s id entry row) :
    Reviewed id act row := by
  have hlost : LostRow s.now entry.row := .inr (h.imp_right And.left)
  cases hmoved with
  | same | superseded => exact h
  | lease _ hclaimable | elapse _ hclaimable => exact (hlost.not_claimable hclaimable).elim
  | method happlies hnext =>
    rcases h with hreview | ⟨hcanceled, _⟩
    · have hdecides := (hlost.update hnext).2 hreview
      rw [hreview] at happlies
      refine .inr ⟨?_, decides_of_applies happlies hdecides⟩
      rcases hdecides with ⟨owner, rfl⟩ | ⟨owner, expectedUpdatedAt, rfl⟩
      · simp [Method.update, hreview]
      · rfl
    · exact (not_write_of_canceled hcanceled hnext).elim

theorem reviewed_of_step (h : step cap s act = some t) (hentry : s.invocations[id]? = some entry)
    (hreview : entry.row.status = .needsReview) :
    ∃ entry', t.invocations[id]? = some entry' ∧ Reviewed id act entry'.row := by
  refine invariant_of_writes (I := fun u => ∃ found, u.invocations[id]? = some found ∧
    Reviewed id act found.row) ?_ (writes_of_step h) ⟨entry, hentry, .inl hreview⟩
  rintro u v ⟨found, hfound, hreviewed⟩ hwrite
  obtain ⟨row, hrow, hmoved⟩ := hwrite.moved hfound
  exact ⟨_, hrow, hreviewed.moved hmoved⟩

/-! ### The guarantee -/

/-- **No silent re-execution.** In every run a call is authorised at most once; an invocation has
succeeded or failed only when none of its actions is an intent or waiting for the user; and one
whose lease ran out while it was running is never claimed again, and once under review is only
taken out of it by the owner. -/
theorem no_silent_reexecution {now : ℕ} {tables : Outside} {acts : List Act} {s : Store}
    (h : Runs.run (step cap) acts (Store.empty now tables) = some s) :
    (authorisations cap acts (Store.empty now tables)).Nodup ∧
    (∀ (id : ℕ) (entry : Entry), s.invocations[id]? = some entry →
      entry.row.status = .succeeded ∨ entry.row.status = .failed →
      ∀ action ∈ s.actions, action.invocationId = id →
        action.status ≠ .intent ∧ action.status ≠ .waitingForUser) ∧
    (∀ (id : ℕ) (entry : Entry), s.invocations[id]? = some entry →
      entry.row.status = .running → entry.row.leaseExpiresAt.any (· ≤ s.now) = true →
      ∀ acts' t, Runs.run (step cap) acts' s = some t →
        (∃ entry' : Entry, t.invocations[id]? = some entry' ∧
          entry'.row.status ∈ [.running, .needsReview, .canceled]) ∧
        ∀ workerId candidate acquired lease u,
          (claim cap workerId candidate acquired).run t = .ok (some lease, u) → lease.id ≠ id) ∧
    ∀ (id : ℕ) (entry : Entry), s.invocations[id]? = some entry →
      entry.row.status = .needsReview → ∀ act t, step cap s act = some t →
        ∃ entry' : Entry, t.invocations[id]? = some entry' ∧
          (entry'.row.status = .needsReview ∨
            entry'.row.status = .canceled ∧
              ((∃ owner, act = .requestCancel owner id) ∨
                ∃ owner threadId expectedUpdatedAt audit,
                  act = .abandonReviewed owner threadId id expectedUpdatedAt audit)) := by
  refine ⟨(nodup_authorisations acts _).1, ?_, ?_, ?_⟩
  · intro id entry hentry hstatus action haction hid
    have hsettled : Settled s :=
      invariant_of_write (fun _ _ _ hs hwrite => hs.write hwrite) h (.empty now tables)
    have hpending := hasPending_eq_false.mp
      (hsettled id entry hentry (by simpa [concluded] using hstatus)) action haction hid
    simpa [Action.pending] using hpending
  · intro id entry hentry hrunning hexpired acts' t hrun
    have hlost : Lost id t := invariant_of_write (fun _ _ _ hs hwrite => hs.write hwrite) hrun
      ⟨entry, hentry, .inl ⟨hrunning, hexpired⟩⟩
    obtain ⟨entry', hentry', hrow⟩ := hlost
    refine ⟨⟨entry', hentry', ?_⟩, ?_⟩
    · rcases hrow with ⟨hstatus, _⟩ | hstatus | hstatus <;> simp [hstatus]
    · rintro workerId candidate acquired lease u hclaim rfl
      obtain ⟨found, _, hfound, hclaimable, _⟩ := post_claim _ _ hclaim lease rfl
      obtain rfl : entry' = found := some.inj (hentry'.symm.trans hfound)
      exact hrow.not_claimable hclaimable
  · intro id entry hentry hreview act t hstep
    exact reviewed_of_step hstep hentry hreview

/-- A worker asks twice for the same call, is refused the second time, and is then lost. -/
def lostWorker : List Act :=
  [.admission exampleAdmission "c", .claim "w" 0 true, .start exampleLease none,
    .recordAction exampleLease "call" "shell", .recordAction exampleLease "call" "shell", .tick 60,
    .recoverExpired [] [0]]

theorem no_silent_reexecution_lostWorker : ∃ s,
    Runs.run (step 1) lostWorker (Store.empty 0 exampleTables) = some s ∧
    authorisations 1 lostWorker (Store.empty 0 exampleTables) = [(0, "call")] ∧
    ∀ act t, step 1 s act = some t → ∃ entry' : Entry, t.invocations[0]? = some entry' ∧
      (entry'.row.status = .needsReview ∨
        entry'.row.status = .canceled ∧
          ((∃ owner, act = .requestCancel owner 0) ∨
            ∃ owner threadId expectedUpdatedAt audit,
              act = .abandonReviewed owner threadId 0 expectedUpdatedAt audit)) := by
  refine ⟨_, rfl, by decide, ?_⟩
  have hrun : Runs.run (step 1) lostWorker (Store.empty 0 exampleTables) = some _ := rfl
  exact (no_silent_reexecution hrun).2.2.2 0 _ rfl rfl

end Bud.Repository
