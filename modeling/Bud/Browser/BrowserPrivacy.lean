import Bud.Browser.ControlWrites
import Bud.Lib.Fencing

/-!
# A private browser stays with the person

Two numbers fence a resource. Its epoch goes up whenever control may change hands, and a command
carries the epoch it was admitted under: output is only passed on while the epoch is the same, so
nobody has taken the browser in between. Its revision goes up whenever a person pauses or acquires,
and an acknowledgement carries the revision of the row that it is for: control is only given back
while that is the same, so nobody has acquired the browser since the daemon was asked. The two
writes that leave the revision as it is only concern the override.

A reset does not need the revision. The request shuts the browser (`reset_pending`), and nobody can
acquire it before the reset is done.
-/

namespace Bud.BrowserControl

open Transaction Runs Fencing Option

variable {s t u : Sys} {store : Store} {e : Event} {r r' : Resource} {act : Act} {acts : List Act}
  {id : String} {sent : Sent}

/-! ### What a write does to the row -/

theorem not_advances_acknowledged : ¬Advances store (.acknowledged sent acknowledged) id := by
  rintro ⟨⟩

theorem Write.epoch_le (h : Write store e r r') : r.controlEpoch ≤ r'.controlEpoch := by
  cases h <;> first | exact le_rfl | exact Nat.le_succ _

theorem Write.revision_le (h : Write store e r r') : r.revision ≤ r'.revision := by
  cases h <;> first | exact le_rfl | exact Nat.le_succ _

theorem Write.epoch_lt (h : Write store e r r') (hadvances : Advances store e r.id) :
    r.controlEpoch < r'.controlEpoch := by
  cases h with
  | control | prepareEnd | replaced | recover | requestLifecycle | reopen =>
    exact Nat.lt_succ_self _
  | keep h | retire _ h | grantOverride _ _ _ _ h | renewOverride _ h | endOverride _ h | fail h =>
    exact absurd hadvances h
  | returned he | acknowledgeLifecycle he => exact absurd (he ▸ hadvances) not_advances_acknowledged

theorem Write.revision_lt (h : Write store e r r') (hadvances : Advances store e r.id) :
    r.revision < r'.revision := by
  cases h with
  | control | prepareEnd | returned | replaced | acknowledgeLifecycle | recover
  | requestLifecycle | reopen => exact Nat.lt_succ_self _
  | keep h | retire _ h | grantOverride _ _ _ _ h | renewOverride _ h | endOverride _ h | fail h =>
    exact absurd hadvances h

def PrivateHeld (r : Resource) : Prop := r.privateContent = true → r.controlState ≠ .agent

theorem Write.privateHeld (h : Write store e r r') (hr : PrivateHeld r) : PrivateHeld r' := by
  have hpaused : ControlState.paused ≠ .agent := by decide
  have hhuman : ControlState.humanPrivate ≠ .agent := by decide
  have hpending : ControlState.resumePending ≠ .agent := by decide
  cases h with
  | keep | grantOverride | renewOverride | endOverride => exact hr
  | retire | fail | recover | requestLifecycle => exact fun _ => hpaused
  | prepareEnd => exact fun _ => hpending
  | control request _ _ _ _ hop =>
    cases request with
    | pause => exact fun _ => hpaused
    | acquire => exact fun _ => hhuman
    | page => cases hop
  | returned | replaced => exact fun h => absurd h Bool.false_ne_true
  | acknowledgeLifecycle =>
    intro hprivate
    refine hr ?_
    by_contra hnot
    simp [Columns.acknowledgeLifecycle, hnot] at hprivate
  | reopen =>
    intro hprivate
    have hprivate : r.privateContent = true := hprivate
    simp [Columns.reopen, hprivate]

/-- **Private content is cleared by three answers only.** -/
theorem Write.clears (h : Write store e r r') (hprivate : r.privateContent = true)
    (hclear : r'.privateContent = false) :
    ∃ sent acknowledged, e = .acknowledged sent acknowledged ∧
      match sent with
      | .ending expected => r.id = expected.id ∧ r.revision = expected.revision
      | .ensuring expected _ => r.id = expected.id ∧ r.revision = expected.revision
      | .lifecycle expected => r.id = expected.id ∧ r.desiredState = .resetPending ∧
        r.lifecycleRequestId = expected.lifecycleRequestId := by
  have hkept : r'.privateContent = r.privateContent → False := fun h => by
    rw [h, hprivate] at hclear
    cases hclear
  cases h with
  | keep | retire | prepareEnd | grantOverride | renewOverride | endOverride | fail | recover
  | requestLifecycle | reopen => exact (hkept rfl).elim
  | control =>
    simp [Columns.control, hprivate] at hclear
  | returned he hid hrevision | replaced he hid hrevision => exact ⟨_, _, he, hid, hrevision⟩
  | acknowledgeLifecycle he hid hrequest =>
    refine ⟨_, _, he, hid, ?_, hrequest⟩
    by_contra hnot
    simp [Columns.acknowledgeLifecycle, hnot, hprivate] at hclear

/-! ### Resets -/

def Resetting (requestId : Option String) (r : Resource) : Prop :=
  r.desiredState = .resetPending ∧ r.lifecycleRequestId = requestId

theorem Write.resetting (h : Write store e r r') (hr : ¬Resetting requestId r)
    (hr' : Resetting requestId r') : e = .lifecycle .reset r' := by
  cases h with
  | keep | retire | control | prepareEnd | grantOverride | renewOverride | endOverride | returned
  | replaced | fail | recover => exact absurd hr' hr
  | acknowledgeLifecycle | reopen => cases hr'.1
  | requestLifecycle operation _ _ he =>
    cases operation with
    | stop => cases hr'.1
    | reset => exact he

theorem Write.opened_of_acquire {command : BrowserCommand}
    (h : Write store (.viewer .acquire session command) r r')
    (hadvances : Advances store (.viewer .acquire session command) r.id) :
    r.desiredState = .opened := by
  cases h with
  | control _ _ _ _ _ _ hopen => exact hopen
  | keep h | retire _ h | grantOverride _ _ _ _ h | renewOverride _ h | endOverride _ h | fail h =>
    exact absurd hadvances h
  | prepareEnd _ he | returned he | replaced he | acknowledgeLifecycle he | recover he
  | requestLifecycle _ _ _ he | reopen he => cases he

/-! ### Steps -/

theorem step_cases (h : step s act = some t) :
    t = s ∧ commit s act = none ∨
      ∃ e store, commit s act = some (e, store) ∧ t = ⟨store, s.sent ++ e.sent⟩ := by
  unfold step at h
  cases hcommit : commit s act with
  | none =>
    rw [hcommit] at h
    exact .inl ⟨(some.inj h).symm, rfl⟩
  | some result =>
    rw [hcommit] at h
    exact .inr ⟨result.1, result.2, rfl, (some.inj h).symm⟩

def Sys.Consistent (s : Sys) : Prop := s.store.consistent = true

theorem consistent_of_step (hs : s.Consistent) (h : step s act = some t) : t.Consistent := by
  rcases step_cases h with ⟨rfl, _⟩ | ⟨e, store, hcommit, rfl⟩
  · exact hs
  · exact (commit_eq_some.mp hcommit).2.2

def Sys.row? (s : Sys) (id : String) : Option Resource := s.store.resources.get? id

theorem row_of_step (hs : s.Consistent) (h : step s act = some t) (hr : s.row? id = some r) :
    ∃ r', t.row? id = some r' ∧ (r' = r ∧ commit s act = none ∨
      ∃ e, (∃ store, commit s act = some (e, store)) ∧ Write s.store e r r') := by
  obtain rfl : r.id = id := KeyedTable.key_of_get? (t := s.store.resources) hr
  rcases step_cases h with ⟨rfl, hnone⟩ | ⟨e, store, hcommit, rfl⟩
  · exact ⟨r, hr, .inl ⟨rfl, hnone⟩⟩
  · obtain ⟨r', hr', hwrite⟩ := (moves_of_commit hs hcommit).row hr
    exact ⟨r', hr', .inr ⟨e, ⟨store, hcommit⟩, hwrite⟩⟩

/-- The act changes, or may change, who has control of the resource. -/
def Takes (s : Sys) (act : Act) (id : String) : Prop :=
  ∃ e store, commit s act = some (e, store) ∧ Advances s.store e id

/-- **A fence, from a column that every write raises or keeps.** -/
theorem fence_of_write (column : Resource → ℕ)
    (hle : ∀ {store e r r'}, Write store e r r' → column r ≤ column r')
    (hlt : ∀ {store e r r'}, Write store e r r' → Advances store e r.id → column r < column r')
    (id : String) :
    Fence step Sys.Consistent (fun s => (s.row? id).elim 0 column) fun s act => Takes s act id where
  inv _ _ _ hs h := consistent_of_step hs h
  mono s act t hs h := by
    cases hr : s.row? id with
    | none => exact Nat.zero_le _
    | some r =>
      obtain ⟨r', hr', ⟨rfl, _⟩ | ⟨e, _, hwrite⟩⟩ := row_of_step hs h hr
      · rw [hr']
      · rw [hr']
        exact hle hwrite
  raise s act t hs h := by
    rintro ⟨e, store, hcommit, hadvances⟩
    obtain ⟨r, hr⟩ := (moves_of_commit hs hcommit).found hadvances
    obtain rfl : r.id = id := KeyedTable.key_of_get? (t := s.store.resources) hr
    have hr : s.row? r.id = some r := hr
    obtain ⟨r', hr', ⟨_, hnone⟩ | ⟨e', ⟨_, hcommit'⟩, hwrite⟩⟩ := row_of_step hs h hr
    · rw [hcommit] at hnone
      cases hnone
    · obtain rfl : e = e' := (Prod.mk.inj (some.inj (hcommit.symm.trans hcommit'))).1
      rw [hr, hr']
      exact hlt hwrite hadvances

theorem epochFence (id : String) :
    Fence step Sys.Consistent (fun s => (s.row? id).elim 0 (·.controlEpoch))
      fun s act => Takes s act id :=
  fence_of_write (·.controlEpoch) Write.epoch_le Write.epoch_lt id

theorem revisionFence (id : String) :
    Fence step Sys.Consistent (fun s => (s.row? id).elim 0 (·.revision))
      fun s act => Takes s act id :=
  fence_of_write (·.revision) Write.revision_le Write.revision_lt id

/-! ### Answers -/

def Acquires (s : Sys) (act : Act) (id : String) : Prop :=
  ∃ session command store, commit s act = some (.viewer .acquire session command, store) ∧
    session.workspace.browserId = some id

theorem Acquires.takes (h : Acquires s act id) : Takes s act id := by
  obtain ⟨session, command, store, hcommit, hid⟩ := h
  exact ⟨_, store, hcommit, .acquire hid⟩

def Sent.resource : Sent → Resource
  | .ending resource => resource
  | .ensuring resource _ => resource
  | .lifecycle resource => resource

/-- An end, a runtime or a reset is asked for, and `sent` is what its answer will be for. -/
def Event.Requests : Event → Sent → Prop
  | .ending prepared, .ending resource => prepared.resource = resource
  | .ensuring prepared, .ensuring resource workspace =>
    prepared.resource = resource ∧ prepared.session.workspace = workspace
  | .lifecycle operation requested, .lifecycle resource =>
    operation = .reset ∧ requested.id = resource.id ∧
      requested.lifecycleRequestId = resource.lifecycleRequestId
  | _, _ => False

/-- The run has asked for it, and nobody has acquired the resource since. -/
def RequestedSince (start : Sys) (acts : List Act) (sent : Sent) : Prop :=
  ∃ before request after u e store, acts = before ++ request :: after ∧
    run step before start = some u ∧ commit u request = some (e, store) ∧ e.Requests sent ∧
      Along step (fun v act => ¬Acquires v act sent.resource.id) after
        ⟨store, u.sent ++ e.sent⟩

theorem consistent_of_run (hs : s.Consistent) (h : run step acts s = some t) : t.Consistent :=
  invariant (fun _ _ _ => consistent_of_step) h hs

/-- What is held, apart from the rows of a sweep, has been asked for, and is the row as it was. -/
theorem requests_of_mem_sent (hs : s.Consistent) {store : Store}
    (hcommit : commit s act = some (e, store)) (h : sent ∈ e.sent)
    (hkind : ∀ r, sent ≠ .lifecycle r) :
    e.Requests sent ∧ store.resources.get? sent.resource.id = some sent.resource := by
  have hshows := shows_of_commit hs hcommit
  cases e with
  | ending prepared =>
    obtain rfl := List.mem_singleton.mp h
    exact ⟨rfl, hshows⟩
  | ensuring prepared =>
    obtain rfl := List.mem_singleton.mp h
    exact ⟨⟨rfl, rfl⟩, hshows⟩
  | pending rows =>
    obtain ⟨r, _, rfl⟩ := List.mem_map.mp h
    exact absurd rfl (hkind r)
  | done | viewer | lifecycle | acknowledged | recovered | agent => cases h

/-- **An answer that still finds its revision is to a request after the last acquire.** -/
theorem requestedSince_of_revision (hs : s.Consistent) (hnone : s.sent = [])
    (hrun : run step acts s = some t) (hsent : sent ∈ t.sent)
    (hkind : ∀ r, sent ≠ .lifecycle r) (hr : t.row? sent.resource.id = some r)
    (hrevision : r.revision = sent.resource.revision) : RequestedSince s acts sent := by
  obtain ⟨before, request, after, u, v, rfl, hu, hstep, hrest, hbefore, hafter, _⟩ :=
    exists_since (P := fun s : Sys => sent ∈ s.sent) hrun (by simp [hnone]) hsent
  have hu' := consistent_of_run hs hu
  rcases step_cases hstep with ⟨rfl, _⟩ | ⟨e, store, hcommit, rfl⟩
  · exact absurd hafter hbefore
  · have hmem : sent ∈ e.sent := (List.mem_append.mp hafter).resolve_left hbefore
    obtain ⟨hrequests, hget⟩ := requests_of_mem_sent hu' hcommit hmem hkind
    refine ⟨before, request, after, u, e, store, rfl, hu, hcommit, hrequests, ?_⟩
    have hget : Sys.row? ⟨store, u.sent ++ e.sent⟩ sent.resource.id = some sent.resource := hget
    have halong := (revisionFence sent.resource.id).along_of_le hrest
      (consistent_of_step hu' hstep) (by rw [hr, hget]; exact hrevision.le)
    rw [along_iff_forall_split] at halong ⊢
    exact fun bs a cs w heq hw hacquires => halong bs a cs w heq hw hacquires.takes

/-- Nobody acquires a resource that is to be reset. -/
theorem not_acquires_of_resetting (hs : s.Consistent) (hr : s.row? id = some r)
    (hreset : Resetting requestId r) : ¬Acquires s act id := by
  rintro ⟨session, command, store, hcommit, hid⟩
  obtain rfl : r.id = id := KeyedTable.key_of_get? (t := s.store.resources) hr
  obtain ⟨r', _, hwrite⟩ := (moves_of_commit hs hcommit).row hr
  have hopen := hwrite.opened_of_acquire (.acquire hid)
  rw [hreset.1] at hopen
  cases hopen

/-- **A reset that is under way was asked for after the last acquire.** -/
theorem requestedSince_of_resetting (hs : s.Consistent) (hnone : s.row? expected.id = none)
    (hrun : run step acts s = some t) (hr : t.row? expected.id = some r)
    (hreset : Resetting expected.lifecycleRequestId r) :
    RequestedSince s acts (.lifecycle expected) := by
  obtain ⟨before, request, after, u, v, rfl, hu, hstep, hrest, hbefore, ⟨r', hr', hreset'⟩,
    hsince⟩ := exists_since (P := fun s : Sys => ∃ r, s.row? expected.id = some r ∧
      Resetting expected.lifecycleRequestId r) hrun (by simp [hnone]) ⟨r, hr, hreset⟩
  have hu' := consistent_of_run hs hu
  rcases step_cases hstep with ⟨rfl, _⟩ | ⟨e, store, hcommit, rfl⟩
  · exact absurd ⟨r', hr', hreset'⟩ hbefore
  · have hmoves := moves_of_commit hu' hcommit
    have hid : r'.id = expected.id := KeyedTable.key_of_get? (t := store.resources) hr'
    have he : e = .lifecycle .reset r' := by
      cases hq : u.row? expected.id with
      | none =>
        have hnew := hmoves.inserted hq hr'
        rw [hnew] at hreset'
        cases hreset'.1
      | some q =>
        have hqid : q.id = expected.id := KeyedTable.key_of_get? (t := u.store.resources) hq
        obtain ⟨q', hq', hwrite⟩ := hmoves.row (hqid ▸ hq)
        obtain rfl : q' = r' := some.inj (hq'.symm.trans (hqid ▸ hr'))
        exact hwrite.resetting (fun h => hbefore ⟨q, hq, h⟩) hreset'
    subst he
    refine ⟨before, request, after, u, _, store, rfl, hu, hcommit, ⟨rfl, hid, hreset'.2⟩, ?_⟩
    rw [along_iff_forall_split] at hsince ⊢
    intro bs a cs w heq hw
    obtain ⟨q, hq, hq'⟩ := hsince bs a cs w heq hw
    exact not_acquires_of_resetting (consistent_of_run (consistent_of_step hu' hstep) hw) hq hq'

/-! ### The guarantees -/

def Sys.PrivateHeld (s : Sys) : Prop := ∀ id r, s.row? id = some r → BrowserControl.PrivateHeld r

theorem privateHeld_of_step (h : step s act = some t) (hs : s.Consistent ∧ s.PrivateHeld) :
    t.Consistent ∧ t.PrivateHeld := by
  refine ⟨consistent_of_step hs.1 h, fun id r' hr' => ?_⟩
  rcases step_cases h with ⟨rfl, _⟩ | ⟨e, store, hcommit, rfl⟩
  · exact hs.2 id r' hr'
  · have hmoves := moves_of_commit hs.1 hcommit
    cases hr : s.row? id with
    | none =>
      rw [hmoves.inserted hr hr']
      exact fun h => absurd h Bool.false_ne_true
    | some r =>
      have hid : r.id = id := KeyedTable.key_of_get? (t := s.store.resources) hr
      obtain ⟨q, hq, hwrite⟩ := hmoves.row (hid ▸ hr)
      obtain rfl : q = r' := some.inj (hq.symm.trans (hid ▸ hr'))
      exact hwrite.privateHeld (hs.2 id r hr)

theorem Sys.fresh_iff :
    s.fresh = true ↔ s.store.resources.rows = [] ∧
      (∀ session ∈ s.store.tables.sessions, session.browserId = none) ∧ s.sent = [] := by
  simp [Sys.fresh, and_assoc]

theorem consistent_of_fresh (h : s.fresh = true) : s.Consistent := by
  obtain ⟨hrows, hsessions, _⟩ := Sys.fresh_iff.mp h
  simp only [Sys.Consistent, Store.consistent, Bool.and_eq_true, List.all_eq_true, hrows,
    decide_eq_true_eq]
  exact ⟨fun session hsession => by simp [Store.linked, hsessions session hsession], by simp⟩

theorem row?_of_fresh (h : s.fresh = true) (id : String) : s.row? id = none := by
  rw [Sys.row?, KeyedTable.get?, (Sys.fresh_iff.mp h).1]
  rfl

/-- What clears private content is the answer to a request after the last acquire. -/
theorem requestedSince_of_clears {store : Store} (hfresh : s.fresh = true)
    (hrun : run step acts s = some t) (hcommit : commit t act = some (e, store))
    (hr : t.row? id = some r) (hr' : store.resources.get? id = some r')
    (hprivate : r.privateContent = true) (hclear : r'.privateContent = false) :
    ∃ sent, act = .acknowledge sent ∧ sent.resource.id = id ∧ RequestedSince s acts sent := by
  have hs := consistent_of_fresh hfresh
  have ht := consistent_of_run hs hrun
  obtain rfl : r.id = id := KeyedTable.key_of_get? (t := t.store.resources) hr
  obtain ⟨q, hq, hwrite⟩ := (moves_of_commit ht hcommit).row hr
  obtain rfl : q = r' := some.inj (hq.symm.trans hr')
  obtain ⟨sent, acknowledged, rfl, hsent⟩ := hwrite.clears hprivate hclear
  obtain rfl : act = .acknowledge sent := shows_of_commit ht hcommit
  have hheld : sent ∈ t.sent := of_decide_eq_true (commit_eq_some.mp hcommit).1
  have hnone := (Sys.fresh_iff.mp hfresh).2.2
  cases sent with
  | ending expected | ensuring expected workspace =>
    exact ⟨_, rfl, hsent.1.symm, requestedSince_of_revision hs hnone hrun hheld
      (fun _ h => by cases h) (hsent.1 ▸ hr) hsent.2⟩
  | lifecycle expected =>
    exact ⟨_, rfl, hsent.1.symm, requestedSince_of_resetting hs (row?_of_fresh hfresh _) hrun
      (hsent.1 ▸ hr) hsent.2⟩

/-- The epoch that evidence is let through under is the one of the row. -/
theorem epoch_of_evidenceAllowed (h : evidenceAllowed s.store request = true) :
    ∃ r, s.row? request.browserId = some r ∧ r.controlEpoch = request.browserEpoch := by
  simp only [evidenceAllowed, any_eq_true, Bool.and_eq_true, decide_eq_true_eq] at h
  obtain ⟨_, _, ⟨⟨_, r, hr, ⟨⟨⟨_, _⟩, hepoch⟩, _⟩, _⟩, _⟩, _⟩ := h
  exact ⟨r, hr, hepoch⟩

/-- **The browser is private to the person who has it.** In every run from a database without
browsers: private content is never under the control of the agent; the epoch of a resource never
goes down, and goes up whenever control may change hands; private content is cleared only by the
answer to an end, a reset or a new runtime that was asked for after the last acquire; a command of
the agent is admitted only where the browser is the agent's and not private; and its output is only
let through if control has not changed hands since. -/
theorem browser_privacy {start : Sys} (hfresh : start.fresh = true)
    (hrun : run step acts start = some s) :
    (∀ id r, s.row? id = some r → r.privateContent = true → r.controlState ≠ .agent) ∧
      ∀ act e store, commit s act = some (e, store) →
        (∀ id r, s.row? id = some r → ∃ r', store.resources.get? id = some r' ∧
          r.controlEpoch ≤ r'.controlEpoch ∧
          (Advances s.store e id → r.controlEpoch < r'.controlEpoch) ∧
          (r.privateContent = true → r'.privateContent = false →
            ∃ sent, act = .acknowledge sent ∧ sent.resource.id = id ∧
              RequestedSince start acts sent)) ∧
        ∀ request, e = .agent (.admitted request) →
          (∃ r, store.resources.get? request.browserId = some r ∧ r.controlState = .agent ∧
            r.privateContent = false) ∧
          ∀ after t, run step after ⟨store, s.sent ++ e.sent⟩ = some t →
            evidenceAllowed t.store request = true →
            Along step (fun u act => ¬Takes u act request.browserId) after
              ⟨store, s.sent ++ e.sent⟩ := by
  have hstart := consistent_of_fresh hfresh
  have hprivate : start.PrivateHeld := fun id r hr => by
    rw [row?_of_fresh hfresh] at hr
    cases hr
  obtain ⟨hs, hheld⟩ : s.Consistent ∧ s.PrivateHeld :=
    invariant (fun _ _ _ hu hv => privateHeld_of_step hv hu) hrun ⟨hstart, hprivate⟩
  refine ⟨hheld, fun act e store hcommit => ⟨fun id r hr => ?_, ?_⟩⟩
  · have hid : r.id = id := KeyedTable.key_of_get? (t := s.store.resources) hr
    obtain ⟨r', hr', hwrite⟩ := (moves_of_commit hs hcommit).row (hid ▸ hr)
    rw [hid] at hr'
    exact ⟨r', hr', hwrite.epoch_le, fun h => hwrite.epoch_lt (hid ▸ h),
      requestedSince_of_clears hfresh hrun hcommit hr hr'⟩
  · rintro request rfl
    obtain ⟨r, hr, hbrowser, hepoch, hagent, hcontent⟩ := shows_of_commit hs hcommit
    rw [← hbrowser] at hr
    refine ⟨⟨r, hr, hagent, hcontent⟩, fun after t hafter hallowed => ?_⟩
    have hcommitted : Sys.Consistent ⟨store, s.sent ++ Event.sent (.agent (.admitted request))⟩ :=
      (commit_eq_some.mp hcommit).2.2
    refine (epochFence request.browserId).along_of_le hafter hcommitted ?_
    obtain ⟨q, hq, hqepoch⟩ := epoch_of_evidenceAllowed hallowed
    have hr : Sys.row? ⟨store, s.sent ++ Event.sent (.agent (.admitted request))⟩
        request.browserId = some r := hr
    rw [hq, hr]
    exact (hqepoch.trans hepoch).le

/-! ### A takeover and its end -/

/-- A Bud with one thread, and a turn that is running. -/
def exampleStart : Sys :=
  { store :=
      { now := 0
        buds := [⟨"bud", some "owner", none, "secret"⟩]
        resources := .empty
        tables :=
          { sessions := []
            threads := [⟨"thread", "bud", "owner", none, false⟩]
            invocations :=
              [{ id := "turn"
                 threadId := "thread"
                 budId := "bud"
                 createdByUserId := "owner"
                 turnId := "turn"
                 status := .running
                 reservesThread := true
                 fence := 1
                 workerId := some "worker"
                 leaseExpiresAt := some 60000
                 canceled := false }]
            actions := [⟨"turn", "call", "browser_open", .intent, 1, none, "owner"⟩]
            handoffs := [] } }
    sent := [] }

/-- The row once it has been paused and acquired. -/
def exampleTaken : Resource :=
  ((Resource.new ⟨"managed", "bud", "owner", none⟩).write
    (·.control .paused "browser_session" "pause" .pause)).write
      (·.control .humanPrivate "browser_session" "acquire" .acquire)

def exampleCandidate : BrowserSession :=
  { workspace :=
      { id := "browser_session"
        threadId := "thread"
        budId := "bud"
        createdByUserId := "owner"
        tenantId := none
        browserId := some "managed"
        generation := "generation"
        bootId := "boot"
        state := .ready
        desiredOpen := true
        controlEpoch := 4
        sequence := 3
        invocationId := none
        invocationFence := none
        pendingUntil := none
        closedAt := none }
    resource := exampleTaken.toColumns }

/-- The agent opens the browser, the owner takes it, and the sweep asks for its end. -/
def exampleActs : List Act :=
  [.ensure "owner" "bud" "managed",
    .prepare ⟨some ⟨"turn", 1, "worker"⟩, some "call", "owner", "bud", "thread", "turn", none⟩
      "boot" ⟨"open", []⟩ .no "" ⟨"request", "session", "generation", "handoff", 0⟩,
    .viewer .pause "owner" "browser_session" "boot" 0 "pause" "generation" 0,
    .viewer .acquire "owner" "browser_session" "boot" 1 "acquire" "generation" 0,
    .prepareEnd exampleCandidate "boot" "end" 0]

/-- What the sweep holds. -/
def exampleSent : Sent := .ending (exampleTaken.write (·.prepareEnd "end"))

/-- The browser is private until the answer, which is to a request after the acquire. -/
theorem browser_privacy_returned :
    ∃ s r e store r', run step exampleActs exampleStart = some s ∧
      s.row? "managed" = some r ∧ r.privateContent = true ∧ r.controlState ≠ .agent ∧
      commit s (.acknowledge exampleSent) = some (e, store) ∧
      store.resources.get? "managed" = some r' ∧ r'.privateContent = false ∧
      RequestedSince exampleStart exampleActs exampleSent := by
  have hend : (run step exampleActs exampleStart).any (fun s =>
      (s.row? "managed").any (·.privateContent) &&
        (commit s (.acknowledge exampleSent)).any fun p =>
          (p.2.resources.get? "managed").any (!·.privateContent)) = true := by decide +kernel
  obtain ⟨s, hrun, hs⟩ := any_eq_true _ _ |>.mp hend
  obtain ⟨hprivate, hclear⟩ := Bool.and_eq_true_iff.mp hs
  obtain ⟨r, hr, hprivate⟩ := any_eq_true _ _ |>.mp hprivate
  obtain ⟨⟨e, store⟩, hcommit, hclear⟩ := any_eq_true _ _ |>.mp hclear
  obtain ⟨r', hr', hclear⟩ := any_eq_true _ _ |>.mp hclear
  have hclear : r'.privateContent = false := by simpa using hclear
  obtain ⟨hheld, hsteps⟩ := browser_privacy (by decide : exampleStart.fresh = true) hrun
  obtain ⟨q, hq, _, _, hanswer⟩ := (hsteps _ e store hcommit).1 "managed" r hr
  obtain rfl : q = r' := some.inj (hq.symm.trans hr')
  obtain ⟨sent, hsent, _, hsince⟩ := hanswer hprivate hclear
  cases hsent
  exact ⟨s, r, e, store, q, hrun, hr, hprivate, hheld _ _ hr hprivate, hcommit, hr', hclear, hsince⟩

end Bud.BrowserControl
