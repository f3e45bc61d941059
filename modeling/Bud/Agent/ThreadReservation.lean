import Bud.Agent.InvocationSteps

/-!
# One turn per thread

A worker that has leased an invocation has its thread to itself: every leased or running invocation
holds the reservation of its thread, and no two invocations of a thread hold it.

Only the last statement of `claim` takes a reservation anew. Every other method writes one only over
a row that has it already, because the leases it goes by are only of leased or running invocations.
By the time `claim` writes, it has the thread's lock and has seen that no other invocation of the
thread holds the reservation. None can have taken it since without that lock, whether or not it has
been committed yet (`ClaimOk`, `Fresh`).
-/

namespace Bud.Invocation

open ReadCommitted

variable {cap : ℕ} {s t : Sys} {act : Act} {tx id : ℕ} {row row' : Row}

/-- The statuses of an invocation that a worker has. -/
def active : List Status := [.leased, .running]

/-! ### What methods write -/

theorem Method.reservesThread_of_update {method : Method}
    (hactive : row.status ∈ active → row.reservesThread = true)
    (h : method.next identity row choice = .write)
    (hreserves : (method.update row row choice').reservesThread = true) :
    row.reservesThread = true := by
  cases method with
  | heartbeat lease | start lease | recordAction lease => exact hreserves
  | defer lease status delaySeconds | parkQuestion lease =>
    exact hactive (by rw [List.mem_singleton.mp (lockedLease_eq_write h).1]; decide)
  | finish lease status outcomeCode => exact hactive (lockedLease_eq_write h).1
  | parkBrowserHandoff lease | abandonReviewed owner expectedUpdatedAt | expireQueued
  | recoverEnded => cases hreserves
  | requestCancel owner =>
    rw [Method.update] at hreserves
    split at hreserves
    · exact hreserves
    · cases hreserves
  | recoverExpired =>
    have hswept := swept_eq_write h
    rw [Bool.and_eq_true] at hswept
    exact hactive (of_decide_eq_true hswept.1)

/-- A method that leaves an invocation with a worker leaves it its reservation. -/
theorem Method.reservesThread_of_active {method : Method}
    (hactive : row.status ∈ active → row.reservesThread = true)
    (h : method.next identity row choice = .write)
    (hstatus : (method.update row row choice').status ∈ active) :
    (method.update row row choice').reservesThread = true := by
  cases method with
  | heartbeat lease | recordAction lease => exact hactive hstatus
  | start lease =>
    exact hactive (by rw [List.mem_singleton.mp (lockedLease_eq_write h).1]; decide)
  | defer lease status delaySeconds => cases status <;> cases hstatus <;> contradiction
  | finish lease status outcomeCode =>
    have hnot : ∀ status : Finish, status.status ∉ active := by
      intro status
      cases status <;> decide
    rw [Method.update] at hstatus
    simp only at hstatus
    split at hstatus
    · exact absurd hstatus (by decide)
    · split at hstatus
      · exact absurd hstatus (by decide)
      · exact absurd hstatus (hnot status)
  | parkBrowserHandoff lease => exact absurd hstatus (by decide : Status.waitingForUser ∉ active)
  | parkQuestion lease => rfl
  | requestCancel owner =>
    rw [Method.update] at hstatus ⊢
    split at hstatus
    · next hrunning =>
      rw [if_pos hrunning]
      exact hactive hstatus
    · exact absurd hstatus (by decide : Status.canceled ∉ active)
  | abandonReviewed owner expectedUpdatedAt | recoverEnded =>
    exact absurd hstatus (by decide : Status.canceled ∉ active)
  | expireQueued => exact absurd hstatus (by decide : Status.expired ∉ active)
  | recoverExpired =>
    rw [Method.update] at hstatus
    simp only at hstatus
    split at hstatus
    · exact absurd hstatus (by decide)
    · split at hstatus
      all_goals exact absurd hstatus (by decide)

/-! ### The invariant -/

def Reserving (s : Sys) (id : ℕ) : Prop :=
  ∃ row, Version s.db id row ∧ row.reservesThread = true

def Alone (s : Sys) (id : ℕ) : Prop :=
  ∀ other, other ≠ id → (s.identity other).threadId = (s.identity id).threadId →
    ¬ Reserving s other

def Idle (s : Sys) (tx : ℕ) : Prop := ∀ id, s.db.rowLock id ≠ some tx

/-- The transaction has a lock that goes with the invocation. -/
def Has (lock : Identity → Lock) (s : Sys) (tx id : ℕ) : Prop :=
  id < s.next ∧ s.db.locks (lock (s.identity id)) = some tx

/-- A reservation that is not committed yet is being taken by a transaction with a lock; `only` says
for which invocations. -/
def Fresh (lock : Identity → Lock) (only : Identity → Prop) (s : Sys) : Prop :=
  ∀ tx id row, s.db.visible tx id = some row → row.reservesThread = true →
    only (s.identity id) →
    (∃ old, s.db.committed id = some old ∧ old.reservesThread = true) ∨ Has lock s tx id

def threadLock (identity : Identity) : Lock := .thread identity.threadId

/-- What a `claim` has made sure of before its next statement. -/
def ClaimOk (s : Sys) (tx : ℕ) : Claim → Prop
  | .candidate _ => Idle s tx
  | .lockThread _ id => Idle s tx ∧ id < s.next
  | .reread _ id | .active _ id _ _ => Idle s tx ∧ Has threadLock s tx id
  | .tryCapacity _ id _ | .capacity _ id _ | .expire id _ | .lease _ id _ =>
    Idle s tx ∧ Has threadLock s tx id ∧ Alone s id
  | .done => True

structure Reserved (s : Sys) : Prop where
  locked : Locked s
  active : ∀ id row, Version s.db id row → row.status ∈ active → row.reservesThread = true
  claims : ∀ tx claim, s.transaction tx = some (.claim claim) → ClaimOk s tx claim
  fresh : Fresh threadLock (fun _ => True) s
  unique : ∀ id, Reserving s id → Alone s id

theorem Reserved.init : Reserved init where
  locked := Locked.init
  active := by
    rintro id row (h | h)
    all_goals cases h
  claims := fun _ _ h => by cases h
  fresh := fun _ _ _ h => by
    obtain h | h := Version.of_visible h
    all_goals cases h
  unique := by
    rintro id ⟨row, h | h, -⟩
    all_goals cases h

/-! ### Where reservations come from -/

theorem Wrote.reservesThread (h : Wrote s tx id row row')
    (hactive : row.status ∈ Invocation.active → row.reservesThread = true)
    (hreserves : row'.reservesThread = true) :
    row.reservesThread = true ∨
      ∃ workerId current, s.transaction tx = some (.claim (.lease workerId id current)) := by
  cases h with
  | method hnext => exact Or.inl (Method.reservesThread_of_update hactive hnext hreserves)
  | outcome outcomeCode => exact Or.inl hreserves
  | expire now htx => cases hreserves
  | lease now htx => exact Or.inr ⟨_, _, htx⟩

/-- **A reservation is an old one**, or taken by the last statement of a `claim`. -/
theorem Reserved.reserving_cases (h : Reserved s) (heffect : Effect s tx t)
    (hreserving : Reserving t id) :
    Reserving s id ∨ ∃ workerId current row, s.db.visible tx id = some row ∧
      t.db.rowLock id = some tx ∧
        s.transaction tx = some (.claim (.lease workerId id current)) := by
  obtain ⟨row, hversion, hreserves⟩ := hreserving
  obtain hold | ⟨-, -, now, rfl⟩ | ⟨old, hvisible, hlock, hwrote⟩ := heffect.version hversion
  · exact Or.inl ⟨row, hold, hreserves⟩
  · cases hreserves
  · have hold := Version.of_visible hvisible
    obtain hreserved | ⟨workerId, current, htx⟩ :=
      hwrote.reservesThread (h.active id old hold) hreserves
    · exact Or.inl ⟨old, hold, hreserved⟩
    · exact Or.inr ⟨workerId, current, old, hvisible, hlock, htx⟩

theorem Reserved.lt_next (h : Reserved s) (hreserving : Reserving s id) : id < s.next := by
  obtain ⟨row, hversion, -⟩ := hreserving
  exact h.locked.lt_next id (Or.inr ⟨row, hversion⟩)

/-! ### What others leave to a `claim` -/

variable {other : ℕ} {lock : Identity → Lock} {claim : Claim}

theorem Idle.of_effect (h : Idle s other) (heffect : Effect s tx t) (hne : other ≠ tx) :
    Idle t other := by
  intro id hlock
  obtain hold | ⟨heq, -⟩ := heffect.rowLock_cases hlock
  · exact h id hold
  · exact hne heq

theorem Has.of_locks (h : Has lock s other id) (heffect : Effect s tx t)
    (hlocks : ∀ l, s.db.locks l = some other → t.db.locks l = some other) :
    Has lock t other id := by
  refine ⟨h.1.trans_le heffect.next_le, ?_⟩
  rw [heffect.identity_eq h.1]
  exact hlocks _ h.2

theorem Has.of_effect (h : Has lock s other id) (hlocked : Locked s) (heffect : Effect s tx t)
    (hne : other ≠ tx) : Has lock t other id :=
  h.of_locks heffect fun l => (heffect.frame hlocked).locks l other hne

theorem Alone.of_effect (h : Alone s id) (hs : Reserved s) (heffect : Effect s tx t)
    (hthread : Has threadLock s other id) (hne : other ≠ tx) : Alone t id := by
  intro k hk hsame hreserving
  obtain hold | ⟨workerId, current, -, -, -, htx⟩ := hs.reserving_cases heffect hreserving
  · rw [heffect.identity_eq (hs.lt_next hold), heffect.identity_eq hthread.1] at hsame
    exact h k hk hsame hold
  · obtain ⟨-, hthread', -⟩ := hs.claims _ _ htx
    rw [heffect.identity_eq hthread'.1, heffect.identity_eq hthread.1] at hsame
    have hlock := hthread'.2
    rw [threadLock, hsame] at hlock
    exact hne (Option.some.inj (hthread.2.symm.trans hlock))

theorem ClaimOk.of_effect (h : ClaimOk s other claim) (hs : Reserved s) (heffect : Effect s tx t)
    (hne : other ≠ tx) : ClaimOk t other claim := by
  cases claim with
  | candidate => exact Idle.of_effect h heffect hne
  | lockThread => exact ⟨h.1.of_effect heffect hne, h.2.trans_le heffect.next_le⟩
  | reread | active => exact ⟨h.1.of_effect heffect hne, h.2.of_effect hs.locked heffect hne⟩
  | tryCapacity | capacity | expire | lease =>
    exact ⟨h.1.of_effect heffect hne, h.2.1.of_effect hs.locked heffect hne,
      h.2.2.of_effect hs heffect h.2.1 hne⟩
  | done => trivial

/-! ### What a `claim` finds -/

theorem visible_of_idle (h : Idle s tx) (id : ℕ) : s.db.visible tx id = s.db.committed id :=
  if_neg (h id)

/-- To a transaction that has the lock and has written nothing, every reservation is a committed
one. -/
theorem Fresh.committed {only : Identity → Prop} (h : Fresh lock only s) (hheld : Held s.db)
    (hidle : Idle s tx) (hlock : s.db.locks (lock (s.identity id)) = some tx)
    (honly : only (s.identity id)) (hreserving : Reserving s id) :
    ∃ row, s.db.committed id = some row ∧ row.reservesThread = true := by
  obtain ⟨row, hcommitted | hdraft, hreserves⟩ := hreserving
  · exact ⟨row, hcommitted, hreserves⟩
  · obtain ⟨holder, hholder⟩ := Option.ne_none_iff_exists'.mp (hheld id (by rw [hdraft]; simp))
    have hvisible : s.db.visible holder id = some row := by
      rw [Db.visible, if_pos hholder, hdraft, Option.some_or]
    obtain hold | hhas := h holder id row hvisible hreserves honly
    · exact hold
    · -- the holder has the lock, as this transaction does
      cases hhas.2.symm.trans hlock
      exact absurd hholder (hidle id)

/-- What `claim` sees of the other reservations of the thread is all there is. -/
theorem Reserved.alone (h : Reserved s) (hidle : Idle s tx) (hthread : Has threadLock s tx id)
    (hnone : s.reservedElsewhere tx id = false) : Alone s id := by
  intro other hne hsame hreserving
  have hlock : s.db.locks (threadLock (s.identity other)) = some tx := by
    rw [threadLock, hsame]
    exact hthread.2
  obtain ⟨row, hrow, hreserves⟩ :=
    h.fresh.committed h.locked.held hidle hlock trivial hreserving
  have hany := List.any_eq_false.mp hnone other (List.mem_range.mpr (h.lt_next hreserving))
  simp [hne, hsame, visible_of_idle hidle, hrow, hreserves] at hany

/-- The next statement of a `claim` may rely on what the one before it has found. -/
theorem Reserved.claimOk (h : Reserved s) {next : Claim}
    (htx : s.transaction tx = some (.claim claim)) (hclaimed : Claimed cap s tx s' claim next) :
    ClaimOk (s'.goOn tx (.claim next)) tx next := by
  have hok := h.claims tx claim htx
  obtain rfl | ⟨locks, hlocks, rfl⟩ := hclaimed.same
  · trivial
  · have hthread : ∀ id, Has threadLock s tx id → Has threadLock
        (Sys.goOn { s with db := { s.db with locks := locks } } tx (.claim next)) tx id :=
      fun id hid => ⟨hid.1, hlocks _ hid.2⟩
    cases hclaimed.went with
    | returns => trivial
    | candidate hrow =>
      exact ⟨hok, h.locked.lt_next _ (Or.inr ⟨_, Version.of_visible hrow⟩)⟩
    | lockThread hlock => exact ⟨hok.1, hok.2, hlock⟩
    | reread => exact ⟨hok.1, hthread _ hok.2⟩
    | expires hnone | needsCapacity hnone | leases hnone =>
      exact ⟨hok.1, hthread _ hok.2, h.alone hok.1 hok.2 hnone⟩
    | tryCapacity | capacity => exact ⟨hok.1, hthread _ hok.2.1, hok.2.2⟩

/-! ### Steps -/

theorem Reserved.active_of_effect (h : Reserved s) (heffect : Effect s tx t)
    (hversion : Version t.db id row) (hstatus : row.status ∈ Invocation.active) :
    row.reservesThread = true := by
  obtain hold | ⟨-, -, now, rfl⟩ | ⟨old, hvisible, hlock, hwrote⟩ := heffect.version hversion
  · exact h.active id row hold hstatus
  · exact absurd hstatus (by decide : Status.pending ∉ Invocation.active)
  · have hactive := h.active id old (Version.of_visible hvisible)
    cases hwrote with
    | method hnext => exact Method.reservesThread_of_active hactive hnext hstatus
    | outcome outcomeCode => exact hactive hstatus
    | expire now htx => exact absurd hstatus (by decide : Status.expired ∉ Invocation.active)
    | lease now htx => rfl

theorem Op.candidate_of_transaction (op : Op) (h : op.transaction = .claim claim) :
    ∃ workerId, claim = .candidate workerId := by
  cases op with
  | claim workerId =>
    cases h
    exact ⟨workerId, rfl⟩
  | admission identity =>
    rw [Op.transaction] at h
    split at h
    all_goals cases h
  | heartbeat | start | defer | recordAction | finish | parkBrowserHandoff | parkQuestion
  | requestCancel | abandonReviewed | expireQueued | recoverExpired => cases h

/-- A `claim` that goes on after an action has just begun, or the action was a step of it. -/
theorem Stepped.claim_cases (hstep : Stepped cap s act t)
    (htx : t.transaction act.tx = some (.claim claim)) :
    (s.transaction act.tx = none ∧ ∃ workerId, claim = .candidate workerId ∧
      t = s.goOn act.tx (.claim claim)) ∨
    ∃ previous s', s.transaction act.tx = some (.claim previous) ∧
      Claimed cap s act.tx s' previous claim ∧ t = s'.goOn act.tx (.claim claim) := by
  cases hstep with
  | begins op hnone =>
    have hop := transaction_goOn htx
    exact .inl ⟨hnone, (op.candidate_of_transaction hop).imp fun _ h => ⟨h, by rw [hop]; rfl⟩⟩
  | claims htx' hclaimed =>
    cases transaction_goOn htx
    exact .inr ⟨_, _, htx', hclaimed, rfl⟩
  | writes | executes => cases transaction_goOn htx
  | throws | commits | rollsBack => simp [Sys.rollback, Sys.commit, Act.tx] at htx

/-- The transaction of an action is one whose `claim` may rely on what it has found. -/
theorem Reserved.claimOk_of_step (h : Reserved s) (hstep : Stepped cap s act t)
    (htx : t.transaction act.tx = some (.claim claim)) : ClaimOk t act.tx claim := by
  obtain ⟨hnone, workerId, rfl, rfl⟩ | ⟨previous, s', htx', hclaimed, rfl⟩ := hstep.claim_cases htx
  · exact h.locked.ended _ hnone
  · exact h.claimOk htx' hclaimed

section Fresh

variable {lock : Identity → Lock} {only : Identity → Prop}

theorem Fresh.of_rows (h : Fresh lock only s) (heffect : Effect s tx t) (hlt : id < s.next)
    (hcommitted : t.db.committed id = s.db.committed id)
    (hvisible : t.db.visible other id = s.db.visible other id)
    (hlocks : ∀ l, s.db.locks l = some other → t.db.locks l = some other)
    (hrow : t.db.visible other id = some row) (hreserves : row.reservesThread = true)
    (honly : only (t.identity id)) :
    (∃ old, t.db.committed id = some old ∧ old.reservesThread = true) ∨ Has lock t other id := by
  rw [heffect.identity_eq hlt] at honly
  obtain hold | hhas := h other id row (hvisible ▸ hrow) hreserves honly
  · exact Or.inl (hcommitted ▸ hold)
  · exact Or.inr (hhas.of_locks heffect hlocks)

/-- The rows that the transaction of an action holds. -/
theorem Fresh.of_own (h : Fresh lock only s) (hs : Reserved s) (heffect : Effect s tx t)
    (hlease : ∀ workerId id current row,
      s.transaction tx = some (.claim (.lease workerId id current)) →
      s.db.visible tx id = some row → t.db.rowLock id = some tx → only (s.identity id) →
      row.reservesThread = true ∨ Has lock s tx id)
    (hlock : t.db.rowLock id = some tx) (hrow : t.db.visible tx id = some row)
    (hreserves : row.reservesThread = true) (honly : only (t.identity id)) :
    (∃ old, t.db.committed id = some old ∧ old.reservesThread = true) ∨ Has lock t tx id := by
  have hlt : ∀ row, s.db.visible tx id = some row → id < s.next := fun row hrow =>
    hs.locked.lt_next id (Or.inr ⟨row, Version.of_visible hrow⟩)
  cases heffect with
  | gains hgains hrows hidentity hnext =>
    have hvisible := hgains.visible_eq hs.locked.held tx id
    exact h.of_rows (.gains hgains hrows hidentity hnext) (hlt row (hvisible ▸ hrow))
      (congrFun hgains.committed id) hvisible (fun _ => hgains.locks_of_eq) hrow hreserves honly
  | @wrote k old new hfree hold hdb hwrote hidentity hnext =>
    have hlocks : t.db.locks = s.db.locks := by rw [hdb]; rfl
    have heffect : Effect s tx t := .wrote hfree hold hdb hwrote hidentity hnext
    by_cases heq : id = k
    · subst heq
      obtain rfl : new = row := by
        rw [hdb, visible_write_self] at hrow
        exact Option.some.inj hrow
      have honly' : only (s.identity id) := hidentity ▸ honly
      have hcases : old.reservesThread = true ∨ Has lock s tx id := by
        obtain hreserved | ⟨workerId, current, htx⟩ :=
          hwrote.reservesThread (hs.active id old (Version.of_visible hold)) hreserves
        · exact Or.inl hreserved
        · exact hlease workerId id current old htx hold hlock honly'
      have hhas : Has lock s tx id → Has lock t tx id := fun hhas =>
        hhas.of_locks heffect fun _ hl => hlocks ▸ hl
      obtain hreserved | hnow := hcases
      · obtain hcommitted | hbefore := h tx id old hold hreserved honly'
        · exact Or.inl (by rw [hdb]; exact hcommitted)
        · exact Or.inr (hhas hbefore)
      · exact Or.inr (hhas hnow)
    · have hvisible : t.db.visible tx id = s.db.visible tx id := by
        rw [hdb, visible_write_of_ne heq]
      exact h.of_rows heffect (hlt row (hvisible ▸ hrow)) (by rw [hdb]; rfl) hvisible
        (fun _ hl => hlocks ▸ hl) hrow hreserves honly
  | @inserted identity now hdb hidentity hnext =>
    have heffect : Effect s tx t := .inserted hdb hidentity hnext
    by_cases heq : id = s.next
    · rw [heq, hdb, visible_write_self] at hrow
      cases hrow
      cases hreserves
    · have hvisible : t.db.visible tx id = s.db.visible tx id := by
        rw [hdb, visible_write_of_ne heq]
      exact h.of_rows heffect (hlt row (hvisible ▸ hrow)) (by rw [hdb]; rfl) hvisible
        (fun _ hl => by rw [hdb]; exact hl) hrow hreserves honly
  | committed hdb | rolledBack hdb =>
    rw [hdb] at hlock
    exact absurd hlock rowLock_end_ne

/-- **One action, and the reservations that are being taken.** A `claim` that takes one has to have
the lock, or to find it taken already. -/
theorem Fresh.of_effect (h : Fresh lock only s) (hs : Reserved s) (heffect : Effect s tx t)
    (hlease : ∀ workerId id current row,
      s.transaction tx = some (.claim (.lease workerId id current)) →
      s.db.visible tx id = some row → t.db.rowLock id = some tx → only (s.identity id) →
      row.reservesThread = true ∨ Has lock s tx id) : Fresh lock only t := by
  intro other id row hvisible hreserves honly
  by_cases hlock : t.db.rowLock id = some other
  · by_cases hother : other = tx
    · subst hother
      exact h.of_own hs heffect hlease hlock hvisible hreserves honly
    · have hold : s.db.rowLock id = some other :=
        (heffect.rowLock_cases hlock).resolve_right fun h => hother h.1
      have hframe := heffect.frame hs.locked
      have hlt : id < s.next := hs.locked.lt_next id (Or.inl (by rw [hold]; simp))
      exact h.of_rows heffect hlt (hframe.rows id other hother hold).2.2
        (hframe.visible_eq hother hold) (fun l => hframe.locks l other hother) hvisible hreserves
        honly
  · rw [Db.visible, if_neg hlock] at hvisible
    exact Or.inl ⟨row, hvisible, hreserves⟩

end Fresh

theorem Reserved.unique_of_effect (h : Reserved s) (heffect : Effect s tx t)
    (hreserving : Reserving t id) : Alone t id := by
  intro other hne hsame hother
  have hlt : ∀ {id}, Reserving t id → id < s.next := by
    intro id hid
    obtain hold | ⟨workerId, current, -, -, -, htx⟩ := h.reserving_cases heffect hid
    · exact h.lt_next hold
    · exact (h.claims _ _ htx).2.1.1
  rw [heffect.identity_eq (hlt hother), heffect.identity_eq (hlt hreserving)] at hsame
  obtain hold | ⟨workerId, current, -, -, -, htx⟩ := h.reserving_cases heffect hreserving
  · obtain hold' | ⟨workerId', current', -, -, -, htx'⟩ := h.reserving_cases heffect hother
    · exact h.unique id hold other hne hsame hold'
    · exact (h.claims _ _ htx').2.2 id hne.symm hsame.symm hold
  · obtain hold' | ⟨workerId', current', -, -, -, htx'⟩ := h.reserving_cases heffect hother
    · exact (h.claims _ _ htx).2.2 other hne hsame hold'
    · cases htx.symm.trans htx'
      exact hne rfl

/-- **One action.** -/
theorem Reserved.step (h : Reserved s) (hstep : Invocation.step cap s act = some t) :
    Reserved t := by
  have hstepped := stepped_of_step h.locked.held hstep
  have heffect := effect_of_step h.locked hstepped
  have hlocked := h.locked.step hstep
  refine ⟨hlocked, fun id row => h.active_of_effect heffect, fun tx claim htx => ?_,
    h.fresh.of_effect h heffect fun _ _ _ _ htx _ _ _ => Or.inr (h.claims _ _ htx).2.1,
    fun id => h.unique_of_effect heffect⟩
  by_cases heq : tx = act.tx
  · subst heq
    exact h.claimOk_of_step hstepped htx
  · rw [transaction_of_ne hstepped heq] at htx
    exact (h.claims tx claim htx).of_effect h heffect heq

/-- **Every run.** -/
theorem Reserved.run (h : Runs.run (Invocation.step cap) acts Invocation.init = some t) :
    Reserved t :=
  Runs.invariant (fun _ _ _ hs hstep => hs.step hstep) h Reserved.init

/-- **One running turn per thread.** Whatever the methods of any number of workers have done, in any
order of their statements, no two invocations that are committed hold the reservation of one thread,
and every one that is leased or running holds it. -/
theorem reservesThread_exclusive {acts : List Act}
    (h : Runs.run (Invocation.step cap) acts Invocation.init = some t) :
    (∀ id id' row row', t.db.committed id = some row → t.db.committed id' = some row' →
      row.reservesThread = true → row'.reservesThread = true →
      (t.identity id).threadId = (t.identity id').threadId → id = id') ∧
    ∀ id row, t.db.committed id = some row → row.status ∈ Invocation.active →
      row.reservesThread = true := by
  have hreserved := Reserved.run h
  refine ⟨fun id id' row row' hrow hrow' hreserves hreserves' hsame => ?_,
    fun id row hrow => hreserved.active id row (Or.inl hrow)⟩
  by_contra hne
  exact hreserved.unique id' ⟨row', Or.inl hrow', hreserves'⟩ id hne hsame
    ⟨row, Or.inl hrow, hreserves⟩

/-- Two turns of a thread are admitted. A worker comes upon the second while another leases the
first. -/
def twoWorkers : List Act :=
  let turn : Identity := ⟨"thread", "bud", .human, "owner", none⟩
  let admission (tx : ℕ) : List Act :=
    Act.begin tx (.admission turn) :: List.replicate 3 (Act.execute tx (.plain 0 [])) ++
      [Act.commit tx]
  admission 0 ++ admission 1 ++
    [Act.begin 2 (.claim "first"), .begin 3 (.claim "second"),
      .execute 2 (.plain 1 [0]), .execute 3 (.plain 1 [1])] ++
    List.replicate 4 (Act.execute 2 (.plain 1 [])) ++ [Act.commit 2] ++
    List.replicate 3 (Act.execute 3 (.plain 1 [])) ++ [Act.commit 3] ++
    [Act.begin 4 (.start ⟨0, 1, some "first", "owner"⟩), .execute 4 (.plain 2 []),
      .execute 4 (.plain 2 []), .commit 4]

/-- The second worker finds the thread taken, and the first has its turn running. -/
theorem reservesThread_exclusive_twoWorkers : ∃ t,
    Runs.run (Invocation.step 1) twoWorkers Invocation.init = some t ∧
    (t.db.committed 0).map (·.status) = some .running ∧
    (t.db.committed 1).map (·.status) = some .pending ∧
    (∀ id id' row row', t.db.committed id = some row → t.db.committed id' = some row' →
      row.reservesThread = true → row'.reservesThread = true →
      (t.identity id).threadId = (t.identity id').threadId → id = id') ∧
    ∀ id row, t.db.committed id = some row → row.status ∈ Invocation.active →
      row.reservesThread = true := by
  obtain ⟨t, ht, hend⟩ := Option.map_eq_some_iff.mp
    (show (Runs.run (Invocation.step 1) twoWorkers Invocation.init).map (fun t =>
      ((t.db.committed 0).map (·.status), (t.db.committed 1).map (·.status))) =
        some (some .running, some .pending) by decide)
  obtain ⟨hfirst, hsecond⟩ := Prod.mk.inj hend
  exact ⟨t, ht, hfirst, hsecond, reservesThread_exclusive ht⟩

end Bud.Invocation
