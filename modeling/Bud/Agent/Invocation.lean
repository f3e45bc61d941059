import Bud.Lib.ReadCommitted
import Mathlib.Data.List.Basic

/-!
# Invocations and the transactions on them

`invocation-repository.ts`: an invocation is a turn of a thread that has been admitted and is
waiting for, or with, a worker. Its row is written by a dozen methods, each a transaction, and the
workers, the owner and two background sweeps run them at the same time. A method is modelled by the
statements it has yet to run (`Transaction`), and any transaction may run its next one at any time.

Most methods lock the invocation's row (`select … for update`), decide by what they find and then
write it. `claim` does not. It locks the thread, reads the invocation again, looks whether the
thread is taken and, for an automation that does not have its reservation yet, whether the Bud has
capacity left; the row itself is written without having been locked.

## Modelling notes

Invocations are numbered in the order they are inserted. Columns that are never written again are
kept apart from the row, in `Identity`; columns that no method here reads are left out.

What a statement finds in other tables is left to the scheduler (`Choice`), and so are the clock and
the rows a sweep comes upon. A filter by owner is then one of its choices. Locks on rows of other
tables than `thread` are left out, and so are the table's unique index and its check constraint:
that only adds interleavings. A statement that waits for a lock is one that is not enabled. A method
that throws rolls back, and a transaction may be rolled back at any time.

`completeAction` and `prepareQuestionContinuation` do what `recordAction` does to the invocation;
`parkUserBrowserHandoff`, and the park of `browser/repository.ts`, what `parkBrowserHandoff` does;
`parkAppDataRequest`, `parkAutomationProposal` and `parkBootstrapProposal` what `parkQuestion` does.
`recoverExpired` is two sweeps, of browser sessions that have ended and of leases that have expired.
-/

namespace Bud.Invocation

open ReadCommitted

/-! ### Rows -/

inductive Status where
  | pending
  | retryWait
  | leased
  | waitingForBud
  | waitingForModel
  | running
  | waitingForUser
  | succeeded
  | failed
  | canceled
  | expired
  | needsReview
  deriving DecidableEq

inductive Origin where
  | human
  | automation
  deriving DecidableEq

/-- The columns that are written once. -/
structure Identity where
  threadId : String
  budId : String
  origin : Origin
  createdByUserId : String
  latestStartAt : Option ℕ
  deriving DecidableEq

structure Row where
  status : Status
  reservesThread : Bool
  attempt : ℕ
  fence : ℕ
  workerId : Option String
  leaseExpiresAt : Option ℕ
  nextAttemptAt : ℕ
  outcomeCode : Option String
  cancelRequestedAt : Option ℕ
  updatedAt : ℕ
  deriving DecidableEq

def Row.new (now : ℕ) : Row :=
  { status := .pending
    reservesThread := false
    attempt := 0
    fence := 0
    workerId := none
    leaseExpiresAt := none
    nextAttemptAt := now
    outcomeCode := none
    cancelRequestedAt := none
    updatedAt := now }

structure Lease where
  id : ℕ
  fence : ℕ
  workerId : Option String
  createdByUserId : String

def terminal : List Status := [.succeeded, .failed, .canceled, .expired]

def queued : List Status := [.pending, .retryWait, .waitingForBud, .waitingForModel]

/-! ### What a method does with a row it has locked -/

/-- The statuses `defer` is called with. -/
inductive Deferral where
  | waitingForBud
  | waitingForModel
  | retryWait

def Deferral.status : Deferral → Status
  | .waitingForBud => .waitingForBud
  | .waitingForModel => .waitingForModel
  | .retryWait => .retryWait

/-- The statuses `finish` is called with. -/
inductive Finish where
  | succeeded
  | failed
  | needsReview
  deriving DecidableEq

def Finish.status : Finish → Status
  | .succeeded => .succeeded
  | .failed => .failed
  | .needsReview => .needsReview

inductive Method where
  | heartbeat (lease : Lease)
  | start (lease : Lease)
  | defer (lease : Lease) (status : Deferral) (delaySeconds : ℕ)
  | recordAction (lease : Lease)
  | finish (lease : Lease) (status : Finish) (outcomeCode : String)
  | parkBrowserHandoff (lease : Lease)
  | parkQuestion (lease : Lease)
  | requestCancel (owner : String)
  | abandonReviewed (owner : String) (expectedUpdatedAt : ℕ)
  | expireQueued
  | recoverEnded
  | recoverExpired

/-- What a statement finds outside the table of invocations. -/
structure Choice where
  now : ℕ
  /-- The rows a sweep comes upon, or a `select` returns. -/
  ids : List ℕ
  /-- The invocation has an action that is waiting for the user. -/
  continuation : Bool
  /-- That action is a browser handoff. -/
  browserWait : Bool
  /-- The invocation has an action that is an intent, or waiting for the user. -/
  pending : Bool
  /-- The request the invocation is waiting for has been answered. -/
  answered : Bool

/-- A statement that finds nothing in other tables. -/
def Choice.plain (now : ℕ) (ids : List ℕ) : Choice :=
  { now := now, ids := ids, continuation := false, browserWait := false, pending := false,
    answered := false }

/-- What a method does once it has the row: throw, leave it, or write it. -/
inductive Next where
  | throws
  | leave
  | write
  deriving DecidableEq

def Lease.matches (lease : Lease) (identity : Identity) (row : Row) (now : ℕ) : Bool :=
  identity.createdByUserId = lease.createdByUserId && row.fence = lease.fence &&
    lease.workerId.any (· ≠ "") && row.workerId = lease.workerId &&
    row.leaseExpiresAt.any (now < ·)

def lockedLease (lease : Lease) (identity : Identity) (row : Row) (now : ℕ)
    (statuses : List Status) (allowCancellation : Bool) (next : Next) : Next :=
  if !lease.matches identity row now || row.status ∉ statuses then .throws
  else if row.cancelRequestedAt.isSome && !allowCancellation then .throws
  else next

/-- The row is one that a sweep with these conditions locks. -/
def swept (condition : Bool) : Next := if condition then .write else .leave

def Method.next (identity : Identity) (row : Row) (choice : Choice) : Method → Next
  | .heartbeat lease => lockedLease lease identity row choice.now [.leased, .running] false .write
  | .start lease => lockedLease lease identity row choice.now [.leased] false .write
  | .defer lease _ _ => lockedLease lease identity row choice.now [.leased] false .write
  | .recordAction lease => lockedLease lease identity row choice.now [.running] false .leave
  | .finish lease _ _ => lockedLease lease identity row choice.now [.leased, .running] true .write
  | .parkBrowserHandoff lease => lockedLease lease identity row choice.now [.running] false .write
  | .parkQuestion lease => lockedLease lease identity row choice.now [.running] false .write
  | .requestCancel owner =>
    if identity.createdByUserId ≠ owner then .throws
    else if row.status ∈ terminal then .leave
    else .write
  | .abandonReviewed owner expectedUpdatedAt =>
    if identity.createdByUserId ≠ owner then .throws
    else if row.status = .canceled ∧ row.outcomeCode = some "user_abandoned_after_review" then
      .leave
    else if row.status ≠ .needsReview ∨ row.updatedAt ≠ expectedUpdatedAt then .throws
    else .write
  | .expireQueued =>
    swept (row.status ∈ queued && identity.latestStartAt.any (· ≤ choice.now) &&
      !choice.continuation)
  | .recoverEnded =>
    swept (row.status ∈ [.waitingForUser, .waitingForBud, .waitingForModel, .retryWait] &&
      choice.browserWait)
  | .recoverExpired =>
    swept (row.status ∈ [.leased, .running] && row.leaseExpiresAt.any (· ≤ choice.now))

def Row.released (row : Row) : Row := { row with workerId := none, leaseExpiresAt := none }

def Row.parked (row : Row) (reservesThread : Bool) (now : ℕ) : Row :=
  { row.released with
    status := .waitingForUser
    reservesThread := reservesThread
    fence := row.fence + 1
    updatedAt := now }

/-- What a method writes over `row`; `locked` is the row as it was when it was locked. -/
def Method.update (locked row : Row) (choice : Choice) : Method → Row
  | .heartbeat _ =>
    { row with leaseExpiresAt := some (choice.now + 60), updatedAt := choice.now }
  | .start _ => { row with status := .running, updatedAt := choice.now }
  | .defer _ status delaySeconds =>
    { row.released with
      status := status.status
      reservesThread := choice.continuation && !choice.browserWait
      nextAttemptAt := choice.now + delaySeconds
      updatedAt := choice.now }
  | .recordAction _ => row
  | .finish _ status outcomeCode =>
    { row.released with
      status :=
        if locked.cancelRequestedAt.isSome then .canceled
        else if choice.pending then .needsReview
        else status.status
      reservesThread :=
        !locked.cancelRequestedAt.isSome && (choice.pending || status = .needsReview)
      outcomeCode :=
        if locked.cancelRequestedAt.isSome then some "user_canceled"
        else if choice.pending then some "unresolved_action_intent"
        else some outcomeCode
      updatedAt := choice.now }
  | .parkBrowserHandoff _ => row.parked false choice.now
  | .parkQuestion _ => row.parked true choice.now
  | .requestCancel _ =>
    let row := { row with cancelRequestedAt := locked.cancelRequestedAt.or (some choice.now) }
    if locked.status = .running then { row with updatedAt := choice.now }
    else
      { row.released with
        status := .canceled
        reservesThread := false
        fence := row.fence + 1
        outcomeCode := some "user_canceled"
        updatedAt := choice.now }
  | .abandonReviewed _ _ =>
    { row.released with
      status := .canceled
      reservesThread := false
      cancelRequestedAt := locked.cancelRequestedAt.or (some choice.now)
      outcomeCode := some "user_abandoned_after_review"
      fence := row.fence + 1
      updatedAt := choice.now }
  | .expireQueued =>
    { row with
      status := .expired
      reservesThread := false
      outcomeCode := some "latest_start_elapsed"
      updatedAt := choice.now }
  | .recoverEnded =>
    { row.released with
      status := .canceled
      reservesThread := false
      outcomeCode := some "browser_session_ended"
      fence := row.fence + 1
      updatedAt := choice.now }
  | .recoverExpired =>
    { row.released with
      reservesThread :=
        !locked.cancelRequestedAt.isSome &&
          (locked.status = .running || choice.continuation && !choice.browserWait)
      status :=
        if locked.cancelRequestedAt.isSome then .canceled
        else if locked.status = .leased then .retryWait
        else .needsReview
      outcomeCode :=
        if locked.cancelRequestedAt.isSome then some "user_canceled"
        else if locked.status = .leased then some "preflight_lease_expired"
        else some "execution_lease_expired"
      fence := row.fence + 1
      nextAttemptAt := choice.now
      updatedAt := choice.now }

/-! ### What `claim` writes -/

def Row.leasedTo (row : Row) (workerId : String) (now : ℕ) : Row :=
  { row with
    status := .leased
    reservesThread := true
    workerId := some workerId
    fence := row.fence + 1
    attempt := row.attempt + 1
    leaseExpiresAt := some (now + 60)
    updatedAt := now }

def Row.startElapsed (row : Row) (now : ℕ) : Row :=
  { row with
    status := .expired
    reservesThread := false
    outcomeCode := some "latest_start_elapsed"
    updatedAt := now }

/-! ### Transactions -/

inductive Lock where
  | thread (threadId : String)
  /-- `bud-automation-cap:`. -/
  | capacity (budId : String)
  deriving DecidableEq

inductive Statement where
  | lockThread (threadId : String)
  | lockThreadOf (id : ℕ) (threadId owner : String)
  /-- A `select … for update` of one invocation. -/
  | lockRow (id : ℕ) (method : Method)
  /-- A `select … for update skip locked` of those that qualify. -/
  | sweep (method : Method)
  /-- The browser tasks of the thread that `admit` supersedes. -/
  | selectWaits (threadId owner : String)
  | setOutcome (id : ℕ) (outcomeCode : String)
  | insert (identity : Identity)

/-- The next statement of a `claim`, with what it has read. -/
inductive Claim where
  | candidate (workerId : String)
  | lockThread (workerId : String) (id : ℕ)
  | reread (workerId : String) (id : ℕ)
  | active (workerId : String) (id : ℕ) (current : Row) (expired : Bool)
  | tryCapacity (workerId : String) (id : ℕ) (current : Row)
  | capacity (workerId : String) (id : ℕ) (current : Row)
  | expire (id : ℕ) (current : Row)
  | lease (workerId : String) (id : ℕ) (current : Row)
  | done

/-- What is left of a transaction. A method other than `claim` first writes the rows it has locked,
and then goes on to its other statements. -/
inductive Transaction where
  | claim (next : Claim)
  | work (writes : List (ℕ × Method × Row)) (todo : List Statement)

structure Sys where
  db : Db ℕ Lock Row
  /-- The columns that are written once. -/
  identity : ℕ → Identity
  next : ℕ
  transaction : ℕ → Option Transaction

def init : Sys :=
  { db := Db.empty
    identity := fun _ => ⟨"", "", .human, "", none⟩
    next := 0
    transaction := fun _ => none }

inductive Op where
  | admission (identity : Identity)
  | claim (workerId : String)
  | heartbeat (lease : Lease)
  | start (lease : Lease)
  | defer (lease : Lease) (status : Deferral) (delaySeconds : ℕ)
  | recordAction (lease : Lease)
  | finish (lease : Lease) (status : Finish) (outcomeCode : String)
  | parkBrowserHandoff (lease : Lease)
  | parkQuestion (lease : Lease)
  | requestCancel (owner : String) (id : ℕ)
  | abandonReviewed (owner threadId : String) (id expectedUpdatedAt : ℕ)
  | expireQueued
  | recoverExpired

def Op.transaction : Op → Transaction
  | .admission identity =>
    match identity.origin with
    | .human =>
      .work [] [.lockThread identity.threadId,
        .selectWaits identity.threadId identity.createdByUserId, .insert identity]
    | .automation => .work [] [.lockThread identity.threadId, .insert identity]
  | .claim workerId => .claim (.candidate workerId)
  | .heartbeat lease => .work [] [.lockRow lease.id (.heartbeat lease)]
  | .start lease => .work [] [.lockRow lease.id (.start lease)]
  | .defer lease status delaySeconds =>
    .work [] [.lockRow lease.id (.defer lease status delaySeconds)]
  | .recordAction lease => .work [] [.lockRow lease.id (.recordAction lease)]
  | .finish lease status outcomeCode =>
    .work [] [.lockRow lease.id (.finish lease status outcomeCode)]
  | .parkBrowserHandoff lease => .work [] [.lockRow lease.id (.parkBrowserHandoff lease)]
  | .parkQuestion lease => .work [] [.lockRow lease.id (.parkQuestion lease)]
  | .requestCancel owner id => .work [] [.lockRow id (.requestCancel owner)]
  | .abandonReviewed owner threadId id expectedUpdatedAt =>
    .work [] [.lockThreadOf id threadId owner,
      .lockRow id (.abandonReviewed owner expectedUpdatedAt)]
  | .expireQueued => .work [] [.sweep .expireQueued]
  | .recoverExpired => .work [] [.sweep .recoverEnded, .sweep .recoverExpired]

/-! ### Reading the table -/

def Sys.reservedElsewhere (s : Sys) (tx id : ℕ) : Bool :=
  (List.range s.next).any fun other =>
    other ≠ id && (s.identity other).threadId = (s.identity id).threadId &&
      (s.db.visible tx other).any (·.reservesThread)

/-- How many automations of a Bud hold a reservation. -/
def Sys.used (s : Sys) (tx : ℕ) (budId : String) : ℕ :=
  (List.range s.next).countP fun id =>
    (s.identity id).budId = budId && (s.identity id).origin = .automation &&
      (s.db.visible tx id).any (·.reservesThread)

/-- The `where` of the candidate of `claim`. -/
def Sys.claimable (s : Sys) (automationConcurrencyPerBud tx id : ℕ) (choice : Choice) (row : Row) :
    Bool :=
  (row.status ∈ queued || row.status = .waitingForUser && choice.answered) &&
    row.nextAttemptAt ≤ choice.now && row.cancelRequestedAt.isNone &&
    ((s.identity id).origin = .human || row.reservesThread ||
      s.used tx (s.identity id).budId < automationConcurrencyPerBud) &&
    !s.reservedElsewhere tx id

/-! ### Statements -/

/-- What a statement comes to: the state it leaves and what the transaction does next, or the
transaction is rolled back. -/
inductive Outcome where
  | goesOn (s : Sys) (writes : List (ℕ × Method × Row)) (todo : List Statement)
  | throws

/-- An `update … where id`, once the row is free: `none` while it has to wait. -/
def Sys.writeRow (s : Sys) (tx id : ℕ) (update : Row → Row) : Option Sys :=
  if Free (s.db.rowLock id) tx then
    match s.db.visible tx id with
    | none => some s
    | some row => some { s with db := s.db.write tx id (update row) }
  else none

def Sys.lockRows (s : Sys) (tx : ℕ) (ids : List ℕ) : Sys :=
  { s with db := ids.foldl (fun db id => db.lockRow tx id) s.db }

/-- A row that a sweep may lock and then write. -/
def Sys.sweepable (s : Sys) (tx : ℕ) (choice : Choice) (method : Method) (id : ℕ) : Bool :=
  Free (s.db.rowLock id) tx &&
    (s.db.visible tx id).any fun row => method.next (s.identity id) row choice = .write

def Sys.execute (s : Sys) (tx : ℕ) (choice : Choice) : Statement → Option Outcome
  | .lockThread threadId =>
    if Free (s.db.locks (.thread threadId)) tx then
      some (.goesOn { s with db := s.db.lock tx (.thread threadId) } [] [])
    else none
  | .lockThreadOf id threadId owner =>
    if (s.db.visible tx id).isNone || (s.identity id).threadId ≠ threadId ||
        (s.identity id).createdByUserId ≠ owner then
      some .throws
    else if Free (s.db.locks (.thread threadId)) tx then
      some (.goesOn { s with db := s.db.lock tx (.thread threadId) } [] [])
    else none
  | .lockRow id method =>
    if Free (s.db.rowLock id) tx then
      match s.db.visible tx id with
      | none => some .throws
      | some row =>
        match method.next (s.identity id) row choice with
        | .throws => some .throws
        | .leave => some (.goesOn { s with db := s.db.lockRow tx id } [] [])
        | .write => some (.goesOn { s with db := s.db.lockRow tx id } [(id, method, row)] [])
    else none
  | .sweep method =>
    if choice.ids.Nodup ∧ ∀ id ∈ choice.ids, s.sweepable tx choice method id then
      some (.goesOn (s.lockRows tx choice.ids)
        (choice.ids.filterMap fun id => (s.db.visible tx id).map fun row => (id, method, row)) [])
    else none
  | .selectWaits threadId owner =>
    if ∀ id ∈ choice.ids, (s.identity id).threadId = threadId ∧
        (s.identity id).createdByUserId = owner ∧
        (s.db.visible tx id).any (·.status = .waitingForUser) then
      some (.goesOn s [] (choice.ids.flatMap fun id =>
        [.lockRow id (.requestCancel owner), .setOutcome id "superseded_by_user_message"]))
    else none
  | .setOutcome id outcomeCode =>
    (s.writeRow tx id fun row => { row with outcomeCode := some outcomeCode }).map
      fun s => .goesOn s [] []
  | .insert identity =>
    some (.goesOn
      { s with
        db := s.db.write tx s.next (Row.new choice.now)
        identity := Function.update s.identity s.next identity
        next := s.next + 1 } [] [])

variable (automationConcurrencyPerBud : ℕ)

/-- The statements of `claim`. It returns nothing by going straight to the end. -/
def Sys.claim (s : Sys) (tx : ℕ) (choice : Choice) : Claim → Option (Sys × Claim)
  | .candidate workerId =>
    match choice.ids with
    | [] => some (s, .done)
    | id :: _ =>
      if (s.db.visible tx id).any (s.claimable automationConcurrencyPerBud tx id choice) then
        some (s, .lockThread workerId id)
      else none
  | .lockThread workerId id =>
    -- `skip locked`
    if Free (s.db.locks (.thread (s.identity id).threadId)) tx then
      some ({ s with db := s.db.lock tx (.thread (s.identity id).threadId) }, .reread workerId id)
    else some (s, .done)
  | .reread workerId id =>
    match s.db.visible tx id with
    | none => some (s, .done)
    | some current =>
      if current.cancelRequestedAt.isSome || current.status ∉ queued ++ [.waitingForUser] then
        some (s, .done)
      else
        some (s, .active workerId id current
          ((s.identity id).latestStartAt.any (· ≤ choice.now) && !choice.continuation))
  | .active workerId id current expired =>
    if s.reservedElsewhere tx id then some (s, .done)
    else if expired ∧ current.status ≠ .waitingForUser then some (s, .expire id current)
    else if (s.identity id).origin = .automation ∧ !current.reservesThread then
      some (s, .tryCapacity workerId id current)
    else some (s, .lease workerId id current)
  | .tryCapacity workerId id current =>
    if Free (s.db.locks (.capacity (s.identity id).budId)) tx then
      some ({ s with db := s.db.lock tx (.capacity (s.identity id).budId) },
        .capacity workerId id current)
    else some (s, .done)
  | .capacity workerId id current =>
    if automationConcurrencyPerBud ≤ s.used tx (s.identity id).budId then some (s, .done)
    else some (s, .lease workerId id current)
  | .expire id _ =>
    (s.writeRow tx id fun row => row.startElapsed choice.now).map fun s => (s, .done)
  | .lease workerId id _ =>
    (s.writeRow tx id fun row => row.leasedTo workerId choice.now).map fun s => (s, .done)
  | .done => none

/-! ### Steps -/

def Sys.commit (s : Sys) (tx : ℕ) : Sys :=
  { s with db := s.db.commit tx, transaction := Function.update s.transaction tx none }

def Sys.rollback (s : Sys) (tx : ℕ) : Sys :=
  { s with db := s.db.rollback tx, transaction := Function.update s.transaction tx none }

def Sys.goOn (s : Sys) (tx : ℕ) (transaction : Transaction) : Sys :=
  { s with transaction := Function.update s.transaction tx (some transaction) }

inductive Act where
  | begin (tx : ℕ) (op : Op)
  /-- The next statement of a transaction. -/
  | execute (tx : ℕ) (choice : Choice)
  | commit (tx : ℕ)
  | rollback (tx : ℕ)

def step (s : Sys) : Act → Option Sys
  | .begin tx op =>
    if s.transaction tx = none then some (s.goOn tx op.transaction) else none
  | .execute tx choice =>
    match s.transaction tx with
    | some (.claim next) =>
      (s.claim automationConcurrencyPerBud tx choice next).map fun (s, next) =>
        s.goOn tx (.claim next)
    | some (.work ((id, method, locked) :: writes) todo) =>
      (s.writeRow tx id fun row => method.update locked row choice).map fun s =>
        s.goOn tx (.work writes todo)
    | some (.work [] (statement :: todo)) =>
      (s.execute tx choice statement).map fun
        | .goesOn s writes more => s.goOn tx (.work writes (more ++ todo))
        | .throws => s.rollback tx
    | some (.work [] []) | none => none
  | .commit tx =>
    match s.transaction tx with
    | some (.claim .done) | some (.work [] []) => some (s.commit tx)
    | _ => none
  | .rollback tx => if s.transaction tx = none then none else some (s.rollback tx)

end Bud.Invocation
