import Bud.Agent.Invocation
import Bud.Lib.KeyedTable
import Bud.Lib.Transaction

/-!
# Who has the browser: the tables

`browser_resource` is the one managed browser of a Bud, and says who has it: the agent, or a person
who is looking at private pages. `browser_session` is a workspace of a thread in it. The methods of
`resource-repository.ts`, `control-repository.ts` and `repository.ts` under `browser/` read and
write these two tables, and look at the Bud, the thread and the invocation they are called for.

A resource has an epoch and a revision. The daemon is told the epoch with every command, and a
change of control raises it; the revision goes up at nearly every write.

## Modelling notes

`created_at` and `updated_at` are left out: they only order scans that stop at 32 rows. So are the
columns and the fields of a command that nothing here reads back (`browser_color`,
`browser_viewport`, the work timing of an invocation). A jsonb column is a structure with the fields
that are ever put into it. Times are in milliseconds.

The database refuses to commit what breaks a constraint. Those that are about more than one row are
part of the model (`Store.consistent`); the primary key of a resource is in the type of its table.
The checks on a single row are left out, and among them is the one that private content is never
under the control of the agent: it is proved without.
-/

namespace Bud.BrowserControl

open Transaction

/-! ### Rows -/

inductive ControlState where
  | agent
  | paused
  | humanPrivate
  | resumePending
  deriving DecidableEq

inductive ControlOperation where
  | pause
  | acquire
  /-- `'end'`. -/
  | endControl
  deriving DecidableEq

inductive DesiredState where
  /-- `'open'`. -/
  | opened
  | stopPending
  | stopped
  | resetPending
  deriving DecidableEq

/-- The columns of a resource that are written once. -/
structure Identity where
  id : String
  budId : String
  createdByUserId : String
  tenantId : Option String
  deriving DecidableEq

/-- The others. -/
structure Columns where
  profileGeneration : ℕ
  controlState : ControlState
  privateContent : Bool
  controlEpoch : ℕ
  controlSessionId : Option String
  overrideId : Option String
  overrideViewerId : Option String
  overrideCarrierId : Option String
  overrideExpiresAt : Option ℕ
  endedOverrideId : Option String
  overrideEndReason : Option String
  revision : ℕ
  controlRequestId : Option String
  controlOperation : Option ControlOperation
  desiredState : DesiredState
  lifecycleRequestId : Option String
  requestedByUserId : Option String
  retiredAt : Option ℕ
  deriving DecidableEq

structure Resource extends Identity, Columns where
  deriving DecidableEq

def Resource.write (r : Resource) (update : Columns → Columns) : Resource :=
  { r with toColumns := update r.toColumns }

def Resource.new (identity : Identity) : Resource :=
  { identity with
    profileGeneration := 1
    controlState := .agent
    privateContent := false
    controlEpoch := 1
    controlSessionId := none
    overrideId := none
    overrideViewerId := none
    overrideCarrierId := none
    overrideExpiresAt := none
    endedOverrideId := none
    overrideEndReason := none
    revision := 0
    controlRequestId := none
    controlOperation := none
    desiredState := .opened
    lifecycleRequestId := none
    requestedByUserId := none
    retiredAt := none }

@[simp] theorem Resource.toIdentity_write (r : Resource) (update : Columns → Columns) :
    (r.write update).toIdentity = r.toIdentity := rfl

@[simp] theorem Resource.toColumns_write (r : Resource) (update : Columns → Columns) :
    (r.write update).toColumns = update r.toColumns := rfl

inductive SessionState where
  | opening
  | ready
  | interrupted
  | closed
  deriving DecidableEq

structure Session where
  id : String
  threadId : String
  budId : String
  createdByUserId : String
  tenantId : Option String
  browserId : Option String
  generation : String
  bootId : String
  state : SessionState
  desiredOpen : Bool
  controlEpoch : ℕ
  sequence : ℕ
  invocationId : Option String
  invocationFence : Option ℕ
  pendingUntil : Option ℕ
  closedAt : Option ℕ
  deriving DecidableEq

structure BudRow where
  budId : String
  createdByUserId : Option String
  tenantId : Option String
  deviceSecret : String

structure Thread where
  threadId : String
  budId : String
  createdByUserId : String
  tenantId : Option String
  deleted : Bool

structure InvocationRow where
  id : String
  threadId : String
  budId : String
  createdByUserId : String
  turnId : String
  status : Invocation.Status
  reservesThread : Bool
  fence : ℕ
  workerId : Option String
  leaseExpiresAt : Option ℕ
  canceled : Bool

inductive HandoffKind where
  | agent
  | user
  | returnControl
  deriving DecidableEq

inductive HandoffStatus where
  | pending
  | returned
  | canceled
  deriving DecidableEq

structure Handoff where
  id : String
  sessionId : String
  threadId : String
  budId : String
  invocationId : Option String
  callId : Option String
  clientId : Option String
  reason : String
  kind : HandoffKind
  status : HandoffStatus
  createdByUserId : String
  tenantId : Option String
  returnedByUserId : Option String
  overrideId : Option String
  resolutionReason : Option String
  resolvedAt : Option ℕ

/-! ### Commands -/

/-- A field of a command. -/
inductive Value where
  | text (value : String)
  /-- Anything but a string. -/
  | other

/-- What the agent asks for: `action`, and the other fields. -/
structure AgentCommand where
  action : String
  fields : List (String × Value)

/-- What a viewer's request, or the service itself, asks for. -/
inductive ViewerCommand where
  | control (operation : ControlOperation)
  | renew
  | ensure (explicitUrl : Bool)
  /-- `human_input`, `native_window`, `resize_viewport`. -/
  | page (action : String)

inductive Command where
  | agent (command : AgentCommand)
  | viewer (command : ViewerCommand)

structure BrowserCommand where
  browserId : String
  browserEpoch : ℕ
  privateContent : Bool
  browserPaused : Bool
  requestId : String
  sessionId : String
  generation : String
  threadId : String
  ownerUserId : String
  controlEpoch : ℕ
  sequence : ℕ
  invocationId : String
  invocationFence : ℕ
  expiresAtMs : ℕ
  command : Command

inductive Outcome where
  | completed
  | rejected
  | unknown

structure BackendResult where
  ok : Bool
  outcome : Outcome
  error : Option String
  data : List (String × String)

/-- The receipt of a cell. -/
structure Cell where
  codeHash : String
  request : BrowserCommand
  result : Option BackendResult

/-- The `evidence` of an action. -/
structure Evidence where
  browserDispatched : Bool
  browserCell : Option Cell
  browserHandoffId : Option String

inductive ActionStatus where
  | intent
  | waitingForUser
  | completed
  deriving DecidableEq

structure ActionRow where
  invocationId : String
  callId : String
  kind : String
  status : ActionStatus
  fence : ℕ
  evidence : Option Evidence
  createdByUserId : String

/-! ### The database -/

/-- The tables that others write too. -/
structure Tables where
  sessions : List Session
  threads : List Thread
  invocations : List InvocationRow
  actions : List ActionRow
  handoffs : List Handoff

structure Store where
  now : ℕ
  buds : List BudRow
  resources : KeyedTable fun r : Resource => r.id
  tables : Tables

def Store.ownsBud (s : Store) (bud owner : String) : Bool :=
  s.buds.any fun row => row.budId = bud && row.createdByUserId = some owner

/-- `browser_session_resource_owner_fk`. -/
def Store.linked (s : Store) (session : Session) : Bool :=
  session.browserId.all fun browserId =>
    (s.resources.get? browserId).any fun r =>
      r.budId = session.budId && r.createdByUserId = session.createdByUserId

/-- The constraints between rows: sessions are of a resource of their Bud and owner, and a Bud has
one resource at most that is not retired (`browser_resource_active_bud_idx`). -/
def Store.consistent (s : Store) : Bool :=
  s.tables.sessions.all s.linked &&
    decide (((s.resources.rows.filter (·.retiredAt.isNone)).map (·.budId)).Nodup)

inductive Failure where
  /-- `BrowserError`. -/
  | browser (code : String)
  /-- `BrowserReplay`. -/
  | replay (request : BrowserCommand) (result : BackendResult)
  /-- A constraint is violated. -/
  | database

abbrev InTransaction (α : Type) : Type := Tx Store Failure α

/-! ### Writing -/

def Store.writeResources (s : Store) (condition : Resource → Bool) (update : Columns → Columns) :
    Store :=
  { s with
    resources := s.resources.map (fun r => if condition r then r.write update else r) fun r => by
      by_cases hr : condition r = true <;> simp [hr] }

def updateResources (condition : Resource → Bool) (update : Columns → Columns) :
    InTransaction Unit :=
  modify fun s => s.writeResources condition update

/-- `update … where id=$1 returning *`, of a row that is locked. -/
def Resource.update (r : Resource) (update : Columns → Columns) : InTransaction Resource := do
  updateResources (fun row => row.id = r.id) update
  return r.write update

def setTables (update : Tables → Tables) : InTransaction Unit :=
  modify fun s => { s with tables := update s.tables }

def updateSessions (condition : Session → Bool) (update : Session → Session) :
    InTransaction Unit :=
  setTables fun tables =>
    { tables with
      sessions := tables.sessions.map fun session =>
        if condition session then update session else session }

def updateHandoffs (condition : Handoff → Bool) (update : Handoff → Handoff) :
    InTransaction Unit :=
  setTables fun tables =>
    { tables with
      handoffs := tables.handoffs.map fun handoff =>
        if condition handoff then update handoff else handoff }

def Tables.session? (tables : Tables) (id : String) : Option Session :=
  tables.sessions.find? (·.id = id)

def Tables.thread? (tables : Tables) (threadId : String) : Option Thread :=
  tables.threads.find? (·.threadId = threadId)

def Tables.invocation? (tables : Tables) (id : String) : Option InvocationRow :=
  tables.invocations.find? (·.id = id)

/-! ### The locked resource -/

/-- The resource of another owner is not used again. -/
def Columns.retire (c : Columns) (now : ℕ) : Columns :=
  { c with
    retiredAt := some now
    controlState := .paused
    controlEpoch := c.controlEpoch + 1
    revision := c.revision + 1 }

def Store.active? (s : Store) (owner bud : String) : Option Resource :=
  s.resources.rows.find? fun r =>
    r.budId = bud && r.createdByUserId = owner && r.retiredAt.isNone

def insertResource (r : Resource) : InTransaction Resource := do
  let s ← get
  let resources ← require (s.resources.insert? r) .database
  modify fun s => { s with resources := resources }
  return r

/-- `create` is the id that has been generated, if the resource may be created. -/
def lockResource (owner bud : String) (create : Option String) : InTransaction Resource := do
  let s ← get
  let owned ← require
    (s.buds.find? fun row => row.budId = bud && row.createdByUserId = some owner)
    (.browser "browser_not_found")
  updateResources (fun r => r.budId = bud && r.createdByUserId ≠ owner && r.retiredAt.isNone)
    fun c => c.retire s.now
  let s ← get
  match s.active? owner bud, create with
  | some r, _ => return r
  | none, some id => insertResource (.new ⟨id, bud, owner, owned.tenantId⟩)
  | none, none => throw (.browser "browser_not_found")

def withLocked {α : Type} (owner bud : String) (create : Option String)
    (operation : Resource → InTransaction α) : InTransaction α := do
  let resource ← lockResource owner bud create
  operation resource

def truthy (value : Option String) : Bool := value.any (· ≠ "")

end Bud.BrowserControl
