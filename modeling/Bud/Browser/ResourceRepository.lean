import Bud.Browser.ControlTables

/-!
# The transactions on a resource

`resource-repository.ts`: a resource is made on demand, its control is given back when the daemon
has acknowledged that, and it is stopped or reset when the owner asks for it and the daemon has done
so. A caller that waits for the daemon keeps the row it has read or written (`expected`), and the
acknowledgement is only good for that row: by the revision, the epoch, the generation of the profile
and the request.

Two writes to a resource are not by the repository: `stop` and `reset` are carried out by the sweep
of `lifecycle.ts`, which reads the rows that are pending, and a trigger retires the resources of a
Bud that changes hands.

## Modelling notes

The locks on threads and invocations are left out; they find nothing. `publishInvocationChanges`
comes after the commit. Generated ids are arguments.
-/

namespace Bud.BrowserControl

open Transaction

/-! ### What is written to a resource -/

def Columns.clearOverride (c : Columns) : Columns :=
  { c with
    overrideId := none
    overrideViewerId := none
    overrideCarrierId := none
    overrideExpiresAt := none }

/-- Control is back with the agent. -/
def Columns.release (c : Columns) (restarted : Bool) : Columns :=
  { c.clearOverride with
    controlState := .agent
    privateContent := false
    controlSessionId := none
    controlEpoch := c.controlEpoch + restarted.toNat
    revision := c.revision + 1 }

def Columns.fail (c : Columns) : Columns :=
  { c with controlState := .paused, revision := c.revision + 1 }

def Columns.recover (c : Columns) : Columns :=
  { c.clearOverride with
    controlState := .paused
    revision := c.revision + 1
    controlEpoch := c.controlEpoch + 1
    endedOverrideId := c.overrideId.or c.endedOverrideId
    overrideEndReason := some "service_restarted" }

inductive LifecycleOperation where
  | stop
  | reset
  deriving DecidableEq

def LifecycleOperation.pending : LifecycleOperation → DesiredState
  | .stop => .stopPending
  | .reset => .resetPending

def Columns.requestLifecycle (c : Columns) (operation : LifecycleOperation)
    (requestId owner : String) : Columns :=
  { c.clearOverride with
    desiredState := operation.pending
    controlState := .paused
    controlEpoch := c.controlEpoch + 1
    revision := c.revision + 1
    lifecycleRequestId := some requestId
    requestedByUserId := some owner }

def Columns.acknowledgeLifecycle (c : Columns) (reset : Bool) : Columns :=
  { c.clearOverride with
    desiredState := .stopped
    profileGeneration := c.profileGeneration + reset.toNat
    controlSessionId := none
    privateContent := if reset then false else c.privateContent
    revision := c.revision + 1 }

def lifecyclePending : List DesiredState := [.stopPending, .resetPending]

/-! ### Acknowledgements -/

def checkRevision (resource : Resource) (expected : ℕ) : InTransaction Unit :=
  check (resource.revision = expected) (.browser "browser_revision_conflict")

/-- The field a receipt is matched by. -/
inductive ReceiptKind where
  | control
  | lifecycle

def ReceiptKind.field : ReceiptKind → Resource → Option String
  | .control, r => r.controlRequestId
  | .lifecycle, r => r.lifecycleRequestId

def receipt (resource expected : Resource) (kind : ReceiptKind) : InTransaction Unit := do
  checkRevision resource expected.revision
  check (resource.id = expected.id && resource.controlEpoch = expected.controlEpoch &&
      truthy (kind.field expected) && kind.field resource = kind.field expected &&
      resource.profileGeneration = expected.profileGeneration)
    (.browser "browser_stale_acknowledgement")

/-! ### Handoffs and workspaces -/

/-- What a handoff that is pending is resolved to when control is back; nothing if it is not one of
the resource, or is for another override. -/
def Tables.resolution (tables : Tables) (resource : Resource) (override : Option String)
    (handoff : Handoff) : Option HandoffStatus := do
  guard (handoff.createdByUserId = resource.createdByUserId ∧ handoff.status = .pending ∧
    (handoff.kind ≠ .agent ∨ override.isSome ∧ handoff.overrideId = override))
  let session ← tables.session? handoff.sessionId
  guard (session.browserId = some resource.id)
  let thread ← tables.thread? session.threadId
  guard (thread.createdByUserId = resource.createdByUserId)
  let usable := !thread.deleted && session.closedAt.isNone && session.desiredOpen
  match handoff.invocationId with
  | none => return if usable then .returned else .canceled
  | some id =>
    let invocation ← tables.invocation? id
    guard (invocation.createdByUserId = resource.createdByUserId ∧
      session.createdByUserId = resource.createdByUserId)
    return if usable && !invocation.canceled &&
        invocation.status ∈ [.running, .waitingForUser] then .returned else .canceled

def resolveHandoffs (resource : Resource) (restarted : Bool) : InTransaction Unit := do
  let s ← get
  let override :=
    if restarted then resource.overrideId.or resource.endedOverrideId else resource.endedOverrideId
  setTables fun tables =>
    { tables with
      handoffs := tables.handoffs.map fun handoff =>
        match tables.resolution resource override handoff with
        | none => handoff
        | some status =>
          { handoff with
            status := status
            returnedByUserId :=
              if restarted || resource.overrideEndReason ≠ some "explicit_return" then none
              else some resource.createdByUserId
            resolutionReason :=
              if restarted then some "runtime_replaced" else resource.overrideEndReason
            resolvedAt := some s.now } }

/-- The workspace is open, and so is its thread. -/
def Tables.usable (tables : Tables) (session : Session) (owner : String) : Bool :=
  session.createdByUserId = owner && session.desiredOpen && session.closedAt.isNone &&
    (tables.thread? session.threadId).any fun thread =>
      thread.createdByUserId = owner && !thread.deleted

/-- `update browser_session … set state='ready' … returning`, which has to find its row. -/
def readySession (condition : Tables → Session → Bool) : InTransaction Unit := do
  let s ← get
  check (s.tables.sessions.any (condition s.tables)) (.browser "browser_not_found")
  updateSessions (condition s.tables) fun session => { session with state := .ready }

/-! ### The methods -/

/-- `ensure`; `id` is the id that has been generated for a new resource. -/
def ensure (owner bud id : String) : InTransaction Resource :=
  withLocked owner bud (some id) fun resource => pure resource

def releaseAuthority (expected : Resource) (restarted : Bool) (workspace : Option Session) :
    InTransaction Resource :=
  withLocked expected.createdByUserId expected.budId none fun resource => do
    if restarted then
      checkRevision resource expected.revision
      check (resource.id = expected.id && resource.controlEpoch = expected.controlEpoch &&
          resource.profileGeneration = expected.profileGeneration &&
          resource.desiredState = .opened)
        (.browser "browser_stale_acknowledgement")
    else
      receipt resource expected .control
      check (resource.controlState = .resumePending &&
          resource.controlOperation = some .endControl)
        (.browser "browser_control_conflict")
    workspace.forM fun workspace =>
      readySession fun tables session =>
        session.id = workspace.id && session.generation = workspace.generation &&
          session.browserId = some resource.id && tables.usable session resource.createdByUserId
    resolveHandoffs resource restarted
    resource.update (·.release restarted)

/-- The daemon has confirmed that it has replaced the runtime. -/
def acknowledgeRecovery (expected : Resource) (workspace : Session) : InTransaction Resource :=
  releaseAuthority expected true (some workspace)

/-- The daemon has confirmed that control has ended. -/
def acknowledgeReturn (expected : Resource) : InTransaction Resource :=
  releaseAuthority expected false none

/-- Whether the row is still the one that the failure is about. -/
def Store.failing (s : Store) (expected r : Resource) : Bool :=
  r.id = expected.id && r.createdByUserId = expected.createdByUserId &&
    s.ownsBud r.budId expected.createdByUserId && r.revision = expected.revision &&
    r.controlEpoch = expected.controlEpoch && expected.controlRequestId.isSome &&
    r.controlRequestId = expected.controlRequestId && r.retiredAt.isNone

def failControl (expected : Resource) : InTransaction Bool := do
  let s ← get
  updateResources (s.failing expected) Columns.fail
  return s.resources.rows.any (s.failing expected)

def Resource.recoverable (r : Resource) : Bool :=
  r.retiredAt.isNone && r.desiredState = .opened &&
    r.controlState ∈ [.humanPrivate, .resumePending, .paused]

def recover : InTransaction Unit := updateResources Resource.recoverable Columns.recover

def requestLifecycle (owner bud : String) (revision : ℕ) (operation : LifecycleOperation)
    (confirmedReset : Bool) (requestId : String) : InTransaction Resource := do
  check (operation ≠ .reset || confirmedReset) (.browser "browser_reset_confirmation_required")
  withLocked owner bud none fun resource => do
    checkRevision resource revision
    check (resource.desiredState ∉ lifecyclePending) (.browser "browser_lifecycle_pending")
    resource.update (·.requestLifecycle operation requestId owner)

def acknowledgeLifecycle (expected : Resource) : InTransaction Resource :=
  withLocked expected.createdByUserId expected.budId none fun resource => do
    receipt resource expected .lifecycle
    check (resource.desiredState ∈ lifecyclePending) (.browser "browser_lifecycle_conflict")
    let reset : Bool := resource.desiredState = .resetPending
    let s ← get
    updateSessions (fun session => session.browserId = some resource.id && session.closedAt.isNone)
      fun session =>
        { session with desiredOpen := false, state := .closed, closedAt := some s.now }
    updateHandoffs
      (fun handoff => handoff.status = .pending &&
        (s.tables.session? handoff.sessionId).any (·.browserId = some resource.id))
      fun handoff => { handoff with status := .canceled, resolvedAt := some s.now }
    resource.update (·.acknowledgeLifecycle reset)

/-! ### Around the repository -/

/-- The rows that `reconcile` of `lifecycle.ts` finds, among those with `ids`. -/
def Store.pendingLifecycle (s : Store) (ids : List String) : List Resource :=
  s.resources.rows.filter fun r =>
    r.id ∈ ids && r.retiredAt.isNone && r.desiredState ∈ lifecyclePending &&
      s.ownsBud r.budId r.createdByUserId

/-- A Bud is claimed or unclaimed, with the trigger `retire_bud_browser_claim`. -/
def claimBud (bud : String) (owner : Option String) (deviceSecret : String) :
    InTransaction Unit := do
  let s ← get
  let changes := s.buds.any fun row =>
    row.budId = bud && (row.createdByUserId ≠ owner || row.deviceSecret ≠ deviceSecret)
  updateResources (fun r => changes && r.budId = bud && r.retiredAt.isNone) fun c => c.retire s.now
  modify fun s =>
    { s with
      buds := s.buds.map fun row =>
        if row.budId = bud then { row with createdByUserId := owner, deviceSecret := deviceSecret }
        else row }

end Bud.BrowserControl
