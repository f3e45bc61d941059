import Bud.Browser.ControlRepository

/-!
# The commands of the agent

`prepare` of `browser/repository.ts` admits a command of the agent: it holds the Bud, the resource,
the thread and the invocation, looks whether the browser is the agent's, and makes the request that
is sent to the daemon. What the daemon answers is only passed on if `evidenceAllowed` finds that
nothing has changed hands since.

## Modelling notes

`ensure` is a transaction of its own, before this one. A workspace of a resource that is retired is
closed, and an invocation that finds the browser taken is parked; both are committed before the
method throws, so they are results here (`Prepared`). The hash of a cell's code is an argument. A
command has its `action` and other fields; that it has two in all is that it has one other.
-/

namespace Bud.BrowserControl

open Transaction

/-- A resource that was stopped is opened again. -/
def Columns.reopen (c : Columns) : Columns :=
  { c with
    desiredState := .opened
    controlState := if c.privateContent then .paused else .agent
    controlEpoch := c.controlEpoch + 1
    revision := c.revision + 1 }

structure InvocationIdentity where
  id : String
  fence : ℕ
  workerId : String

/-- `BrowserAgentContext`. -/
structure AgentContext where
  invocation : Option InvocationIdentity
  callId : Option String
  ownerUserId : String
  budId : String
  threadId : String
  turnId : String
  waitClientId : Option String

inductive EnsureOnly where
  | no
  | yes
  | receiptOnly
  deriving DecidableEq

/-- What has been committed. -/
inductive Prepared where
  | admitted (request : BrowserCommand)
  /-- What recovery is to be asked for. -/
  | candidate (request : BrowserCommand)
  /-- `BrowserToolWait`. -/
  | waits (handoffId sessionId invocationId : String)
  /-- `browser_interrupted_reopen_required`. -/
  | reopenRequired

/-- The ids that are generated, and the clock of the service. -/
structure Generated where
  requestId : String
  sessionId : String
  generation : String
  handoffId : String
  serviceNow : ℕ

/-! ### Authority -/

/-- The resource, if the Bud is still the owner's. -/
def agentResource (context : AgentContext) : InTransaction Resource := do
  let s ← get
  require
    ((s.active? context.ownerUserId context.budId).filter fun _ =>
      s.ownsBud context.budId context.ownerUserId)
    (.browser "browser_not_found")

def reopenStopped (resource : Resource) (command : AgentCommand) : InTransaction Resource :=
  if resource.desiredState = .stopped ∧ command.action = "open" then resource.update Columns.reopen
  else pure resource

structure Authority where
  leaseExpiresAt : ℕ
  tenantId : Option String

/-- The lease of the invocation, if it is good. -/
def Store.authority? (s : Store) (context : AgentContext) (identity : InvocationIdentity) :
    Option Authority := do
  let invocation ← s.tables.invocation? identity.id
  let leaseExpiresAt ← invocation.leaseExpiresAt
  guard (invocation.fence = identity.fence ∧ invocation.workerId = some identity.workerId ∧
    invocation.turnId = context.turnId ∧ invocation.status = .running ∧ s.now < leaseExpiresAt ∧
    invocation.canceled = false ∧ invocation.createdByUserId = context.ownerUserId ∧
    invocation.threadId = context.threadId)
  let thread ← s.tables.thread? context.threadId
  guard (thread.createdByUserId = context.ownerUserId ∧ thread.budId = context.budId ∧
    thread.deleted = false ∧ s.ownsBud context.budId context.ownerUserId = true)
  return ⟨leaseExpiresAt, thread.tenantId⟩

/-! ### Receipts -/

def actionOf (context : AgentContext) (identity : InvocationIdentity) (callId : String)
    (action : ActionRow) : Bool :=
  action.invocationId = identity.id && action.callId = callId && action.fence = identity.fence &&
    action.createdByUserId = context.ownerUserId

/-- It is an intent that nothing has been sent for. -/
def ActionRow.undispatched (action : ActionRow) : Bool :=
  action.status = .intent && !action.evidence.any (·.browserDispatched)

def updateActions (condition : ActionRow → Bool) (update : ActionRow → ActionRow) :
    InTransaction Unit :=
  setTables fun tables =>
    { tables with
      actions := tables.actions.map fun action =>
        if condition action then update action else action }

def AgentCommand.code? (command : AgentCommand) : Option String :=
  match command.fields with
  | [("code", .text code)] => some code
  | _ => none

/-- A cell that has been dispatched is answered by its receipt, and never dispatched again. -/
def checkCell (context : AgentContext) (identity : InvocationIdentity) (callId : String)
    (command : AgentCommand) (codeHash : String) : InTransaction Unit := do
  if command.action = "exec" then
    check (command.code?.any fun code => code ≠ "" && code.utf8ByteSize ≤ 64 * 1024)
      (.browser "browser_invalid_arguments")
    let s ← get
    let action ← require
      (s.tables.actions.find? fun action =>
        actionOf context identity callId action && action.kind = "browser_exec")
      (.browser "browser_invocation_required")
    (action.evidence.bind (·.browserCell)).forM fun receipt => do
      check (receipt.codeHash = codeHash) (.browser "browser_cell_conflict")
      throw (.replay receipt.request (receipt.result.getD
        { ok := false
          outcome := .unknown
          error := some "browser_outcome_unknown"
          data := [("execution_state", "unknown")] }))
    check action.undispatched (.browser "browser_call_already_dispatched")

/-! ### The workspace of the thread -/

/-- The commands that open a workspace where there is none. -/
def AgentCommand.opens (command : AgentCommand) : Bool := command.action ∈ ["open", "exec"]

def Store.threadSession? (s : Store) (context : AgentContext) : Option Session :=
  s.tables.sessions.find? fun session =>
    session.threadId = context.threadId && session.createdByUserId = context.ownerUserId &&
      session.budId = context.budId && session.closedAt.isNone

def newSession (context : AgentContext) (resource : Resource) (authority : Authority)
    (bootId : String) (generated : Generated) : Session :=
  { id := "browser_" ++ generated.sessionId
    threadId := context.threadId
    budId := context.budId
    createdByUserId := context.ownerUserId
    tenantId := authority.tenantId
    browserId := some resource.id
    generation := generated.generation
    bootId := bootId
    state := .opening
    desiredOpen := true
    controlEpoch := 1
    sequence := 0
    invocationId := none
    invocationFence := none
    pendingUntil := none
    closedAt := none }

def insertSession (session : Session) : InTransaction Session := do
  setTables fun tables => { tables with sessions := tables.sessions ++ [session] }
  return session

/-- The workspace; `none` if the one of a retired resource has been closed and the command opens no
other. -/
def workspace (context : AgentContext) (resource : Resource) (authority : Authority)
    (bootId : String) (command : AgentCommand) (generated : Generated) :
    InTransaction (Option Session) := do
  let s ← get
  match s.threadSession? context with
  | some session =>
    if session.browserId = some resource.id then return some session
    else
      updateSessions (fun row => row.id = session.id) fun row =>
        { row with
          state := .interrupted
          desiredOpen := false
          closedAt := some s.now }
      if command.opens then
        some <$> insertSession (newSession context resource authority bootId generated)
      else return none
  | none =>
    check command.opens (.browser "browser_not_open")
    some <$> insertSession (newSession context resource authority bootId generated)

/-! ### Admission -/

/-- The browser is not the agent's: the invocation waits for it to be returned. -/
def park (context : AgentContext) (identity : InvocationIdentity) (callId : String)
    (authority : Authority) (session : Session) (generated : Generated) :
    InTransaction Prepared := do
  check (truthy context.waitClientId && session.desiredOpen) (.browser "browser_private_or_paused")
  setTables fun tables =>
    { tables with
      handoffs := tables.handoffs ++
        [{ id := generated.handoffId
           sessionId := session.id
           threadId := context.threadId
           budId := context.budId
           invocationId := some identity.id
           callId := some callId
           clientId := context.waitClientId
           reason := "Return browser control so Bud can continue."
           kind := .returnControl
           status := .pending
           createdByUserId := context.ownerUserId
           tenantId := authority.tenantId
           returnedByUserId := none
           overrideId := none
           resolutionReason := none
           resolvedAt := none }] }
  -- The tentative receipt is overwritten: no command left this transaction.
  updateActions (fun action => action.invocationId = identity.id && action.callId = callId)
    fun action =>
      { action with
        status := .waitingForUser
        fence := action.fence + 1
        evidence := some ⟨false, none, some generated.handoffId⟩ }
  setTables fun tables =>
    { tables with
      invocations := tables.invocations.map fun invocation =>
        if invocation.id = identity.id then
          { invocation with
            status := .waitingForUser
            reservesThread := false
            workerId := none
            leaseExpiresAt := none
            fence := invocation.fence + 1 }
        else invocation }
  return .waits generated.handoffId session.id identity.id

def agentRequest (context : AgentContext) (identity : InvocationIdentity) (resource : Resource)
    (session : Session) (controlEpoch sequence expires : ℕ) (command : AgentCommand)
    (generated : Generated) : BrowserCommand :=
  { browserId := resource.id
    browserEpoch := resource.controlEpoch
    privateContent := resource.privateContent
    browserPaused := resource.controlState ≠ .agent
    requestId := generated.requestId
    sessionId := session.id
    generation := session.generation
    threadId := context.threadId
    ownerUserId := context.ownerUserId
    controlEpoch := controlEpoch
    sequence := sequence
    invocationId := identity.id
    invocationFence := identity.fence
    expiresAtMs := expires
    command := .agent command }

def dispatch (context : AgentContext) (identity : InvocationIdentity) (callId bootId : String)
    (resource : Resource) (session : Session) (expires : ℕ) (command : AgentCommand)
    (codeHash : String) (generated : Generated) : InTransaction Prepared := do
  let restarted : Bool := session.bootId ≠ bootId
  check (!restarted || command.action ∈ ["open", "exec", "close"])
    (.browser "browser_recovery_required")
  check (restarted || !session.pendingUntil.any (generated.serviceNow < ·))
    (.browser "browser_busy")
  check (session.desiredOpen || command.action = "close") (.browser "browser_close_pending")
  let changed : Bool := restarted || command.action = "open" ||
    session.invocationId ≠ some identity.id || session.invocationFence ≠ some identity.fence
  let updated : Session :=
    { session with
      sequence := session.sequence + 1
      controlEpoch := session.controlEpoch + changed.toNat
      invocationId := some identity.id
      invocationFence := some identity.fence
      pendingUntil := some expires
      desiredOpen := command.action ≠ "close" && session.desiredOpen
      generation := if restarted then generated.generation else session.generation
      bootId := bootId }
  updateSessions (fun row => row.id = session.id) fun _ => updated
  let request := agentRequest context identity resource updated updated.controlEpoch
    updated.sequence expires command generated
  if command.action = "exec" then
    -- The receipt names the action, but not the code.
    updateActions (fun action => action.invocationId = identity.id && action.callId = callId)
      fun action =>
        { action with
          evidence := action.evidence.map fun evidence =>
            { evidence with
              browserCell := some
                { codeHash := codeHash
                  request := { request with command := .agent ⟨"exec", []⟩ }
                  result := none } } }
  return .admitted request

/-- What is committed once the workspace is there. -/
def admission (context : AgentContext) (identity : InvocationIdentity) (callId bootId : String)
    (resource : Resource) (authority : Authority) (session : Session) (command : AgentCommand)
    (ensureOnly : EnsureOnly) (codeHash : String) (generated : Generated) :
    InTransaction Prepared := do
  let expires := min (generated.serviceNow + 30000) authority.leaseExpiresAt
  let s ← get
  let intent (action : ActionRow) : Bool :=
    actionOf context identity callId action && action.undispatched
  check (s.tables.actions.any intent) (.browser "browser_call_already_dispatched")
  if ensureOnly = .yes then
    check session.desiredOpen (.browser "browser_close_pending")
    return .candidate (agentRequest context identity resource session
      (max 1 session.controlEpoch) (max 1 session.sequence) expires command generated)
  else
    updateActions intent fun action => { action with evidence := some ⟨true, none, none⟩ }
    if resource.controlState ≠ .agent ∨ resource.privateContent = true then
      park context identity callId authority session generated
    else
      dispatch context identity callId bootId resource session expires command codeHash generated

/-- What follows once the resource is locked. -/
def prepareOn (context : AgentContext) (identity : InvocationIdentity) (callId bootId : String)
    (resource : Resource) (command : AgentCommand) (ensureOnly : EnsureOnly) (codeHash : String)
    (generated : Generated) : InTransaction Prepared := do
  check (resource.desiredState = .opened) (.browser "browser_stopped")
  let s ← get
  let authority ← require (s.authority? context identity) (.browser "browser_authority_lost")
  checkCell context identity callId command codeHash
  -- Looking for a receipt allocates nothing.
  check (ensureOnly ≠ .receiptOnly) (.browser "browser_unavailable")
  match ← workspace context resource authority bootId command generated with
  | none => return .reopenRequired
  | some session =>
    admission context identity callId bootId resource authority session command ensureOnly codeHash
      generated

def BrowserRepository.prepare (context : AgentContext) (bootId : String) (command : AgentCommand)
    (ensureOnly : EnsureOnly) (codeHash : String) (generated : Generated) :
    InTransaction Prepared := do
  let identity ← require context.invocation (.browser "browser_invocation_required")
  let callId ← require (context.callId.filter (· ≠ "")) (.browser "browser_invocation_required")
  let locked ← agentResource context
  let resource ← reopenStopped locked command
  prepareOn context identity callId bootId resource command ensureOnly codeHash generated

/-! ### Evidence -/

/-- A takeover may commit after the dispatch and before the daemon receives its fence. -/
def evidenceAllowed (s : Store) (request : BrowserCommand) : Bool :=
  (s.tables.session? request.sessionId).any fun session =>
    session.generation = request.generation && session.controlEpoch = request.controlEpoch &&
      session.createdByUserId = request.ownerUserId && session.closedAt.isNone &&
      session.browserId = some request.browserId &&
      s.ownsBud session.budId request.ownerUserId &&
      (s.resources.get? request.browserId).any (fun r =>
        r.controlState = .agent && !r.privateContent && r.controlEpoch = request.browserEpoch &&
          r.retiredAt.isNone && r.desiredState = .opened) &&
      (s.tables.thread? session.threadId).any (fun thread =>
        thread.createdByUserId = request.ownerUserId && !thread.deleted) &&
      (s.tables.invocation? request.invocationId).any fun invocation =>
        invocation.threadId = session.threadId && invocation.fence = request.invocationFence &&
          invocation.status = .running && invocation.leaseExpiresAt.any (s.now < ·) &&
          !invocation.canceled

end Bud.BrowserControl
