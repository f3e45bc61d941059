import Bud.Browser.ResourceRepository

/-!
# The transactions of a viewer

`control-repository.ts`: a person takes the browser in two steps, each with an answer from the
daemon: a pause keeps the agent out, and an acquire lets the person in. The browser is then private
until an end, a reset or a new runtime has been acknowledged. While a person has it an override is
granted and renewed, with a deadline; when it has ended, or was never granted, a sweep asks the
daemon to end the control too.

## Modelling notes

`get` is read before most transactions, for the Bud of a session and its thread, which never change.
A transaction that looks for the session again reads it in the transaction only; for the others what
was read is an argument (`initial`, `candidate`), as it may be of any age. Generated ids and the
clock of the service are arguments too.

`prepare` is called with three pairs of a command and a state (`control.ts`): a pause with `paused`,
an acquire with `human_private`, and a command for the page, which does not write the state.
-/

namespace Bud.BrowserControl

open Transaction

/-! ### What is written to a resource -/

/-- A person has asked for a pause or for control. -/
def Columns.control (c : Columns) (nextState : ControlState) (sessionId requestId : String)
    (operation : ControlOperation) : Columns :=
  { c with
    controlState := nextState
    privateContent := c.privateContent || nextState = .humanPrivate
    controlSessionId := some sessionId
    controlEpoch := c.controlEpoch + 1
    revision := c.revision + 1
    controlRequestId := some requestId
    controlOperation := some operation }

def Columns.prepareEnd (c : Columns) (requestId : String) : Columns :=
  { c with
    controlState := .resumePending
    controlOperation := some .endControl
    controlRequestId := some requestId
    controlEpoch := c.controlEpoch + 1
    revision := c.revision + 1 }

/-- The revision stays. -/
def Columns.grantOverride (c : Columns) (override viewer carrier : String) (expires : ℕ) :
    Columns :=
  { c with
    overrideId := some override
    overrideViewerId := some viewer
    overrideCarrierId := some carrier
    overrideExpiresAt := some expires
    endedOverrideId := none
    overrideEndReason := none }

/-- The revision stays. -/
def Columns.renewOverride (c : Columns) (expires : ℕ) : Columns :=
  { c with overrideExpiresAt := some expires }

def Columns.endOverride (c : Columns) (reason : String) : Columns :=
  { c.clearOverride with
    endedOverrideId := c.overrideId
    overrideEndReason := some reason
    revision := c.revision + 1 }

/-! ### Sessions with their resource -/

/-- A session, and the columns of its resource. -/
structure BrowserSession where
  workspace : Session
  resource : Columns

/-- The query `owned`, for one session: it is open, and so are its thread and its resource. -/
def Store.owned? (s : Store) (owner id : String) : Option BrowserSession := do
  let session ← s.tables.session? id
  guard (session.createdByUserId = owner ∧ session.closedAt = none ∧
    s.ownsBud session.budId owner = true)
  let thread ← s.tables.thread? session.threadId
  guard (thread.createdByUserId = owner ∧ thread.budId = session.budId ∧ thread.deleted = false)
  let browserId ← session.browserId
  let resource ← s.resources.get? browserId
  guard (resource.retiredAt = none ∧ resource.desiredState = .opened)
  return ⟨session, resource.toColumns⟩

def owned (owner id : String) : InTransaction BrowserSession := do
  let s ← get
  require (s.owned? owner id) (.browser "browser_not_found")

def command (session : BrowserSession) (command : ViewerCommand) (requestId : String)
    (serviceNow : ℕ) : BrowserCommand :=
  { browserId := session.workspace.browserId.getD ""
    browserEpoch := session.resource.controlEpoch
    privateContent := session.resource.privateContent
    browserPaused := session.resource.controlState ≠ .agent
    requestId := requestId
    sessionId := session.workspace.id
    generation := session.workspace.generation
    threadId := session.workspace.threadId
    ownerUserId := session.workspace.createdByUserId
    controlEpoch := session.workspace.controlEpoch
    sequence := session.workspace.sequence
    invocationId := "viewer_" ++ session.workspace.id
    invocationFence := 1
    expiresAtMs := serviceNow + 30000
    command := .viewer command }

/-! ### Overrides -/

def grantOverride (owner : String) (initial : BrowserSession) (revision : ℕ)
    (override viewer carrier : String) (expires serviceNow : ℕ) : InTransaction Unit :=
  withLocked owner initial.workspace.budId none fun resource => do
    check (resource.revision = revision &&
        resource.controlSessionId = some initial.workspace.id &&
        resource.controlState = .humanPrivate)
      (.browser "browser_revision_conflict")
    check (serviceNow < expires) (.browser "browser_control_expired")
    updateResources (fun r => r.id = resource.id)
      (·.grantOverride override viewer carrier expires)
    updateHandoffs
      (fun handoff => handoff.sessionId = initial.workspace.id &&
        handoff.createdByUserId = owner && handoff.status = .pending && handoff.kind = .agent &&
        handoff.overrideId = none)
      fun handoff => { handoff with overrideId := some override }

/-- Whether the override is still the one that is renewed. -/
def Store.renewable (s : Store) (owner id override viewer carrier : String) (r : Resource) : Bool :=
  s.tables.sessions.any (fun session =>
      session.id = id && session.browserId = some r.id && session.createdByUserId = owner &&
        session.closedAt.isNone) &&
    s.ownsBud r.budId owner && r.createdByUserId = owner && r.controlSessionId = some id &&
    r.overrideId = some override && r.overrideViewerId = some viewer &&
    r.overrideCarrierId = some carrier && r.overrideExpiresAt.any (s.now < ·) &&
    r.retiredAt.isNone && r.desiredState = .opened

def renewOverride (owner id override viewer carrier : String) : InTransaction Unit := do
  let s ← get
  updateResources (s.renewable owner id override viewer carrier) (·.renewOverride (s.now + 6000))
  check (s.resources.rows.any (s.renewable owner id override viewer carrier))
    (.browser "browser_control_expired")

def endOverride (owner : String) (initial : BrowserSession) (override reason : String) :
    InTransaction Bool :=
  withLocked owner initial.workspace.budId none fun resource => do
    updateResources (fun r => r.id = resource.id && r.overrideId = some override)
      (·.endOverride reason)
    return resource.overrideId = some override

/-! ### The end of control -/

structure PreparedEnd where
  resource : Resource
  session : BrowserSession
  request : BrowserCommand

def prepareEnd (candidate : BrowserSession) (boot requestId : String) (serviceNow : ℕ) :
    InTransaction PreparedEnd :=
  withLocked candidate.workspace.createdByUserId candidate.workspace.budId none fun resource => do
    check (some resource.id = candidate.workspace.browserId &&
        resource.desiredState = .opened && !truthy resource.overrideId)
      (.browser "browser_control_conflict")
    let next ← resource.update (·.prepareEnd requestId)
    let condition (session : Session) : Bool :=
      session.id = candidate.workspace.id && session.browserId = some resource.id &&
        session.createdByUserId = candidate.workspace.createdByUserId
    updateSessions condition fun session =>
      { session with
        sequence := session.sequence + 1
        controlEpoch := session.controlEpoch + 1
        bootId := boot }
    let s ← get
    let workspace ← require (s.tables.sessions.find? condition) (.browser "browser_not_found")
    -- The rest is of the candidate, also whether it is private.
    let session : BrowserSession :=
      { workspace := workspace
        resource :=
          { candidate.resource with
            controlEpoch := next.controlEpoch
            revision := next.revision
            controlState := next.controlState } }
    return ⟨next, session, command session (.control .endControl) requestId serviceNow⟩

/-! ### Demand for a workspace -/

structure PreparedEnsure where
  session : BrowserSession
  resource : Resource
  request : BrowserCommand

def prepareEnsure (owner id boot : String) (explicitUrl : Bool) (generation requestId : String)
    (serviceNow : ℕ) : InTransaction PreparedEnsure := do
  let initial ← owned owner id
  withLocked owner initial.workspace.budId none fun resource => do
    check (resource.desiredState = .opened) (.browser "browser_stopped")
    let current ← owned owner id
    check current.workspace.desiredOpen (.browser "browser_not_found")
    updateSessions (fun session => session.id = id && current.workspace.bootId ≠ boot)
      fun session =>
        { session with
          generation := generation
          bootId := boot
          controlEpoch := session.controlEpoch + 1
          sequence := session.sequence + 1
          pendingUntil := none
          invocationId := none
          invocationFence := none }
    updateSessions (fun session => session.id = id) fun session =>
      { session with
        controlEpoch := max 1 session.controlEpoch
        sequence := max 1 session.sequence }
    let session ← owned owner id
    let request := command session (.ensure explicitUrl) requestId serviceNow
    return ⟨session, resource,
      { request with
        sequence := max 1 request.sequence
        controlEpoch := max 1 request.controlEpoch }⟩

def ensured (owner : String) (session : Session) : InTransaction Unit :=
  withLocked owner session.budId none fun resource => do
    check (resource.desiredState = .opened) (.browser "browser_stopped")
    readySession fun tables row =>
      row.id = session.id && row.generation = session.generation && tables.usable row owner

/-! ### Pauses, acquires and commands for the page -/

/-- A pause or an end may be sent to a daemon that has started anew. -/
def ViewerCommand.crossesBoot : ViewerCommand → Bool
  | .control operation => operation ∈ [.pause, .endControl]
  | _ => false

def ViewerCommand.advance : ViewerCommand → Bool
  | .control _ => true
  | _ => false

def writeControl (resource : Resource) (sessionId requestId : String) (nextState : ControlState) :
    ViewerCommand → InTransaction Unit
  | .control operation => do
    check (operation ∈ [.pause, .acquire] &&
        (operation ≠ .acquire || resource.controlState = .paused))
      (.browser "browser_control_conflict")
    updateResources (fun r => r.id = resource.id)
      (·.control nextState sessionId requestId operation)
  | _ => return

def BrowserControlRepository.prepare (owner id boot : String) (expectedRevision : ℕ)
    (requestId : String) (request : ViewerCommand) (nextState : ControlState) (generation : String)
    (serviceNow : ℕ) : InTransaction (BrowserSession × BrowserCommand) := do
  let initial ← owned owner id
  withLocked owner initial.workspace.budId none fun resource => do
    let current ← owned owner id
    check ((current.workspace.bootId = boot || request.crossesBoot) &&
        current.workspace.desiredOpen)
      (.browser "browser_interrupted")
    checkRevision resource expectedRevision
    writeControl resource id requestId nextState request
    updateSessions (fun session => session.id = id) fun session =>
      { session with
        sequence := session.sequence + 1
        controlEpoch := session.controlEpoch + request.advance.toNat
        invocationId := some ("viewer_" ++ id)
        invocationFence := some 1
        generation := if session.bootId ≠ boot then generation else session.generation
        pendingUntil := if session.bootId ≠ boot then none else session.pendingUntil
        bootId := boot
        state := .ready }
    let session ← owned owner id
    return (session, command session request requestId serviceNow)

/-- The ids of the turns that are waiting for a handoff of the session are returned. -/
def requestClose (owner id : String) (revision : ℕ) : InTransaction (List String) := do
  let row ← owned owner id
  check (row.resource.revision = revision && row.workspace.desiredOpen)
    (.browser "browser_revision_conflict")
  updateResources
    (fun r => some r.id = row.workspace.browserId && r.controlSessionId = some id)
    (·.endOverride "workspace_closed")
  updateSessions (fun session => session.id = id) fun session =>
    { session with desiredOpen := false }
  let s ← get
  return (s.tables.invocations.filter fun invocation =>
    invocation.createdByUserId = owner && invocation.status = .waitingForUser &&
      s.tables.handoffs.any fun handoff =>
        handoff.invocationId = some invocation.id && handoff.sessionId = id &&
          handoff.status = .pending).map (·.id)

end Bud.BrowserControl
