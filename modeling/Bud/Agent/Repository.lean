import Bud.Agent.Invocation
import Bud.Lib.Transaction
import Mathlib.Algebra.GroupWithZero.Nat
import Mathlib.Data.List.Dedup

/-!
# The invocation repository, method by method

`Invocation.lean` takes the methods of `invocation-repository.ts` apart into statements, and leaves
what they find in other tables to the scheduler. Here each method is one transaction, as most of
its callers see it, and the tables it reads are in the state: the actions of an invocation, and the
questions, requests, proposals and browser handoffs an action may be waiting for. What a method
writes to the invocation itself is `Method.update`, with its choices read off those tables.

An action is the record that a tool call has been dispatched. It carries a fence of its own, which
`claim` and the parks move along with the invocation's while it is waiting for the user.

## Modelling notes

The clock is the database's; it is read once in a transaction, and the three park methods that
create a request also read the service's (`RequestChoice.serviceNow`). Everything that is not done
by a method of the repository is one act, `outside`, which replaces the other tables by any others:
the owner answers, a browser is closed, a thread is deleted. Messages and the provider ledger are
left out, so where a method may throw over what it finds there, that is an argument of it.

`claim` prefers some candidates to others, the sweeps stop at a hundred rows, and both skip the
rows that another transaction has locked: the candidate, and the rows of a sweep, are arguments.
The owner filters are subsumed. An invocation's turn is its number.

`browser/repository.ts` parks an invocation too, when a command needs the browser back. It inserts
a handoff and then does what `parkBrowserHandoff` does, under the same conditions.
-/

namespace Bud.Repository

open Invocation Transaction

/-! ### Actions -/

inductive ActionStatus where
  | intent
  | waitingForUser
  | completed
  deriving DecidableEq

/-- What an action is waiting for. -/
inductive Evidence where
  | question (questionRequestId : String)
  | dataAccessRequest (dataAccessRequestId toolClientId : String)
  | automationProposal (automationProposalId toolClientId : String)
  | bootstrapProposal (bootstrapProposalId toolClientId : String)
  | browserHandoff (browserHandoffId : String)
  /-- Nothing that a method reads. -/
  | other
  deriving DecidableEq

structure Action where
  invocationId : ℕ
  callId : String
  kind : String
  status : ActionStatus
  fence : ℕ
  evidence : Evidence
  createdByUserId : String
  deriving DecidableEq

/-- Whether the action may still have an effect that nobody has recorded. -/
def Action.pending (action : Action) : Bool :=
  action.status = .intent || action.status = .waitingForUser

/-! ### The other tables -/

structure Thread where
  threadId : String
  budId : String
  createdByUserId : String
  deleted : Bool
  deriving DecidableEq

structure BudRow where
  budId : String
  createdByUserId : String
  deriving DecidableEq

inductive QuestionStatus where
  | pending
  | answered
  | expired
  | canceled
  deriving DecidableEq

structure Question where
  questionRequestId : String
  threadId : String
  turn : ℕ
  callId : String
  createdByUserId : String
  status : QuestionStatus
  deriving DecidableEq

inductive RequestStatus where
  | pending
  | approved
  | declined
  | canceled
  | expired
  | stale
  deriving DecidableEq

/-- A data access request, or a proposal of either kind. -/
structure Request where
  id : String
  invocationId : ℕ
  threadId : String
  callId : String
  createdByUserId : String
  status : RequestStatus
  deriving DecidableEq

inductive HandoffKind where
  | agent
  | user
  | returnControl
  deriving DecidableEq

inductive HandoffStatus where
  | pending
  | returned
  | canceled
  deriving DecidableEq

structure Handoff where
  id : String
  sessionId : String
  threadId : String
  budId : String
  invocationId : Option ℕ
  callId : Option String
  clientId : Option String
  createdByUserId : String
  kind : HandoffKind
  status : HandoffStatus
  resolvedAt : Option ℕ
  deriving DecidableEq

structure Session where
  id : String
  browserId : String
  createdByUserId : String
  closed : Bool
  desiredOpen : Bool
  deriving DecidableEq

structure Resource where
  id : String
  createdByUserId : String
  agentControls : Bool
  privateContent : Bool
  retired : Bool
  desiredOpen : Bool
  deriving DecidableEq

/-- The tables that others than the repository write too. -/
structure Outside where
  threads : List Thread
  buds : List BudRow
  questions : List Question
  dataRequests : List Request
  automationProposals : List Request
  bootstrapProposals : List Request
  handoffs : List Handoff
  sessions : List Session
  resources : List Resource
  deriving DecidableEq

def Outside.empty : Outside := ⟨[], [], [], [], [], [], [], [], []⟩

/-! ### The state -/

/-- What `admit` is called with. -/
structure Admission where
  owner : String
  threadId : String
  origin : Origin
  idempotencyKey : String
  clientId : Option String
  text : String
  model : String
  reasoningEffort : String
  latestStartAt : Option ℕ
  deriving DecidableEq

/-- An invocation, with what it was admitted as. -/
structure Entry where
  /-- With the client id that its message was given. -/
  admission : Admission
  identity : Identity
  row : Row
  deriving DecidableEq

structure Store where
  now : ℕ
  invocations : List Entry
  actions : List Action
  tables : Outside
  deriving DecidableEq

def Store.empty (now : ℕ) (tables : Outside) : Store := ⟨now, [], [], tables⟩

inductive Failure where
  /-- `InvocationError`. -/
  | invocation (code : String)
  /-- `DataRequestError`. -/
  | dataRequest (status : ℕ) (code message : String)
  /-- A unique index is violated. -/
  | database

abbrev InTransaction (α : Type) : Type := Tx Store Failure α

/-- `thread.created_by_user_id` is the owner, and the thread has not been deleted. -/
def Outside.thread? (o : Outside) (threadId owner : String) : Option Thread :=
  o.threads.find? fun thread =>
    thread.threadId = threadId && thread.createdByUserId = owner && !thread.deleted

def Outside.ownsBud (o : Outside) (budId owner : String) : Bool :=
  o.buds.any fun bud => bud.budId = budId && bud.createdByUserId = owner

/-- The join of a thread with the Bud it is on. -/
def Outside.ownsThread (o : Outside) (threadId owner : String) : Bool :=
  (o.thread? threadId owner).any fun thread => o.ownsBud thread.budId owner

def Outside.session? (o : Outside) (handoff : Handoff) : Option Session :=
  o.sessions.find? (·.id = handoff.sessionId)

def Outside.resource? (o : Outside) (session : Session) : Option Resource :=
  o.resources.find? (·.id = session.browserId)

/-- The join of a handoff with its session and the browser of that. -/
def Outside.resourceOf (o : Outside) (handoff : Handoff) : Option Resource :=
  (o.session? handoff).bind o.resource?

def Store.entry? (s : Store) (id : ℕ) (owner : String) : Option Entry :=
  s.invocations[id]?.filter (·.identity.createdByUserId = owner)

/-- `a.status = 'waiting_for_user'`. -/
def Store.waiting (s : Store) (id : ℕ) : List Action :=
  s.actions.filter fun action => action.invocationId = id && action.status = .waitingForUser

def Store.hasPending (s : Store) (id : ℕ) : Bool :=
  s.actions.any fun action => action.invocationId = id && action.pending

def Evidence.isBrowserHandoff : Evidence → Bool
  | .browserHandoff _ => true
  | _ => false

def Store.hasBrowserWait (s : Store) (id : ℕ) : Bool :=
  (s.waiting id).any (·.evidence.isBrowserHandoff)

def decided (requests : List Request) (ref : String) (id : ℕ) (identity : Identity)
    (action : Action) : Bool :=
  requests.any fun request =>
    request.id = ref && request.status ≠ .pending && request.invocationId = id &&
      request.callId = action.callId && request.threadId = identity.threadId &&
      request.createdByUserId = identity.createdByUserId

def questionAnswered (questions : List Question) (ref : String) (id : ℕ) (identity : Identity) :
    Bool :=
  questions.any fun question =>
    question.questionRequestId = ref && question.status = .answered && question.turn = id &&
      question.threadId = identity.threadId &&
      question.createdByUserId = identity.createdByUserId

/-- The browser has been given back, and the agent may use it. -/
def browserReturned (o : Outside) (ref : String) (id : ℕ) (identity : Identity) : Bool :=
  o.handoffs.any fun handoff =>
    handoff.id = ref && handoff.status = .returned && handoff.invocationId = some id &&
      handoff.createdByUserId = identity.createdByUserId &&
      (o.session? handoff).any fun session =>
        session.createdByUserId = handoff.createdByUserId && !session.closed &&
          (o.resource? session).any fun resource =>
            resource.createdByUserId = handoff.createdByUserId && resource.agentControls &&
              !resource.privateContent && !resource.retired && resource.desiredOpen

def appKeyRequestTool : String := "data_request_api_key"

def automationProposalTool : String := "automations_request_activation"

def bootstrapProposalTool : String := "automations_request_existing_contacts"

def Store.answered (s : Store) (id : ℕ) (identity : Identity) (action : Action) : Bool :=
  match action.evidence with
  | .question ref => questionAnswered s.tables.questions ref id identity
  | .dataAccessRequest ref _ =>
    action.kind = appKeyRequestTool && decided s.tables.dataRequests ref id identity action
  | .automationProposal ref _ =>
    action.kind = automationProposalTool &&
      decided s.tables.automationProposals ref id identity action
  | .bootstrapProposal ref _ =>
    action.kind = bootstrapProposalTool &&
      decided s.tables.bootstrapProposals ref id identity action
  | .browserHandoff ref => browserReturned s.tables ref id identity
  | .other => false

/-- What a method finds in the tables. -/
def Store.choice (s : Store) (id : ℕ) (identity : Identity) : Choice :=
  { now := s.now
    ids := []
    continuation := !(s.waiting id).isEmpty
    browserWait := s.hasBrowserWait id
    pending := s.hasPending id
    answered := (s.waiting id).any (s.answered id identity) }

/-! ### Writing -/

def Store.setRow (s : Store) (id : ℕ) (update : Row → Row) : Store :=
  { s with
    invocations := s.invocations.modify id fun entry => { entry with row := update entry.row } }

def write (id : ℕ) (entry : Entry) (method : Method) : InTransaction Unit :=
  modify fun s =>
    s.setRow id fun row => method.update entry.row row (s.choice id entry.identity)

def setActions (condition : Action → Bool) (update : Action → Action) : InTransaction Unit :=
  modify fun s =>
    { s with
      actions := s.actions.map fun action => if condition action then update action else action }

/-- An `update … returning` that has to find a row. -/
def updateActions (condition : Action → Bool) (update : Action → Action) (failure : Failure) :
    InTransaction Unit := do
  let s ← get
  check (s.actions.any condition) failure
  setActions condition update

def insertAction (action : Action) (failure : Failure) : InTransaction Unit := do
  let s ← get
  check (!s.actions.any fun other =>
    other.invocationId = action.invocationId && other.callId = action.callId) failure
  modify fun s => { s with actions := s.actions ++ [action] }

def setTables (update : Outside → Outside) : InTransaction Unit :=
  modify fun s => { s with tables := update s.tables }

def Handoff.cancel (handoff : Handoff) (now : ℕ) : Handoff :=
  { handoff with status := .canceled, resolvedAt := some now }

def cancelHandoffs (id : ℕ) : InTransaction Unit := do
  let s ← get
  setTables fun o =>
    { o with
      handoffs := o.handoffs.map fun handoff =>
        if handoff.invocationId = some id && handoff.status = .pending then handoff.cancel s.now
        else handoff }

def cancelRequests (id : ℕ) (owner : String) (requests : List Request) : List Request :=
  requests.map fun request =>
    if request.invocationId = id && request.createdByUserId = owner &&
        request.status = .pending then
      { request with status := .canceled }
    else request

def cancelWaits (id : ℕ) (identity : Identity) (owner : String) : InTransaction Unit := do
  let s ← get
  setTables fun o =>
    { o with
      handoffs := o.handoffs.map fun handoff =>
        if handoff.invocationId = some id && handoff.createdByUserId = owner &&
            handoff.status = .pending then handoff.cancel s.now
        else handoff
      questions := o.questions.map fun question =>
        if question.threadId = identity.threadId && question.turn = id &&
            question.createdByUserId = owner && question.status = .pending then
          { question with status := .canceled }
        else question
      dataRequests := cancelRequests id owner o.dataRequests
      automationProposals := cancelRequests id owner o.automationProposals
      bootstrapProposals := cancelRequests id owner o.bootstrapProposals }

/-! ### Leases -/

/-- The invocation, if the lease is still good for it. -/
def lockedLease (lease : Lease) (statuses : List Status) (allowCancellation : Bool) :
    InTransaction Entry := do
  let s ← get
  let entry ← require (s.invocations[lease.id]?.filter fun entry =>
      lease.matches entry.identity entry.row s.now && entry.row.status ∈ statuses)
    (.invocation "lease_lost")
  check (entry.row.cancelRequestedAt.isNone || allowCancellation)
    (.invocation "invocation_canceled")
  check (s.tables.ownsThread entry.identity.threadId entry.identity.createdByUserId)
    (.invocation "invocation_authority_lost")
  return entry

def heartbeat (lease : Lease) : InTransaction Unit := do
  let entry ← lockedLease lease [.leased, .running] false
  write lease.id entry (.heartbeat lease)

/-- `paused` is what the policy of an automation, or the lookup of its input, throws. -/
def start (lease : Lease) (paused : Option Failure) : InTransaction Unit := do
  let entry ← lockedLease lease [.leased] false
  if entry.identity.origin = .automation then
    paused.forM throw
  let s ← get
  check (!(entry.identity.latestStartAt.any (· ≤ s.now) && (s.waiting lease.id).isEmpty))
    (.invocation "latest_start_elapsed")
  write lease.id entry (.start lease)

def defer (lease : Lease) (status : Deferral) (delaySeconds : ℕ) : InTransaction Unit := do
  check (1 ≤ delaySeconds && delaySeconds ≤ 300) (.invocation "invalid_retry_delay")
  let entry ← lockedLease lease [.leased] false
  write lease.id entry (.defer lease status delaySeconds)

/-! ### Actions of a running invocation -/

def recordAction (lease : Lease) (callId kind : String) : InTransaction Unit := do
  let entry ← lockedLease lease [.running] false
  insertAction
    { invocationId := lease.id
      callId := callId
      kind := kind
      status := .intent
      fence := entry.row.fence
      evidence := .other
      createdByUserId := entry.identity.createdByUserId }
    (.invocation "action_already_recorded")

def completeAction (lease : Lease) (callId : String) : InTransaction Unit := do
  let _ ← lockedLease lease [.running] false
  updateActions
    (fun action => action.invocationId = lease.id && action.fence = lease.fence &&
      action.callId = callId && action.pending)
    (fun action => { action with status := .completed, evidence := .other })
    (.invocation "action_not_pending")

def finish (lease : Lease) (status : Finish) (outcomeCode : String) : InTransaction Unit := do
  let entry ← lockedLease lease [.leased, .running] true
  let s ← get
  if !s.hasPending lease.id || entry.row.cancelRequestedAt.isSome then
    cancelHandoffs lease.id
  write lease.id entry (.finish lease status outcomeCode)

/-! ### Parks -/

/-- The action that a park makes wait. -/
def parkable (lease : Lease) (callId : String) (action : Action) : Bool :=
  action.invocationId = lease.id && action.callId = callId && action.fence = lease.fence &&
    action.status = .intent

def parkBrowserHandoff (lease : Lease) (callId handoffId : String) : InTransaction Unit := do
  let entry ← lockedLease lease [.running] false
  let s ← get
  check (s.tables.handoffs.any fun handoff =>
      handoff.id = handoffId && handoff.invocationId = some lease.id &&
        handoff.callId = some callId &&
        handoff.createdByUserId = entry.identity.createdByUserId &&
        (handoff.status = .pending || handoff.status = .returned) &&
        (s.tables.resourceOf handoff).any (!·.retired))
    (.invocation "browser_handoff_not_available")
  updateActions (parkable lease callId)
    (fun action =>
      { action with
        status := .waitingForUser
        fence := lease.fence + 1
        evidence := .browserHandoff handoffId })
    (.invocation "browser_handoff_action_not_pending")
  write lease.id entry (.parkBrowserHandoff lease)

/-- The handoff that the user has asked for, and no call has taken up yet. -/
def Outside.userHandoff? (o : Outside) (id : ℕ) (owner : String) : Option Handoff :=
  o.handoffs.find? fun handoff =>
    handoff.invocationId = some id && handoff.createdByUserId = owner && handoff.kind = .user &&
      handoff.status = .pending && handoff.callId = none &&
      (o.resourceOf handoff).any (!·.agentControls)

/-- `nextCall` is a call and its tool. Without a handoff nothing happens. -/
def parkUserBrowserHandoff (lease : Lease) (nextCall : Option (String × String)) :
    InTransaction Unit := do
  let entry ← lockedLease lease [.running] false
  let s ← get
  (s.tables.userHandoff? lease.id entry.identity.createdByUserId).forM fun handoff => do
    let callId := (nextCall.map (·.1)).getD ("browser-user-" ++ handoff.id)
    insertAction
      { invocationId := lease.id
        callId := callId
        kind := (nextCall.map (·.2)).getD "browser_user_handoff"
        status := .waitingForUser
        fence := lease.fence + 1
        evidence := .browserHandoff handoff.id
        createdByUserId := entry.identity.createdByUserId }
      .database
    setTables fun o =>
      { o with
        handoffs := o.handoffs.map fun other =>
          if other.id = handoff.id then { other with callId := some callId } else other }
    write lease.id entry (.parkBrowserHandoff lease)

def parkQuestion (lease : Lease) (callId questionRequestId : String) : InTransaction Unit := do
  let entry ← lockedLease lease [.running] false
  let s ← get
  check (s.tables.questions.any fun question =>
      question.questionRequestId = questionRequestId &&
        question.threadId = entry.identity.threadId && question.turn = lease.id &&
        question.callId = callId &&
        question.createdByUserId = entry.identity.createdByUserId &&
        (question.status = .pending || question.status = .answered))
    (.invocation "question_not_available")
  updateActions
    (fun action => parkable lease callId action && action.kind = "ask_user_questions")
    (fun action =>
      { action with status := .waitingForUser, evidence := .question questionRequestId })
    (.invocation "question_action_not_pending")
  write lease.id entry (.parkQuestion lease)

/-! ### Parks that create what they wait for -/

/-- What `requestInTransaction` finds beyond the tables. -/
structure RequestChoice where
  serviceNow : ℕ
  /-- The id of the request, should it be created. -/
  id : String
  /-- What the validation of the input throws, or its comparison with the request that is there
  already. -/
  rejected : Option Failure
  /-- The proposal would have nobody to process. -/
  noWork : Bool

/-- What the three methods that create a request differ in. -/
structure RequestTool where
  kind : String
  /-- `new …(this.database).requestInTransaction` throws this if the invocation is not found. -/
  notFound : Failure
  /-- An automation may not ask, and this is what it is told. -/
  originDenied : Option Failure
  intentRequired : Failure
  /-- The park throws this if the action is not an intent any more. -/
  notPending : Failure
  /-- Only a turn that has its thread reserved may ask. -/
  needsReservation : Bool
  /-- The action's fence moves with the invocation's at the park, not only at the next claim. -/
  movesFence : Bool
  requests : Outside → List Request
  setRequests : Outside → List Request → Outside
  evidence : String → String → Evidence

def invocationUnavailable : Failure :=
  .dataRequest 409 "invocation_unavailable" "Invocation is no longer executing this request"

/-- The request of the call: the one there is, or a new one. `none` if there is nothing to do. -/
def requestInTransaction (tool : RequestTool) (lease : Lease) (callId : String)
    (choice : RequestChoice) : InTransaction (Option String) := do
  let s ← get
  let entry ← require ((s.entry? lease.id lease.createdByUserId).filter fun entry =>
      (s.tables.thread? entry.identity.threadId lease.createdByUserId).isSome &&
        s.tables.ownsBud entry.identity.budId lease.createdByUserId) tool.notFound
  if entry.identity.origin ≠ .human then
    tool.originDenied.forM throw
  check (entry.row.status = .running && (!tool.needsReservation || entry.row.reservesThread) &&
      entry.row.workerId = some (lease.workerId.getD "") && entry.row.fence = lease.fence &&
      entry.row.leaseExpiresAt.any (choice.serviceNow < ·) &&
      entry.row.cancelRequestedAt.isNone) invocationUnavailable
  check (s.actions.any fun action =>
      parkable lease callId action && action.createdByUserId = lease.createdByUserId &&
        action.kind = tool.kind) tool.intentRequired
  choice.rejected.forM throw
  match (tool.requests s.tables).find? fun request =>
      request.invocationId = lease.id && request.callId = callId &&
        request.createdByUserId = lease.createdByUserId with
  | some request => return some request.id
  | none =>
    if choice.noWork then return none
    setTables fun o => tool.setRequests o (tool.requests o ++
      [{ id := choice.id
         invocationId := lease.id
         threadId := entry.identity.threadId
         callId := callId
         createdByUserId := lease.createdByUserId
         status := .pending }])
    return some choice.id

/-- A UUID, as `clientId` has to be. -/
def isUuid (clientId : String) : Bool :=
  let groups := (clientId.splitOn "-").map (·.toList)
  groups.map List.length = [8, 4, 4, 4, 12] &&
    groups.all (·.all fun c =>
      c.isDigit || 'a' ≤ c && c ≤ 'f' || 'A' ≤ c && c ≤ 'F')

/-- `parkAppDataRequest`, `parkAutomationProposal` and `parkBootstrapProposal`. -/
def parkRequest (tool : RequestTool) (lease : Lease) (callId clientId : String)
    (choice : RequestChoice) : InTransaction Unit := do
  check (isUuid clientId) (.invocation "invalid_tool_client_id")
  let request ← requestInTransaction tool lease callId choice
  request.forM fun ref => do
    let entry ← lockedLease lease [.running] false
    updateActions (fun action => parkable lease callId action && action.kind = tool.kind)
      (fun action =>
        { action with
          status := .waitingForUser
          fence := if tool.movesFence then lease.fence + 1 else action.fence
          evidence := tool.evidence ref clientId })
      tool.notPending
    write lease.id entry (.parkQuestion lease)

def appData : RequestTool :=
  { kind := appKeyRequestTool
    notFound := .dataRequest 404 "app_data_not_found" "App data permission not found"
    originDenied := none
    intentRequired := .dataRequest 409 "app_data_intent_required"
      "A current data permission tool intent is required"
    notPending := .invocation "app_data_action_not_pending"
    needsReservation := false
    movesFence := false
    requests := Outside.dataRequests
    setRequests := fun o requests => { o with dataRequests := requests }
    evidence := .dataAccessRequest }

def automationProposal : RequestTool :=
  { kind := automationProposalTool
    notFound := .dataRequest 404 "automation_proposal_not_found" "Automation proposal not found"
    originDenied := some (.dataRequest 403 "automation_management_origin_denied"
      "Automated runs cannot create standing work")
    intentRequired := .dataRequest 409 "automation_proposal_intent_required"
      "A current automation proposal intent is required"
    notPending := .invocation "automation_proposal_action_not_pending"
    needsReservation := false
    movesFence := false
    requests := Outside.automationProposals
    setRequests := fun o requests => { o with automationProposals := requests }
    evidence := .automationProposal }

def bootstrapProposal : RequestTool :=
  { kind := bootstrapProposalTool
    notFound := .dataRequest 404 "bootstrap_proposal_not_found" "Existing-contact review not found"
    originDenied := some (.dataRequest 403 "automation_management_origin_denied"
      "Automated runs cannot request existing-contact work")
    intentRequired := .dataRequest 409 "bootstrap_proposal_intent_required"
      "A current existing-contact review intent is required"
    notPending := .invocation "bootstrap_proposal_action_not_pending"
    needsReservation := true
    movesFence := true
    requests := Outside.bootstrapProposals
    setRequests := fun o requests => { o with bootstrapProposals := requests }
    evidence := .bootstrapProposal }

/-- Only the last of them may find that there is nothing to do. -/
def parkAppDataRequest (lease : Lease) (callId clientId : String) (choice : RequestChoice) :
    InTransaction Unit :=
  parkRequest appData lease callId clientId { choice with noWork := false }

def parkAutomationProposal (lease : Lease) (callId clientId : String) (choice : RequestChoice) :
    InTransaction Unit :=
  parkRequest automationProposal lease callId clientId { choice with noWork := false }

def parkBootstrapProposal (lease : Lease) (callId clientId : String) (choice : RequestChoice) :
    InTransaction Unit :=
  parkRequest bootstrapProposal lease callId clientId choice

/-! ### Going on after a wait -/

/-- What is missing to go on with an action, if anything is. -/
def Store.unanswered (s : Store) (id : ℕ) (identity : Identity) (action : Action) :
    Option Failure :=
  match action.evidence with
  | .browserHandoff ref =>
    if s.tables.handoffs.any fun handoff =>
        handoff.id = ref && handoff.invocationId = some id &&
          handoff.createdByUserId = identity.createdByUserId && handoff.status = .returned &&
          handoff.clientId.isSome && handoff.resolvedAt.isSome then none
    else some (.invocation "browser_handoff_return_missing")
  | evidence =>
    if action.kind = bootstrapProposalTool then
      match evidence with
      | .bootstrapProposal ref _ =>
        if decided s.tables.bootstrapProposals ref id identity action then none
        else some (.invocation "bootstrap_proposal_decision_missing")
      | _ => some (.invocation "bootstrap_proposal_reference_missing")
    else if action.kind = automationProposalTool then
      match evidence with
      | .automationProposal ref _ =>
        if decided s.tables.automationProposals ref id identity action then none
        else some (.invocation "automation_proposal_decision_missing")
      | _ => some (.invocation "automation_proposal_reference_missing")
    else if action.kind = appKeyRequestTool then
      match evidence with
      | .dataAccessRequest ref _ =>
        if decided s.tables.dataRequests ref id identity action then none
        else some (.invocation "app_data_decision_missing")
      | _ => some (.invocation "app_data_reference_missing")
    else
      match evidence with
      | .question ref =>
        if questionAnswered s.tables.questions ref id identity then none
        else some (.invocation "question_answer_missing")
      | _ => some (.invocation "question_reference_missing")

/-- `ledger` is what the stored question, or the model call the action belongs to, makes it
throw. -/
def prepareQuestionContinuation (lease : Lease) (ledger : Action → Option Failure) :
    InTransaction Unit := do
  let entry ← lockedLease lease [.running] false
  let s ← get
  (s.waiting lease.id).forM fun pending => do
    (s.unanswered lease.id entry.identity pending).forM throw
    (ledger pending).forM throw
    setActions
      (fun action => action.invocationId = lease.id && action.callId = pending.callId)
      (fun action => { action with status := .completed })

/-! ### The owner -/

def requestCancel (owner : String) (id : ℕ) : InTransaction Unit := do
  let s ← get
  let entry ← require (s.entry? id owner) (.invocation "invocation_not_found")
  if entry.row.status ∉ terminal then
    cancelWaits id entry.identity owner
    write id entry (.requestCancel owner)

/-- `audit` makes the call id of the review. -/
def abandonReviewed (owner threadId : String) (id expectedUpdatedAt : ℕ) (audit : String) :
    InTransaction Unit := do
  let s ← get
  let entry ← require ((s.entry? id owner).filter fun entry =>
      entry.identity.threadId = threadId && s.tables.ownsThread threadId owner)
    (.invocation "invocation_not_found")
  if ¬(entry.row.status = .canceled ∧
      entry.row.outcomeCode = some "user_abandoned_after_review") then
    check (entry.row.status = .needsReview && entry.row.updatedAt = expectedUpdatedAt)
      (.invocation "invocation_review_conflict")
    insertAction
      { invocationId := id
        callId := "owner-review-" ++ audit
        kind := "owner_review"
        status := .completed
        fence := entry.row.fence
        evidence := .other
        createdByUserId := owner }
      .database
    cancelWaits id entry.identity owner
    write id entry (.abandonReviewed owner expectedUpdatedAt)

/-! ### Admission -/

def utf16Length (s : String) : ℕ :=
  (s.toList.map fun c => if c.toNat < 0x10000 then 1 else 2).sum

def Admission.valid (input : Admission) : Bool :=
  input.owner ≠ "" && input.idempotencyKey ≠ "" && utf16Length input.idempotencyKey ≤ 256 &&
    input.text ≠ "" && utf16Length input.text ≤ 100000

/-- The browser tasks of the thread that the user has not answered. -/
def Store.browserTasks (s : Store) (threadId owner : String) : List ℕ :=
  (List.range s.invocations.length).filter fun id =>
    (s.entry? id owner).any (fun entry =>
      entry.identity.threadId = threadId && entry.row.status = .waitingForUser) &&
      s.tables.handoffs.any fun handoff =>
        handoff.invocationId = some id && handoff.createdByUserId = owner &&
          handoff.kind = .agent && handoff.status = .pending

/-- A new instruction supersedes a task of the browser that nobody has answered. -/
def supersede (owner : String) (id : ℕ) : InTransaction Unit := do
  requestCancel owner id
  modify fun s =>
    s.setRow id fun row => { row with outcomeCode := some "superseded_by_user_message" }

/-- `admit`. A retry under the same key finds the invocation it made. -/
def admission (input : Admission) (generatedClientId : String) : InTransaction Unit := do
  check input.valid (.invocation "invalid_admission")
  let s ← get
  let thread ← require ((s.tables.thread? input.threadId input.owner).filter fun thread =>
      s.tables.ownsBud thread.budId input.owner) (.invocation "thread_not_found")
  match s.invocations.find? fun entry =>
      entry.identity.createdByUserId = input.owner &&
        entry.admission.idempotencyKey = input.idempotencyKey with
  | some existing =>
    check (existing.admission.threadId = input.threadId &&
        existing.admission.origin = input.origin && existing.admission.model = input.model &&
        existing.admission.reasoningEffort = input.reasoningEffort &&
        existing.admission.text = input.text &&
        input.clientId.all fun clientId =>
          clientId = "" || existing.admission.clientId = some clientId)
      (.invocation "admission_conflict")
  | none =>
    if input.origin = .human then
      (s.browserTasks input.threadId input.owner).forM (supersede input.owner)
    modify fun s =>
      { s with
        invocations := s.invocations ++
          [{ admission :=
               { input with clientId := some (input.clientId.getD generatedClientId) }
             identity :=
               { threadId := thread.threadId
                 budId := thread.budId
                 origin := input.origin
                 createdByUserId := input.owner
                 latestStartAt := input.latestStartAt }
             row := Row.new s.now }] }

/-! ### Claims -/

/-- How many automations of a Bud hold a reservation. -/
def Store.used (s : Store) (budId : String) : ℕ :=
  s.invocations.countP fun entry =>
    entry.identity.budId = budId && entry.identity.origin = .automation && entry.row.reservesThread

def Store.reservedElsewhere (s : Store) (id : ℕ) (threadId : String) : Bool :=
  (List.range s.invocations.length).any fun other =>
    other ≠ id && s.invocations[other]?.any fun entry =>
      entry.identity.threadId = threadId && entry.row.reservesThread

variable (automationConcurrencyPerBud : ℕ)

def Store.claimable (s : Store) (id : ℕ) (entry : Entry) : Bool :=
  (entry.row.status ∈ queued ||
      entry.row.status = .waitingForUser && (s.choice id entry.identity).answered) &&
    entry.row.nextAttemptAt ≤ s.now && entry.row.cancelRequestedAt.isNone &&
    (s.tables.thread? entry.identity.threadId entry.identity.createdByUserId).isSome &&
    s.tables.ownsBud entry.identity.budId entry.identity.createdByUserId &&
    (entry.identity.origin = .human || entry.row.reservesThread ||
      s.used entry.identity.budId < automationConcurrencyPerBud) &&
    !s.reservedElsewhere id entry.identity.threadId

def Entry.lease (entry : Entry) (id : ℕ) : Lease :=
  { id := id
    fence := entry.row.fence
    workerId := entry.row.workerId
    createdByUserId := entry.identity.createdByUserId }

/-- Give the invocation to the worker, and take its waiting actions along. -/
def leaseTo (workerId : String) (id : ℕ) (entry : Entry) : InTransaction Lease := do
  let s ← get
  let leased : Entry := { entry with row := entry.row.leasedTo workerId s.now }
  modify fun s => s.setRow id fun _ => leased.row
  setActions (fun action => action.invocationId = id && action.status = .waitingForUser)
    (fun action => { action with fence := leased.row.fence })
  return leased.lease id

/-- `acquired` is whether the advisory lock of the Bud was free. The candidate of an empty query is
one that is not claimable. -/
def claim (workerId : String) (candidate : ℕ) (acquired : Bool) :
    InTransaction (Option Lease) := do
  check (workerId ≠ "") (.invocation "worker_required")
  let s ← get
  match s.invocations[candidate]?.filter (s.claimable automationConcurrencyPerBud candidate) with
  | none => return none
  | some entry =>
    if entry.identity.latestStartAt.any (· ≤ s.now) ∧ (s.waiting candidate).isEmpty ∧
        entry.row.status ≠ .waitingForUser then
      modify fun s => s.setRow candidate fun row => row.startElapsed s.now
      return none
    else if entry.identity.origin = .automation ∧ !entry.row.reservesThread ∧
        (!acquired ∨ automationConcurrencyPerBud ≤ s.used entry.identity.budId) then
      return none
    else
      let lease ← leaseTo workerId candidate entry
      return some lease

/-! ### Sweeps -/

/-- Those of `ids` that a sweep writes, each once, and at most a hundred of them. -/
def Store.swept (s : Store) (ids : List ℕ) (method : Method) : List ℕ :=
  (ids.dedup.filter fun id => s.invocations[id]?.any fun entry =>
    method.next entry.identity entry.row (s.choice id entry.identity) = .write).take 100

def expireQueued (ids : List ℕ) : InTransaction Unit := do
  let s ← get
  (s.swept ids .expireQueued).forM fun id => do
    let s ← get
    s.invocations[id]?.forM fun entry => write id entry .expireQueued

/-- The handoff's browser is gone, or the owner has given it up. -/
def Store.browserEnded (s : Store) (id : ℕ) (owner : String) : Bool :=
  s.tables.handoffs.any fun handoff =>
    handoff.invocationId = some id && handoff.createdByUserId = owner &&
      (s.tables.session? handoff).any fun session =>
        (s.tables.threads.find? (·.threadId = handoff.threadId)).any fun thread =>
          (s.tables.buds.find? (·.budId = handoff.budId)).any fun bud =>
            handoff.status = .canceled || session.closed || !session.desiredOpen ||
              thread.deleted || (s.tables.resource? session).all (·.retired) ||
              thread.createdByUserId ≠ handoff.createdByUserId ||
              bud.createdByUserId ≠ handoff.createdByUserId

/-- `ended` are the rows its first query comes upon, and `expired` those of its second. -/
def recoverExpired (ended expired : List ℕ) : InTransaction Unit := do
  let s ← get
  let closed := ended.filter fun id =>
    s.invocations[id]?.any fun entry => s.browserEnded id entry.identity.createdByUserId
  (s.swept closed .recoverEnded).forM fun id => do
    cancelHandoffs id
    let s ← get
    s.invocations[id]?.forM fun entry => write id entry .recoverEnded
  let s ← get
  (s.swept expired .recoverExpired).forM fun id => do
    let s ← get
    s.invocations[id]?.forM fun entry => do
      if entry.row.cancelRequestedAt.isSome ∨ entry.row.status = .running then
        cancelHandoffs id
      write id entry .recoverExpired

/-! ### Steps -/

inductive Act where
  | admission (input : Admission) (generatedClientId : String)
  | claim (workerId : String) (candidate : ℕ) (acquired : Bool)
  | heartbeat (lease : Lease)
  | start (lease : Lease) (paused : Option Failure)
  | defer (lease : Lease) (status : Deferral) (delaySeconds : ℕ)
  | recordAction (lease : Lease) (callId kind : String)
  | completeAction (lease : Lease) (callId : String)
  | finish (lease : Lease) (status : Finish) (outcomeCode : String)
  | parkBrowserHandoff (lease : Lease) (callId handoffId : String)
  | parkUserBrowserHandoff (lease : Lease) (nextCall : Option (String × String))
  | parkQuestion (lease : Lease) (callId questionRequestId : String)
  | parkAppDataRequest (lease : Lease) (callId clientId : String) (choice : RequestChoice)
  | parkAutomationProposal (lease : Lease) (callId clientId : String) (choice : RequestChoice)
  | parkBootstrapProposal (lease : Lease) (callId clientId : String) (choice : RequestChoice)
  | prepareQuestionContinuation (lease : Lease) (ledger : Action → Option Failure)
  | requestCancel (owner : String) (id : ℕ)
  | abandonReviewed (owner threadId : String) (id expectedUpdatedAt : ℕ) (audit : String)
  | expireQueued (ids : List ℕ)
  | recoverExpired (ended expired : List ℕ)
  | tick (seconds : ℕ)
  | outside (tables : Outside)

def perform : Act → InTransaction Unit
  | .admission input generatedClientId => admission input generatedClientId
  | .claim workerId candidate acquired => do
    let _ ← claim automationConcurrencyPerBud workerId candidate acquired
    return
  | .heartbeat lease => heartbeat lease
  | .start lease paused => start lease paused
  | .defer lease status delaySeconds => defer lease status delaySeconds
  | .recordAction lease callId kind => recordAction lease callId kind
  | .completeAction lease callId => completeAction lease callId
  | .finish lease status outcomeCode => finish lease status outcomeCode
  | .parkBrowserHandoff lease callId handoffId => parkBrowserHandoff lease callId handoffId
  | .parkUserBrowserHandoff lease nextCall => parkUserBrowserHandoff lease nextCall
  | .parkQuestion lease callId questionRequestId => parkQuestion lease callId questionRequestId
  | .parkAppDataRequest lease callId clientId choice =>
    parkAppDataRequest lease callId clientId choice
  | .parkAutomationProposal lease callId clientId choice =>
    parkAutomationProposal lease callId clientId choice
  | .parkBootstrapProposal lease callId clientId choice =>
    parkBootstrapProposal lease callId clientId choice
  | .prepareQuestionContinuation lease ledger => prepareQuestionContinuation lease ledger
  | .requestCancel owner id => requestCancel owner id
  | .abandonReviewed owner threadId id expectedUpdatedAt audit =>
    abandonReviewed owner threadId id expectedUpdatedAt audit
  | .expireQueued ids => expireQueued ids
  | .recoverExpired ended expired => recoverExpired ended expired
  | .tick seconds => modify fun s => { s with now := s.now + seconds }
  | .outside tables => modify fun s => { s with tables := tables }

/-- An act that throws is rolled back, and the repository goes on. -/
def step (s : Store) (act : Act) : Option Store :=
  some (after (perform automationConcurrencyPerBud act) s)

def Act.lease? : Act → Option Lease
  | .heartbeat lease | .start lease _ | .defer lease _ _ | .recordAction lease _ _
  | .completeAction lease _ | .finish lease _ _ | .parkBrowserHandoff lease _ _
  | .parkUserBrowserHandoff lease _ | .parkQuestion lease _ _ | .parkAppDataRequest lease _ _ _
  | .parkAutomationProposal lease _ _ _ | .parkBootstrapProposal lease _ _ _
  | .prepareQuestionContinuation lease _ => some lease
  | _ => none

/-! ### An example -/

/-- One thread of one owner, with one turn. -/
def exampleTables : Outside :=
  { Outside.empty with threads := [⟨"t", "b", "o", false⟩], buds := [⟨"b", "o"⟩] }

def exampleAdmission : Admission :=
  { owner := "o"
    threadId := "t"
    origin := .human
    idempotencyKey := "k"
    clientId := none
    text := "hello"
    model := "m"
    reasoningEffort := "low"
    latestStartAt := none }

/-- What the first worker is given. -/
def exampleLease : Lease := ⟨0, 1, some "w", "o"⟩

end Bud.Repository
