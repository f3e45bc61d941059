import Bud.Lib.Scripts
import Bud.PersonalData.Bootstraps

/-!
# Proposals

An agent may propose that a rule be activated (`automation-proposals.ts`), or that the contacts that
are there be handed to its revision (`automation-bootstrap-proposals.ts`). What is proposed is
frozen in the proposal and shown to the owner, who decides on it some time later. Rules, permissions
and contacts may have changed by then: a proposal that no longer describes what would happen is
stale.

## Modelling notes

The two tables differ in what is frozen, in how a pending proposal is reconciled and in what an
approval does (`Kind`); everything else is the same code twice, and is here once.

Everything is as in `Automations.lean`. A transaction is a script, so that an error that is caught
leaves what has been written before it. `activateInTransaction` and a capture without an activation
write after their last check, in the order of their definitions, and are `checked` scripts.

The invocations and their actions are found in the environment, and so are the invocations that a
pause cancels. Titles, threads and actors that proposals carry are left out, and so is a page of a
list, once its proposals have been reconciled.
-/

namespace Bud.Proposals

open Automations (DataRequestError Definition Review RevisionKey Selection)
open Scripts (Script)

/-! ### The tables -/

inductive Status where
  | pending
  | approved
  | declined
  | canceled
  | expired
  | stale
  deriving DecidableEq

inductive Choice where
  | approve
  | decline
  | cancel
  deriving DecidableEq

def Choice.status : Choice → Status
  | .approve => .approved
  | .decline => .declined
  | .cancel => .canceled

structure Decision where
  decision : Choice
  expectedVersion : ℕ
  idempotencyKey : String
  deriving DecidableEq

structure Proposal (κ : Type) where
  id : String
  automationId : String
  invocationId : String
  callId : String
  frozen : κ
  version : ℕ
  status : Status
  /-- The revision that an approval has activated, or the bootstrap that it has created. -/
  receipt : Option ℕ
  decisionRequest : Option Decision
  decisionIdempotencyKey : Option String
  expiresAt : ℕ

/-- What is frozen in a proposal to activate a rule. -/
structure FrozenActivation where
  definition : Definition
  draftVersion : ℕ
  grantVersion : ℕ

/-- What is frozen in a proposal about existing contacts. Members are stored by their ordinals. -/
structure FrozenContacts where
  revision : ℕ
  frozen : Review
  fingerprint : String
  memberCount : ℕ
  members : List (ℕ × RevisionKey)

structure State (F : Type) where
  automations : Automations.State F
  activationProposals : List (Proposal FrozenActivation)
  bootstrapProposals : List (Proposal FrozenContacts)

variable {F κ : Type}

def init : State F :=
  { automations := Automations.init, activationProposals := [], bootstrapProposals := [] }

def pendingPerOwner : ℕ := 20

def expirySeconds : ℕ := 86400

/-! ### What is found elsewhere -/

structure OwnedInvocation extends Invocation.Row where
  human : Bool

inductive Tool where
  | activation
  | existingContacts
  | other
  deriving DecidableEq

inductive ActionStatus where
  | intent
  | waitingForUser
  | completed
  deriving DecidableEq

structure Action where
  kind : Tool
  status : ActionStatus
  fence : ℕ
  /-- `bootstrap_proposal_id`, in its evidence. -/
  bootstrapProposalId : Option String

structure Env (F : Type) extends toAutomations : Automations.Env F where
  /-- The owner's invocation, with its thread and its Bud. -/
  invocation : String → Option OwnedInvocation
  action : String → String → Option Action

/-- `AutomationProposalContext`: who asks for a proposal. -/
structure Context where
  invocationId : String
  workerId : String
  fence : ℕ
  callId : String

/-- A person started it, and it is not over. -/
def OwnedInvocation.active (invocation : OwnedInvocation) : Bool :=
  invocation.human && invocation.cancelRequestedAt.isNone &&
    (invocation.status = .running || invocation.status = .waitingForUser)

/-- The invocation is run by whoever asks. -/
def OwnedInvocation.leasedBy (invocation : OwnedInvocation) (now : ℕ) (context : Context) : Bool :=
  invocation.status = .running && invocation.workerId = some context.workerId &&
    invocation.fence = context.fence && invocation.leaseExpiresAt.any (now < ·) &&
    invocation.cancelRequestedAt.isNone

/-- The call is one of this tool, about to be made. -/
def Env.intent (env : Env F) (context : Context) (kind : Tool) : Bool :=
  (env.action context.invocationId context.callId).any fun action =>
    action.kind = kind && action.fence = context.fence && action.status = .intent

def Env.grantVersion (env : Env F) : ℕ := (env.grant.map (·.version)).getD 0

/-! ### Both kinds of proposals -/

/-- A kind of proposals: its table, and what the two repositories do not share. -/
structure Kind (F κ : Type) where
  rows : State F → List (Proposal κ)
  put : List (Proposal κ) → State F → State F
  notFound : DataRequestError
  conflict : DataRequestError
  /-- What a pending proposal ends as. -/
  verdict : Env F → State F → Proposal κ → Option Status
  /-- What is stored is what was frozen. -/
  intact : Proposal κ → Bool
  approve : Env F → Proposal κ → Script (State F) DataRequestError ℕ

namespace Kind

variable (kind : Kind F κ)

def load (id : String) : Script (State F) DataRequestError (Proposal κ) := do
  match (kind.rows (← get)).find? (·.id = id) with
  | some row => return row
  | none => throw kind.notFound

def update (row : Proposal κ) (change : Proposal κ → Proposal κ) :
    Script (State F) DataRequestError (Proposal κ) := do
  modify fun s => kind.put
    ((kind.rows s).map fun other => if other.id = row.id then change other else other) s
  return change row

/-- A proposal ends without a decision. -/
def finish (row : Proposal κ) (status : Status) :
    Script (State F) DataRequestError (Proposal κ) :=
  kind.update row fun other => { other with status, version := row.version + 1 }

def reconcile (env : Env F) (row : Proposal κ) :
    Script (State F) DataRequestError (Proposal κ) := do
  if row.status ≠ .pending then return row
  match kind.verdict env (← get) row with
  | none => return row
  | some status => kind.finish row status

def read (env : Env F) (id : String) : Script (State F) DataRequestError (Proposal κ) := do
  kind.reconcile env (← kind.load id)

def reconcileAll (env : Env F) : List (Proposal κ) → Script (State F) DataRequestError ℕ
  | [] => return 0
  | row :: rows => do
    let row ← kind.reconcile env row
    let count ← reconcileAll env rows
    return if row.status = .pending then count + 1 else count

/-- What a request for a new proposal and a list of them begin with. -/
def reconcilePending (env : Env F) : Script (State F) DataRequestError ℕ := do
  let pending := (kind.rows (← get)).filter (·.status = .pending)
  kind.reconcileAll env
    ((pending.insertionSort fun a b => a.id ≤ b.id).take pendingPerOwner)

/-- The id is a primary key. -/
def insert (row : Proposal κ) : Script (State F) DataRequestError (Proposal κ) := do
  if (kind.rows (← get)).any (·.id = row.id) then
    throw ⟨500, "internal_error", "duplicate key value"⟩
  modify fun s => kind.put (kind.rows s ++ [row]) s
  return row

def decide (prior : Proposal κ) (value : Decision) (receipt : Option ℕ) :
    Script (State F) DataRequestError (Proposal κ) :=
  kind.update prior fun other =>
    { other with
      status := value.decision.status
      receipt
      version := prior.version + 1
      decisionRequest := some value
      decisionIdempotencyKey := some value.idempotencyKey }

def resolve (env : Env F) (id : String) (value : Decision) :
    Script (State F) DataRequestError (Proposal κ) := do
  let prior ← kind.load id
  if prior.decisionIdempotencyKey = some value.idempotencyKey then
    if prior.decisionRequest ≠ some value then throw kind.conflict
    return prior
  if prior.status ≠ .pending ∨ prior.version ≠ value.expectedVersion then throw kind.conflict
  if (kind.rows (← get)).any (·.decisionIdempotencyKey = some value.idempotencyKey) then
    throw kind.conflict
  let current ← kind.reconcile env prior
  if current.status ≠ .pending then return current
  if value.decision ≠ .approve then return ← kind.decide prior value none
  -- `bootstrap_proposal_integrity_failed`, which nobody catches
  if !kind.intact prior then
    throw ⟨500, "internal_error", "bootstrap_proposal_integrity_failed"⟩
  match ← Scripts.attempt (kind.approve env prior) with
  | .error _ => kind.finish prior .stale
  | .ok receipt => kind.decide prior value (some receipt)

/-- The proposal that has expired first, which is then reconciled in a transaction. -/
def expireNext (env : Env F) : Script (State F) DataRequestError Bool := do
  let expired := (kind.rows (← get)).filter fun row =>
    row.status = .pending && row.expiresAt ≤ env.now
  match (expired.insertionSort fun a b => a.expiresAt ≤ b.expiresAt).head? with
  | none => return false
  | some candidate => do
    let _ ← kind.read env candidate.id
    return true

end Kind

/-! ### The two kinds -/

def FrozenActivation.current (frozen : FrozenActivation) (rule : Automations.Rule)
    (grantVersion : ℕ) : Bool :=
  rule.state ≠ .deleted && rule.version = frozen.draftVersion && rule.draft = frozen.definition &&
    grantVersion = frozen.grantVersion

/-- `AutomationProposals`. -/
def activations : Kind F FrozenActivation where
  rows := (·.activationProposals)
  put rows s := { s with activationProposals := rows }
  notFound := ⟨404, "automation_proposal_not_found", "Automation proposal not found"⟩
  conflict :=
    ⟨409, "automation_proposal_conflict", "Automation proposal changed; reload before continuing"⟩
  verdict env s row :=
    if row.expiresAt ≤ env.now then some .expired
    else if !(env.invocation row.invocationId).any (·.active) then some .canceled
    else if !(s.automations.rule? row.automationId).any (row.frozen.current · env.grantVersion) then
      some .stale
    else none
  intact _ := true
  approve env row := Scripts.zoom (·.automations) (fun automations s => { s with automations }) <|
    Scripts.checked fun s =>
      (s.activateInTransaction env.toAutomations row.automationId
        { expectedVersion := row.frozen.draftVersion
          expectedGrantVersion := row.frozen.grantVersion }).map fun t =>
            (row.frozen.draftVersion + 1, t)

def Action.waitsFor (action : Action) (fence : ℕ) (proposalId : String) : Bool :=
  action.kind = .existingContacts && action.fence = fence &&
    (action.status = .intent ||
      action.status = .waitingForUser && action.bootstrapProposalId = some proposalId)

def FrozenContacts.current (frozen : FrozenContacts) (rule : Automations.Rule)
    (grant : Option Admission.Grant) : Bool :=
  rule.version = frozen.frozen.selection.expectedVersion &&
    rule.activeRevision = some frozen.revision &&
    grant.map (·.version) = some frozen.frozen.grantVersion

variable (parse : String → ℕ) (owner : String) (fingerprint : Review → String)

def FrozenContacts.intact (frozen : FrozenContacts) (automationId : String) : Bool :=
  fingerprint frozen.frozen = frozen.fingerprint && frozen.frozen.owner = owner &&
    frozen.frozen.revision = frozen.revision && frozen.frozen.automationId = automationId &&
    frozen.members.length = frozen.memberCount &&
    frozen.members.map (·.1) = List.range frozen.members.length &&
    frozen.members.map (·.2) = frozen.frozen.contactRevisionIds

def captureKey (proposalId : String) : String := "proposal:" ++ proposalId

/-- `AutomationBootstrapProposals`. -/
def existingContacts : Kind F FrozenContacts where
  rows := (·.bootstrapProposals)
  put rows s := { s with bootstrapProposals := rows }
  notFound := ⟨404, "bootstrap_proposal_not_found", "Existing-contact review not found"⟩
  conflict := ⟨409, "bootstrap_proposal_conflict", "Review changed; request a fresh review"⟩
  verdict env s row :=
    if row.expiresAt ≤ env.now then some .expired
    else if !(env.invocation row.invocationId).any (fun invocation =>
        invocation.active && invocation.reservesThread &&
          (env.action row.invocationId row.callId).any (·.waitsFor invocation.fence row.id)) then
      some .canceled
    else if !(s.automations.rule? row.automationId).any (row.frozen.current · env.grant) then
      some .stale
    else none
  intact row := row.frozen.intact owner fingerprint row.automationId
  approve env row := Scripts.zoom (·.automations) (fun automations s => { s with automations }) <|
    Scripts.checked fun s => do
      env.validateTargets row.frozen.frozen.definition
      let (t, bootstrap) ← s.captureReviewedInTransaction parse owner env.toAutomations
        row.frozen.frozen (captureKey row.id)
      return (bootstrap.id, t)

/-! ### Requests -/

/-- `AutomationProposals.requestInTransaction`. -/
def requestActivation (env : Env F) (ulid : String) (context : Context) (automationId : String)
    (expectedVersion : ℕ) :
    Script (State F) DataRequestError (Proposal FrozenActivation) := do
  let some invocation := env.invocation context.invocationId | throw (activations (F := F)).notFound
  if !invocation.human then
    throw ⟨403, "automation_management_origin_denied", "Automated runs cannot create standing work"⟩
  if !invocation.leasedBy env.now context then
    throw ⟨409, "invocation_unavailable", "Invocation is no longer executing this request"⟩
  if !env.intent context .activation then
    throw ⟨409, "automation_proposal_intent_required",
      "A current automation proposal intent is required"⟩
  match (← get).activationProposals.find? fun row =>
      row.invocationId = context.invocationId && row.callId = context.callId with
  | some existing =>
    if existing.automationId ≠ automationId ∨ existing.frozen.draftVersion ≠ expectedVersion then
      throw (activations (F := F)).conflict
    activations.reconcile env existing
  | none =>
    let some rule := (← get).automations.rule? automationId | throw (activations (F := F)).notFound
    if rule.state = .deleted then throw (activations (F := F)).notFound
    if rule.version ≠ expectedVersion then throw (activations (F := F)).conflict
    if !Admission.grantCoversDefinition env.grant rule.draft.toDefinition env.grantVersion then
      throw ⟨403, "data_permission_required",
        "Approve the requested data access before requesting activation"⟩
    if pendingPerOwner ≤ (← activations.reconcilePending env) then
      throw ⟨409, "automation_proposal_limit",
        "Resolve pending automation reviews before creating more"⟩
    activations.insert
      { id := "ap_" ++ ulid
        automationId
        invocationId := context.invocationId
        callId := context.callId
        frozen :=
          { definition := rule.draft
            draftVersion := rule.version
            grantVersion := env.grantVersion }
        version := 0
        status := .pending
        receipt := none
        decisionRequest := none
        decisionIdempotencyKey := none
        expiresAt := env.now + expirySeconds }

/-- The contacts that a bootstrap of the rule's active revision would have. -/
def freezeReviewInTransaction (s : Automations.State F) (env : Automations.Env F)
    (automationId : String) (selection : Selection) : Except DataRequestError Review := do
  let some rule := s.rule? automationId | throw Automations.notFound
  if rule.state = .deleted then throw Automations.notFound
  if rule.version ≠ selection.expectedVersion then
    throw ⟨409, "automation_conflict", "Automation changed; request a new review"⟩
  let some revision := rule.activeRevision.bind fun activeRevision =>
      s.revisions.find? fun revision =>
        revision.automationId = automationId && revision.revision = activeRevision
    | throw ⟨409, "automation_not_activated", "Activate a saved revision first"⟩
  if revision.definition.eventType ≠ .contactAdded then
    throw ⟨400, "automation_trigger_unsupported",
      "Only new-contact automations can process existing contacts"⟩
  let some grant := revision.granted env
    | throw ⟨403, "data_permission_changed",
        "Approve current data permissions before reviewing existing contacts"⟩
  let snapshot ← s.selectSnapshot parse env automationId revision.revision revision.definition
    selection none
  return {
    owner
    automationId
    selection
    revision := revision.revision
    grantVersion := grant.version
    publicationBoundary := s.publicationSequence
    definition := revision.definition
    contactRevisionIds := snapshot }

/-- `AutomationBootstrapProposals.requestInTransaction`. Without contacts there is no proposal. -/
def requestExistingContacts (env : Env F) (ulid : String) (context : Context)
    (automationId : String) (selection : Selection) :
    Script (State F) DataRequestError (Option (Proposal FrozenContacts)) := do
  let kind := existingContacts (F := F) parse owner fingerprint
  let some invocation := env.invocation context.invocationId | throw kind.notFound
  if !invocation.human then
    throw ⟨403, "automation_management_origin_denied",
      "Automated runs cannot request existing-contact work"⟩
  if !(invocation.leasedBy env.now context && invocation.reservesThread) then
    throw ⟨409, "invocation_unavailable", "Invocation is no longer executing this request"⟩
  if !env.intent context .existingContacts then
    throw ⟨409, "bootstrap_proposal_intent_required",
      "A current existing-contact review intent is required"⟩
  match (← get).bootstrapProposals.find? fun row =>
      row.invocationId = context.invocationId && row.callId = context.callId with
  | some existing =>
    if existing.frozen.frozen.automationId ≠ automationId ∨
        existing.frozen.frozen.selection ≠ selection then
      throw kind.conflict
    return some (← kind.reconcile env existing)
  | none =>
    let frozen ← Scripts.ofExcept
      (freezeReviewInTransaction parse owner (← get).automations env.toAutomations automationId
        selection)
    Scripts.ofExcept (env.validateTargets frozen.definition)
    if frozen.contactRevisionIds = [] then return none
    if pendingPerOwner ≤ (← kind.reconcilePending env) then
      throw ⟨409, "bootstrap_proposal_limit", "Resolve pending existing-contact reviews first"⟩
    return some (← kind.insert
      { id := "bp_" ++ ulid
        automationId
        invocationId := context.invocationId
        callId := context.callId
        frozen :=
          { revision := frozen.revision
            frozen
            fingerprint := fingerprint frozen
            memberCount := frozen.contactRevisionIds.length
            members := frozen.contactRevisionIds.zipIdx.map fun (id, ordinal) => (ordinal, id) }
        version := 0
        status := .pending
        receipt := none
        decisionRequest := none
        decisionIdempotencyKey := none
        expiresAt := env.now + expirySeconds })

/-! ### Steps -/

/-- Pending proposals that meet a condition end without a decision. -/
def endPending (ends : Proposal κ → Bool) (status : Status) (rows : List (Proposal κ)) :
    List (Proposal κ) :=
  rows.map fun row =>
    if row.status = .pending && ends row then { row with status, version := row.version + 1 }
    else row

/-- `requestCancelInTransaction`, of these invocations, which are not over. -/
def State.cancelInvocations (s : State F) (invocationIds : List String) : State F :=
  { s with
    activationProposals :=
      endPending (invocationIds.contains ·.invocationId) .canceled s.activationProposals
    bootstrapProposals :=
      endPending (invocationIds.contains ·.invocationId) .canceled s.bootstrapProposals }

/-- The proposals about a rule that is deleted. -/
def State.staleProposals (s : State F) (automationId : String) : State F :=
  { s with
    activationProposals :=
      endPending (·.automationId = automationId) .stale s.activationProposals
    bootstrapProposals :=
      endPending (·.automationId = automationId) .stale s.bootstrapProposals }

def State.pause (s : State F) (id : String) (expectedVersion : ℕ) (cancelPending : Bool)
    (canceled : List String) : Except DataRequestError (State F) := do
  let automations ← s.automations.pauseInTransaction id expectedVersion cancelPending
  return State.cancelInvocations { s with automations } canceled

def State.delete (s : State F) (id : String) (expectedVersion : ℕ) (canceled : List String) :
    Except DataRequestError (State F) := do
  let automations ← s.automations.delete id expectedVersion
  if (s.automations.rule? id).any (·.state = .deleted) then return s
  return (State.cancelInvocations { s with automations } canceled).staleProposals id

inductive Act (F : Type) where
  /-- A transaction on the rules, their events and their bootstraps. -/
  | automations (act : Automations.Act F)
  | pause (id : String) (expectedVersion : ℕ) (cancelPending : Bool) (canceled : List String)
  | delete (id : String) (expectedVersion : ℕ) (canceled : List String)
  | cancelInvocation (invocationId : String)
  | requestActivation (env : Env F) (ulid : String) (context : Context) (automationId : String)
      (expectedVersion : ℕ)
  | requestExistingContacts (env : Env F) (ulid : String) (context : Context)
      (automationId : String) (selection : Selection)
  | getActivation (env : Env F) (id : String)
  | getExistingContacts (env : Env F) (id : String)
  | listActivations (env : Env F)
  | listExistingContacts (env : Env F)
  | expireActivations (env : Env F)
  | expireExistingContacts (env : Env F)
  | decideActivation (env : Env F) (id : String) (value : Decision)
  | decideExistingContacts (env : Env F) (id : String) (value : Decision)

/-- A transaction that throws leaves everything as it is. -/
def State.commit {ε : Type} (s : State F) : Except ε (State F) → State F
  | .ok t => t
  | .error _ => s

variable (sha256 : String → String) [DecidableEq F] [Inhabited F]

/-- Rules are paused and deleted here, and contacts that have been reviewed are captured only in an
approval. -/
def step (s : State F) : Act F → Option (State F)
  | .automations act =>
    match act with
    | .pause .. | .delete .. | .captureReviewed .. => none
    | act =>
      (Automations.step sha256 parse owner s.automations act).map fun automations =>
        { s with automations }
  | .pause id expectedVersion cancelPending canceled =>
    some (s.commit (s.pause id expectedVersion cancelPending canceled))
  | .delete id expectedVersion canceled => some (s.commit (s.delete id expectedVersion canceled))
  | .cancelInvocation invocationId => some (s.cancelInvocations [invocationId])
  | .requestActivation env ulid context automationId expectedVersion =>
    some
      (Scripts.commit (Proposals.requestActivation env ulid context automationId expectedVersion) s)
  | .requestExistingContacts env ulid context automationId selection =>
    some (Scripts.commit (Proposals.requestExistingContacts parse owner fingerprint env ulid context
      automationId selection) s)
  | .getActivation env id => some (Scripts.commit (activations.read env id) s)
  | .getExistingContacts env id =>
    some (Scripts.commit ((existingContacts parse owner fingerprint).read env id) s)
  | .listActivations env => some (Scripts.commit (activations.reconcilePending env) s)
  | .listExistingContacts env =>
    some (Scripts.commit ((existingContacts parse owner fingerprint).reconcilePending env) s)
  | .expireActivations env => some (Scripts.commit (activations.expireNext env) s)
  | .expireExistingContacts env =>
    some (Scripts.commit ((existingContacts parse owner fingerprint).expireNext env) s)
  | .decideActivation env id value => some (Scripts.commit (activations.resolve env id value) s)
  | .decideExistingContacts env id value =>
    some (Scripts.commit ((existingContacts parse owner fingerprint).resolve env id value) s)

end Bud.Proposals
