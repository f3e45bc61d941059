import Bud.PersonalData.Matching
import Mathlib.Algebra.GroupWithZero.Nat

/-!
# Bootstraps

`automation-bootstrap.ts` hands the contacts that are there to a revision of a rule: a capture
selects them, under the owner's lock, and freezes them as the members of a bootstrap, in groups,
which `bootstrap-admission.ts` turns into invocations. A capture that is to leave out what has been
delivered looks at the deliveries and the groups that are queued or admitted.

## Modelling notes

A review that a capture goes by may be any. The texts of invocations are left out.
-/

namespace Bud.Automations

open Admission (RuleState)

variable {F : Type}

/-! ### What is live -/

def GroupStatus.live : GroupStatus → Bool
  | .pending => true
  | .admitted _ => true
  | _ => false

def live : Admission.DeliveryStatus → Bool
  | .pending => true
  | .admitted _ => true
  | _ => false

def State.contactOf (s : State F) (delivery : Admission.Delivery) : Option ContactKey :=
  ((s.domainEventIds[delivery.id]?).bind (s.events[·]?)).bind DomainEvent.contact?

def State.delivers (s : State F) (automationId : String) (revision : ℕ) (contact : ContactKey)
    (delivery : Admission.Delivery) : Bool :=
  delivery.automationId = automationId && delivery.revision = revision && live delivery.status &&
    s.contactOf delivery = some contact

def Bootstrap.holds (bootstrap : Bootstrap) (contact : ContactKey) (member : Member) : Bool :=
  member.contactRevisionId.contact = contact && bootstrap.groups.any fun group =>
    group.groupIndex = member.groupIndex && group.status.live

/-- The live memberships of the contact, if the bootstrap is the revision's. -/
def Bootstrap.live (bootstrap : Bootstrap) (automationId : String) (revision : ℕ)
    (contact : ContactKey) : ℕ :=
  if bootstrap.automationId = automationId ∧ bootstrap.revision = revision then
    bootstrap.members.countP (bootstrap.holds contact)
  else 0

/-- **The live work items** of a contact, for a revision of a rule. -/
def State.live (s : State F) (automationId : String) (revision : ℕ) (contact : ContactKey) : ℕ :=
  s.admission.deliveries.countP (s.delivers automationId revision contact) +
    (s.bootstraps.map (·.live automationId revision contact)).sum

/-! ### Snapshots -/

variable (sha256 : String → String) (parse : String → ℕ) (owner : String)

/-- The evidence is the contact's newest, is visible, and its source is available. -/
def Evidence.current (env : Env F) (evidence : Evidence F) : Bool :=
  evidence.revision.generation = evidence.contact.generation && env.available evidence.sourceId &&
    evidence.contact.visible

/-- The evidence is recent enough for the rule's data access. -/
def Evidence.within (env : Env F) (definition : Definition) (evidence : Evidence F) : Bool :=
  env.now ≤ evidence.observedAt + definition.dataAccess.historyDays * 86400

def State.delivering (s : State F) (automationId : String) (revision : ℕ) (contact : ContactKey) :
    Bool :=
  s.admission.deliveries.any (s.delivers automationId revision contact)

def State.processing (s : State F) (automationId : String) (revision : ℕ) (contact : ContactKey) :
    Bool :=
  s.bootstraps.any fun bootstrap =>
    bootstrap.automationId = automationId && bootstrap.revision = revision &&
      bootstrap.members.any (bootstrap.holds contact)

/-- The sources that are asked for and are the rule's. -/
def Definition.allows (definition : Definition) (value : Selection) (sourceId : String) : Bool :=
  if value.sourceIds ≠ [] then
    value.sourceIds.contains sourceId &&
      (definition.sourceIds.isEmpty || definition.sourceIds.contains sourceId)
  else definition.sourceIds.isEmpty || definition.sourceIds.contains sourceId

def State.selects (s : State F) (env : Env F) (automationId : String) (revision : ℕ)
    (definition : Definition) (value : Selection) (reviewedIDs : Option (List RevisionKey))
    (evidence : Evidence F) : Bool :=
  evidence.current env && reviewedIDs.all (·.contains evidence.key) &&
    definition.allows value evidence.sourceId && evidence.within env definition &&
    (value.search = "" || env.ilike value.search evidence.contact.fields) &&
    (!value.excludePreviouslyDelivered ||
      !s.delivering automationId revision evidence.contactKey &&
        !s.processing automationId revision evidence.contactKey)

def State.selectSnapshot (s : State F) (env : Env F) (automationId : String) (revision : ℕ)
    (definition : Definition) (value : Selection) (reviewedIDs : Option (List RevisionKey)) :
    Except DataRequestError (List RevisionKey) := do
  let availableSources := s.sources.filter fun source =>
    value.sourceIds.contains source.id && env.available source.id
  if value.sourceIds ≠ [] ∧ availableSources.length ≠ value.sourceIds.length then
    throw ⟨404, "automation_source_not_found", "Source not found or revoked"⟩
  let selected := (s.evidence parse).filter
    (s.selects env automationId revision definition value reviewedIDs)
  return ((selected.insertionSort fun a b =>
    env.contactId a.contactKey ≤ env.contactId b.contactKey).take value.maxContacts).map (·.key)

/-! ### Captures -/

def bootstrapGroupSize : ℕ := 25

def Mode.groupSize : Mode → ℕ
  | .perContact => 1
  | .batched => bootstrapGroupSize

/-- The row of a request, its members and its groups. -/
def Bootstrap.new (id now : ℕ) (automationId : String) (revision : Revision) (request : Request)
    (publicationBoundary : ℕ) (snapshot : List RevisionKey) : Bootstrap :=
  let groupSize := request.value.mode.groupSize
  { id
    automationId
    revision := revision.revision
    request
    publicationBoundary
    memberCount := snapshot.length
    groupSize
    status := if snapshot = [] then .completed else .pending
    latestStartAt := now + revision.definition.latestStartSeconds
    members := snapshot.zipIdx.map fun (contactRevisionId, ordinal) =>
      { ordinal, contactRevisionId, groupIndex := ordinal / groupSize }
    groups := (List.range ((snapshot.length + groupSize - 1) / groupSize)).map fun groupIndex =>
      { groupIndex, status := .pending, outcomeCode := none, nextAttemptAt := now } }

/-- The review is of this rule's revision, under this grant. -/
def Review.current (review : Review) (automationId : String) (revision : Revision)
    (grantVersion : ℕ) : Bool :=
  review.owner = owner && review.automationId = automationId &&
    review.revision = revision.revision && review.grantVersion = grantVersion &&
    review.definition = revision.definition

/-- The grant is the one that the revision was activated under, and covers it. -/
def Revision.granted (revision : Revision) (env : Env F) : Option Admission.Grant :=
  env.grant.filter fun grant =>
    grant.version = revision.grantVersion &&
      revision.definition.dataAccess.historyDays ≤ grant.historyDays &&
      revision.definition.dataAccess.scopes.all (grant.scopes.contains ·)

/-- What a capture inserts, for a rule whose revision is active. -/
def State.insertSnapshot (s : State F) (env : Env F) (automationId : String) (request : Request)
    (publicationBoundary : ℕ) : Except DataRequestError (State F × Bootstrap) := do
  let some activeRevision := (s.rule? automationId).bind (·.activeRevision)
    | throw ⟨409, "automation_not_activated", "Activate a saved revision first"⟩
  let some revision := s.revisions.find? fun revision =>
      revision.automationId = automationId && revision.revision = activeRevision
    | throw ⟨409, "automation_not_activated", "Active revision is unavailable"⟩
  if revision.definition.eventType ≠ .contactAdded then
    throw ⟨400, "automation_trigger_unsupported",
      "Only new-contact automations can process existing contacts"⟩
  let some grant := revision.granted env
    | throw ⟨403, "data_permission_changed",
        "Approve current data permissions before processing existing contacts"⟩
  if request.reviewed.any (!·.current owner automationId revision grant.version) then
    throw ⟨409, "bootstrap_review_stale",
      "Automation or permissions changed; request a new review"⟩
  let snapshot ← s.selectSnapshot parse env automationId revision.revision revision.definition
    request.value.toSelection (request.reviewed.map (·.contactRevisionIds))
  if request.reviewed.any (snapshot ≠ ·.contactRevisionIds) then
    throw ⟨409, "bootstrap_review_stale", "Contact eligibility changed; request a new review"⟩
  let bootstrap := Bootstrap.new s.bootstraps.length env.now automationId revision request
    publicationBoundary snapshot
  return ({ s with bootstraps := s.bootstraps ++ [bootstrap] }, bootstrap)

/-- A capture, on its own, with an activation, or from a review. A retry gets what the first try
has made. -/
def State.captureInTransaction (s : State F) (env : Env F) (automationId : String)
    (request : Request) : Except DataRequestError (State F × Bootstrap) := do
  if request.activation.any (·.expectedVersion ≠ request.value.expectedVersion) then
    throw ⟨400, "invalid_automation",
      "Activation and snapshot must refer to the same saved version"⟩
  let some rule := s.rule? automationId | throw notFound
  match s.bootstraps.find? (·.request.value.idempotencyKey = request.value.idempotencyKey) with
  | some existing =>
    if existing.automationId ≠ automationId ∨ existing.request ≠ request then
      throw ⟨409, "bootstrap_conflict", "This retry key already identifies a different request"⟩
    return (s, existing)
  | none =>
    if rule.state = .deleted then throw notFound
    if rule.version ≠ request.value.expectedVersion then
      throw ⟨409, "automation_conflict",
        "Automation changed; reload before processing existing contacts"⟩
    let activated ← match request.activation with
      | some activation => s.activateInTransaction env automationId activation
      | none => .ok s
    activated.insertSnapshot parse owner env automationId request s.publicationSequence

def State.captureReviewedInTransaction (s : State F) (env : Env F) (reviewed : Review)
    (idempotencyKey : String) : Except DataRequestError (State F × Bootstrap) :=
  if reviewed.owner ≠ owner then
    .error ⟨404, "bootstrap_review_not_found", "Review not found"⟩
  else
    s.captureInTransaction parse owner env reviewed.automationId
      { value :=
          { reviewed.selection with
            idempotencyKey
            acknowledgeRepeatedActions := !reviewed.selection.excludePreviouslyDelivered }
        activation := none
        reviewed := some reviewed }

def State.setBootstrap (s : State F) (id : ℕ) (update : Bootstrap → Bootstrap) : State F :=
  { s with bootstraps := s.bootstraps.modify id update }

def State.cancel (s : State F) (automationId : String) (id : ℕ) :
    Except DataRequestError (State F) :=
  match s.bootstraps[id]? with
  | none => .error ⟨404, "bootstrap_not_found", "Bootstrap request not found"⟩
  | some bootstrap =>
    if bootstrap.automationId ≠ automationId then
      .error ⟨404, "bootstrap_not_found", "Bootstrap request not found"⟩
    else if bootstrap.status = .completed ∨ bootstrap.status = .failed then .ok s
    else .ok (s.setBootstrap id fun bootstrap =>
      { bootstrap.cancelPending with status := .canceled })

/-! ### Admission -/

/-- The revisions, as far as admission reads them. -/
def State.revisionOf (s : State F) (automationId : String) (revision : ℕ) :
    Option Admission.Revision :=
  (s.revisions.find? fun row =>
    row.automationId = automationId && row.revision = revision).map fun row =>
      { definition := row.definition.toDefinition, grantVersion := row.grantVersion }

/-- The group has been admitted in the last day. -/
def State.groupCounts (s : State F) (now : ℕ) (group : Group) : Bool :=
  (group.invocationId.bind (s.admission.runs[·]?)).any fun run => now < run.createdAt + 86400

/-- What bootstraps account for of today's work: the rule's, and all. -/
def State.bootstrapUsage (s : State F) (now : ℕ) (automationId : String) : ℕ × ℕ :=
  (((s.bootstraps.filter (·.automationId = automationId)).map fun bootstrap =>
      bootstrap.groups.countP (s.groupCounts now)).sum,
    (s.bootstraps.map fun bootstrap => bootstrap.groups.countP (s.groupCounts now)).sum)

def State.admissionEnv (s : State F) (env : Env F) : Admission.Env :=
  { env.toEnv with
    rule := fun id => (s.rule? id).map (·.state)
    bootstrapUsage := s.bootstrapUsage env.now }

/-- `AutomationAdmission.admitNext`. -/
def State.admitDelivery (s : State F) (env : Env F) : Option (State F) :=
  (s.admission.admitNext s.revisionOf (s.admissionEnv env)).map fun admission =>
    { s with admission }

/-- How the checks of a group may end. -/
inductive GroupOutcome where
  | finish (status : GroupStatus) (outcomeCode : String)
  | wait (outcomeCode : String)

def Bootstrap.setGroup (bootstrap : Bootstrap) (groupIndex : ℕ) (update : Group → Group) :
    Bootstrap :=
  { bootstrap with
    groups := bootstrap.groups.map fun group =>
      if group.groupIndex = groupIndex then update group else group }

def State.dueGroups (s : State F) (now : ℕ) : List (Bootstrap × Group) :=
  (s.bootstraps.flatMap fun bootstrap =>
    (bootstrap.groups.filter fun group =>
      group.status = .pending && group.nextAttemptAt ≤ now).map (bootstrap, ·)).insertionSort
        fun a b => a.2.nextAttemptAt < b.2.nextAttemptAt ∨
          a.2.nextAttemptAt = b.2.nextAttemptAt ∧
            (a.1.id < b.1.id ∨ a.1.id = b.1.id ∧ a.2.groupIndex ≤ b.2.groupIndex)

def State.groupEvidence (s : State F) (env : Env F) (definition : Definition)
    (bootstrap : Bootstrap) (group : Group) : List (Evidence F) :=
  ((bootstrap.members.filter (·.groupIndex = group.groupIndex)).flatMap fun member =>
    (s.evidence parse).filter fun evidence =>
      evidence.key = member.contactRevisionId && evidence.contact.visible &&
        env.available evidence.sourceId && evidence.within env definition).take bootstrapGroupSize

def State.prepareGroup (s : State F) (env : Env F) (bootstrap : Bootstrap) (group : Group) :
    Except GroupOutcome (Revision × Admission.ModelResolution) := do
  let some rule := s.rule? bootstrap.automationId
    | throw (.finish .failed "automation_unavailable")
  let some revision := s.revisions.find? fun revision =>
      revision.automationId = bootstrap.automationId && revision.revision = bootstrap.revision
    | throw (.finish .failed "automation_unavailable")
  let definition := revision.definition
  if rule.state = .deleted then throw (.finish .failed "automation_unavailable")
  if bootstrap.status = .canceled then throw (.finish .canceled "user_canceled")
  if bootstrap.status ≠ .pending then throw (.finish .failed "bootstrap_unavailable")
  if bootstrap.latestStartAt ≤ env.now then throw (.finish .expired "latest_start_elapsed")
  if (revision.granted env).isNone then throw (.finish .failed "data_permission_changed")
  if !env.ownsBud definition.budId then throw (.finish .failed "automation_target_unavailable")
  if !env.reaches definition.toDefinition then
    throw (.finish .failed "automation_target_unavailable")
  let expected := min bootstrap.groupSize
    (bootstrap.memberCount - group.groupIndex * bootstrap.groupSize)
  if expected = 0 ∨ (s.groupEvidence parse env definition bootstrap group).length ≠ expected then
    throw (.finish .failed "contact_evidence_unavailable")
  if rule.state ≠ .enabled then throw (.wait "automation_paused")
  let (ruleCount, ownerCount) := s.admission.usage (s.admissionEnv env) rule.id
  if Admission.invocationsPerOwnerDay ≤ ownerCount ∨
      definition.maxInvocationsPerDay ≤ ruleCount then
    throw (.wait "daily_work_limit")
  let modelResolution ← (env.resolve definition.toDefinition).mapError (GroupOutcome.finish .failed)
  return (revision, modelResolution)

def groupRun (env : Env F) (definition : Definition) (modelResolution : Admission.ModelResolution)
    (latestStartAt : ℕ) : Admission.Run :=
  { threadId :=
      match definition.target with
      | .existingThread threadId => threadId
      | .newThread => env.newThreadId
    budId := definition.budId
    model := modelResolution.model
    reasoningEffort := modelResolution.reasoningEffort
    latestStartAt
    createdAt := env.now
    started := false
    row := Invocation.Row.new env.now }

/-- `BootstrapAdmission.admitNext`. -/
def State.admitGroup (s : State F) (env : Env F) : State F :=
  match (s.dueGroups env.now).head? with
  | none => s
  | some (bootstrap, group) =>
    match s.prepareGroup parse env bootstrap group with
    | .error (.finish status outcomeCode) =>
      s.setBootstrap bootstrap.id (·.setGroup group.groupIndex fun group =>
        { group with status, outcomeCode := some outcomeCode })
    | .error (.wait outcomeCode) =>
      s.setBootstrap bootstrap.id (·.setGroup group.groupIndex fun group =>
        { group with outcomeCode := some outcomeCode, nextAttemptAt := env.now + 15 })
    | .ok (revision, modelResolution) =>
      let admitted : State F :=
        { s with
          admission :=
            { s.admission with
              runs := s.admission.runs ++
                [groupRun env revision.definition modelResolution bootstrap.latestStartAt] } }
      admitted.setBootstrap bootstrap.id (·.setGroup group.groupIndex fun group =>
        { group with status := .admitted s.admission.runs.length, outcomeCode := none })

/-! ### Steps -/

inductive Act (F : Type) where
  | receive (sourceId : String) (event : Contacts.Event F)
  | processContacts (now : ℕ) (sourceId : String) (act : Contacts.Act F)
  | publish (now : ℕ) (eventType : Admission.EventType) (subject : Subject)
  | create (env : Env F) (id : String) (definition : Definition)
  | update (env : Env F) (id : String) (expectedVersion : ℕ) (definition : Definition)
  | activate (env : Env F) (id : String) (value : Activation)
  | pause (id : String) (expectedVersion : ℕ) (cancelPending : Bool)
  | delete (id : String) (expectedVersion : ℕ)
  | capture (env : Env F) (automationId : String) (value : Input) (activation : Option Activation)
  | captureReviewed (env : Env F) (reviewed : Review) (idempotencyKey : String)
  | cancel (automationId : String) (id : ℕ)
  | matchNext (env : Env F)
  | admitDelivery (env : Env F)
  | admitGroup (env : Env F)
  | progress (id : ℕ) (progress : Admission.Progress)

/-- A transaction that throws leaves everything as it is. -/
def State.commit {ε : Type} (s : State F) : Except ε (State F) → State F
  | .ok t => t
  | .error _ => s

variable [DecidableEq F] [Inhabited F]

def step (s : State F) : Act F → Option (State F)
  | .receive sourceId event => some (s.receive sourceId event)
  | .processContacts now sourceId act => s.processContacts sha256 parse now sourceId act
  | .publish now eventType subject =>
    match eventType, subject with
    | .workoutCompleted, .workout _
    | .visitEnded, .visit _
    | .placeArrived, .presence _ _
    | .placeDeparted, .presence _ _ => some (s.publish now eventType subject)
    | _, _ => none
  | .create env id definition => some (s.commit (s.createInTransaction env id definition))
  | .update env id expectedVersion definition =>
    some (s.commit (s.updateInTransaction env id expectedVersion definition))
  | .activate env id value => some (s.commit (s.activateInTransaction env id value))
  | .pause id expectedVersion cancelPending =>
    some (s.commit (s.pauseInTransaction id expectedVersion cancelPending))
  | .delete id expectedVersion => some (s.commit (s.delete id expectedVersion))
  | .capture env automationId value activation =>
    some (s.commit ((s.captureInTransaction parse owner env automationId
      { value, activation, reviewed := none }).map (·.1)))
  | .captureReviewed env reviewed idempotencyKey =>
    some (s.commit ((s.captureReviewedInTransaction parse owner env reviewed
      idempotencyKey).map (·.1)))
  | .cancel automationId id => some (s.commit (s.cancel automationId id))
  | .matchNext env => s.matchNext parse env
  | .admitDelivery env => s.admitDelivery env
  | .admitGroup env => some (s.admitGroup parse env)
  | .progress id progress => do
    let run ← s.admission.runs[id]?
    let run ← run.progress owner progress
    return { s with admission := { s.admission with runs := s.admission.runs.set id run } }

/-- Captures leave out what has been delivered. -/
def Act.excludes : Act F → Bool
  | .capture _ _ value _ => value.excludePreviouslyDelivered
  | .captureReviewed _ reviewed _ => reviewed.selection.excludePreviouslyDelivered
  | _ => true

end Bud.Automations
