import Bud.PersonalData.Admission
import Bud.PersonalData.Contacts

/-!
# Automations

A rule that has been activated has a numbered revision, and works on what is published after it:
`contact-processor.ts` publishes an event for a contact that has been added, and numbers it from the
owner's publication sequence; a revision keeps the sequence as it was when it was activated, as its
boundary. Contacts that were there before can be handed to a revision as well, in a bootstrap, which
has a boundary of its own.

This module has the tables and the transactions on rules (`automations.ts`); `Bootstraps.lean` has
the bootstraps, matching and admission.

## Modelling notes

Everything here belongs to one owner, whose lock makes a transaction atomic; one that throws leaves
everything as it is. The contacts of a source are as in `Contacts.lean`, and deliveries and the
invocations they become as in `Admission.lean`; the event of a delivery is kept apart. Events,
deliveries and bootstraps are numbered as they are inserted. Times are in seconds.

What is read in tables that nothing here writes is left to the environment (`Env`): the grant, the
Buds and threads, whether a source has been revoked, whether a definition's targets are there. Input
has been parsed. The names and instructions of rules are left out, and so are the invocations that a
pause cancels: they are runs that make progress of their own.
-/

namespace Bud.Automations

open Admission (EventType RuleState)

/-! ### Rules -/

structure DataRequestError where
  statusCode : ℕ
  code : String
  message : String
  deriving DecidableEq

structure WorkoutFilter where
  activityTypes : List String
  minDurationMinutes : ℕ
  deriving DecidableEq

structure VisitFilter where
  placeIds : List String
  minDurationMinutes : ℕ
  deriving DecidableEq

/-- Each event type goes by filters of its own. -/
structure Definition extends Admission.Definition where
  latestStartSeconds : ℕ
  /-- Of `contact.added`; every source if there is none. -/
  sourceIds : List String
  placeIds : List String
  workoutFilter : WorkoutFilter
  visitFilter : VisitFilter
  maxEventAgeSeconds : ℕ
  deriving DecidableEq

structure Rule where
  id : String
  version : ℕ
  draft : Definition
  state : RuleState
  activeRevision : Option ℕ

structure Revision where
  automationId : String
  revision : ℕ
  definition : Definition
  publicationBoundary : ℕ
  grantVersion : ℕ

def rulesPerOwner : ℕ := 100

/-! ### Contacts and events -/

/-- A contact is known by its source and its id there. -/
structure ContactKey where
  sourceId : String
  sourceContactId : String
  deriving DecidableEq

/-- A revision of a contact is known by the scan that it comes from. -/
structure RevisionKey where
  contact : ContactKey
  generation : ℕ
  deriving DecidableEq

structure Source (F : Type) where
  id : String
  contacts : Contacts.State F

/-- What an event is about. -/
inductive Subject where
  | contact (revisionId : RevisionKey)
  | workout (workoutId : String)
  | visit (visitId : String)
  | presence (presenceEventId placeId : String)
  deriving DecidableEq

structure DomainEvent where
  id : ℕ
  eventType : EventType
  subject : Subject
  /-- `pending`, or else `matched`. -/
  pending : Bool
  publicationSequence : Option ℕ
  publishedAt : ℕ
  deriving DecidableEq

def DomainEvent.contact? (event : DomainEvent) : Option ContactKey :=
  match event.subject with
  | .contact revisionId => some revisionId.contact
  | _ => none

/-! ### Bootstraps -/

inductive Mode where
  | batched
  | perContact
  deriving DecidableEq

/-- Which contacts a bootstrap is for. -/
structure Selection where
  expectedVersion : ℕ
  sourceIds : List String
  search : String
  maxContacts : ℕ
  mode : Mode
  excludePreviouslyDelivered : Bool
  deriving DecidableEq

structure Input extends Selection where
  idempotencyKey : String
  acknowledgeRepeatedActions : Bool
  deriving DecidableEq

structure Activation where
  expectedVersion : ℕ
  expectedGrantVersion : ℕ
  deriving DecidableEq

/-- `FrozenBootstrapReview`: what the owner has looked at. -/
structure Review where
  owner : String
  automationId : String
  selection : Selection
  revision : ℕ
  grantVersion : ℕ
  publicationBoundary : ℕ
  definition : Definition
  contactRevisionIds : List RevisionKey
  deriving DecidableEq

/-- What a retry is compared with. -/
structure Request where
  value : Input
  activation : Option Activation
  reviewed : Option Review
  deriving DecidableEq

inductive GroupStatus where
  | pending
  | admitted (invocationId : ℕ)
  | expired
  | canceled
  | failed
  deriving DecidableEq

structure Group where
  groupIndex : ℕ
  status : GroupStatus
  outcomeCode : Option String
  nextAttemptAt : ℕ

def Group.invocationId (group : Group) : Option ℕ :=
  match group.status with
  | .admitted id => some id
  | _ => none

structure Member where
  ordinal : ℕ
  contactRevisionId : RevisionKey
  groupIndex : ℕ

inductive BootstrapStatus where
  | pending
  | completed
  | canceled
  | failed
  deriving DecidableEq

/-- With its members and its groups. -/
structure Bootstrap where
  id : ℕ
  automationId : String
  revision : ℕ
  request : Request
  publicationBoundary : ℕ
  memberCount : ℕ
  groupSize : ℕ
  status : BootstrapStatus
  latestStartAt : ℕ
  members : List Member
  groups : List Group

/-! ### The tables -/

structure State (F : Type) where
  publicationSequence : ℕ
  sources : List (Source F)
  events : List DomainEvent
  rules : List Rule
  revisions : List Revision
  admission : Admission.State
  domainEventIds : List ℕ
  bootstraps : List Bootstrap

variable {F : Type}

def init : State F :=
  { publicationSequence := 0, sources := [], events := [], rules := [], revisions := [],
    admission := Admission.init, domainEventIds := [], bootstraps := [] }

structure Workout where
  activityType : String
  durationS : ℕ
  endAt : ℕ
  deleted : Bool

/-- A visit that has ended, and the place it was to. -/
structure Visit where
  arrivalAt : Option ℕ
  departureAt : ℕ
  placeId : Option String

/-- What a step finds elsewhere. The rules, and what bootstraps account for, are in the tables. -/
structure Env (F : Type) extends Admission.Env where
  /-- Neither the source's epoch nor its installation has been revoked. -/
  available : String → Bool
  validateTargets : Definition → Except DataRequestError Unit
  /-- The ids that order contacts. -/
  contactId : ContactKey → ℕ
  ilike : String → F → Bool
  workout : String → Option Workout
  visit : String → Option Visit
  occurredAt : String → Option ℕ
  placeDeleted : String → Bool

/-! ### Contacts -/

def State.contacts? (s : State F) (sourceId : String) : Option (Contacts.State F) :=
  (s.sources.find? (·.id = sourceId)).map (·.contacts)

def State.setContacts (s : State F) (sourceId : String) (contacts : Contacts.State F) : State F :=
  { s with
    sources := s.sources.map fun source =>
      if source.id = sourceId then { source with contacts } else source }

/-- A payload comes in. Its source is inserted, unless there is one. -/
def State.receive (s : State F) (sourceId : String) (event : Contacts.Event F) : State F :=
  match s.contacts? sourceId with
  | some contacts => s.setContacts sourceId { contacts with jobs := contacts.jobs ++ [event] }
  | none =>
    { s with sources := s.sources ++ [{ id := sourceId, contacts := Contacts.init [event] }] }

def State.publish (s : State F) (now : ℕ) (eventType : EventType) (subject : Subject) : State F :=
  { s with
    publicationSequence := s.publicationSequence + 1
    events := s.events ++
      [{ id := s.events.length
         eventType
         subject
         pending := true
         publicationSequence := some (s.publicationSequence + 1)
         publishedAt := now }] }

def State.publishAdded (now : ℕ) (sourceId : String) (generation : ℕ) (s : State F) (id : String) :
    State F :=
  s.publish now .contactAdded (.contact { contact := ⟨sourceId, id⟩, generation })

variable [DecidableEq F] [Inhabited F] (sha256 : String → String) (parse : String → ℕ)

/-- A step of the contact processor on one source, with the events of the contacts it adds. -/
def State.processContacts (s : State F) (now : ℕ) (sourceId : String) (act : Contacts.Act F) :
    Option (State F) := do
  let contacts ← s.contacts? sourceId
  let contacts' ← Contacts.step sha256 parse contacts act
  return (contacts'.added.drop contacts.added.length).foldl
    (State.publishAdded now sourceId contacts'.generation) (s.setContacts sourceId contacts')

omit [DecidableEq F] [Inhabited F]

/-! ### Transactions on rules -/

def notFound : DataRequestError := ⟨404, "automation_not_found", "Automation not found"⟩

def conflict : DataRequestError :=
  ⟨409, "automation_conflict", "Automation changed; reload before saving"⟩

def State.rule? (s : State F) (id : String) : Option Rule := s.rules.find? (·.id = id)

def State.setRule (s : State F) (id : String) (update : Rule → Rule) : State F :=
  { s with rules := s.rules.map fun rule => if rule.id = id then update rule else rule }

def State.load (s : State F) (id : String) : Except DataRequestError Rule :=
  match s.rule? id with
  | none => .error notFound
  | some rule => if rule.state = .deleted then .error notFound else .ok rule

/-- With an id that has been taken, the rule is left as it is. -/
def State.createInTransaction (s : State F) (env : Env F) (id : String) (definition : Definition) :
    Except DataRequestError (State F) :=
  match s.rule? id with
  | some existing =>
    if existing.version ≠ 0 ∨ existing.draft ≠ definition then .error conflict else .ok s
  | none => do
    if rulesPerOwner ≤ s.rules.countP (·.state ≠ .deleted) then
      throw ⟨409, "automation_limit_reached", "Automation limit reached"⟩
    env.validateTargets definition
    return { s with
      rules := s.rules ++
        [{ id, version := 0, draft := definition, state := .draft, activeRevision := none }] }

def State.updateInTransaction (s : State F) (env : Env F) (id : String) (expectedVersion : ℕ)
    (definition : Definition) : Except DataRequestError (State F) := do
  let prior ← s.load id
  if prior.version ≠ expectedVersion then throw conflict
  env.validateTargets definition
  return s.setRule id fun rule => { rule with draft := definition, version := prior.version + 1 }

/-- The new revision is in force from here on. The grant need not be a particular version: it is
the one that the owner has been shown. -/
def State.activateInTransaction (s : State F) (env : Env F) (id : String) (value : Activation) :
    Except DataRequestError (State F) := do
  let prior ← s.load id
  if prior.version ≠ value.expectedVersion then throw conflict
  env.validateTargets prior.draft
  let grantVersion := (env.grant.map (·.version)).getD 0
  if grantVersion ≠ value.expectedGrantVersion then
    throw ⟨409, "grant_conflict", "Data permissions changed; reload before activating"⟩
  if !Admission.grantCoversDefinition env.grant prior.draft.toDefinition grantVersion then
    throw ⟨403, "data_permission_required", "Approve the requested data access before activating"⟩
  let revision := prior.version + 1
  let inserted : State F :=
    { s with
      revisions := s.revisions ++
        [{ automationId := id
           revision
           definition := prior.draft
           publicationBoundary := s.publicationSequence
           grantVersion }] }
  return inserted.setRule id fun rule =>
    { rule with state := .enabled, activeRevision := some revision, version := revision }

def Bootstrap.cancelPending (bootstrap : Bootstrap) : Bootstrap :=
  { bootstrap with
    groups := bootstrap.groups.map fun group =>
      if group.status = .pending then
        { group with status := .canceled, outcomeCode := some "user_canceled" }
      else group }

/-- Cancel what has been queued for a rule and not been admitted. -/
def State.cancelPending (s : State F) (id : String) : State F :=
  { s with
    admission :=
      { s.admission with
        deliveries := s.admission.deliveries.map fun delivery =>
          if delivery.automationId = id ∧ delivery.status = .pending then
            { delivery with status := .canceled, outcomeCode := some "user_canceled" }
          else delivery }
    bootstraps := s.bootstraps.map fun bootstrap =>
      if bootstrap.automationId = id then bootstrap.cancelPending else bootstrap }

def State.pauseInTransaction (s : State F) (id : String) (expectedVersion : ℕ)
    (cancelPending : Bool) : Except DataRequestError (State F) := do
  let prior ← s.load id
  if prior.version ≠ expectedVersion then throw conflict
  let paused := s.setRule id fun rule =>
    { rule with state := .paused, version := prior.version + 1 }
  return if cancelPending then paused.cancelPending id else paused

def State.delete (s : State F) (id : String) (expectedVersion : ℕ) :
    Except DataRequestError (State F) :=
  match s.rule? id with
  | none => .error notFound
  | some prior =>
    if prior.state = .deleted then .ok s
    else if prior.version ≠ expectedVersion then .error conflict
    else do
      let paused ← s.pauseInTransaction id prior.version true
      let canceled : State F :=
        { paused with
          bootstraps := paused.bootstraps.map fun bootstrap =>
            if bootstrap.automationId = id ∧ bootstrap.status = .pending then
              { bootstrap with status := .canceled }
            else bootstrap }
      return canceled.setRule id fun rule => { rule with state := .deleted }

end Bud.Automations
