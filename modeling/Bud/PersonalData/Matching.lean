import Bud.PersonalData.Automations

/-!
# Matching

`automation-matcher.ts` takes the events in the order they have been published in, however late, and
queues a delivery for each revision that was in force when the event was published. Which one that
was is found out from the boundaries: the newest revision of the rule whose boundary is below the
event's number. What does not pass a rule's filters is queued as well, but suppressed, and so is a
contact that a bootstrap of the revision has captured with a boundary at or after the event.

## Modelling notes

`matchNext` returns nothing when it throws: the event stays pending then. The definitions are those
that have been saved, and are not parsed again.
-/

namespace Bud.Automations

variable {F : Type} (parse : String → ℕ)

/-! ### Contacts -/

/-- A revision of a contact, with the contact as it is now. -/
structure Evidence (F : Type) where
  sourceId : String
  contact : Contacts.Contact F
  revision : Contacts.Revision F
  observedAt : ℕ

def Evidence.contactKey (evidence : Evidence F) : ContactKey :=
  ⟨evidence.sourceId, evidence.contact.sourceContactId⟩

def Evidence.key (evidence : Evidence F) : RevisionKey :=
  ⟨evidence.contactKey, evidence.revision.generation⟩

def observedAt (contacts : Contacts.State F) (generation : ℕ) : ℕ :=
  (((contacts.scan? generation).bind (·.manifest)).map (parse ·.context.observedAt)).getD 0

def Source.evidence (source : Source F) : List (Evidence F) :=
  source.contacts.contacts.flatMap fun contact =>
    (source.contacts.revisions.filter (·.sourceContactId = contact.sourceContactId)).map
      fun revision =>
        { sourceId := source.id
          contact
          revision
          observedAt := observedAt parse source.contacts revision.generation }

def State.evidence (s : State F) : List (Evidence F) := s.sources.flatMap (·.evidence parse)

/-! ### The revisions in force -/

/-- Pending events, in the order of their numbers; those without one come last. -/
def DomainEvent.before (a b : DomainEvent) : Bool :=
  match a.publicationSequence, b.publicationSequence with
  | some m, some n => m < n || m = n && a.id ≤ b.id
  | some _, none => true
  | none, some _ => false
  | none, none => a.id ≤ b.id

def State.nextEvent (s : State F) : Option DomainEvent :=
  ((s.events.filter (·.pending)).insertionSort fun a b => a.before b = true).head?

/-- The newest of its rule's revisions with a boundary below the number. -/
def State.inForce (s : State F) (sequence : ℕ) (revision : Revision) : Bool :=
  revision.publicationBoundary < sequence &&
    !s.revisions.any fun newer =>
      newer.automationId = revision.automationId && revision.revision < newer.revision &&
        newer.publicationBoundary < sequence

/-- Only rules for the type of the event see it. -/
def State.applicable (s : State F) (event : DomainEvent) (sequence : ℕ) :
    Option (List Revision) :=
  let rows := s.revisions.filter fun revision =>
    (s.rule? revision.automationId).any (·.state ≠ .deleted) && s.inForce sequence revision
  -- `automation_rule_limit_exceeded`
  if rulesPerOwner < rows.length then none
  else some (rows.filter (·.definition.eventType = event.eventType))

/-! ### Filters -/

inductive Outcome where
  | pending
  | suppressed (outcomeCode : String)

/-- A bootstrap of the revision has captured the contact, with a boundary at or after the event. -/
def State.captured (s : State F) (revision : Revision) (contact : ContactKey) (sequence : ℕ) :
    Bool :=
  s.bootstraps.any fun bootstrap =>
    bootstrap.automationId = revision.automationId && bootstrap.revision = revision.revision &&
      bootstrap.members.any (·.contactRevisionId.contact = contact) &&
      sequence ≤ bootstrap.publicationBoundary

def State.contactOutcome (s : State F) (contact : ContactKey) (sequence : ℕ)
    (revision : Revision) : Outcome :=
  if !revision.definition.sourceIds.isEmpty &&
      !revision.definition.sourceIds.contains contact.sourceId then
    .suppressed "source_filter_mismatch"
  else if s.captured revision contact sequence then .suppressed "bootstrap_snapshot_selected"
  else .pending

def placeOutcome (now occurredAt : ℕ) (deleted : Bool) (definition : Definition) : Outcome :=
  if deleted then .suppressed "place_deleted"
  else if occurredAt + definition.maxEventAgeSeconds < now then .suppressed "event_too_old"
  else .pending

def visitOutcome (now : ℕ) (visit : Visit) (definition : Definition) : Outcome :=
  let filter := definition.visitFilter
  let atPlace := filter.placeIds.isEmpty || visit.placeId.any (filter.placeIds.contains ·)
  let long := filter.minDurationMinutes = 0 ||
    visit.arrivalAt.any fun arrivalAt =>
      arrivalAt + filter.minDurationMinutes * 60 ≤ visit.departureAt
  if !atPlace || !long then .suppressed "visit_filter_mismatch"
  else if visit.departureAt + definition.maxEventAgeSeconds < now then .suppressed "event_too_old"
  else .pending

def workoutOutcome (now : ℕ) (workout : Workout) (definition : Definition) : Outcome :=
  let filter := definition.workoutFilter
  let wanted := (filter.activityTypes.isEmpty ||
    filter.activityTypes.contains workout.activityType) &&
      filter.minDurationMinutes * 60 ≤ workout.durationS
  if workout.deleted then .suppressed "sample_deleted"
  else if !wanted then .suppressed "workout_filter_mismatch"
  else if workout.endAt + definition.maxEventAgeSeconds < now then .suppressed "event_too_old"
  else .pending

/-- What becomes of an event, for each revision it is shown, and the time by which it has to start.
Without the evidence that the event is about the transaction fails. A rule about places does not
see the events of others. -/
def State.judge (s : State F) (env : Env F) (event : DomainEvent) (sequence : ℕ) :
    Option (Revision → Option (Outcome × Option ℕ)) :=
  match event.eventType, event.subject with
  | .contactAdded, .contact revisionId => do
    let evidence ← (s.evidence parse).find? (·.key = revisionId)
    return fun revision => some (s.contactOutcome evidence.contactKey sequence revision, none)
  | .workoutCompleted, .workout workoutId => do
    let workout ← env.workout workoutId
    return fun revision =>
      some (workoutOutcome env.now workout revision.definition,
        some (workout.endAt + revision.definition.maxEventAgeSeconds))
  | .visitEnded, .visit visitId => do
    let visit ← env.visit visitId
    return fun revision =>
      some (visitOutcome env.now visit revision.definition,
        some (visit.departureAt + revision.definition.maxEventAgeSeconds))
  | .placeArrived, .presence presenceEventId placeId
  | .placeDeparted, .presence presenceEventId placeId => do
    let occurredAt ← env.occurredAt presenceEventId
    return fun revision =>
      if revision.definition.placeIds.contains placeId then
        some (placeOutcome env.now occurredAt (env.placeDeleted placeId) revision.definition,
          some (occurredAt + revision.definition.maxEventAgeSeconds))
      else none
  | .schedule, _ => some fun _ => none
  | _, _ => none

/-! ### Deliveries -/

def State.delivered (s : State F) (revision : Revision) (event : DomainEvent) : Bool :=
  s.admission.deliveries.any fun delivery =>
    delivery.automationId = revision.automationId && delivery.revision = revision.revision &&
      s.domainEventIds[delivery.id]? = some event.id

/-- What is queued: a delivery that has not expired, or one that is done with. -/
def matchedDelivery (id now : ℕ) (revision : Revision) (outcome : Outcome) (deadline : ℕ) :
    Admission.Delivery :=
  { id
    automationId := revision.automationId
    revision := revision.revision
    status :=
      match outcome with
      | .pending => if deadline ≤ now then .expired else .pending
      | .suppressed _ => .suppressed
    outcomeCode :=
      match outcome with
      | .pending => if deadline ≤ now then some "latest_start_elapsed" else none
      | .suppressed outcomeCode => some outcomeCode
    latestStartAt := deadline
    nextAttemptAt := now }

/-- `notAfter` can only tighten the deadline of the publication. -/
def State.insertDelivery (s : State F) (now : ℕ) (event : DomainEvent) (revision : Revision)
    (outcome : Outcome) (notAfter : Option ℕ) : State F :=
  let published := event.publishedAt + revision.definition.latestStartSeconds
  let deadline := (notAfter.map (min published)).getD published
  if s.delivered revision event then s
  else
    { s with
      admission :=
        { s.admission with
          deliveries := s.admission.deliveries ++
            [matchedDelivery s.admission.deliveries.length now revision outcome deadline] }
      domainEventIds := s.domainEventIds ++ [event.id] }

/-- The loop of a matcher, over one revision. -/
def State.deliver (now : ℕ) (event : DomainEvent)
    (judge : Revision → Option (Outcome × Option ℕ)) (s : State F) (revision : Revision) :
    State F :=
  match judge revision with
  | some (outcome, notAfter) => s.insertDelivery now event revision outcome notAfter
  | none => s

def State.setMatched (s : State F) (id : ℕ) : State F :=
  { s with events := s.events.modify id ({ · with pending := false }) }

def State.matchNext (s : State F) (env : Env F) : Option (State F) :=
  match s.nextEvent with
  | none => some s
  | some event =>
    match event.publicationSequence with
    | none => some (s.setMatched event.id)
    | some sequence => do
      let judge ← s.judge parse env event sequence
      let revisions ← s.applicable event sequence
      return (revisions.foldl (State.deliver env.now event judge) s).setMatched event.id

end Bud.Automations
