import Bud.Agent.Invocation
import Bud.Lib.Runs
import Mathlib.Data.List.Sort

/-!
# Admission of automation deliveries

`automation-admission.ts`: when an event matches a rule, a delivery is queued, and `admitNext` turns
deliveries that are due into invocations, one step at a time, under a lock on the owner. Deliveries
about where the owner is form a timeline for each conversation. Those that are due together share
one invocation (a run); one that comes in with an older event than the conversation has been told
about joins a run that has not read its input yet, or becomes a quiet entry in the conversation;
and while a run is under way the next one waits.

## Modelling notes

Everything here belongs to one owner, whose lock makes a step atomic. What a step reads in tables
that admission does not write is its environment (`Env`): the rules, the grant, the owner's threads
and Buds, the event a delivery is about, the model its rule resolves to. Revisions are never
changed, so they are a parameter. An automation's input is only looked at for whether it has been
started, and the texts of inputs are left out; so is the order of a group, which only they depend
on. Delivery ids are numbers in the order of the ids.

A delivery is admitted exactly when it has an invocation, as a constraint of the table says, so the
invocation is part of the status. `unstartedRun` takes the first run that fits in no particular
order: which one is left to the environment. A run moves on as `Invocation.lean` describes, and
`start`, which also takes the owner's lock, marks its input.
-/

namespace Bud.Admission

open Invocation

/-! ### Rules -/

inductive EventType where
  | contactAdded
  | schedule
  | workoutCompleted
  | placeArrived
  | placeDeparted
  | visitEnded
  deriving DecidableEq

inductive Target where
  | newThread
  | existingThread (threadId : String)
  deriving DecidableEq

structure DataAccess where
  scopes : List String
  historyDays : ℕ
  deriving DecidableEq

structure Definition where
  eventType : EventType
  budId : String
  target : Target
  dataAccess : DataAccess
  maxInvocationsPerDay : ℕ
  deriving DecidableEq

/-- A published version of a rule, and the version of the grant it was approved under. -/
structure Revision where
  definition : Definition
  grantVersion : ℕ

inductive RuleState where
  | draft
  | enabled
  | paused
  | deleted
  deriving DecidableEq

structure Grant where
  version : ℕ
  scopes : List String
  historyDays : ℕ

def grantCoversDefinition (grant : Option Grant) (definition : Definition) (pinnedVersion : ℕ) :
    Bool :=
  definition.dataAccess.scopes.isEmpty || grant.any fun grant =>
    grant.version = pinnedVersion &&
      definition.dataAccess.scopes.all (grant.scopes.contains ·) &&
      definition.dataAccess.historyDays ≤ grant.historyDays

def isLocationTrigger (definition : Definition) : Bool :=
  definition.eventType ∈ [.placeArrived, .placeDeparted, .visitEnded]

/-- The conversation a run goes to; rules that open a new one for each run group on their own. -/
inductive GroupKey where
  | thread (threadId : String)
  | rule (automationId : String)
  deriving DecidableEq

def groupKey (definition : Definition) (automationId : String) : GroupKey :=
  match definition.target with
  | .existingThread threadId => .thread threadId
  | .newThread => .rule automationId

def groupLimit : ℕ := 20

def invocationsPerOwnerDay : ℕ := 100

/-! ### Deliveries and runs -/

inductive DeliveryStatus where
  | pending
  | admitted (invocationId : ℕ)
  | suppressed
  | expired
  | canceled
  | failed
  | folded
  deriving DecidableEq

structure Delivery where
  id : ℕ
  automationId : String
  revision : ℕ
  status : DeliveryStatus
  outcomeCode : Option String
  latestStartAt : ℕ
  nextAttemptAt : ℕ

def Delivery.invocationId (delivery : Delivery) : Option ℕ :=
  match delivery.status with
  | .admitted id => some id
  | _ => none

structure Run where
  threadId : String
  budId : String
  model : String
  reasoningEffort : String
  latestStartAt : ℕ
  createdAt : ℕ
  /-- `model_context_at` of the input has been set. -/
  started : Bool
  row : Row

structure State where
  deliveries : List Delivery
  runs : List Run

def init : State := ⟨[], []⟩

structure ModelResolution where
  model : String
  reasoningEffort : String
  deriving DecidableEq

/-- What a step finds in other tables. -/
structure Env where
  now : ℕ
  rule : String → Option RuleState
  grant : Option Grant
  ownsBud : String → Bool
  /-- The owner's thread is there, on this Bud. -/
  ownsThread : String → String → Bool
  namingPending : ℕ → Bool
  /-- When the event of a delivery happened, or why there is no input for it. -/
  trigger : ℕ → Except String ℕ
  /-- When the event of an admitted delivery happened, if it is one about a location. -/
  toldAt : ℕ → Option ℕ
  /-- Invocations of the last day that bootstraps account for: the rule's, and all. -/
  bootstrapUsage : String → ℕ × ℕ
  resolve : Definition → Except String ModelResolution
  newThreadId : String
  /-- Which of the runs that fit comes first. -/
  pick : ℕ

/-- The thread of a rule with one is there. -/
def Env.reaches (env : Env) (definition : Definition) : Bool :=
  match definition.target with
  | .existingThread threadId => env.ownsThread threadId definition.budId
  | .newThread => true

/-- The statuses a check gives a delivery that it is done with. -/
inductive Finished where
  | failed
  | expired

def Finished.status : Finished → DeliveryStatus
  | .failed => .failed
  | .expired => .expired

/-- How the checks of a delivery may end. -/
inductive Outcome where
  | finish (status : Finished) (outcomeCode : String)
  | wait (outcomeCode : String) (seconds : ℕ)

structure Prepared where
  delivery : Delivery
  definition : Definition
  happenedAt : ℕ
  modelResolution : ModelResolution

def State.setDelivery (s : State) (id : ℕ) (update : Delivery → Delivery) : State :=
  { s with
    deliveries := s.deliveries.map fun delivery =>
      if delivery.id = id then update delivery else delivery }

/-- What a failed check writes. -/
def State.settle (s : State) (env : Env) (delivery : Delivery) : Outcome → State
  | .finish status outcomeCode =>
    s.setDelivery delivery.id fun delivery =>
      { delivery with status := status.status, outcomeCode := some outcomeCode }
  | .wait outcomeCode seconds =>
    s.setDelivery delivery.id fun delivery =>
      { delivery with outcomeCode := some outcomeCode, nextAttemptAt := env.now + seconds }

def State.runOf (s : State) (delivery : Delivery) : Option Run :=
  delivery.invocationId.bind (s.runs[·]?)

/-- Whether the delivery counts towards today's work. -/
def State.counts (s : State) (env : Env) (delivery : Delivery) : Bool :=
  (s.runOf delivery).any fun run => env.now < run.createdAt + 86400

/-- `automationUsage`: of the rule, and of the owner. -/
def State.usage (s : State) (env : Env) (automationId : String) : ℕ × ℕ :=
  ((env.bootstrapUsage automationId).1 + s.deliveries.countP fun delivery =>
      delivery.automationId = automationId && s.counts env delivery,
    (env.bootstrapUsage automationId).2 + s.deliveries.countP (s.counts env))

/-- Those that are due, in order. -/
def Delivery.before (a b : Delivery) : Bool :=
  a.nextAttemptAt < b.nextAttemptAt || a.nextAttemptAt = b.nextAttemptAt && a.id ≤ b.id

def State.due (s : State) (now : ℕ) : List Delivery :=
  (s.deliveries.filter fun delivery =>
    delivery.status = .pending && delivery.nextAttemptAt ≤ now).insertionSort
      fun a b => a.before b = true

variable (revisions : String → ℕ → Option Revision)

/-! ### Checks -/

def prepare (env : Env) (s : State) (delivery : Delivery) : Except Outcome Prepared := do
  if delivery.latestStartAt ≤ env.now then throw (.finish .expired "latest_start_elapsed")
  let some state := env.rule delivery.automationId
    | throw (.finish .failed "automation_unavailable")
  let some revision := revisions delivery.automationId delivery.revision
    | throw (.finish .failed "automation_unavailable")
  if state = .deleted then throw (.finish .failed "automation_unavailable")
  if !grantCoversDefinition env.grant revision.definition revision.grantVersion then
    throw (.finish .failed "data_permission_changed")
  if !env.ownsBud revision.definition.budId then
    throw (.finish .failed "automation_target_unavailable")
  if !env.reaches revision.definition then
    throw (.finish .failed "automation_target_unavailable")
  if revision.definition.eventType = .visitEnded ∧ env.namingPending delivery.id then
    throw (.wait "visit_naming_pending" 5)
  let happenedAt ← (env.trigger delivery.id).mapError (Outcome.finish .failed)
  if state ≠ .enabled then throw (.wait "automation_paused" 15)
  let (ruleCount, ownerCount) := s.usage env delivery.automationId
  if invocationsPerOwnerDay ≤ ownerCount ∨ revision.definition.maxInvocationsPerDay ≤ ruleCount then
    throw (.wait "daily_work_limit" 15)
  let modelResolution ← (env.resolve revision.definition).mapError (Outcome.finish .failed)
  return { delivery, definition := revision.definition, happenedAt, modelResolution }

/-! ### Runs that a delivery may be part of -/

def definitionOf (delivery : Delivery) : Option Definition :=
  (revisions delivery.automationId delivery.revision).map (·.definition)

/-- The newest location event among those already admitted to this conversation. -/
def State.newestToldAt (s : State) (env : Env) (threadId : String) : Option ℕ :=
  (s.deliveries.filterMap fun delivery =>
    if (s.runOf delivery).any (·.threadId = threadId) then env.toldAt delivery.id else none).max?

/-- A run in these states has not read its input yet. -/
def unstarted : List Status := [.pending, .retryWait, .leased]

def active : List Status :=
  [.pending, .retryWait, .leased, .waitingForBud, .waitingForModel, .running, .waitingForUser]

/-- The run of this delivery is one in the conversation that has never started and can take the
item. -/
def State.canJoin (s : State) (threadId : String) (item : Prepared) (delivery : Delivery) : Bool :=
  (s.runOf delivery).any fun run =>
    run.threadId = threadId && run.row.status ∈ unstarted && !run.started &&
      (definitionOf revisions delivery).any fun definition =>
        isLocationTrigger definition && definition.budId = item.definition.budId &&
          run.model = item.modelResolution.model &&
          run.reasoningEffort = item.modelResolution.reasoningEffort &&
          definition.dataAccess = item.definition.dataAccess

def State.unstartedRun (s : State) (env : Env) (threadId : String) (item : Prepared) : Option ℕ :=
  let fitting := s.deliveries.filter (s.canJoin revisions threadId item)
  fitting[env.pick % fitting.length]?.bind Delivery.invocationId

/-- Whether a location run for this conversation is still queued or running. -/
def State.locationRunActive (s : State) (key : GroupKey) : Bool :=
  s.deliveries.any fun delivery =>
    (s.runOf delivery).any (·.row.status ∈ active) &&
      (definitionOf revisions delivery).any fun definition =>
        isLocationTrigger definition && groupKey definition delivery.automationId = key

/-- The two can share a run, which then has the Bud, the model and the data access of both. -/
def Prepared.shares (first item : Prepared) : Bool :=
  item.definition.budId = first.definition.budId &&
    item.modelResolution = first.modelResolution &&
    item.definition.dataAccess = first.definition.dataAccess

/-- One round of `locationSiblings`. -/
def collect (env : Env) (first : Prepared) (acc : State × List Prepared) (delivery : Delivery) :
    State × List Prepared :=
  match definitionOf revisions delivery with
  | none => acc
  | some definition =>
    if !isLocationTrigger definition || groupKey definition delivery.automationId ≠
        groupKey first.definition first.delivery.automationId then acc
    else
      match prepare revisions env acc.1 delivery with
      | .error outcome => (acc.1.settle env delivery outcome, acc.2)
      | .ok item => if first.shares item then (acc.1, acc.2 ++ [item]) else acc

/-- The other deliveries that are due and are looked at. -/
def State.others (s : State) (env : Env) (first : Prepared) : List Delivery :=
  ((s.due env.now).filter (·.id ≠ first.delivery.id)).take groupLimit

/-- The others that share the run. One that fails its checks is finished or deferred. -/
def locationSiblings (env : Env) (s : State) (first : Prepared) : State × List Prepared :=
  (s.others env first).foldl (collect revisions env first) (s, [])

/-! ### Admission -/

/-- What becomes of the first delivery that is due. -/
inductive Plan where
  | idle
  /-- It fails its checks, or waits. -/
  | settle (delivery : Delivery) (outcome : Outcome)
  | join (item : Prepared) (invocationId : ℕ)
  | fold (item : Prepared)
  /-- It starts a run of its own. -/
  | start (first : Prepared)

/-- The conversation in which an item comes too late: it has been told about something newer. -/
def State.straggles (s : State) (env : Env) (item : Prepared) : Option String :=
  match item.definition.target with
  | .newThread => none
  | .existingThread threadId =>
    if isLocationTrigger item.definition &&
        (s.newestToldAt env threadId).any (item.happenedAt < ·) then some threadId
    else none

def State.plan (s : State) (env : Env) : Plan :=
  match (s.due env.now).head? with
  | none => .idle
  | some delivery =>
    match prepare revisions env s delivery with
    | .error outcome => .settle delivery outcome
    | .ok first =>
      match s.straggles env first with
      | some threadId =>
        -- a straggler never starts a run
        match s.unstartedRun revisions env threadId first with
        | some id => .join first id
        | none => .fold first
      | none =>
        if isLocationTrigger first.definition &&
            s.locationRunActive revisions (groupKey first.definition delivery.automationId) then
          .settle delivery (.wait "location_run_in_progress" 5)
        else .start first

def State.joinRun (s : State) (env : Env) (id : ℕ) (item : Prepared) : State :=
  let s := s.setDelivery item.delivery.id fun delivery =>
    { delivery with status := .admitted id, outcomeCode := some "joined_unstarted_run" }
  { s with
    runs := s.runs.modify id fun run =>
      { run with
        latestStartAt := min run.latestStartAt item.delivery.latestStartAt
        row := { run.row with updatedAt := env.now } } }

def State.fold (s : State) (item : Prepared) : State :=
  s.setDelivery item.delivery.id fun delivery =>
    { delivery with status := .folded, outcomeCode := some "older_than_last_update" }

def threadOf (env : Env) (first : Prepared) : String :=
  match first.definition.target with
  | .existingThread threadId => threadId
  | .newThread => env.newThreadId

/-- The run that `admitInTransaction` inserts. -/
def newRun (env : Env) (first : Prepared) (group : List Prepared) : Run :=
  { threadId := threadOf env first
    budId := first.definition.budId
    model := first.modelResolution.model
    reasoningEffort := first.modelResolution.reasoningEffort
    latestStartAt := group.foldl (fun earliest item => min earliest item.delivery.latestStartAt)
      first.delivery.latestStartAt
    createdAt := env.now
    started := false
    row := Row.new env.now }

/-- Mark the group's deliveries as admitted to a run. -/
def State.markGroup (s : State) (id : ℕ) (group : List Prepared) : State :=
  group.foldl (fun s item => s.setDelivery item.delivery.id fun delivery =>
    { delivery with status := .admitted id, outcomeCode := none }) s

/-- The group of a run that `first` starts, and what looking for it has written. -/
def State.groupOf (s : State) (env : Env) (first : Prepared) : State × List Prepared :=
  if isLocationTrigger first.definition then
    ((locationSiblings revisions env s first).1,
     first :: (locationSiblings revisions env s first).2)
  else (s, [first])

def State.startRun (s : State) (env : Env) (first : Prepared) : State :=
  let (s, group) := s.groupOf revisions env first
  let marked := s.markGroup s.runs.length group
  { marked with runs := marked.runs ++ [newRun env first group] }

/-- A thread that is opened is not there yet. -/
def State.admitNext (s : State) (env : Env) : Option State :=
  match s.plan revisions env with
  | .idle => some s
  | .settle delivery outcome => some (s.settle env delivery outcome)
  | .join item id => some (s.joinRun env id item)
  | .fold item => some (s.fold item)
  | .start first =>
    if first.definition.target = .newThread ∧ s.runs.any (·.threadId = env.newThreadId) then none
    else some (s.startRun revisions env first)

/-! ### Steps -/

/-- How a run moves on. -/
inductive Progress where
  | method (method : Method) (choice : Choice)
  | lease (workerId : String) (now : ℕ)
  | elapse (now : ℕ)

def Run.identity (owner : String) (run : Run) : Identity :=
  { threadId := run.threadId
    budId := run.budId
    origin := .automation
    createdByUserId := owner
    latestStartAt := some run.latestStartAt }

def isStart : Method → Bool
  | .start _ => true
  | _ => false

def Run.progress (owner : String) (run : Run) : Progress → Option Run
  | .method method choice =>
    if method.next (run.identity owner) run.row choice = .write then
      some { run with
        row := method.update run.row run.row choice
        started := run.started || isStart method }
    else none
  | .lease workerId now =>
    if run.row.status ∈ queued ++ [.waitingForUser] ∧ run.row.cancelRequestedAt = none then
      some { run with row := run.row.leasedTo workerId now }
    else none
  | .elapse now =>
    if run.row.status ∈ queued then some { run with row := run.row.startElapsed now } else none

inductive Act where
  | deliver (delivery : Delivery)
  /-- A rule is paused, and its deliveries with it. -/
  | cancelPending (automationId : String)
  | admitNext (env : Env)
  | progress (id : ℕ) (progress : Progress)

def step (owner : String) (s : State) : Act → Option State
  | .deliver delivery =>
    if delivery.invocationId.isSome ∨ delivery.status = .folded ∨
        (definitionOf revisions delivery).isNone ∨ s.deliveries.any (·.id = delivery.id) then none
    else some { s with deliveries := s.deliveries ++ [delivery] }
  | .cancelPending automationId =>
    some { s with
      deliveries := s.deliveries.map fun delivery =>
        if delivery.automationId = automationId ∧ delivery.status = .pending then
          { delivery with status := .canceled, outcomeCode := some "user_canceled" }
        else delivery }
  | .admitNext env => s.admitNext revisions env
  | .progress id progress => do
    let run ← s.runs[id]?
    let run ← run.progress owner progress
    return { s with runs := s.runs.set id run }

/-! ### An example -/

/-- A rule about arrivals that writes to a conversation. -/
def exampleDefinition : Definition :=
  { eventType := .placeArrived
    budId := "bud"
    target := .existingThread "thread"
    dataAccess := { scopes := [], historyDays := 0 }
    maxInvocationsPerDay := 50 }

/-- Everything is in order, and events happen in the order of their deliveries. -/
def exampleEnv : Env :=
  { now := 100
    rule := fun _ => some .enabled
    grant := none
    ownsBud := fun _ => true
    ownsThread := fun _ _ => true
    namingPending := fun _ => false
    trigger := fun id => .ok id
    toldAt := fun id => some id
    bootstrapUsage := fun _ => (0, 0)
    resolve := fun _ => .ok { model := "model", reasoningEffort := "low" }
    newThreadId := "new"
    pick := 0 }

def exampleDelivery (id : ℕ) : Delivery :=
  { id
    automationId := "arrivals"
    revision := 1
    status := .pending
    outcomeCode := none
    latestStartAt := 200
    nextAttemptAt := 50 }

end Bud.Admission
