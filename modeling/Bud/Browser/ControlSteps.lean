import Bud.Browser.CommandAdmission
import Bud.Lib.Runs

/-!
# The transactions in any order

Viewers, agents, the sweeps and the answers of the daemon run the transactions at any time and any
number of times. Each is one step here, and it either commits, which is an `Event`, or is rolled
back. A call that waits for the daemon holds what it has been given (`Sent`), for any length of
time; an acknowledgement is only made with something that is held, and never without the daemon's
answer to it, of which nothing else is assumed.

## Modelling notes

`failControl` only pauses, so it may be called with any row. `pauseAfterFailure` is a read and such
a call. The tables that others write too may be replaced by any others (`Act.outside`), Buds may be
added, and nothing but these transactions writes a resource.
-/

namespace Bud.BrowserControl

open Transaction

/-- What a call has sent to the daemon, or is about to: the row its acknowledgement is for. -/
inductive Sent where
  | ending (resource : Resource)
  | ensuring (resource : Resource) (workspace : Session)
  | lifecycle (resource : Resource)
  deriving DecidableEq

inductive ViewerRequest where
  | pause
  | acquire
  | page (action : String)

def ViewerRequest.command : ViewerRequest → ViewerCommand
  | .pause => .control .pause
  | .acquire => .control .acquire
  | .page action => .page action

def ViewerRequest.nextState : ViewerRequest → ControlState
  | .pause => .paused
  | .acquire => .humanPrivate
  | .page _ => .humanPrivate

/-- What has been committed. -/
inductive Event where
  | done
  | viewer (request : ViewerRequest) (session : BrowserSession) (command : BrowserCommand)
  | ending (prepared : PreparedEnd)
  | ensuring (prepared : PreparedEnsure)
  | pending (rows : List Resource)
  | lifecycle (operation : LifecycleOperation) (resource : Resource)
  | acknowledged (sent : Sent) (resource : Resource)
  | recovered
  | agent (prepared : Prepared)

def Event.sent : Event → List Sent
  | .ending prepared => [.ending prepared.resource]
  | .ensuring prepared => [.ensuring prepared.resource prepared.session.workspace]
  | .pending rows => rows.map .lifecycle
  | _ => []

inductive Act where
  | ensure (owner bud id : String)
  | claimBud (bud : String) (owner : Option String) (deviceSecret : String)
  | viewer (request : ViewerRequest) (owner id boot : String) (expectedRevision : ℕ)
      (requestId generation : String) (serviceNow : ℕ)
  | grantOverride (owner : String) (initial : BrowserSession) (revision : ℕ)
      (override viewer carrier : String) (expires serviceNow : ℕ)
  | renewOverride (owner id override viewer carrier : String)
  | endOverride (owner : String) (initial : BrowserSession) (override reason : String)
  | prepareEnd (candidate : BrowserSession) (boot requestId : String) (serviceNow : ℕ)
  | prepareEnsure (owner id boot : String) (explicitUrl : Bool) (generation requestId : String)
      (serviceNow : ℕ)
  | ensured (owner : String) (session : Session)
  | pendingLifecycle (ids : List String)
  | acknowledge (sent : Sent)
  | failControl (expected : Resource)
  | recover
  | requestLifecycle (owner bud : String) (revision : ℕ) (operation : LifecycleOperation)
      (confirmedReset : Bool) (requestId : String)
  | requestClose (owner id : String) (revision : ℕ)
  | prepare (context : AgentContext) (bootId : String) (command : AgentCommand)
      (ensureOnly : EnsureOnly) (codeHash : String) (generated : Generated)
  | tick (milliseconds : ℕ)
  | outside (tables : Tables)
  | register (bud : BudRow)

def acknowledge : Sent → InTransaction Resource
  | .ending resource => acknowledgeReturn resource
  | .ensuring resource workspace => acknowledgeRecovery resource workspace
  | .lifecycle resource => acknowledgeLifecycle resource

def perform : Act → InTransaction Event
  | .ensure owner bud id => do
    let _ ← ensure owner bud id
    return .done
  | .claimBud bud owner deviceSecret => do
    claimBud bud owner deviceSecret
    return .done
  | .viewer request owner id boot expectedRevision requestId generation serviceNow => do
    let (session, command) ← BrowserControlRepository.prepare owner id boot expectedRevision
      requestId request.command request.nextState generation serviceNow
    return .viewer request session command
  | .grantOverride owner initial revision override viewer carrier expires serviceNow => do
    grantOverride owner initial revision override viewer carrier expires serviceNow
    return .done
  | .renewOverride owner id override viewer carrier => do
    renewOverride owner id override viewer carrier
    return .done
  | .endOverride owner initial override reason => do
    let _ ← endOverride owner initial override reason
    return .done
  | .prepareEnd candidate boot requestId serviceNow =>
    return .ending (← prepareEnd candidate boot requestId serviceNow)
  | .prepareEnsure owner id boot explicitUrl generation requestId serviceNow =>
    return .ensuring
      (← prepareEnsure owner id boot explicitUrl generation requestId serviceNow)
  | .ensured owner session => do
    ensured owner session
    return .done
  | .pendingLifecycle ids => do
    let s ← get
    return .pending (s.pendingLifecycle ids)
  | .acknowledge sent => return .acknowledged sent (← acknowledge sent)
  | .failControl expected => do
    let _ ← failControl expected
    return .done
  | .recover => do
    recover
    return .recovered
  | .requestLifecycle owner bud revision operation confirmedReset requestId =>
    return .lifecycle operation
      (← requestLifecycle owner bud revision operation confirmedReset requestId)
  | .requestClose owner id revision => do
    let _ ← requestClose owner id revision
    return .done
  | .prepare context bootId command ensureOnly codeHash generated =>
    return .agent
      (← BrowserRepository.prepare context bootId command ensureOnly codeHash generated)
  | .tick milliseconds => do
    modify fun s => { s with now := s.now + milliseconds }
    return .done
  | .outside tables => do
    setTables fun _ => tables
    return .done
  | .register bud => do
    modify fun s => { s with buds := s.buds ++ [bud] }
    return .done

/-- The database, and what the calls that are under way hold. -/
structure Sys where
  store : Store
  sent : List Sent

/-- Only what is held is acknowledged. -/
def Sys.enabled (s : Sys) : Act → Bool
  | .acknowledge sent => sent ∈ s.sent
  | _ => true

/-- The transaction, if it is not rolled back. -/
def commit (s : Sys) (act : Act) : Option (Event × Store) :=
  if s.enabled act then
    match (perform act).run s.store with
    | .ok (event, store) => if store.consistent then some (event, store) else none
    | .error _ => none
  else none

def step (s : Sys) (act : Act) : Option Sys :=
  match commit s act with
  | some (event, store) => some ⟨store, s.sent ++ event.sent⟩
  | none => some s

/-- No browser has been made yet. -/
def Sys.fresh (s : Sys) : Bool :=
  s.store.resources.rows.isEmpty && s.store.tables.sessions.all (·.browserId.isNone) &&
    s.sent.isEmpty

/-! ### Takeovers -/

/-- A pause, an acquire, an end, a stop or a reset of the resource is asked for, or the service
recovers it from where it was not the agent's. -/
inductive Advances (s : Store) : Event → String → Prop where
  | pause {session command id} (hid : session.workspace.browserId = some id) :
      Advances s (.viewer .pause session command) id
  | acquire {session command id} (hid : session.workspace.browserId = some id) :
      Advances s (.viewer .acquire session command) id
  | endControl (prepared) : Advances s (.ending prepared) prepared.resource.id
  | lifecycle (operation r) : Advances s (.lifecycle operation r) r.id
  | recover {r} (hr : s.resources.get? r.id = some r) (h : r.recoverable = true) :
      Advances s .recovered r.id

/-! ### What can happen to a row -/

/-- A transaction that commits `e` does this to a row, or nothing. -/
inductive Write (s : Store) (e : Event) (r : Resource) : Resource → Prop where
  | keep (h : ¬Advances s e r.id) : Write s e r r
  | retire (now : ℕ) (h : ¬Advances s e r.id) : Write s e r (r.write (·.retire now))
  | control (request : ViewerRequest) (operation : ControlOperation) (sessionId requestId : String)
      {session command} (he : e = .viewer request session command)
      (hop : request.command = .control operation) (hopen : r.desiredState = .opened) :
      Write s e r (r.write (·.control request.nextState sessionId requestId operation))
  | prepareEnd (requestId : String) {prepared} (he : e = .ending prepared)
      (hopen : r.desiredState = .opened) : Write s e r (r.write (·.prepareEnd requestId))
  | grantOverride (override viewer carrier : String) (expires : ℕ) (h : ¬Advances s e r.id) :
      Write s e r (r.write (·.grantOverride override viewer carrier expires))
  | renewOverride (expires : ℕ) (h : ¬Advances s e r.id) :
      Write s e r (r.write (·.renewOverride expires))
  | endOverride (reason : String) (h : ¬Advances s e r.id) :
      Write s e r (r.write (·.endOverride reason))
  | returned {expected acknowledged} (he : e = .acknowledged (.ending expected) acknowledged)
      (hid : r.id = expected.id) (hrevision : r.revision = expected.revision) :
      Write s e r (r.write (·.release false))
  | replaced {expected workspace acknowledged}
      (he : e = .acknowledged (.ensuring expected workspace) acknowledged)
      (hid : r.id = expected.id) (hrevision : r.revision = expected.revision) :
      Write s e r (r.write (·.release true))
  | acknowledgeLifecycle {expected acknowledged}
      (he : e = .acknowledged (.lifecycle expected) acknowledged) (hid : r.id = expected.id)
      (hrequest : r.lifecycleRequestId = expected.lifecycleRequestId)
      (hpending : r.desiredState ∈ lifecyclePending) :
      Write s e r (r.write (·.acknowledgeLifecycle (r.desiredState = .resetPending)))
  | fail (h : ¬Advances s e r.id) : Write s e r (r.write Columns.fail)
  | recover (he : e = .recovered) (h : r.recoverable = true) :
      Write s e r (r.write Columns.recover)
  | requestLifecycle (operation : LifecycleOperation) (requestId owner : String)
      (he : e = .lifecycle operation (r.write (·.requestLifecycle operation requestId owner))) :
      Write s e r (r.write (·.requestLifecycle operation requestId owner))
  | reopen {prepared} (he : e = .agent prepared) : Write s e r (r.write Columns.reopen)

/-- What a transaction does to the table: rows are written and inserted, never deleted. -/
structure Moves (s : Store) (e : Event) (t : Store) : Prop where
  found : ∀ {id}, Advances s e id → ∃ r, s.resources.get? id = some r
  row : ∀ {r}, s.resources.get? r.id = some r →
    ∃ r', t.resources.get? r.id = some r' ∧ Write s e r r'
  inserted : ∀ {id r'}, s.resources.get? id = none → t.resources.get? id = some r' →
    r' = .new r'.toIdentity

end Bud.BrowserControl
