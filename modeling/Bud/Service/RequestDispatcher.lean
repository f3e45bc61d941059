import Bud.Lib.Runs
import Bud.Wire.TerminalSend
import Mathlib.Data.Rat.Floor

/-!
# Terminal requests

`request-dispatcher.ts`: observe and send requests to a daemon. A request is sent, and its promise
is kept in a map under the request's id, with a timer; it is settled by the result with that id, by
the timer, or by a rejection of all the pending requests of a session. A send may bring such a
rejection with it, for every request but itself.

## Modelling notes

The two kinds of requests are handled alike, on maps of their own: `Requests` is one kind. The state
object of a request is shared by its pending entry and its entry among the recent states, so the
objects are kept apart (`states`), and the maps are their keys, in the order of insertion. `settled`
are the calls of `resolve` and `reject`, `timers` the timers that are neither fired nor cleared.

A handler runs to its end without an await once the session has been looked up, so each is one step;
the clock and the offsets it reads are its `Env`. `found`, `sent` and `requestId` of a call are what
`getSession`, `sendFrameToBud` and `ulid` returned. A number that is not finite is one that is
missing. Logging, and of a frame the envelope, are left out.
-/

namespace Bud.RequestDispatcher

open JsText TerminalSend

abbrev Id := List UInt16

/-- What a handler reads from outside. -/
structure Env where
  now : ℕ
  lastOffset : Id → ℕ

/-- `resolve` or `reject`, with an error's message. -/
abbrev Settlement (R : Type) := Except (List UInt16) R

/-! ### The state of a request -/

/-- `ObserveDebugState` and `SendDebugState`; `details` is what they do not share. -/
structure DebugState (K : Type) where
  sessionId : Id
  requestId : Id
  timeoutMs : ℕ
  startedAt : ℕ
  deadlineAt : ℕ
  startOffset : ℕ
  latestOffset : ℕ
  outputSeen : Bool
  outputEventCount : ℕ
  timedOutAt : Option ℕ
  details : K

def DebugState.new {K : Type} (env : Env) (sessionId requestId : Id) (timeoutMs : ℕ) (details : K) :
    DebugState K :=
  { sessionId := sessionId
    requestId := requestId
    timeoutMs := timeoutMs
    startedAt := env.now
    deadlineAt := env.now + timeoutMs
    startOffset := env.lastOffset sessionId
    latestOffset := env.lastOffset sessionId
    outputSeen := false
    outputEventCount := 0
    timedOutAt := none
    details := details }

def DebugState.noteOutput {K : Type} (state : DebugState K) (endOffset : ℕ) : DebugState K :=
  { state with
    outputSeen := true
    outputEventCount := state.outputEventCount + 1
    latestOffset := max state.latestOffset endOffset }

/-! ### Requests of one kind -/

structure Requests (K R : Type) where
  states : Id → Option (DebugState K)
  pending : List Id
  recent : List Id
  timers : List Id
  settled : List (Id × Settlement R)

def setKey (id : Id) (keys : List Id) : List Id := if id ∈ keys then keys else keys ++ [id]

/-- `Map.prototype.delete`. -/
def deleteKey (id : Id) (keys : List Id) : List Id := keys.filter fun key => decide (key ≠ id)

namespace Requests

variable {K R : Type}

def empty : Requests K R :=
  { states := fun _ => none, pending := [], recent := [], timers := [], settled := [] }

def setState (r : Requests K R) (id : Id) (state : DebugState K) : Requests K R :=
  { r with states := Function.update r.states id (some state) }

/-- How long a recent state is kept. -/
def retentionMs : ℕ := 5 * 60 * 1000

/-- `pruneRecentObserveStates`, `pruneRecentSendStates`. -/
def pruneRecent (r : Requests K R) (now : ℕ) : Requests K R :=
  { r with recent := r.recent.filter fun id =>
      decide (id ∈ r.pending) || (r.states id).any fun state =>
        decide (now ≤ state.timedOutAt.getD state.startedAt + retentionMs) }

/-- A request that has been sent: its state is a recent one, its timer is set, and it is pending. -/
def register (r : Requests K R) (now : ℕ) (state : DebugState K) : Requests K R :=
  let r := (r.pruneRecent now).setState state.requestId state
  { r with
    recent := setKey state.requestId r.recent
    timers := r.timers ++ [state.requestId]
    pending := setKey state.requestId r.pending }

/-- A pending request is settled, its timer is cleared, and both maps forget it. -/
def settle (r : Requests K R) (id : Id) (settlement : Settlement R) : Requests K R :=
  { r with
    timers := deleteKey id r.timers
    pending := deleteKey id r.pending
    recent := deleteKey id r.recent
    settled := r.settled ++ [(id, settlement)] }

/-- A result comes: for a pending request, late, or orphaned. -/
def receive (r : Requests K R) (id : Id) (settlement : Settlement R) : Requests K R :=
  if id ∈ r.pending then r.settle id settlement
  else if id ∈ r.recent ∧ (r.states id).any (fun state => state.timedOutAt.any (0 < ·)) then
    { r with recent := deleteKey id r.recent }
  else r

def expire (r : Requests K R) (env : Env) (id : Id) (error : List UInt16) : Requests K R :=
  let r := { r with timers := deleteKey id r.timers }
  match r.states id with
  | some state =>
    if id ∈ r.pending then
      let r := r.setState id { state with
        timedOutAt := some env.now
        latestOffset := env.lastOffset state.sessionId }
      { r with pending := deleteKey id r.pending, settled := r.settled ++ [(id, .error error)] }
    else r
  | none => r

/-- The body of the loops of `rejectPendingRequestsForSession`, with the number of rejections. -/
def rejectOne (env : Env) (sessionId : Id) (error : List UInt16) (exceptRequestId : Option Id)
    (r : Requests K R × ℕ) (id : Id) : Requests K R × ℕ :=
  match r.1.states id with
  | some state =>
    if some id = exceptRequestId then r
    else if state.sessionId ≠ sessionId then r
    else
      ((r.1.settle id (.error error)).setState id
        { state with latestOffset := env.lastOffset state.sessionId }, r.2 + 1)
  | none => r

def rejectSession (r : Requests K R) (env : Env) (sessionId : Id) (error : List UInt16)
    (exceptRequestId : Option Id) : Requests K R × ℕ :=
  r.pending.foldl (rejectOne env sessionId error exceptRequestId) (r, 0)

/-- `noteOutputObserved`, for the requests of one kind. -/
def noteOutput (r : Requests K R) (sessionId : Id) (endOffset : ℕ) : Requests K R :=
  { r with states := fun id => (r.states id).map fun state =>
      if id ∈ r.pending ∧ state.sessionId = sessionId then state.noteOutput endOffset else state }

end Requests

/-! ### The two kinds -/

inductive View where
  | delta | screen | history

inductive TerminalMode where
  | shell | tui | repl | unknown

inductive Integration where
  | osc133 | sentinel | none

structure ObserveDetails where
  view : View
  lines : ℤ

structure SendDetails where
  await : Option Await
  hasText : Bool
  submit : Bool
  hasKey : Bool

structure ObserveOptions where
  lines : Option ℤ
  view : Option View
  await : Option Await
  quietMs : Option ℚ

/-- `O` is the outcome of an awaited request, `{ event, data }`. -/
structure ObserveResponsePayload (O : Type) where
  requestId : Id
  view : View
  /-- Base64, as `outputAnsi` is. -/
  output : List UInt16
  linesCaptured : ℕ
  changed : Option Bool
  mode : Option TerminalMode
  integration : Option Integration
  altScreen : Option Bool
  cursorRow : Option ℕ
  cursorCol : Option ℕ
  ringNextOffset : Option ℕ
  outputAnsi : Option (List UInt16)
  outcome : Option O
  error : Option (List UInt16)

structure ObserveResult (O : Type) where
  view : View
  output : List UInt16
  linesCaptured : ℕ
  changed : Option Bool
  mode : Option TerminalMode
  integration : Option Integration
  altScreen : Option Bool
  cursorRow : Option ℕ
  cursorCol : Option ℕ
  ringNextOffset : Option ℕ
  outputAnsi : Option (List UInt16)
  outcome : Option O

structure SendResultPayload (O : Type) where
  requestId : Id
  dispatched : Bool
  outcome : Option O
  resolvedAwait : Option Await
  gatedMs : Option ℕ
  programReady : Option Bool
  error : Option (List UInt16)

structure SendResult (O : Type) where
  dispatched : Bool
  outcome : Option O
  resolvedAwait : Option Await
  gatedMs : Option ℕ
  programReady : Option Bool

/-- `if (payload.error)`: an empty message counts as none. -/
def truthy (text : Option (List UInt16)) : Option (List UInt16) :=
  text.filter fun units => decide (units ≠ [])

/-- What a result makes of its request; `decodeBase64` is `Buffer.from(value, "base64")` as UTF-8
text. -/
def ObserveResponsePayload.settlement {O : Type} (decodeBase64 : List UInt16 → List UInt16)
    (payload : ObserveResponsePayload O) : Settlement (ObserveResult O) :=
  match truthy payload.error with
  | some error => .error error
  | none =>
    .ok
      { view := payload.view
        output := decodeBase64 payload.output
        linesCaptured := payload.linesCaptured
        changed := payload.changed
        mode := payload.mode
        integration := payload.integration
        altScreen := payload.altScreen
        cursorRow := payload.cursorRow
        cursorCol := payload.cursorCol
        ringNextOffset := payload.ringNextOffset
        outputAnsi := payload.outputAnsi.map decodeBase64
        outcome := payload.outcome }

def SendResultPayload.settlement {O : Type} (payload : SendResultPayload O) :
    Settlement (SendResult O) :=
  match truthy payload.error with
  | some error => .error error
  | none =>
    .ok
      { dispatched := payload.dispatched
        outcome := payload.outcome
        resolvedAwait := payload.resolvedAwait
        gatedMs := payload.gatedMs
        programReady := payload.programReady }

/-! ### The dispatcher -/

structure ObservePayload where
  sessionId : Id
  requestId : Id
  view : View
  lines : ℤ
  await : Option Await
  quietMs : Option ℕ

inductive Frame where
  | observe (payload : ObservePayload)
  | send (payload : Payload)

structure Dispatcher (O : Type) where
  observes : Requests ObserveDetails (ObserveResult O)
  sends : Requests SendDetails (SendResult O)
  frames : List (Id × Frame)

def init {O : Type} : Dispatcher O := { observes := .empty, sends := .empty, frames := [] }

def terminalAwaitedSendTimeoutMs : ℕ := 2 * 60 * 1000

def terminalDefaultRequestTimeoutMs : ℕ := 30 * 1000

def terminalWaitTimeoutMs : ℕ := 30 * 60 * 1000

/-- A number that is given, finite and positive, rounded down. -/
def positiveFloor (value : Option ℚ) : Option ℕ :=
  (value.filter fun x => decide (0 < x)).map fun x => ⌊x⌋.toNat

def resolveTerminalSendTimeout (await : Option Await) (requestedTimeoutMs : Option ℚ) : ℕ :=
  (positiveFloor requestedTimeoutMs).getD
    (if await.isSome then terminalAwaitedSendTimeoutMs else terminalDefaultRequestTimeoutMs)

structure ObserveCall where
  sessionId : Ident
  options : ObserveOptions
  requestedTimeoutMs : Option ℚ
  /-- The Bud of the session, if the session is found. -/
  found : Option Id
  requestId : Ident
  sent : Bool
  env : Env

structure SendCall where
  sessionId : Ident
  interaction : Interaction
  timeoutMs : Option ℚ
  rejectPendingRequestsWith : Option (List UInt16)
  /-- The callback is given the number of rejections, and may throw. -/
  onPendingRequestsRejected : ℕ → Except (List UInt16) Unit
  found : Option Id
  requestId : Ident
  sent : Bool
  env : Env

section

variable {O : Type}

def observeTerminal (d : Dispatcher O) (call : ObserveCall) : Except String (Dispatcher O) :=
  match call.found with
  | none => .error "session_not_found"
  | some budId =>
    let view := call.options.view.getD .screen
    let lines := call.options.lines.getD (-50)
    let timeoutMs := (positiveFloor call.requestedTimeoutMs).getD
      (if call.options.await.isSome then terminalWaitTimeoutMs else terminalDefaultRequestTimeoutMs)
    let payload : ObservePayload :=
      { sessionId := call.sessionId.units
        requestId := call.requestId.units
        view := view
        lines := lines
        await := call.options.await
        quietMs :=
          if call.options.await = some .settled then positiveFloor call.options.quietMs else none }
    if !call.sent then .error "bud_offline"
    else
      .ok { d with
        frames := d.frames ++ [(budId, .observe payload)]
        observes := d.observes.register call.env.now
          (.new call.env call.sessionId.units call.requestId.units timeoutMs ⟨view, lines⟩) }

/-- Both maps, the observes first. -/
def rejectPendingRequestsForSession (d : Dispatcher O) (env : Env) (sessionId : Id)
    (error : List UInt16) (exceptRequestId : Option Id) : Dispatcher O × ℕ :=
  let (observes, rejectedObserves) := d.observes.rejectSession env sessionId error exceptRequestId
  let (sends, rejectedSends) := d.sends.rejectSession env sessionId error exceptRequestId
  ({ d with observes := observes, sends := sends }, rejectedObserves + rejectedSends)

def rejectPendingRequestsForSessions (d : Dispatcher O) (env : Env) (sessionIds : List Id)
    (error : List UInt16) : Dispatcher O × ℕ :=
  sessionIds.foldl (fun acc sessionId =>
    let (d, rejected) := rejectPendingRequestsForSession acc.1 env sessionId error none
    (d, acc.2 + rejected)) (d, 0)

def sendInteraction (caseMap : CaseMap) (d : Dispatcher O) (call : SendCall) :
    Except String (Dispatcher O) :=
  match call.found with
  | none => .error "session_not_found"
  | some budId =>
    match TerminalSend.sendInteraction caseMap call.sessionId call.requestId call.interaction with
    | .error error => .error error
    | .ok payload =>
      if !call.sent then .error "bud_offline"
      else
        let d := { d with
          frames := d.frames ++ [(budId, .send payload)]
          sends := d.sends.register call.env.now
            (.new call.env call.sessionId.units call.requestId.units
              (resolveTerminalSendTimeout call.interaction.await call.timeoutMs)
              { await := call.interaction.await
                hasText := call.interaction.text.isSome
                submit := decide (call.interaction.submit = some true)
                hasKey := (call.interaction.normalizedKey caseMap).isSome }) }
        match truthy call.rejectPendingRequestsWith with
        | none => .ok d
        | some error =>
          let (d, rejected) := rejectPendingRequestsForSession d call.env call.sessionId.units error
            (some call.requestId.units)
          match call.onPendingRequestsRejected rejected with
          | .ok () => .ok d
          | .error thrown =>
            -- what the executor of a promise throws rejects the promise
            .ok { d with sends := { d.sends with
              settled := d.sends.settled ++ [(call.requestId.units, .error thrown)] } }

def handleObserveResult (decodeBase64 : List UInt16 → List UInt16) (d : Dispatcher O)
    (payload : ObserveResponsePayload O) : Dispatcher O :=
  { d with observes := d.observes.receive payload.requestId (payload.settlement decodeBase64) }

def handleSendResult (d : Dispatcher O) (payload : SendResultPayload O) : Dispatcher O :=
  { d with sends := d.sends.receive payload.requestId payload.settlement }

def noteOutputObserved (d : Dispatcher O) (sessionId : Id) (endOffset : ℕ) : Dispatcher O :=
  { d with
    observes := d.observes.noteOutput sessionId endOffset
    sends := d.sends.noteOutput sessionId endOffset }

inductive Act (O : Type) where
  | observe (call : ObserveCall)
  | send (call : SendCall)
  | observeResult (payload : ObserveResponsePayload O)
  | sendResult (payload : SendResultPayload O)
  | observeTimeout (requestId : Id) (env : Env)
  | sendTimeout (requestId : Id) (env : Env)
  | rejectSession (sessionId : Id) (error : List UInt16) (env : Env)
  | rejectSessions (sessionIds : List Id) (error : List UInt16) (env : Env)
  | output (sessionId : Id) (endOffset : ℕ)

/-- A call that throws leaves the dispatcher as it is. A timer fires only while it is set. -/
def step (caseMap : CaseMap) (decodeBase64 : List UInt16 → List UInt16) (d : Dispatcher O) :
    Act O → Option (Dispatcher O)
  | .observe call => some ((observeTerminal d call).toOption.getD d)
  | .send call => some ((sendInteraction caseMap d call).toOption.getD d)
  | .observeResult payload => some (handleObserveResult decodeBase64 d payload)
  | .sendResult payload => some (handleSendResult d payload)
  | .observeTimeout requestId env =>
    if requestId ∈ d.observes.timers then
      some { d with observes := d.observes.expire env requestId (lit "observe_timeout") }
    else none
  | .sendTimeout requestId env =>
    if requestId ∈ d.sends.timers then
      some { d with sends := d.sends.expire env requestId (lit "send_timeout") }
    else none
  | .rejectSession sessionId error env =>
    some (rejectPendingRequestsForSession d env sessionId error none).1
  | .rejectSessions sessionIds error env =>
    some (rejectPendingRequestsForSessions d env sessionIds error).1
  | .output sessionId endOffset => some (noteOutputObserved d sessionId endOffset)

end

end Bud.RequestDispatcher
