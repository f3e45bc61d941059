import Bud.Lib.Runs
import Bud.Proxy.RowTasks

/-!
# The edge of a proxied HTTP request

The handler of `proxy-edge.ts` from its first row on, with the `ProxyRuntimeStream` it waits for and
the frames and losses of the carrier that the data-plane router hands to it. The handler inserts the
rows, registers the stream, asks the daemon to open it, sends the request's body, waits for the open
result, records it and answers; the response's body follows in `stream_data` frames.

## Modelling notes

The handler's own awaits are its `phase`. Where it gives up, all that is left of it is a task on the
desk, as are the updates of everything it does not wait for. The database is available, and so its
awaits do not reject.

`registered` is whether `cleanup` has yet to take the stream out of its maps: the router and
`handleProxyOpenResult` find the stream for as long. Frames of one stream are dispatched one at a
time; here they interleave freely, which only adds runs. Of a chunk only its length matters.

A request that is denied for the limit on streams has no rows.
-/

namespace Bud.Proxy

namespace HttpEdge

/-! ### Data -/

structure OpenResult where
  accepted : Bool
  statusCode : Option ℕ
  deriving DecidableEq

/-- The `Promise` of `waitForOpen`. -/
inductive OpenPromise where
  | pending
  | resolved (result : OpenResult)
  | rejected
  deriving DecidableEq

inductive Phase where
  /-- The awaits left before the stream is registered. -/
  | creating (awaits : ℕ)
  | sendingBody
  | waiting (promise : OpenPromise)
  /-- The updates left that record the opening. -/
  | recording (updates : List Update) (statusCode : ℕ)
  /-- The handler has returned the response's body. -/
  | responding
  | answered
  | ended
  deriving DecidableEq

structure Exchange where
  phase : Phase
  isHead : Bool
  hasBody : Bool
  registered : Bool
  completed : Bool
  responseCompleted : Bool
  openResult : Option OpenResult
  receivedBytes : ℕ
  idleTimer : Bool
  ttlTimer : Bool
  /-- The calls of `resetFromServiceLimit` that have not come to `handleReset`. -/
  limits : ℕ
  /-- The chunks that wait for the response to drain, and which of them is the last. -/
  writes : List Bool
  /-- The last chunks that have been consumed while their credit is still being sent. -/
  ends : ℕ
  /-- The loop that resets the streams of a lost carrier has yet to come to this one. -/
  finalizing : Bool
  /-- `remoteClosed` or `resetReason`. -/
  closedRemotely : Bool
  desk : Desk

/-- `createOperation`, `createStream`, the update of the site or session and the audit are yet to
come. -/
def init (isHead hasBody : Bool) : Exchange :=
  { phase := .creating 4
    isHead := isHead
    hasBody := hasBody
    registered := false
    completed := false
    responseCompleted := false
    openResult := none
    receivedBytes := 0
    idleTimer := false
    ttlTimer := false
    limits := 0
    writes := []
    ends := 0
    finalizing := false
    closedRemotely := false
    desk := ⟨⟨.offered, .opening⟩, []⟩ }

def Exchange.start (s : Exchange) (task : List Update) : Exchange :=
  { s with desk := s.desk.start task }

/-! ### The runtime stream -/

def cleanup (s : Exchange) : Exchange :=
  { s with
    registered := false
    idleTimer := false
    ttlTimer := false }

def rejectOpen (s : Exchange) : Exchange :=
  match s.phase with
  | .waiting .pending => { s with phase := .waiting .rejected }
  | _ => s

def waitForOpen (s : Exchange) : Exchange :=
  match s.openResult with
  | some result => { s with phase := .waiting (.resolved result) }
  | none =>
    if s.completed then { s with phase := .waiting .rejected }
    else { s with phase := .waiting .pending }

def handleOpenResult (s : Exchange) (frame : OpenResult) : Exchange :=
  if s.completed then s
  else
    match s.phase with
    | .waiting .pending =>
      { s with
        openResult := some frame
        phase := .waiting (.resolved frame) }
    | _ => { s with openResult := some frame }

def handleReset (s : Exchange) : Exchange :=
  if s.completed then s else cleanup (rejectOpen { s with completed := true })

def handleClose (s : Exchange) : Exchange :=
  if s.completed then s else cleanup { s with completed := true }

/-! ### The tasks -/

def resetStream : Update := .stream liveStreamStates .reset

/-- Asked for by `resetFromServiceLimit`, `onData` and a body that cannot be sent. -/
def failOffered : Update := .operation [.offered, .accepted, .running] .failed

def failAccepted : Update := .operation [.accepted, .running] .failed

/-- `onReset`, with the transition the router makes after it. -/
def resetTask (canceled : Bool) : List Update :=
  if canceled then [.operation [.offered, .accepted, .running] .canceled, resetStream]
  else [reject, failAccepted, resetStream]

/-- `onClose`. -/
def succeed : List Update :=
  [.operation [.offered] .accepted, .operation [.accepted] .running,
    .operation [.running] .succeeded]

/-- The transitions the router makes for a `stream_close` frame. -/
def closeStream : List Update :=
  [.stream [.opening] .opened, .stream [.opened, .halfClosedLocal, .halfClosedRemote] .closed]

/-- The handler gives up before the daemon has opened the stream. -/
def giveUpTask : List Update := [resetOpening, reject]

/-! ### The edge -/

/-- A timer has fired, and `resetFromServiceLimit` is called. -/
def onLimit (s : Exchange) : Exchange :=
  if s.completed || s.responseCompleted then s else { s with limits := s.limits + 1 }

/-- `resetFromServiceLimit` once it comes to `handleReset`. -/
def resetFromServiceLimit (s : Exchange) : Exchange :=
  (handleReset s).start [resetStream, failOffered]

def onClientClosed (s : Exchange) : Exchange :=
  if s.completed || s.responseCompleted then s
  else
    ((handleReset s).start [resetStream]).start
      [.operation [.offered, .accepted, .running] .canceled]

def onReset (s : Exchange) (canceled : Bool) : Exchange :=
  (handleReset { s with closedRemotely := true }).start (resetTask canceled)

/-- `onClose` for a `stream_close` frame. -/
def onClose (s : Exchange) : Exchange :=
  (handleClose { s with closedRemotely := true }).start (succeed ++ closeStream)

/-- `onClose` after the last chunk: the router asks for no transition of the stream. -/
def onEndStream (s : Exchange) : Exchange :=
  (handleClose { s with closedRemotely := true }).start succeed

/-- `onData` has thrown, and the router may or may not get its `stream_reset` sent. -/
def consumerFailed (s : Exchange) (resetSent : Bool) : Exchange :=
  s.start (failOffered :: if resetSent then [resetStream] else [])

def consumed (s : Exchange) (endStream : Bool) : Exchange :=
  { s with
    idleTimer := true
    ends := if endStream then s.ends + 1 else s.ends }

def onData (maxReceivedBytes : ℕ) (s : Exchange) (byteLength : ℕ)
    (flushed endStream resetSent : Bool) : Exchange :=
  let s := { s with idleTimer := true }
  if s.completed then consumerFailed s resetSent
  else if byteLength = 0 then consumed s endStream
  else if maxReceivedBytes < s.receivedBytes + byteLength then
    consumerFailed (cleanup (rejectOpen { s with completed := true })) resetSent
  else
    let s := { s with receivedBytes := s.receivedBytes + byteLength }
    if flushed then consumed s endStream else { s with writes := s.writes ++ [endStream] }

def giveUp (s : Exchange) (task : List Update) : Exchange :=
  { (cleanup s).start task with phase := .ended }

/-- From the last await before the stream is registered to the next. -/
def attach (s : Exchange) (sent : Bool) : Exchange :=
  let s :=
    { s with
      registered := true
      idleTimer := true
      ttlTimer := true }
  if !sent then giveUp s giveUpTask
  else if s.hasBody then { s with phase := .sendingBody }
  else waitForOpen s

def recordOpen : List Update :=
  [.operation [.offered] .accepted, .operation [.accepted] .running, .stream [.opening] .opened]

def afterOpen (s : Exchange) (result : OpenPromise) : Exchange :=
  match result with
  | .pending => s
  | .rejected => giveUp s giveUpTask
  | .resolved result =>
    if !result.accepted then giveUp s giveUpTask
    else
      match result.statusCode with
      | none => giveUp s [resetStream, reject, failAccepted]
      | some statusCode => { s with phase := .recording recordOpen statusCode }

def respond (s : Exchange) (statusCode : ℕ) : Exchange :=
  if s.isHead || statusCode = 204 || statusCode = 304 then
    { s with
      responseCompleted := true
      phase := .answered }
  else { s with phase := .responding }

def recorded (s : Exchange) (u : Update) (updates : List Update) (statusCode : ℕ) : Exchange :=
  let s := { s with desk := s.desk.update u }
  if updates.isEmpty then respond s statusCode
  else { s with phase := .recording updates statusCode }

/-! ### Steps -/

inductive Act where
  /-- The next await before the stream is registered is over. -/
  | created
  /-- The last of them is, and `proxy_open` is sent or not. -/
  | attached (sent : Bool)
  | bodySent
  | bodyFailed
  | openTimeout
  /-- The handler goes on after `waitForOpen`. -/
  | resumed
  | recorded
  | openResult (frame : OpenResult)
  | data (byteLength : ℕ) (flushed endStream resetSent : Bool)
  | drained (k : ℕ)
  /-- Write `k` finds the response's body destroyed. -/
  | writeFailed (k : ℕ) (resetSent : Bool)
  | credited (sent : Bool)
  | streamReset (canceled : Bool)
  | streamClose (offsetMatches : Bool)
  | carrierLost
  /-- The loop over the streams of the carrier comes to this one. -/
  | carrierReset
  | clientClosed
  | bodyEnd
  /-- The timer for the idle time or for the time to live fires. -/
  | limit (ttl : Bool)
  | limitReset
  | task (k : ℕ)
  | markOperationUnknown
  | markStreamUnknown

/-- One step; `none` is an action that cannot happen. -/
def step (maxReceivedBytes : ℕ) (s : Exchange) : Act → Option Exchange
  | .created =>
    match s.phase with
    | .creating (awaits + 2) => some { s with phase := .creating (awaits + 1) }
    | _ => none
  | .attached sent => if s.phase = .creating 1 then some (attach s sent) else none
  | .bodySent => if s.phase = .sendingBody then some (waitForOpen s) else none
  | .bodyFailed =>
    if s.phase = .sendingBody then some (giveUp s [resetStream, failOffered]) else none
  | .openTimeout =>
    if s.phase = .waiting .pending then some { s with phase := .waiting .rejected } else none
  | .resumed =>
    match s.phase with
    | .waiting .pending => none
    | .waiting result => some (afterOpen s result)
    | _ => none
  | .recorded =>
    match s.phase with
    | .recording (u :: updates) statusCode => some (recorded s u updates statusCode)
    | _ => none
  | .openResult frame => if s.registered then some (handleOpenResult s frame) else none
  | .data byteLength flushed endStream resetSent =>
    if s.registered ∧ !s.closedRemotely then
      some (onData maxReceivedBytes s byteLength flushed endStream resetSent)
    else none
  | .drained k =>
    match s.writes[k]? with
    | some endStream => some (consumed { s with writes := s.writes.eraseIdx k } endStream)
    | none => none
  | .writeFailed k resetSent =>
    match s.writes[k]? with
    | some _ => some (consumerFailed { s with writes := s.writes.eraseIdx k } resetSent)
    | none => none
  | .credited sent =>
    if s.ends = 0 then none
    else if sent then some (onEndStream { s with ends := s.ends - 1 })
    else some { s with ends := s.ends - 1 }
  | .streamReset canceled =>
    if s.registered then some (onReset s canceled) else some (s.start [resetStream])
  | .streamClose offsetMatches =>
    if s.registered then
      if offsetMatches then some (onClose s) else some (onReset s false)
    else some (s.start closeStream)
  | .carrierLost => if s.registered then some { s with finalizing := true } else none
  | .carrierReset =>
    if !s.finalizing then none
    else
      let s := { s with finalizing := false }
      if s.closedRemotely then some s else some (onReset s false)
  | .clientClosed =>
    if s.registered ∨ s.phase = .responding then some (onClientClosed s) else none
  | .bodyEnd =>
    if s.completed ∧ s.phase = .responding then some { s with responseCompleted := true } else none
  | .limit true => if s.ttlTimer then some (onLimit { s with ttlTimer := false }) else none
  | .limit false => if s.idleTimer then some (onLimit { s with idleTimer := false }) else none
  | .limitReset =>
    if s.limits = 0 then none
    else some (resetFromServiceLimit { s with limits := s.limits - 1 })
  | .task k => (s.desk.runTask k).map fun desk => { s with desk := desk }
  | .markOperationUnknown => some { s with desk := s.desk.markOperationUnknown }
  | .markStreamUnknown => some { s with desk := s.desk.markStreamUnknown }

end HttpEdge

end Bud.Proxy
