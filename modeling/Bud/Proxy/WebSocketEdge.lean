import Bud.Lib.Runs
import Bud.Proxy.RowTasks

/-!
# The edge of a proxied WebSocket

`openProxiedSiteWebSocketEdge` of `proxy-ws-edge.ts` with the `ProxyWebSocketRuntimeSession` of
`proxy-ws-runtime.ts` that it drives: a browser's WebSocket to a proxied site is carried to the
daemon in `proxy_ws_message` frames. The edge inserts the rows of the operation and its stream,
attaches its listeners, asks the daemon to open the connection, records that it was opened, and
only then lets messages through; what the browser sends while the daemon is opening waits in a
bounded buffer.

## Modelling notes

The handler's own awaits are its `phase`. What it starts and does not wait for, and what it waits
for only to return, is a task on the desk: row updates, each caught, made one at a time in between
everything else. An await of the handler that rejects ends it (`threw`).

`accepts k` is what the carrier answers to the `k`-th frame it is given. A frame of the daemon is
routed to the session as long as it is registered, which is as long as the listeners are attached.
The router updates the stream's row by itself when a `stream_reset` or `stream_close` frame names
it.

A site that has expired when its timer is set is closed on the spot, before the listeners are
declared: `cleanup` throws on the first of them, nobody handles the promise that is rejected by it,
and the process ends as soon as the handler is back at an await. What the handler has asked the
database for by then is left out.

The browser's messages come with their kind and bytes (`cloneRawData` and `normalizeRawData` copy
them). The rows are those `createOperation` and `createStream` insert; nothing reads them before.
Whether a connection limit is reached is found out at the start: `overLimit`.
-/

namespace Bud.Proxy

namespace WebSocketEdge

/-! ### Data -/

structure Message where
  isBinary : Bool
  data : List UInt8
  deriving DecidableEq

inductive Frame where
  | openConnection
  | browserMessage (message : Message)
  | error (code : String)
  | close (code : Option ℕ)

/-- The `Promise` of `waitForOpen`. -/
inductive OpenPromise where
  | pending
  | resolved (accepted : Bool)
  | rejected
  deriving DecidableEq

/-- An await of the handler while it records that the daemon opened the connection. -/
inductive Recording where
  | update (u : Update)
  | audit
  deriving DecidableEq

inductive Phase where
  /-- A limit is reached, and that is being recorded. -/
  | denying
  /-- The handler has closed the socket because of a limit. -/
  | denied
  /-- The awaits left before the listeners are attached. -/
  | creating (awaits : ℕ)
  | waiting (promise : OpenPromise)
  | recording (awaits : List Recording)
  /-- The handler has returned, after letting messages through. -/
  | opened
  /-- The handler has returned early. -/
  | ended
  | threw
  | crashed
  deriving DecidableEq

structure Session where
  phase : Phase
  /-- The listeners are attached, and the session is registered. -/
  listening : Bool
  completed : Bool
  idleTimer : Bool
  browserGone : Bool
  browserClosed : Bool
  daemonOpen : Bool
  pendingBrowserMessages : List Message
  /-- Everything the browser has sent, in order. -/
  received : List Message
  frames : List Frame
  /-- How many frames the carrier has been given. -/
  attempts : ℕ
  desk : Desk

/-- `createOperation`, `createStream` and the update of the site are yet to come. -/
def init (overLimit : Bool) : Session :=
  { phase := if overLimit then .denying else .creating 3
    listening := false
    completed := false
    idleTimer := false
    browserGone := false
    browserClosed := false
    daemonOpen := false
    pendingBrowserMessages := []
    received := []
    frames := []
    attempts := 0
    desk := ⟨⟨.offered, .opening⟩, []⟩ }

def maxPendingBrowserMessages : ℕ := 16

def Frame.message? : Frame → Option Message
  | .browserMessage message => some message
  | _ => none

def Session.sent (s : Session) : List Message := s.frames.filterMap Frame.message?

variable (maxMessageBytes : ℕ) (accepts : ℕ → Bool)

/-! ### The runtime session -/

def sendDaemonFrame (s : Session) (frame : Frame) : Session × Bool :=
  if accepts s.attempts then
    ({ s with
        frames := s.frames ++ [frame]
        attempts := s.attempts + 1 }, true)
  else ({ s with attempts := s.attempts + 1 }, false)

def finish (s : Session) : Session :=
  { s with
    completed := true
    idleTimer := false
    listening := false }

def rejectOpen (s : Session) : Session :=
  match s.phase with
  | .waiting .pending => { s with phase := .waiting .rejected }
  | _ => s

/-- `ProxyWebSocketRuntimeSession.closeFromService`. -/
def runtimeCloseFromService (s : Session) (code : String) (closeCode : ℕ) : Session :=
  if s.completed then s
  else
    let s := (sendDaemonFrame accepts s (.error code)).1
    let s := (sendDaemonFrame accepts s (.close (some closeCode))).1
    finish (rejectOpen s)

def abortFromBrowser (s : Session) (code : Option ℕ) : Session :=
  if s.completed then s
  else finish (rejectOpen (sendDaemonFrame accepts s (.close code)).1)

def handleOpenResult (s : Session) (accepted : Bool) : Session :=
  match s.phase with
  | .waiting .pending => { s with phase := .waiting (.resolved accepted) }
  | _ => s

/-- `ProxyWebSocketRuntimeSession.sendBrowserMessage`. -/
def sendBrowserMessage (s : Session) (message : Message) : Session × Bool :=
  if s.completed then (s, false)
  else if maxMessageBytes < message.data.length then
    (runtimeCloseFromService accepts s "PROXY_WS_MESSAGE_TOO_LARGE" 1011, false)
  else
    match sendDaemonFrame accepts s (.browserMessage message) with
    | (s, true) => (s, true)
    | (s, false) => (finish s, false)

/-! ### The rows -/

inductive Reason where
  | canceled
  | siteExpired
  | messageTooLarge
  | openBackpressure
  | transportLost
  | timeout
  | openRejected
  | idleTimeout
  | remoteError
  deriving DecidableEq

/-- `transitionOpenFailure`: the target is chosen when it is called. -/
def transitionOpenFailure (s : Session) (reason : Reason) : List Update :=
  [.stream liveStreamStates .reset,
    if reason = .canceled then .operation [.offered, .accepted, .running] .canceled
    else if s.daemonOpen then .operation [.accepted, .running] .failed
    else .operation [.offered] .rejected]

def transitionSuccess : List Update :=
  [.stream liveStreamStates .closed, .operation [.offered, .accepted, .running] .succeeded]

def Session.start (s : Session) (task : List Update) : Session :=
  { s with desk := s.desk.start task }

/-! ### The edge -/

/-- `closeFromService` of the edge. -/
def closeFromService (s : Session) (reason : Reason) (code : String) (closeCode : ℕ) : Session :=
  let s := runtimeCloseFromService accepts s code closeCode
  s.start (transitionOpenFailure s reason)

def onBrowserMessage (s : Session) (message : Message) : Session :=
  if s.daemonOpen then (sendBrowserMessage maxMessageBytes accepts s message).1
  else if maxMessageBytes < message.data.length then
    closeFromService accepts s .messageTooLarge "PROXY_WS_MESSAGE_TOO_LARGE" 1011
  else if maxPendingBrowserMessages ≤ s.pendingBrowserMessages.length then
    closeFromService accepts s .openBackpressure "PROXY_WS_OPEN_BACKPRESSURE" 1013
  else { s with pendingBrowserMessages := s.pendingBrowserMessages ++ [message] }

def onBrowserClose (s : Session) (code : Option ℕ) : Session :=
  let s := abortFromBrowser accepts { s with browserClosed := true } code
  s.start (transitionOpenFailure s .canceled)

/-- `handleDaemonClose` with `onDaemonClose`. -/
def handleDaemonClose (s : Session) : Session :=
  if s.completed then s else finish (s.start transitionSuccess)

/-- `handleDaemonError` with `onDaemonError`. -/
def handleDaemonError (s : Session) : Session :=
  if s.completed then s
  else finish ((rejectOpen s).start (transitionOpenFailure s .remoteError))

/-- `onReset`, with the transition the router makes after it. -/
def onReset (s : Session) : Session :=
  let s := runtimeCloseFromService accepts s "DATA_PLANE_STREAM_CLOSED" 1011
  s.start (transitionOpenFailure s .transportLost ++ [.stream liveStreamStates .reset])

/-- From the last await before the listeners to `waitForOpen`. -/
def attach (s : Session) : Session :=
  match sendDaemonFrame accepts { s with listening := true } .openConnection with
  | (s, true) => { s with phase := .waiting .pending }
  | (s, false) =>
    { closeFromService accepts s .transportLost "DATA_PLANE_UNAVAILABLE" 1013 with
      phase := .ended }

/-- The last await before the listeners is over, and the site has expired. -/
def attachExpired (s : Session) : Session :=
  let s := runtimeCloseFromService accepts s "PROXIED_SITE_EXPIRED" 1008
  { (sendDaemonFrame accepts s .openConnection).1 with phase := .crashed }

/-- What the handler awaits once the daemon has accepted. -/
def recordOpen : List Recording :=
  [.update (.operation [.offered] .accepted), .update (.operation [.accepted] .running),
    .update (.stream [.opening] .opened), .audit]

def afterOpen (s : Session) (result : OpenPromise) : Session :=
  match result with
  | .pending => s
  | .rejected =>
    { closeFromService accepts s .timeout "PROXY_WS_OPEN_TIMEOUT" 1013 with phase := .ended }
  | .resolved accepted =>
    if s.browserClosed then { s with phase := .ended }
    else if accepted then { s with phase := .recording recordOpen }
    else
      { closeFromService accepts s .openRejected "PROXY_WS_OPEN_REJECTED" 1011 with
        phase := .ended }

/-- `for (const pending of pendingBrowserMessages.splice(0))`, with the `startIdleTimer` behind it,
which does not ask whether the session has completed. -/
def flush : List Message → Session → Session
  | [], s => { s with idleTimer := true }
  | message :: messages, s =>
    match sendBrowserMessage maxMessageBytes accepts s message with
    | (s, true) => flush messages s
    | (s, false) => s

/-- The handler's next await while it records the opening is over. -/
def recorded (s : Session) : List Recording → Session
  | [] => s
  | .update u :: awaits =>
    { s with
      desk := s.desk.update u
      phase := .recording awaits }
  | .audit :: _ =>
    flush maxMessageBytes accepts s.pendingBrowserMessages
      { s with
        daemonOpen := true
        pendingBrowserMessages := []
        phase := .opened }

/-! ### Steps -/

inductive Act where
  | browserMessage (message : Message)
  | browserClose (code : Option ℕ)
  /-- The next await before the listeners is over. -/
  | created
  /-- The last of them is over, and the site has expired. -/
  | createdExpired
  | recorded
  /-- An await on the database rejects. -/
  | rejected
  /-- `waitForOpen` times out. -/
  | openTimeout
  /-- The handler goes on after `waitForOpen`. -/
  | resumed
  | openResult (accepted : Bool)
  | daemonMessage (byteLength : ℕ)
  | daemonClose
  | daemonError
  | siteExpired
  | idleTimeout
  /-- `closeProxyWebSocketRuntimeSessionsForSite`. -/
  | siteDisabled
  | carrierReset
  /-- The router has a `stream_reset` frame with the stream's id. -/
  | strayReset
  /-- The router has a `stream_close` frame with the stream's id. -/
  | strayClose
  | task (k : ℕ)
  | markOperationUnknown
  | markStreamUnknown

/-- One step; `none` is an action that cannot happen. -/
def step (s : Session) : Act → Option Session
  | .browserMessage message =>
    if s.browserGone then none
    else
      let s := { s with received := s.received ++ [message] }
      if s.listening then some (onBrowserMessage maxMessageBytes accepts s message) else some s
  | .browserClose code =>
    if s.browserGone then none
    else
      let s := { s with browserGone := true }
      if s.listening then some (onBrowserClose accepts s code) else some s
  | .created =>
    match s.phase with
    | .denying => some { s with phase := .denied }
    | .creating (awaits + 2) => some { s with phase := .creating (awaits + 1) }
    | .creating 1 => some (attach accepts s)
    | _ => none
  | .createdExpired =>
    match s.phase with
    | .creating 1 => some (attachExpired accepts s)
    | _ => none
  | .recorded =>
    match s.phase with
    | .recording (await :: awaits) =>
      some (recorded maxMessageBytes accepts s (await :: awaits))
    | _ => none
  | .rejected =>
    match s.phase with
    | .denying => some { s with phase := .threw }
    | .creating _ => some { s with phase := .threw }
    | .recording _ => some { s with phase := .threw }
    | _ => none
  | .openTimeout =>
    match s.phase with
    | .waiting .pending => some { s with phase := .waiting .rejected }
    | _ => none
  | .resumed =>
    match s.phase with
    | .waiting .pending => none
    | .waiting result => some (afterOpen accepts s result)
    | _ => none
  | .openResult accepted => if s.listening then some (handleOpenResult s accepted) else none
  | .daemonMessage byteLength =>
    if s.listening then
      if maxMessageBytes < byteLength ∧ !s.browserGone then
        some (runtimeCloseFromService accepts s "PROXY_WS_MESSAGE_TOO_LARGE" 1011)
      else some s
    else none
  | .daemonClose => if s.listening then some (handleDaemonClose s) else none
  | .daemonError => if s.listening then some (handleDaemonError s) else none
  | .siteExpired =>
    if s.listening then some (closeFromService accepts s .siteExpired "PROXIED_SITE_EXPIRED" 1008)
    else none
  | .idleTimeout =>
    -- it is set once the handler has let messages through
    if s.idleTimer ∧ s.phase = .opened then
      some (closeFromService accepts { s with idleTimer := false } .idleTimeout
        "PROXY_WS_IDLE_TIMEOUT" 1001)
    else none
  | .siteDisabled =>
    if s.listening then
      some (runtimeCloseFromService accepts s "PROXIED_SITE_DISABLED" 1008)
    else none
  | .carrierReset => if s.listening then some (onReset accepts s) else none
  | .strayReset => some (s.start [.stream liveStreamStates .reset])
  | .strayClose =>
    some (s.start [.stream [.opening] .opened,
      .stream [.opened, .halfClosedLocal, .halfClosedRemote] .closed])
  | .task k => (s.desk.runTask k).map fun desk => { s with desk := desk }
  | .markOperationUnknown => some { s with desk := s.desk.markOperationUnknown }
  | .markStreamUnknown => some { s with desk := s.desk.markStreamUnknown }

end WebSocketEdge

end Bud.Proxy
