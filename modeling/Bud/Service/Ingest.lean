import Bud.Lib.JsText
import Bud.Lib.Promises

/-!
# The ingest queue of terminal frames

`terminal-session-manager.ts`: the gateways hand the daemon's frames over as they arrive and do not
wait, so `enqueueSessionIngest` puts the handlers of one session in a row. The queue is a chain of
promises. The map `sessionIngestQueues` holds the last one of each session; a new frame's handler is
registered on it and replaces it, and the entry removes itself when its promise settles and it is
still the last.

A frame is known by its session and its place in the session's arrival order (`Ticket`). Its call of
`enqueueSessionIngest` makes three promises:

* `run`, of `prev.then(work, work)`
* `tail`, of `run.then(() => undefined, () => undefined)`
* `handler`, which `work` returns and `run` follows

## Modelling notes

A job of the microtask queue is one action, and so is everything a handler does between two of its
awaits; the awaited work takes as long as it takes, and may be rejected. A frame may arrive between
any two actions, so also while a handler runs. `Promise.resolve()` is a promise of its own, settled
from the start. `emit` does not throw: the bus catches what its listeners throw.

The handlers are followed through their awaits and what they emit. `pruneOldestChunks` and the two
recording methods of the command store are one await each, and the latter two do not reject. What
the handlers leave in caches and in the database is left out, except for `retainedBytes`, which
decides which awaits an output takes.
-/

namespace Bud.Ingest

/-! ### The handlers -/

inductive Frame where
  | status (state : String)
  | grid
  | output (data : List UInt8) (byteOffset : ℕ)
  /-- `cwd` and `commandId` are the strings in `data` under these names. -/
  | event (name : String) (cwd : Option (List UInt16)) (commandId : Option String)
  | observeResult
  | sendResult

inductive SseEvent where
  | status (state : String)
  | grid
  | output (data : List UInt8) (byteOffset id : ℕ)
  | event (name : String)
  deriving DecidableEq

/-- The await a handler is suspended at. -/
inductive Stage where
  | resolveOwnedSession
  | updateStatus
  | sendGridWatch
  | insertChunk
  | bumpOutputStats
  | getStoredOutputBytes
  | pruneOldestChunks (retained : ℤ)
  | updateCwd
  | recordCommand
  | markClosed
  | markSessionClosedLocally
  | handleResult

/-- How an awaited promise settled: with an error or with a value. A truth value is a number. -/
inductive Reply where
  | rejected
  | resolved (value : ℕ)

/-- What a handler does next: wait again, return, or throw. -/
inductive Next where
  | await (stage : Stage)
  | returns
  | throws

/-- What a handler reads when it resumes: whether the session has grid viewers, the retained bytes
the store remembers, and the cap on them. -/
structure Reads where
  hasGridViewers : Bool
  retainedBytes : Option ℤ
  terminalOutputSoftCapBytes : ℕ

/-- What a handler has done when it suspends or ends. -/
structure Resumed where
  emitted : List SseEvent
  retainedBytes : Option ℤ
  next : Next

variable (reads : Reads)

/-- Nothing but the next await, or the end. -/
def onto (next : Next) : Resumed :=
  { emitted := [], retainedBytes := reads.retainedBytes, next := next }

def emitting (event : SseEvent) (next : Next) : Resumed :=
  { emitted := [event], retainedBytes := reads.retainedBytes, next := next }

/-- The end of `handleTerminalOutput`: the retained bytes are remembered, and the chunk goes out. -/
def emitOutput (data : List UInt8) (byteOffset : ℕ) (retained : ℤ) : Resumed :=
  { emitted := [.output data byteOffset (byteOffset + data.length)]
    retainedBytes := some retained
    next := .returns }

/-- The retention cap of `handleTerminalOutput`. -/
def retain (data : List UInt8) (byteOffset : ℕ) (retained : ℤ) : Resumed :=
  if reads.terminalOutputSoftCapBytes < retained then
    onto reads (.await (.pruneOldestChunks retained))
  else emitOutput data byteOffset retained

/-- The `switch` of `handleTerminalEventInner`, up to its await or to the end. -/
def switchEvent (name : String) (cwd : Option (List UInt16)) (commandId : Option String) :
    Resumed :=
  if name = "prompt_ready" ∧ cwd.any fun cwd => JsText.trim cwd ≠ [] then
    onto reads (.await .updateCwd)
  else if (name = "command_started" ∨ name = "command_finished") ∧ commandId.isSome then
    onto reads (.await .recordCommand)
  else if name = "child_exited" then onto reads (.await .markClosed)
  else emitting reads (.event name) .returns

/-- A handler after `resolveOwnedSession`, which has found the session. -/
def Frame.owned : Frame → Resumed
  | .status _ => onto reads (.await .updateStatus)
  | .grid => emitting reads .grid .returns
  | .output data _ => if data = [] then onto reads .returns else onto reads (.await .insertChunk)
  | .event name cwd commandId => switchEvent reads name cwd commandId
  | .observeResult => onto reads (.await .handleResult)
  | .sendResult => onto reads (.await .handleResult)

/-- A handler from one await to the next. -/
def Frame.resume (frame : Frame) : Stage → Reply → Resumed
  | .resolveOwnedSession, .resolved 0 => onto reads .returns
  | .resolveOwnedSession, .resolved _ => frame.owned reads
  | .updateStatus, .resolved _ =>
    match frame with
    | .status state =>
      emitting reads (.status state)
        (if state = "ready" ∧ reads.hasGridViewers then .await .sendGridWatch else .returns)
    | _ => onto reads .returns
  | .insertChunk, .resolved 0 => onto reads .returns
  | .insertChunk, .resolved _ => onto reads (.await .bumpOutputStats)
  | .bumpOutputStats, .resolved _ =>
    match frame, reads.retainedBytes with
    | .output data byteOffset, some retained =>
      retain reads data byteOffset (retained + data.length)
    | _, _ => onto reads (.await .getStoredOutputBytes)
  | .getStoredOutputBytes, .resolved stored =>
    match frame with
    | .output data byteOffset => retain reads data byteOffset (stored + data.length)
    | _ => onto reads .returns
  | .pruneOldestChunks retained, .resolved removed =>
    match frame with
    | .output data byteOffset => emitOutput data byteOffset (retained - removed)
    | _ => onto reads .returns
  -- a working directory or a command that could not be written is logged, and the event goes out
  | .updateCwd, _ | .recordCommand, _ | .markSessionClosedLocally, .resolved _ =>
    match frame with
    | .event name _ _ => emitting reads (.event name) .returns
    | _ => onto reads .returns
  | .markClosed, .resolved _ =>
    match frame with
    | .event .. => emitting reads (.status "closed") (.await .markSessionClosedLocally)
    | _ => onto reads .returns
  | .sendGridWatch, .resolved _ | .handleResult, .resolved _ => onto reads .returns
  | _, .rejected => onto reads .throws

/-! ### The queue -/

/-- A session and the place of a frame among the session's frames. -/
abbrev Ticket := String × ℕ

inductive Promise where
  | resolved
  | handler (ticket : Ticket)
  | run (ticket : Ticket)
  | tail (ticket : Ticket)
  deriving DecidableEq

inductive Job where
  /-- Both callbacks of `prev.then(work, work)`. -/
  | work (ticket : Ticket)
  /-- `run` was resolved with the promise of the handler, and registers on it. -/
  | follow (ticket : Ticket)
  | settleRun (ticket : Ticket)
  /-- Both callbacks of `run.then(() => undefined, () => undefined)`. -/
  | settleTail (ticket : Ticket)
  /-- The callback of `tail.then`. -/
  | cleanup (ticket : Ticket)
  deriving DecidableEq

/-- What happened in a session. -/
inductive Entry where
  | start (index : ℕ)
  | emit (index : ℕ) (event : SseEvent)
  | finish (index : ℕ)
  deriving DecidableEq

structure Sys where
  heap : Promises.Heap Promise Job
  /-- The session whose last `tail` is in the map, with its place. -/
  sessionIngestQueues : String → Option ℕ
  /-- The frames of each session, as they arrived. -/
  frames : String → List Frame
  stage : Ticket → Option Stage
  retainedBytes : String → Option ℤ
  log : String → List Entry

def init : Sys :=
  { heap :=
      { Promises.Heap.empty with
        status := fun p => if p = .resolved then .fulfilled else .pending }
    sessionIngestQueues := fun _ => none
    frames := fun _ => []
    stage := fun _ => none
    retainedBytes := fun _ => none
    log := fun _ => [] }

def Sys.record (s : Sys) (sessionId : String) (entries : List Entry) : Sys :=
  { s with log := Function.update s.log sessionId (s.log sessionId ++ entries) }

def Sys.prev (s : Sys) (sessionId : String) : Promise :=
  ((s.sessionIngestQueues sessionId).map fun i => Promise.tail (sessionId, i)).getD .resolved

def enqueueSessionIngest (s : Sys) (sessionId : String) (frame : Frame) : Sys :=
  let ticket := (sessionId, (s.frames sessionId).length)
  { s with
    frames := Function.update s.frames sessionId (s.frames sessionId ++ [frame])
    heap :=
      ((s.heap.register (s.prev sessionId) (.work ticket)).register (.run ticket)
        (.settleTail ticket)).register (.tail ticket) (.cleanup ticket)
    sessionIngestQueues := Function.update s.sessionIngestQueues sessionId (some ticket.2) }

def Sys.runJob (s : Sys) : Job → Sys
  | .work ticket =>
    { s.record ticket.1 [.start ticket.2] with
      stage := Function.update s.stage ticket (some .resolveOwnedSession)
      heap := { s.heap with jobs := s.heap.jobs ++ [.follow ticket] } }
  | .follow ticket =>
    { s with heap := s.heap.register (.handler ticket) (.settleRun ticket) }
  | .settleRun ticket =>
    { s with heap := s.heap.settle (.run ticket) (s.heap.status (.handler ticket)) }
  | .settleTail ticket =>
    { s with heap := s.heap.settle (.tail ticket) .fulfilled }
  | .cleanup ticket =>
    if s.sessionIngestQueues ticket.1 = some ticket.2 then
      { s with
        sessionIngestQueues := Function.update s.sessionIngestQueues ticket.1 none }
    else s

def Sys.finish (s : Sys) (ticket : Ticket) (status : Promises.Status) : Sys :=
  { s.record ticket.1 [.finish ticket.2] with
    stage := Function.update s.stage ticket none
    heap := s.heap.settle (.handler ticket) status }

/-- What a handler emits and remembers when it goes on. -/
def Sys.emit (s : Sys) (ticket : Ticket) (resumed : Resumed) : Sys :=
  { s.record ticket.1 (resumed.emitted.map (.emit ticket.2)) with
    retainedBytes := Function.update s.retainedBytes ticket.1 resumed.retainedBytes }

/-- A suspended handler goes on. -/
def Sys.resume (s : Sys) (ticket : Ticket) (resumed : Resumed) : Sys :=
  match resumed.next with
  | .await stage =>
    { s.emit ticket resumed with stage := Function.update s.stage ticket (some stage) }
  | .returns => (s.emit ticket resumed).finish ticket .fulfilled
  | .throws => (s.emit ticket resumed).finish ticket .rejected

inductive Act where
  | enqueue (sessionId : String) (frame : Frame)
  /-- The first job of the microtask queue. -/
  | tick
  /-- What a handler awaits has settled. -/
  | resume (ticket : Ticket) (reply : Reply) (hasGridViewers : Bool)
      (terminalOutputSoftCapBytes : ℕ)

def step (s : Sys) : Act → Option Sys
  | .enqueue sessionId frame => some (enqueueSessionIngest s sessionId frame)
  | .tick =>
    match s.heap.jobs with
    | [] => none
    | job :: jobs => some (Sys.runJob { s with heap := { s.heap with jobs := jobs } } job)
  | .resume ticket reply hasGridViewers terminalOutputSoftCapBytes =>
    match s.stage ticket, (s.frames ticket.1)[ticket.2]? with
    | some stage, some frame =>
      some (s.resume ticket
        (frame.resume ⟨hasGridViewers, s.retainedBytes ticket.1, terminalOutputSoftCapBytes⟩
          stage reply))
    | _, _ => none

end Bud.Ingest
