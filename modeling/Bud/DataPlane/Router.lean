import Mathlib.Data.List.Basic

/-!
# The data-plane router

`data-plane-router.ts`: the service's end of a carrier that multiplexes runtime streams. Inbound
frames name a stream; the router checks each against the stream's record, hands data to the
stream's consumer and answers with credit, or sends a `stream_reset` of its own. Besides the
router, whoever registered a stream may reset it (`resetRemote` of `file-edge.ts` and
`proxy-edge.ts`, `resetLocalLlmStream` of `local-llm-data-plane.ts`), and the loss of the carrier
resets all of them.

## Modelling notes

Frames of one stream are handled one after the other (`enqueueDataPlaneStreamFrame`): while a chunk
is with the consumer (`consuming`), no other frame of the stream is taken. Everything else
interleaves.

The consumer is the edge's runtime stream (`FileRuntimeStream`, `ProxyRuntimeStream`). `onReset`
calls its `handleReset`, which completes it, and whatever completes it runs `cleanup`, which takes
the stream out of `runtimeStreams`; `onData` may throw. An edge that fails to open its stream runs
`cleanup` by itself, which leaves the runtime stream incomplete. An entry that was taken out is
kept with `registered` false, because a handler that is waiting for its consumer still holds the
record. Stream ids are fresh (`st_${ulid()}`), so an id is registered once.

An edge resets a stream in one of three ways. `resetFromServiceLimit` sees that the runtime stream
is not complete, writes an audit event, sends the frame, waits for the write and calls
`handleReset`; several of them may be under way, and in between anything may happen. The client's
going away sends the frame and completes the runtime stream at once. And a stream whose opening
fails (no answer in time, no status code, a request body that could not be sent) is cleaned up and
then reset, and nobody tells the runtime stream. So are the streams of the local LLM, where it is
the caller that is told; there, after a failed opening, the reset is even sent first.

Writing to the carrier succeeds; its loss is `transportLost` and `clear`. What the handlers write to
the database is left out.
-/

namespace Bud.DataPlane

/-! ### Streams -/

/-- `DataPlaneRuntimeStream`. -/
structure RuntimeStream where
  streamType : String
  receiveOffset : ℕ
  receiveCreditBytes : ℕ
  sendCreditBytes : ℕ
  remoteReceiveOffset : ℕ
  localClosed : Bool
  remoteClosed : Bool
  resetReason : Option String

/-- `stream.resetReason` as a condition: an empty reason is falsy. -/
def RuntimeStream.isReset (stream : RuntimeStream) : Bool := stream.resetReason.getD "" != ""

/-- The record `registerDataPlaneRuntimeStream` makes. -/
def RuntimeStream.new (streamType : String) (initialReceiveCreditBytes : ℕ) : RuntimeStream :=
  { streamType := streamType
    receiveOffset := 0
    receiveCreditBytes := initialReceiveCreditBytes
    sendCreditBytes := 0
    remoteReceiveOffset := 0
    localClosed := false
    remoteClosed := false
    resetReason := none }

structure StreamError where
  code : String
  message : String
  deriving DecidableEq

def recordDataPlaneInboundChunk (stream : RuntimeStream) (offset byteLength : ℕ) :
    Except StreamError RuntimeStream :=
  if stream.isReset then .error ⟨"STREAM_RESET", "stream has already been reset"⟩
  else if stream.remoteClosed then
    .error ⟨"STREAM_CLOSED", "stream is already closed by the remote peer"⟩
  else if offset ≠ stream.receiveOffset then
    .error ⟨"OFFSET_MISMATCH",
      "expected stream offset " ++ toString stream.receiveOffset ++ ", got " ++ toString offset⟩
  else if stream.receiveCreditBytes < byteLength then
    .error ⟨"CREDIT_EXHAUSTED", "stream frame exceeds available credit by " ++
      toString (byteLength - stream.receiveCreditBytes) ++ " bytes"⟩
  else
    .ok
      { stream with
        receiveOffset := stream.receiveOffset + byteLength
        receiveCreditBytes := stream.receiveCreditBytes - byteLength }

def grantDataPlaneReceiveCredit (stream : RuntimeStream) (creditBytes : ℕ) : RuntimeStream :=
  { stream with receiveCreditBytes := stream.receiveCreditBytes + creditBytes }

def recordDataPlaneOutboundCredit (stream : RuntimeStream) (receiveOffset creditBytes : ℕ) :
    RuntimeStream :=
  { stream with
    remoteReceiveOffset := max stream.remoteReceiveOffset receiveOffset
    sendCreditBytes := stream.sendCreditBytes + creditBytes }

def streamResetReasonForCreditError (code : String) : String :=
  if code = "CREDIT_EXHAUSTED" then "backpressure" else "protocol_error"

/-! ### The router's state -/

namespace Router

/-- The limits a tracker was opened with. -/
structure Limits where
  maxChunkBytes : ℕ
  maxInFlightBytes : ℕ

/-- A stream's record with what is going on around it. -/
structure Entry where
  stream : RuntimeStream
  /-- It is in `runtimeStreams`. -/
  registered : Bool
  /-- The length and `end_stream` of the chunk `onData` is working on. -/
  consuming : Option (ℕ × Bool)
  /-- The edge's runtime stream has completed. -/
  completed : Bool
  /-- How many calls of `resetFromServiceLimit` write their audit event. -/
  auditing : ℕ
  /-- How many have sent their reset and have yet to call `handleReset`. -/
  resetting : ℕ

inductive Obs where
  /-- A `stream_reset` frame for a stream the service has registered. -/
  | resetSent (streamId reason : String) (error : StreamError)
  /-- A `stream_reset` frame for an id the service does not know. -/
  | unknownReset (streamId : String) (error : StreamError)
  | creditSent (streamId : String) (receiveOffset creditBytes : ℕ)
  | closeSent (streamId : String) (finalOffset : ℕ)
  | onData (streamId : String) (offset : ℕ) (bytes : List UInt8)
  /-- The consumer is told that the stream ended: `onReset`, or `handleReset` by the edge. -/
  | onReset (streamId reason : String)
  | onClose (streamId : String) (finalOffset : ℕ)
  deriving DecidableEq

structure Sys where
  streams : String → Option Entry
  /-- What has been observable so far, in order. -/
  trace : List Obs

def init : Sys := { streams := fun _ => none, trace := [] }

inductive Act where
  | register (streamId streamType : String) (initialReceiveCreditBytes : ℕ)
  | streamData (streamId streamType : String) (offset : ℕ) (bytes : List UInt8) (endStream : Bool)
  | streamCredit (streamId : String) (receiveOffset creditBytes : ℕ)
  | streamReset (streamId reason : String)
  | streamClose (streamId : String) (finalOffset : ℕ)
  /-- `onData` returns. -/
  | consumed (streamId : String)
  /-- `onData` throws. -/
  | consumerFails (streamId message : String)
  /-- `cleanup` runs: the consumer completes of its own accord, or the edge gives the stream up. -/
  | cleanup (streamId : String) (completes : Bool)
  /-- The client closed: the edge sends a reset and calls `handleReset` at once. -/
  | clientClosed (streamId : String)
  /-- A limit timer fires, and `resetFromServiceLimit` starts. -/
  | serviceLimit (streamId : String)
  /-- Its audit event is written: the edge sends the reset and waits for the write. -/
  | resetRemote (streamId reason : String) (error : StreamError)
  /-- The edge's write returned, and it calls `handleReset`. -/
  | handleReset (streamId reason : String)
  /-- A stream is cleaned up, and a reset is sent for it. -/
  | cleanupAndReset (streamId reason : String) (error : StreamError)
  /-- The opening of a local LLM stream fails: a reset is sent, and a `cleanup` will follow. -/
  | resetLocalLlmStream (streamId reason : String) (error : StreamError)
  /-- One stream's turn in `resetRuntimeStreamsForDataPlaneTracker`. -/
  | transportLost (streamId : String)
  /-- `runtimeStreams.clear()`. -/
  | clear

/-! ### Updates -/

def Sys.set (s : Sys) (streamId : String) (entry : Entry) : Sys :=
  { s with streams := Function.update s.streams streamId (some entry) }

def Sys.emit (s : Sys) (obs : List Obs) : Sys := { s with trace := s.trace ++ obs }

/-- `sendStreamReset` for a registered stream. -/
def sendStreamReset (s : Sys) (streamId reason : String) (error : StreamError) : Sys :=
  s.emit [.resetSent streamId reason error]

/-- The stream is out of the table and its consumer done with it. -/
def Entry.complete (entry : Entry) : Entry := { entry with registered := false, completed := true }

def callOnReset (s : Sys) (streamId reason : String) (entry : Entry) : Sys :=
  (s.set streamId entry.complete).emit [.onReset streamId reason]

/-! ### Handlers -/

/-- `handleStreamData` up to its `await` of the consumer, for a stream that is registered. -/
def handleStreamData (limits : Limits) (s : Sys) (streamId : String) (entry : Entry)
    (streamType : String) (offset : ℕ) (bytes : List UInt8) (endStream : Bool) : Sys :=
  if entry.stream.streamType ≠ streamType then
    sendStreamReset s streamId "protocol_error"
      ⟨"STREAM_TYPE_MISMATCH",
        "expected stream_type " ++ entry.stream.streamType ++ ", got " ++ streamType⟩
  else if limits.maxChunkBytes < bytes.length then
    sendStreamReset s streamId "protocol_error"
      ⟨"CHUNK_TOO_LARGE", "stream_data chunk exceeds data-plane max chunk size"⟩
  else
    match recordDataPlaneInboundChunk entry.stream offset bytes.length with
    | .error error =>
      sendStreamReset s streamId (streamResetReasonForCreditError error.code) error
    | .ok stream =>
      (s.set streamId { entry with stream := stream, consuming := some (bytes.length, endStream) })
        |>.emit [.onData streamId offset bytes]

/-- `handleStreamData` after the consumer returned. -/
def consumed (s : Sys) (streamId : String) (entry : Entry) (byteLength : ℕ) (endStream : Bool) :
    Sys :=
  let stream := grantDataPlaneReceiveCredit entry.stream byteLength
  let credit : Obs := .creditSent streamId stream.receiveOffset byteLength
  if endStream then
    (s.set streamId
        { entry with stream := { stream with remoteClosed := true }, consuming := none })
      |>.emit [credit, .onClose streamId stream.receiveOffset,
        .closeSent streamId stream.receiveOffset]
  else (s.set streamId { entry with stream := stream, consuming := none }).emit [credit]

def handleStreamCredit (limits : Limits) (s : Sys) (streamId : String) (entry : Entry)
    (receiveOffset creditBytes : ℕ) : Sys :=
  let stream := recordDataPlaneOutboundCredit entry.stream receiveOffset creditBytes
  s.set streamId
    { entry with
      stream :=
        { stream with sendCreditBytes := min stream.sendCreditBytes limits.maxInFlightBytes } }

def handleStreamReset (s : Sys) (streamId reason : String) (entry : Entry) : Sys :=
  callOnReset s streamId reason
    { entry with stream := { entry.stream with resetReason := some reason } }

def handleStreamClose (s : Sys) (streamId : String) (finalOffset : ℕ) (entry : Entry) : Sys :=
  if finalOffset ≠ entry.stream.receiveOffset then
    sendStreamReset
      (callOnReset s streamId "protocol_error"
        { entry with stream := { entry.stream with resetReason := some "protocol_error" } })
      streamId "protocol_error"
      ⟨"FINAL_OFFSET_MISMATCH", "expected final_offset " ++ toString entry.stream.receiveOffset ++
        ", got " ++ toString finalOffset⟩
  else
    (s.set streamId { entry with stream := { entry.stream with remoteClosed := true } })
      |>.emit [.onClose streamId finalOffset]

/-- A frame's handler runs on the stream it names once the stream's earlier frames are done. -/
def onFrame (s : Sys) (streamId : String) (unknown : Sys) (handler : Entry → Sys) : Option Sys :=
  match s.streams streamId with
  | none => some unknown
  | some entry =>
    if entry.consuming.isSome then none
    else if entry.registered then some (handler entry)
    else some unknown

/-- What the consumer does with a stream, or an edge with its own. -/
def onEntry (s : Sys) (streamId : String) (handler : Entry → Option Sys) : Option Sys :=
  (s.streams streamId).bind handler

def step (limits : Limits) (s : Sys) : Act → Option Sys
  | .register streamId streamType initialReceiveCreditBytes =>
    match s.streams streamId with
    | some _ => none
    | none =>
      some (s.set streamId
        { stream := RuntimeStream.new streamType initialReceiveCreditBytes
          registered := true
          consuming := none
          completed := false
          auditing := 0
          resetting := 0 })
  | .streamData streamId streamType offset bytes endStream =>
    onFrame s streamId
      (s.emit [.unknownReset streamId
        ⟨"UNKNOWN_STREAM", "stream_data received for an unknown stream"⟩])
      fun entry => handleStreamData limits s streamId entry streamType offset bytes endStream
  | .streamCredit streamId receiveOffset creditBytes =>
    onFrame s streamId s fun entry =>
      handleStreamCredit limits s streamId entry receiveOffset creditBytes
  | .streamReset streamId reason =>
    onFrame s streamId s (handleStreamReset s streamId reason)
  | .streamClose streamId finalOffset =>
    onFrame s streamId s (handleStreamClose s streamId finalOffset)
  | .consumed streamId =>
    onEntry s streamId fun entry =>
      entry.consuming.map fun (byteLength, endStream) =>
        consumed s streamId entry byteLength endStream
  | .consumerFails streamId message =>
    onEntry s streamId fun entry =>
      entry.consuming.map fun _ =>
        sendStreamReset (s.set streamId { entry with consuming := none }) streamId "local_error"
          ⟨"STREAM_CONSUMER_FAILED", message⟩
  | .cleanup streamId completes =>
    onEntry s streamId fun entry =>
      if entry.completed then none
      else if completes then some (s.set streamId entry.complete)
      else some (s.set streamId { entry with registered := false })
  | .clientClosed streamId =>
    onEntry s streamId fun entry =>
      if entry.completed = false ∧ entry.registered = true then
        some (callOnReset
          (sendStreamReset s streamId "canceled"
            ⟨"CLIENT_CLOSED", "browser client closed the file request"⟩)
          streamId "client_closed" entry)
      else none
  | .serviceLimit streamId =>
    onEntry s streamId fun entry =>
      -- `runtime.isComplete()`; a chunk that is consumed sets the idle timer again, even then
      if entry.completed then none
      else some (s.set streamId { entry with auditing := entry.auditing + 1 })
  | .resetRemote streamId reason error =>
    onEntry s streamId fun entry =>
      if 0 < entry.auditing then
        some (sendStreamReset
          (s.set streamId
            { entry with auditing := entry.auditing - 1, resetting := entry.resetting + 1 })
          streamId reason error)
      else none
  | .handleReset streamId reason =>
    onEntry s streamId fun entry =>
      if 0 < entry.resetting then
        let entry := { entry with resetting := entry.resetting - 1 }
        -- a runtime stream that completed in the meantime ignores it
        if entry.completed then some (s.set streamId entry)
        else some (callOnReset s streamId reason entry)
      else none
  | .cleanupAndReset streamId reason error =>
    onEntry s streamId fun entry =>
      some (sendStreamReset (s.set streamId { entry with registered := false }) streamId reason
        error)
  | .resetLocalLlmStream streamId reason error =>
    onEntry s streamId fun entry =>
      if entry.registered then some (sendStreamReset s streamId reason error) else none
  | .transportLost streamId =>
    onEntry s streamId fun entry =>
      if entry.registered ∧ entry.stream.remoteClosed = false ∧ entry.stream.isReset = false then
        some (callOnReset s streamId "transport_lost"
          { entry with stream := { entry.stream with resetReason := some "transport_lost" } })
      else none
  | .clear =>
    some { s with streams := fun streamId =>
      (s.streams streamId).map fun entry => { entry with registered := false } }

end Router

end Bud.DataPlane
