import Bud.Lib.Chunks
import Mathlib.Algebra.GroupWithZero.Nat

/-!
# A data-plane stream

One stream from the daemon to the service. The daemon's task is `run_validated_file` of
`files/mod.rs` or `run_validated_proxy` of `proxy/mod.rs`; the service's side is
`data-plane-router.ts`. The daemon may have at most its credit's worth of bytes outstanding; the
service returns a chunk's bytes as credit once the stream's consumer has taken the chunk.

## Modelling notes

The carrier keeps each direction's order: `toService` and `toDaemon` are the frames under way. A
credit frame reaches the daemon's task through its event channel, `events`, which it reads where the
source does: while it waits for credit, and in the proxy also between chunks.

The service handles a stream's frames one after the other, so one chunk at a time is with the
consumer. Numbers on the service's side are JavaScript's and taken to be exact; the daemon's credit
is a `u64`, added with saturation.

Request bodies travel the other way on the same stream and are left out, as are the frames that
open a stream and the viewer hanging up, which unregisters it at the service.
-/

namespace Bud.DataPlane

/-! ### Frames -/

/-- Codes of the resets the service sends. -/
inductive ResetCode where
  | chunkTooLarge
  | streamReset
  | streamClosed
  | offsetMismatch
  | creditExhausted
  | finalOffsetMismatch
  | streamConsumerFailed

/-- Frames from the daemon. -/
inductive Up where
  | data (offset : ℕ) (bytes : List UInt8) (endStream : Bool)
  | close (finalOffset : ℕ)
  | reset (reason : String)

/-- Frames from the service. -/
inductive Down where
  | credit (receiveOffset creditBytes : ℕ)
  | close (finalOffset : ℕ)
  | reset (code : ResetCode)

/-! ### The service's end -/

/-- The part of `DataPlaneSessionTracker` a stream is opened with. Both are sent to the daemon in
the opening frame, where they are a positive integer and a `u64`. -/
structure Tracker where
  maxChunkBytes : ℕ
  initialCreditBytes : ℕ
  maxChunkBytes_pos : 0 < maxChunkBytes
  initialCreditBytes_lt : initialCreditBytes < 2 ^ 64

/-- `DataPlaneRuntimeStream`, the receiving half. -/
structure Stream where
  receiveOffset : ℕ
  receiveCreditBytes : ℕ
  remoteClosed : Bool
  resetReason : Option String

/-- `registerDataPlaneRuntimeStream`. -/
def registerStream (tracker : Tracker) : Stream :=
  { receiveOffset := 0
    receiveCreditBytes := tracker.initialCreditBytes
    remoteClosed := false
    resetReason := none }

def recordInboundChunk (stream : Stream) (offset byteLength : ℕ) : Except ResetCode Stream :=
  if stream.resetReason.isSome then .error .streamReset
  else if stream.remoteClosed then .error .streamClosed
  else if offset ≠ stream.receiveOffset then .error .offsetMismatch
  else if stream.receiveCreditBytes < byteLength then .error .creditExhausted
  else
    .ok
      { stream with
        receiveOffset := stream.receiveOffset + byteLength
        receiveCreditBytes := stream.receiveCreditBytes - byteLength }

def grantReceiveCredit (stream : Stream) (creditBytes : ℕ) : Stream :=
  { stream with receiveCreditBytes := stream.receiveCreditBytes + creditBytes }

/-! ### The daemon's end -/

inductive Kind where
  | file
  | proxy
  deriving DecidableEq

def maxChunkBytesLimit : ℕ := 1024 * 1024

/-- `max_chunk_bytes` of the opening frame, clamped. -/
def chunkBytes (tracker : Tracker) : ℕ := max 1 (min tracker.maxChunkBytes maxChunkBytesLimit)

inductive Event where
  | credit (creditBytes : ℕ)
  | reset

/-- Where the task is. -/
inductive Phase where
  /-- Before the local side answered; credit that arrives is discarded. -/
  | opening
  /-- The proxy waits for the next chunk of the local response. -/
  | pulling
  | sending (segments : List (List UInt8))
  | ended
  deriving DecidableEq

structure Sender where
  kind : Kind
  phase : Phase
  /-- The stream is in the manager's table, so frames for it reach `events`. -/
  registered : Bool
  availableCredit : ℕ
  offset : ℕ
  events : List Event

def u64Max : ℕ := 2 ^ 64 - 1

/-- `available_credit.saturating_add(credit_bytes)`. -/
def Sender.addCredit (sender : Sender) (creditBytes : ℕ) : Sender :=
  { sender with availableCredit := min (sender.availableCredit + creditBytes) u64Max }

/-! ### Both -/

structure Sys where
  sender : Sender
  toService : List Up
  toDaemon : List Down
  stream : Stream
  /-- The chunk `onData` is working on, and its `end_stream`. -/
  consuming : Option (List UInt8 × Bool)
  /-- Bytes given to `onData`, in order. -/
  delivered : List UInt8
  closedAt : Option ℕ
  resets : List ResetCode
  /-- Bytes the daemon sent, in order. -/
  sent : List UInt8
  /-- Bytes of chunks whose consumer failed; they are never granted again. -/
  failed : ℕ
  /-- Credit that arrived after the task had ended. -/
  late : ℕ

def init (tracker : Tracker) (kind : Kind) : Sys :=
  { sender :=
      { kind := kind
        phase := .opening
        registered := true
        availableCredit := tracker.initialCreditBytes
        offset := 0
        events := [] }
    toService := []
    toDaemon := []
    stream := registerStream tracker
    consuming := none
    delivered := []
    closedAt := none
    resets := []
    sent := []
    failed := 0
    late := 0 }

inductive Act where
  | body (bytes : List UInt8)
  /-- The local server answers; its body follows in chunks. -/
  | response
  /-- The local server answers a `HEAD` request. -/
  | head
  /-- The stream is refused before it carried anything. -/
  | rejected
  | chunk (bytes : List UInt8)
  | eof
  | readFailed
  | send
  | chunkSent
  | takeEvent
  /-- The daemon routes the next frame from the service. -/
  | routeDown
  /-- The service takes the next frame from the daemon. -/
  | takeUp
  /-- `onData` returns. -/
  | consumed
  /-- `onData` throws. -/
  | consumerFails

/-- The task moves on. When it returns the stream is unregistered. -/
def Sender.enter (sender : Sender) (phase : Phase) : Sender :=
  { sender with phase := phase, registered := sender.registered && decide (phase ≠ .ended) }

/-- `send_stream_data` for the next segment, when there is credit for it. -/
def send (s : Sys) : Option Sys :=
  match s.sender.phase with
  | .sending (segment :: segments) =>
    if segment.length ≤ s.sender.availableCredit then
      some
        { s with
          sender :=
            { s.sender.enter (.sending segments) with
              availableCredit := s.sender.availableCredit - segment.length
              offset := s.sender.offset + segment.length }
          toService := s.toService ++ [.data s.sender.offset segment false]
          sent := s.sent ++ segment }
    else none
  | _ => none

/-- `send_stream_close`, the last thing the task does. -/
def sendClose (s : Sys) : Sys :=
  { s with
    sender := s.sender.enter .ended
    toService := s.toService ++ [.close s.sender.offset] }

/-- The task reads its event channel: before the local response and between the chunks and segments
of the proxy, and whenever credit for the next segment is lacking. -/
def Sender.Reads (sender : Sender) : Prop :=
  match sender.phase with
  | .opening => sender.kind = .proxy
  | .pulling => True
  | .sending [] => sender.kind = .proxy
  | .sending (segment :: _) => sender.kind = .proxy ∨ sender.availableCredit < segment.length
  | .ended => False

instance (sender : Sender) : Decidable sender.Reads :=
  match h : sender.phase with
  | .opening | .sending [] => decidable_of_iff (sender.kind = .proxy) (by rw [Sender.Reads, h])
  | .pulling => .isTrue (by rw [Sender.Reads, h]; trivial)
  | .sending (segment :: _) =>
    decidable_of_iff (sender.kind = .proxy ∨ sender.availableCredit < segment.length)
      (by rw [Sender.Reads, h])
  | .ended => .isFalse (by rw [Sender.Reads, h]; exact id)

/-- One event: a reset ends the task, credit is added, or discarded before the local response. -/
def Sender.handle (sender : Sender) : Event → Sender
  | .reset => sender.enter .ended
  | .credit creditBytes =>
    if sender.phase = .opening then sender else sender.addCredit creditBytes

def takeEvent (s : Sys) : Option Sys :=
  match s.sender.events with
  | [] => none
  | event :: events =>
    if s.sender.Reads then
      some { s with sender := Sender.handle { s.sender with events := events } event }
    else none

/-- `apply_credit`, `apply_reset`: a stream that is not registered ignores the frame, and a reset
unregisters it. -/
def routeDown (s : Sys) : Option Sys :=
  match s.toDaemon with
  | [] => none
  | frame :: toDaemon =>
    let s := { s with toDaemon := toDaemon }
    some <|
      match frame, s.sender.registered with
      | .credit _ creditBytes, true =>
        { s with sender := { s.sender with events := s.sender.events ++ [.credit creditBytes] } }
      | .credit _ creditBytes, false => { s with late := s.late + creditBytes }
      | .reset _, true =>
        { s with
          sender := { s.sender with events := s.sender.events ++ [.reset], registered := false } }
      | .reset _, false => s
      | .close _, _ => s

def sendReset (s : Sys) (code : ResetCode) : Sys :=
  { s with toDaemon := s.toDaemon ++ [.reset code], resets := s.resets ++ [code] }

/-- `handleStreamData` up to its `await` of the consumer. -/
def handleStreamData (tracker : Tracker) (s : Sys) (offset : ℕ) (bytes : List UInt8)
    (endStream : Bool) : Sys :=
  if tracker.maxChunkBytes < bytes.length then sendReset s .chunkTooLarge
  else
    match recordInboundChunk s.stream offset bytes.length with
    | .error code => sendReset s code
    | .ok stream =>
      { s with
        stream := stream
        consuming := some (bytes, endStream)
        delivered := s.delivered ++ bytes }

def handleStreamClose (s : Sys) (finalOffset : ℕ) : Sys :=
  if finalOffset ≠ s.stream.receiveOffset then
    sendReset { s with stream := { s.stream with resetReason := some "protocol_error" } }
      .finalOffsetMismatch
  else { s with stream := { s.stream with remoteClosed := true }, closedAt := some finalOffset }

def handleStreamReset (s : Sys) (reason : String) : Sys :=
  { s with stream := { s.stream with resetReason := some reason } }

def takeUp (tracker : Tracker) (s : Sys) : Option Sys :=
  match s.consuming, s.toService with
  | none, frame :: toService =>
    let s := { s with toService := toService }
    some <|
      match frame with
      | .data offset bytes endStream => handleStreamData tracker s offset bytes endStream
      | .close finalOffset => handleStreamClose s finalOffset
      | .reset reason => handleStreamReset s reason
  | _, _ => none

/-- `handleStreamData` after the consumer returned. -/
def consumed (s : Sys) : Option Sys :=
  s.consuming.map fun (bytes, endStream) =>
    let stream := grantReceiveCredit s.stream bytes.length
    let s :=
      { s with
        stream := stream
        consuming := none
        toDaemon := s.toDaemon ++ [.credit stream.receiveOffset bytes.length] }
    if endStream then
      { s with
        stream := { stream with remoteClosed := true }
        closedAt := some stream.receiveOffset
        toDaemon := s.toDaemon ++ [.close stream.receiveOffset] }
    else s

def consumerFails (s : Sys) : Option Sys :=
  s.consuming.map fun (bytes, _) =>
    sendReset { s with consuming := none, failed := s.failed + bytes.length } .streamConsumerFailed

def step (tracker : Tracker) (s : Sys) : Act → Option Sys
  | .body bytes =>
    match s.sender.kind, s.sender.phase with
    | .file, .opening =>
      some
        { s with
          sender := s.sender.enter (.sending (Chunks.chunks (chunkBytes tracker) bytes)) }
    | _, _ => none
  | .response =>
    match s.sender.kind, s.sender.phase with
    | .proxy, .opening => some { s with sender := s.sender.enter .pulling }
    | _, _ => none
  | .head =>
    match s.sender.kind, s.sender.phase with
    | .proxy, .opening => some (sendClose s)
    | _, _ => none
  | .rejected =>
    match s.sender.phase with
    | .opening => some { s with sender := s.sender.enter .ended }
    | _ => none
  | .chunk bytes =>
    match s.sender.phase with
    | .pulling =>
      some
        { s with
          sender := s.sender.enter (.sending (Chunks.chunks (chunkBytes tracker) bytes)) }
    | _ => none
  | .eof =>
    match s.sender.phase with
    | .pulling => some (sendClose s)
    | _ => none
  | .readFailed =>
    match s.sender.phase with
    | .pulling =>
      some
        { s with
          sender := s.sender.enter .ended
          toService := s.toService ++ [.reset "remote_error"] }
    | _ => none
  | .send => send s
  | .chunkSent =>
    match s.sender.kind, s.sender.phase with
    | .file, .sending [] => some (sendClose s)
    | .proxy, .sending [] => some { s with sender := s.sender.enter .pulling }
    | _, _ => none
  | .takeEvent => takeEvent s
  | .routeDown => routeDown s
  | .takeUp => takeUp tracker s
  | .consumed => consumed s
  | .consumerFails => consumerFails s

end Bud.DataPlane
