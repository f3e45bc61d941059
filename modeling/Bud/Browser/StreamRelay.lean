import Mathlib.Algebra.GroupWithZero.Nat
import Mathlib.Algebra.Order.Ring.Rat
import Mathlib.Data.List.Basic

/-!
# The private stream relay

`PrivateStreamRelay` of `browser/stream-media.ts`: the frames and resets of one daemon's screencast
on their way to one viewer. Nothing is forwarded without an authorisation of its own; a reset fences
the frames before it at once, also while an authorisation is pending, and a frame that is overtaken
is discarded, with an acknowledgement to the daemon in the viewer's place.

## Modelling notes

Two loops wait inside the relay. `applyResets` awaits an authorisation with a reset in hand, and
`drain` awaits with a frame in hand first the loop of the resets, if there is one, and then an
authorisation. What each has in hand and waits for is part of the state: `resetting` is the loop of
the resets, and `processing` is `drain ≠ .idle`. A step is one event, or the wake-up of `drain`,
with all that follows up to the next await; the `finally` of a loop is run with its end. An
exception leaves the state as it is at the throw.

What the sockets and the clock say is given to each step. `closeWithFailure` is `dispose` here: what
the relay's owner does about it is to dispose of the relay. Diagnostics are left out.

Strings are their UTF-16 code units. A packet is given by its length, its length field and what is
found in it: `header` is what `JSON.parse` makes of the header's bytes, `none` if it is not an
object with these fields. Errors are given by their `streamErrorCode`.

Authorisations are numbered in the order in which they begin. Each frame and reset carries the
number that the next authorisation had when it arrived, and each message to the viewer the number of
the one it was sent on.
-/

namespace Bud.Browser

/-- A JavaScript string. -/
abbrev Text := List UInt16

/-! ### Packets -/

structure StreamHeader where
  mediaGeneration : Text
  frameSequence : ℕ
  targetId : Text
  documentId : Text
  frameToken : Text
  viewportId : Option Text
  width : ℚ
  height : ℚ
  bitmapWidth : ℕ
  bitmapHeight : ℕ
  imageBytes : ℕ
  sourceAgeMs : ℚ
  deriving DecidableEq

/-- `id`. -/
def isId (value : Text) : Bool := 1 ≤ value.length && value.length ≤ 128

def maxSafeInteger : ℕ := 2 ^ 53 - 1

def streamHeader (header : StreamHeader) : Bool :=
  isId header.mediaGeneration &&
    0 < header.frameSequence && header.frameSequence ≤ maxSafeInteger &&
    isId header.targetId && isId header.documentId && isId header.frameToken &&
    header.viewportId.all isId &&
    0 < header.width && header.width ≤ 8192 && 0 < header.height && header.height ≤ 8192 &&
    0 < header.bitmapWidth && header.bitmapWidth ≤ 2560 &&
    0 < header.bitmapHeight && header.bitmapHeight ≤ 2560 &&
    0 < header.imageBytes && header.imageBytes ≤ 1024 * 1024 &&
    0 ≤ header.sourceAgeMs && header.sourceAgeMs ≤ 150

structure StreamPacket where
  length : ℕ
  /-- The first four bytes are `BSC1`. -/
  magic : Bool
  headerLength : ℕ
  header : Option StreamHeader
  deriving DecidableEq

def parseStreamPacket (raw : StreamPacket) : Except String StreamHeader :=
  if raw.length < 9 || raw.length > 1024 * 1024 + 4104 || !raw.magic then .error "stream_bounds"
  else if raw.headerLength < 2 || raw.headerLength > 4096 || 8 + raw.headerLength ≥ raw.length then
    .error "stream_header_bounds"
  else
    match raw.header with
    | none => .error "stream_json"
    | some header =>
      if !streamHeader header then .error "stream_schema"
      else if header.imageBytes ≠ raw.length - 8 - raw.headerLength ||
          header.bitmapWidth * header.bitmapHeight > 4000000 then .error "stream_image_bounds"
      else .ok header

structure StreamTarget where
  targetId : Text
  origin : Text
  deriving DecidableEq

/-- The value of a `reset`. -/
structure ResetValue where
  mediaVersion : ℕ
  mediaGeneration : Text
  targets : List StreamTarget
  deriving DecidableEq

def ResetValue.valid (value : ResetValue) : Bool :=
  value.mediaVersion = 1 && isId value.mediaGeneration &&
    value.targets.all (fun target => isId target.targetId && target.origin.length ≤ 2048) &&
    value.targets.length ≤ 16

structure ResetPacket where
  byteLength : ℕ
  value : Option ResetValue
  deriving DecidableEq

inductive Disposition where
  | presented
  | discarded

structure FrameAck where
  mediaGeneration : Text
  frameSequence : ℕ
  disposition : Disposition

def FrameAck.valid (ack : FrameAck) : Bool :=
  isId ack.mediaGeneration && 0 < ack.frameSequence && ack.frameSequence ≤ maxSafeInteger

/-! ### The relay -/

/-- How an authorisation ends. -/
inductive Authorization where
  | allowed
  | denied
  /-- The promise is rejected. -/
  | failed
  deriving DecidableEq

/-- A value of `outstanding`, with its key. -/
structure Outstanding where
  sequence : ℕ
  generation : Text
  bytes : ℕ
  acceptedAt : ℕ
  forwarded : Bool

structure Frame where
  raw : StreamPacket
  sequence : ℕ
  generation : Text
  arrived : ℕ
  deriving DecidableEq

structure Reset where
  value : ResetValue
  generation : Text
  arrived : ℕ
  deriving DecidableEq

/-- What `await this.resetting` waits for. -/
inductive Awaited where
  | pending
  | fulfilled
  | rejected
  deriving DecidableEq

inductive Drain where
  | idle
  | waiting (frame : Frame) (resetting : Awaited)
  | authorizing (frame : Frame) (check : ℕ)
  deriving DecidableEq

/-- An outstanding frame that has been retired, and if the daemon was told. -/
structure Retired where
  ack : FrameAck
  sent : Bool

/-- A message to the viewer, with its authorisation. -/
inductive Sent where
  | reset (reset : Reset) (check : ℕ)
  | frame (frame : Frame) (check : ℕ)
  deriving DecidableEq

structure Relay where
  generation : Text
  sequence : ℕ
  deliveredGeneration : Text
  outstanding : List Outstanding
  pending : Option Frame
  /-- The reset that `applyResets` has in hand, and the authorisation it awaits. -/
  resetting : Option (Reset × ℕ)
  pendingReset : Option Reset
  resetAt : ℕ
  drain : Drain
  closed : Bool
  begun : ℕ
  ended : List (ℕ × Authorization)
  resets : List Text
  accepted : List Frame
  retired : List Retired
  viewer : List Sent

def init : Relay :=
  { generation := []
    sequence := 0
    deliveredGeneration := []
    outstanding := []
    pending := none
    resetting := none
    pendingReset := none
    resetAt := 0
    drain := .idle
    closed := false
    begun := 0
    ended := []
    resets := []
    accepted := []
    retired := []
    viewer := [] }

/-- What the sockets and the clock say. -/
structure Sockets where
  now : ℕ
  daemonOpen : Bool
  viewerOpen : Bool
  bufferedAmount : ℕ

def Relay.dispose (s : Relay) : Relay :=
  { s with
    closed := true
    pending := none
    pendingReset := none
    outstanding := [] }

def Relay.closeWithFailure (s : Relay) : Relay := if s.closed then s else s.dispose

/-- `none` is the error `stream_invalid_ack`. -/
def Relay.retire (s : Relay) (sockets : Sockets) (sequence : ℕ) (generation : Text)
    (disposition : Disposition) : Option Relay :=
  match s.outstanding.find? fun item => item.sequence = sequence with
  | none => none
  | some item =>
    if item.generation ≠ generation then none
    else some
      { s with
        outstanding := s.outstanding.filter fun item => item.sequence ≠ sequence
        retired := s.retired ++
          [⟨⟨generation, sequence, disposition⟩, !s.closed && sockets.daemonOpen⟩] }

def Relay.discardPending (s : Relay) (sockets : Sockets) : Option Relay :=
  match s.pending with
  | none => some s
  | some frame =>
    (s.retire sockets frame.sequence frame.generation .discarded).map fun s =>
      { s with pending := none }

/-! ### The loops -/

/-- The loop of the resets ends, and with it what `drain` waits for. -/
def Drain.resume (outcome : Awaited) : Drain → Drain
  | .waiting frame .pending => .waiting frame outcome
  | drain => drain

/-- `applyResets` ends. -/
def Relay.endResets (s : Relay) (outcome : Awaited) : Relay :=
  { s with
    resetting := none
    resetAt := 0
    drain := s.drain.resume outcome }

/-- `applyResets` from the head of its loop. -/
def Relay.applyResets (s : Relay) : Relay :=
  match s.pendingReset with
  | some reset =>
    if s.closed then s.endResets .fulfilled
    else
      { s with
        pendingReset := none
        resetting := some (reset, s.begun)
        begun := s.begun + 1 }
  | none => s.endResets .fulfilled

/-- `drain` from the head of its loop. -/
def Relay.drainLoop (s : Relay) : Relay :=
  match s.pending with
  | some frame =>
    if s.closed then { s with drain := .idle }
    else
      { s with
        pending := none
        drain := .waiting frame (if s.resetting.isSome then .pending else .fulfilled) }
  | none => { s with drain := .idle }

/-- `applyResets` from its await on. -/
def Relay.resetAuthorized (s : Relay) (reset : Reset) (check : ℕ) (result : Authorization)
    (sockets : Sockets) : Relay :=
  let s : Relay := { s with ended := s.ended ++ [(check, result)] }
  match result with
  | .failed => s.endResets .rejected
  | .denied => s.closeWithFailure.endResets .fulfilled
  | .allowed =>
    if s.closed then s.closeWithFailure.endResets .fulfilled
    else if reset.generation ≠ s.generation then s.applyResets
    else if !sockets.viewerOpen || sockets.bufferedAmount > 2 * 1024 * 1024 then
      s.closeWithFailure.endResets .fulfilled
    else
      Relay.applyResets
        { s with
          viewer := s.viewer ++ [.reset reset check]
          deliveredGeneration := reset.generation }

/-- The frame is retired, and `drain` goes on. -/
def Relay.discard (s : Relay) (sockets : Sockets) (frame : Frame) : Relay :=
  match s.retire sockets frame.sequence frame.generation .discarded with
  | some s => s.drainLoop
  | none => Relay.closeWithFailure { s with drain := .idle }

/-- `drain` from its second await on. -/
def Relay.frameAuthorized (s : Relay) (frame : Frame) (check : ℕ) (result : Authorization)
    (sockets : Sockets) : Relay :=
  let s : Relay := { s with ended := s.ended ++ [(check, result)] }
  if result = .failed then Relay.closeWithFailure { s with drain := .idle }
  else if s.closed then { s with drain := .idle }
  else if result ≠ .allowed || !sockets.viewerOpen then
    Relay.closeWithFailure { s with drain := .idle }
  else if frame.generation ≠ s.generation || frame.generation ≠ s.deliveredGeneration then
    s.discard sockets frame
  else if sockets.bufferedAmount + frame.raw.length > 2 * 1024 * 1024 then
    Relay.closeWithFailure { s with drain := .idle }
  else
    match s.outstanding.find? fun item => item.sequence = frame.sequence with
    | none => Relay.closeWithFailure { s with drain := .idle }
    | some credit =>
      if sockets.now - credit.acceptedAt > 150 then s.discard sockets frame
      else
        Relay.drainLoop
          { s with
            outstanding := s.outstanding.map fun item =>
              if item.sequence = frame.sequence then { item with forwarded := true } else item
            viewer := s.viewer ++ [.frame frame check] }

/-- `drain` from its first await on. -/
def Relay.wake (s : Relay) : Option Relay :=
  match s.drain with
  | .waiting frame .fulfilled =>
    if s.closed then some { s with drain := .idle }
    else some
      { s with
        drain := .authorizing frame s.begun
        begun := s.begun + 1 }
  | .waiting _ .rejected => some (Relay.closeWithFailure { s with drain := .idle })
  | _ => none

/-! ### What the sockets bring -/

/-- `reset`, with what it throws. -/
def Relay.reset (s : Relay) (raw : ResetPacket) (sockets : Sockets) : Relay × Option String :=
  if raw.byteLength > 40 * 1024 then (s, some "stream_reset_bounds")
  else if s.closed then (s, some "stream_closed")
  else
    match raw.value with
    | none => (s, some "stream_json")
    | some value =>
      if !value.valid then (s, some "stream_schema")
      else if s.generation = value.mediaGeneration then (s, some "stream_duplicate_generation")
      else
        let s : Relay :=
          { s with
            generation := value.mediaGeneration
            resets := s.resets ++ [value.mediaGeneration] }
        match s.discardPending sockets with
        | none => (s, some "stream_invalid_ack")
        | some s =>
          let s : Relay := { s with pendingReset := some ⟨value, value.mediaGeneration, s.begun⟩ }
          if s.resetting.isSome then (s, none)
          else (Relay.applyResets { s with resetAt := sockets.now }, none)

/-- `frame`, with what it throws. -/
def Relay.frame (s : Relay) (raw : StreamPacket) (sockets : Sockets) : Relay × Option String :=
  match parseStreamPacket raw with
  | .error error => (s, some error)
  | .ok header =>
    if s.closed || header.mediaGeneration ≠ s.generation || header.frameSequence ≤ s.sequence then
      (s, some "stream_sequence")
    else if s.outstanding.length ≥ 3 ||
        (s.outstanding.map Outstanding.bytes).sum + raw.length > 2 * 1024 * 1024 then
      (s, some "stream_credit")
    else
      let frame : Frame := ⟨raw, header.frameSequence, header.mediaGeneration, s.begun⟩
      let s : Relay :=
        { s with
          sequence := header.frameSequence
          outstanding := s.outstanding ++
            [⟨header.frameSequence, header.mediaGeneration, raw.length, sockets.now, false⟩]
          accepted := s.accepted ++ [frame] }
      match s.discardPending sockets with
      | none => (s, some "stream_invalid_ack")
      | some s =>
        let s : Relay := { s with pending := some frame }
        (if s.drain = .idle then s.drainLoop else s, none)

/-- `feedback`, with what it throws. -/
def Relay.feedback (s : Relay) (raw : Option FrameAck) (sockets : Sockets) :
    Relay × Option String :=
  match raw with
  | none => (s, some "stream_json")
  | some value =>
    if !value.valid then (s, some "stream_schema")
    else if ((s.outstanding.find? fun item => item.sequence = value.frameSequence).all
        fun item => !item.forwarded) then (s, some "stream_unforwarded_ack")
    else
      match s.retire sockets value.frameSequence value.mediaGeneration value.disposition with
      | none => (s, some "stream_invalid_ack")
      | some s => (s, none)

def Relay.tick (s : Relay) (now : ℕ) : Relay :=
  if (s.resetAt ≠ 0 && now - s.resetAt > 1000) ||
      s.outstanding.any (fun value => now - value.acceptedAt > 1000) then s.closeWithFailure
  else s

/-! ### Steps -/

inductive Act where
  | reset (raw : ResetPacket) (sockets : Sockets)
  | frame (raw : StreamPacket) (sockets : Sockets)
  | feedback (raw : Option FrameAck) (sockets : Sockets)
  | resetAuthorized (result : Authorization) (sockets : Sockets)
  | wake
  | frameAuthorized (result : Authorization) (sockets : Sockets)
  | tick (now : ℕ)
  | dispose

/-- One step; `none` is an action that cannot happen. -/
def step (s : Relay) : Act → Option Relay
  | .reset raw sockets => some (s.reset raw sockets).1
  | .frame raw sockets => some (s.frame raw sockets).1
  | .feedback raw sockets => some (s.feedback raw sockets).1
  | .resetAuthorized result sockets =>
    s.resetting.map fun ⟨reset, check⟩ => s.resetAuthorized reset check result sockets
  | .wake => s.wake
  | .frameAuthorized result sockets =>
    match s.drain with
    | .authorizing frame check => some (s.frameAuthorized frame check result sockets)
    | _ => none
  | .tick now => some (s.tick now)
  | .dispose => some s.dispose

end Bud.Browser
