import Bud.Stem.Holder
import Bud.Stem.Session

/-!
# Attaching to a holder

`session.rs`, `Session::attach` and `event_loop`: the daemon's task for one session. It asks for
the ring's extent, replays the ring in `RingRead` requests while the pump keeps appending to it,
sends what it collected, subscribes from where the replay ended, and then handles pushes.

A run interleaves the task's actions with those of the holder (`Holder.Act`): between two requests
the ring can grow and evict. Requests are answered under the holder's lock, so each is one action.

## Modelling notes

The client's reader task passes a subscription's frames on in order, so the task's `recv` takes the
next frame its connection was sent. `deadline` says that a quiet deadline is armed; when it fires
is left to the scheduler. Sending to the consumer succeeds; a consumer that went away ends the
task, which is `close`.
-/

namespace Bud.Attach

open Bud.Ipc Semantic Modes Emulator Grid Vte Session

structure Config where
  resumeFrom : ℕ
  scrollbackLines : ℕ
  quietMs : ℕ
  isRepl : List Char → Option String

/-- Where `event_loop` is. -/
inductive Phase where
  /-- Before `Stat`. -/
  | connecting
  /-- In the replay loop, with the events collected so far; `stopped` once a reply was empty. -/
  | replaying (ringOldest ringNext cursor : ℕ) (events : List Event) (stopped : Bool)
  /-- The collected events are sent, `Subscribe` is next. -/
  | replayed (ringOldest replayEnd : ℕ)
  /-- In the live loop on subscription `k`, of which `seen` frames were received. -/
  | live (k seen replayEnd liveCursor : ℕ) (deadline : Bool)
  | ended

structure Sys (V T : Type) where
  holder : Holder.Shared
  inner : Session.Inner V T
  phase : Phase
  /-- Events sent to the consumer, in order. -/
  emitted : List Event

inductive Act where
  | holder (act : Holder.Act)
  | stat
  | ringRead
  | finishReplay
  | subscribe
  /-- The live loop takes the next push. -/
  | recv
  /-- A programmatic write arms the quiet timer. -/
  | armSettle
  /-- The quiet deadline fires. -/
  | quiet
  | close

/-- Clip a chunk against the parse cursor: `none` when it is entirely below, otherwise the offset
it is processed at and the bytes to skip. -/
def clipBeforeCursor (cursor offset len : ℕ) : Option (ℕ × ℕ) :=
  if offset + len ≤ cursor then none
  else some (offset + (cursor - offset), cursor - offset)

/-- The gap announced when the ring no longer reaches back to the resume offset. -/
def replayGap (cfg : Config) (ringOldest : ℕ) : List Event :=
  if cfg.resumeFrom < ringOldest then [.outputGap cfg.resumeFrom ringOldest] else []

section

variable {V T : Type} [Parser V] [Terminal T]

def init (holder : Holder.Shared) : Sys V T :=
  { holder := holder, inner := Session.Inner.new 0 0 0 0, phase := .connecting, emitted := [] }

/-- One request of the replay loop. -/
def ringRead (cfg : Config) (s : Sys V T) (ringOldest ringNext cursor : ℕ) (events : List Event) :
    Option (Sys V T) :=
  (Holder.ringReadReply s.holder cursor ringNext).map fun reply =>
    if reply.bytes = [] then { s with phase := .replaying ringOldest ringNext cursor events true }
    else
      let (inner, out, _) :=
        processChunk s.inner reply.start reply.bytes cfg.resumeFrom false false
      { s with
        inner := inner
        phase := .replaying ringOldest ringNext (reply.start + reply.bytes.length)
          (events ++ out) false }

/-- One push of the live loop. -/
def handlePush (s : Sys V T) (k seen replayEnd liveCursor : ℕ) (deadline : Bool) :
    HolderMsg → Sys V T
  | .output offset bytes =>
    match clipBeforeCursor liveCursor offset bytes.length with
    | none => { s with phase := .live k (seen + 1) replayEnd liveCursor deadline }
    | some (offset, skip) =>
      let bytes := bytes.drop skip
      let (inner, out, damaged) := processChunk s.inner offset bytes 0 true true
      { s with
        inner := if damaged then { inner with settledPending := true } else inner
        phase := .live k (seen + 1) replayEnd (offset + bytes.length) (damaged || deadline)
        emitted := s.emitted ++ out }
  | .truncated oldestOffset =>
    { s with
      phase := .live k (seen + 1) replayEnd liveCursor deadline
      emitted := s.emitted ++ [.outputGap replayEnd oldestOffset] }
  | .childExited exitCode signal =>
    { s with
      phase := .live k (seen + 1) replayEnd liveCursor deadline
      emitted := s.emitted ++ [.childExited exitCode signal] }
  -- any other frame ends the subscription
  | _ => { s with phase := .ended }

/-- The quiet point: REPL detection on the settled screen, then `Settled`. -/
def quietPoint (cfg : Config) (inner : Session.Inner V T) : Session.Inner V T × List Event :=
  if inner.settledPending then
    let line := (inner.emu.screenLines[inner.emu.cursor.row]?).getD []
    let (modes, change) := inner.modes.onQuietCursorLine cfg.isRepl line
    let settled :=
      if modes.mode ≠ .shell ∨ inner.openCommand.isSome ∨ inner.inputPending then
        [Event.settled modes.mode cfg.quietMs]
      else []
    ({ inner with modes := modes, settledPending := false, inputPending := false },
      modeEvents true change ++ settled)
  else ({ inner with inputPending := false }, [])

def step (cfg : Config) (s : Sys V T) : Act → Option (Sys V T)
  | .holder act => (Holder.step s.holder act).map fun holder => { s with holder := holder }
  | .stat =>
    match s.phase with
    | .connecting =>
      let stat := Holder.stat s.holder
      some
        { s with
          inner := Session.Inner.new stat.cols stat.rows cfg.scrollbackLines stat.ringOldestOffset
          phase := .replaying stat.ringOldestOffset stat.ringNextOffset stat.ringOldestOffset []
            false }
    | _ => none
  | .ringRead =>
    match s.phase with
    | .replaying ringOldest ringNext cursor events false =>
      if cursor < ringNext then ringRead cfg s ringOldest ringNext cursor events else none
    | _ => none
  | .finishReplay =>
    match s.phase with
    | .replaying ringOldest ringNext cursor events stopped =>
      if stopped = true ∨ ringNext ≤ cursor then
        some
          { s with
            inner := { s.inner with emu := s.inner.emu.syncScrollAnchor }
            phase := .replayed ringOldest cursor
            emitted := s.emitted ++ replayGap cfg ringOldest ++
              [.modeChanged s.inner.modes.mode s.inner.modes.integration] ++ events }
      else none
    | _ => none
  | .subscribe =>
    match s.phase with
    | .replayed ringOldest replayEnd =>
      (Holder.step s.holder (.subscribe replayEnd)).map fun holder =>
        let pending := decide (ringOldest < replayEnd)
        { s with
          holder := holder
          inner := if pending then { s.inner with settledPending := true } else s.inner
          phase := .live s.holder.subscribers.length 0 replayEnd replayEnd pending }
    | _ => none
  | .recv =>
    match s.phase with
    | .live k seen replayEnd liveCursor deadline =>
      ((s.holder.subscribers[k]?).bind fun sub => sub.sent[seen]?).map fun frame =>
        handlePush s k seen replayEnd liveCursor deadline frame
    | _ => none
  | .armSettle =>
    match s.phase with
    | .live k seen replayEnd liveCursor _ =>
      some
        { s with
          inner := { s.inner with settledPending := true, inputPending := true }
          phase := .live k seen replayEnd liveCursor true }
    | _ => none
  | .quiet =>
    match s.phase with
    | .live k seen replayEnd liveCursor true =>
      let (inner, out) := quietPoint cfg s.inner
      some
        { s with
          inner := inner
          phase := .live k seen replayEnd liveCursor false
          emitted := s.emitted ++ out }
    | _ => none
  | .close =>
    match s.phase with
    | .ended => none
    | _ => some { s with phase := .ended }

end

/-- What the PTY produced in one action. -/
def Act.output : Act → List UInt8
  | .holder act => act.output
  | _ => []

/-- What the PTY produced over a run. -/
def produced (acts : List Act) : List UInt8 := acts.flatMap Act.output

end Bud.Attach
