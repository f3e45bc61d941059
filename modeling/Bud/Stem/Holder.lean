import Bud.Lib.Chunks
import Bud.Lib.Runs
import Bud.Stem.Ipc
import Bud.Stem.Ring

/-!
# The holder process

`holder.rs`: one process per session that owns the PTY. Three kinds of threads share `Inner`
behind one mutex: the pump (`pty_pump`) appends what it reads to the ring and fans it out, the
reaper (`reap_child`) records the child's exit and fans that out, and one thread per connection
answers requests or, after `subscribe`, pushes to its client.

Everything a thread does under the mutex is one action here, and so is every write of one frame
and every receive from a channel: those are the points at which threads can interleave. A run is a
list of actions, in whatever order the scheduler chose.

## Modelling notes

`subscribers` holds every connection that ever subscribed, in registration order; `alive` is
`false` once its handler returned and dropped the receiver, after which `tx.send` fails and
`retain` forgets the sender. `Write` and `QueryTermios` act on the PTY alone and are left out.

An action whose I/O fails is `none`. The ring's operations never do (`Refines.append`,
`Refines.readRange`).
-/

namespace Bud.Holder

open Bud.Ipc Bud.Ring

structure ChildExit where
  exitCode : Option ℤ
  signal : Option ℤ

inductive SubEvent where
  | output (offset : ℕ) (bytes : List UInt8)
  | exited (exit : ChildExit)

/-- A connection in push mode, with the thread that serves it. -/
structure Subscriber where
  /-- Sent to the channel and not yet received. -/
  rx : List SubEvent
  /-- What the handler has still to write before it receives again. -/
  todo : List HolderMsg
  /-- Written to the connection, in order. -/
  sent : List HolderMsg
  alive : Bool

/-- `Shared` with the fields of `Inner` in it. -/
structure Shared where
  ring : RingFile
  subscribers : List Subscriber
  exit : Option ChildExit
  cols : ℕ
  rows : ℕ
  childPid : ℤ
  /-- The pump has not reached the end of the PTY. -/
  pumping : Bool

/-- The pump's read buffer. -/
def pumpBuf : ℕ := 8192

/-- Cap on one `RingRead` response. -/
def ringReadMax : ℕ := 128 * 1024

/-- `holder_body` on a fresh session directory. -/
def init (cap cols rows : ℕ) (childPid : ℤ) : Shared :=
  { ring := RingFile.open [] cap
    subscribers := []
    exit := none
    cols := cols
    rows := rows
    childPid := childPid
    pumping := true }

/-! ### Pushing -/

/-- The loop of `write_output_chunks`. -/
def outputFrames : ℕ → List (List UInt8) → List HolderMsg
  | _, [] => []
  | off, chunk :: chunks => .output off chunk :: outputFrames (off + chunk.length) chunks

def writeOutputChunks (offset : ℕ) (bytes : List UInt8) : List HolderMsg :=
  outputFrames offset (Chunks.chunks outputChunk bytes)

def childExited (exit : ChildExit) : HolderMsg := .childExited exit.exitCode exit.signal

/-- What the push loop writes for one received event. -/
def SubEvent.frames : SubEvent → List HolderMsg
  | .output offset bytes => writeOutputChunks offset bytes
  | .exited exit => [childExited exit]

/-- `tx.send(event)`: a dropped receiver takes nothing. -/
def Subscriber.send (event : SubEvent) (sub : Subscriber) : Subscriber :=
  if sub.alive then { sub with rx := sub.rx ++ [event] } else sub

/-- What `serve_subscription` writes before its push loop. -/
def replayFrames (replay : RingRead) (exited : Option ChildExit) : List HolderMsg :=
  (if replay.truncatedFrom.isSome then [.truncated replay.start] else []) ++
    writeOutputChunks replay.start replay.bytes ++
    -- a late subscriber: the child already exited before it registered
    exited.toList.map childExited

/-- The critical section of `serve_subscription`: the ring is read, the channel registered and
the exit status taken together. -/
def subscribe (sh : Shared) (fromOffset : ℕ) : Option Shared :=
  let next := sh.ring.nextOffset
  (sh.ring.readRange (min fromOffset next) next).map fun replay =>
    { sh with subscribers := sh.subscribers ++
        [{ rx := [], todo := replayFrames replay sh.exit, sent := [], alive := true }] }

/-! ### Requests -/

/-- The fields of `StatAck`. -/
structure Stat where
  ringOldestOffset : ℕ
  ringNextOffset : ℕ
  childPid : ℤ
  childAlive : Bool
  cols : ℕ
  rows : ℕ

def stat (sh : Shared) : Stat :=
  { ringOldestOffset := sh.ring.oldestOffset
    ringNextOffset := sh.ring.nextOffset
    childPid := sh.childPid
    childAlive := sh.exit.isNone
    cols := sh.cols
    rows := sh.rows }

/-- `RingRead`: the response is capped from where the clamped range starts. -/
def ringReadReply (sh : Shared) (start stop : ℕ) : Option RingRead :=
  let effStart := max start sh.ring.oldestOffset
  sh.ring.readRange start (min stop (effStart + ringReadMax))

/-! ### The threads -/

inductive Act where
  /-- The pump reads `bytes`, appends them and fans them out, under the lock. -/
  | ptyRead (bytes : List UInt8)
  /-- The pump reads the end of the PTY. -/
  | ptyEof
  /-- The reaper records the status and fans it out, under the lock. Its wait for the pump is
  bounded, so the pump may still be running. -/
  | reap (exit : ChildExit)
  | resize (cols rows : ℕ)
  | subscribe (fromOffset : ℕ)
  /-- Handler `k` writes its next frame. -/
  | writeFrame (k : ℕ)
  /-- Handler `k` receives from its channel. -/
  | recv (k : ℕ)
  /-- Handler `k` returns: its client hung up, or the holder shuts down. -/
  | disconnect (k : ℕ)

/-- Handler `sub` writes its next frame. -/
def Subscriber.writeFrame (sub : Subscriber) : Option Subscriber :=
  match sub.alive, sub.todo with
  | true, frame :: todo => some { sub with todo := todo, sent := sub.sent ++ [frame] }
  | _, _ => none

/-- Handler `sub`, with nothing left to write, receives one event. -/
def Subscriber.recv (sub : Subscriber) : Option Subscriber :=
  match sub.alive, sub.todo, sub.rx with
  | true, [], event :: rx => some { sub with rx := rx, todo := event.frames }
  | _, _, _ => none

def Subscriber.disconnect (sub : Subscriber) : Option Subscriber :=
  some { sub with alive := false, rx := [], todo := [] }

/-- One handler takes a step of its own. -/
def modify (sh : Shared) (k : ℕ) (f : Subscriber → Option Subscriber) : Option Shared :=
  (sh.subscribers[k]?).bind fun sub => (f sub).map fun sub' =>
    { sh with subscribers := sh.subscribers.set k sub' }

def step (sh : Shared) : Act → Option Shared
  | .ptyRead bytes =>
    if sh.pumping = true ∧ bytes ≠ [] ∧ bytes.length ≤ pumpBuf then
      let offset := sh.ring.nextOffset
      (sh.ring.append bytes).map fun ring =>
        { sh with ring := ring, subscribers := sh.subscribers.map (.send (.output offset bytes)) }
    else none
  | .ptyEof => if sh.pumping then some { sh with pumping := false } else none
  | .reap exit =>
    if sh.exit = none then
      some { sh with exit := some exit, subscribers := sh.subscribers.map (.send (.exited exit)) }
    else none
  | .resize cols rows => some { sh with cols := cols, rows := rows }
  | .subscribe fromOffset => subscribe sh fromOffset
  | .writeFrame k => modify sh k Subscriber.writeFrame
  | .recv k => modify sh k Subscriber.recv
  | .disconnect k => modify sh k Subscriber.disconnect

/-- What the PTY produced in one action. -/
def Act.output : Act → List UInt8
  | .ptyRead bytes => bytes
  | _ => []

/-- What the PTY produced over a run. -/
def produced (acts : List Act) : List UInt8 := acts.flatMap Act.output

end Bud.Holder
