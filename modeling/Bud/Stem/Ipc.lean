import Mathlib.Data.Int.Notation
import Mathlib.Data.List.Basic

/-!
# The holder protocol

`ipc.rs`: the messages between a session's holder and its clients. A connection is
request/response until `subscribe` converts it to push mode, after which the holder only pushes
`output`, `truncated` and `childExited`.

Frames are kept as messages: a frame is read or written whole. The length prefix and the postcard
payload are the subject of `Framing`.
-/

namespace Bud.Ipc

/-- Preferred maximum bytes per `output` push. -/
def outputChunk : ℕ := 32 * 1024

inductive ClientMsg where
  | hello (protoVersion : ℕ)
  | write (bytes : List UInt8)
  | resize (cols rows : ℕ)
  | subscribe (fromOffset : ℕ)
  | ringRead (start stop : ℕ)
  | stat
  | kill
  | shutdown
  | queryTermios

inductive HolderMsg where
  | helloAck (protoVersion : ℕ) (holderVersion : String) (childPid : ℤ)
  | ok
  | err (msg : String)
  /-- `offset` addresses the first byte of `bytes`, absolute from session start. -/
  | output (offset : ℕ) (bytes : List UInt8)
  /-- The requested offset predates the oldest retained byte. -/
  | truncated (oldestOffset : ℕ)
  | childExited (exitCode signal : Option ℤ)
  | statAck (ringOldestOffset ringNextOffset : ℕ) (childPid : ℤ) (childAlive : Bool)
      (cols rows : ℕ)
  /-- `truncatedFrom` is set when `start` was clamped forward past truncated bytes. -/
  | ringData (start : ℕ) (bytes : List UInt8) (truncatedFrom : Option ℕ)
  | termiosAck (echo icanon : Bool)
  deriving DecidableEq

end Bud.Ipc
