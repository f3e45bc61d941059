import Bud.Lib.ExactReads
import Bud.Lib.LittleEndian
import Bud.Stem.Ipc
import Mathlib.Data.List.Forall2

/-!
# Frames of the holder protocol

`ipc.rs`: a frame is the length of its payload as a little-endian `u32`, and the payload, a message
in postcard's encoding. `read_frame_sync` and `read_frame_async` are one text over two `read_exact`,
the one of `std` on the holder's side and the one of `tokio` on the client's.

Postcard is a pair of functions. `read_exact` of `std` is `ExactReads.readExact`; the one of `tokio`
is a function that meets the same contract.

## The end of a stream

Both readers report the end of the stream as `UnexpectedEof`, whether it comes between two frames or
within one. What tells the two apart is the position of the stream at the call that fails: nothing
is left, or a proper beginning of a frame.
-/

namespace Bud.Framing

open ExactReads LittleEndian List

/-- Hard cap on a single frame's postcard payload. -/
def maxFrame : ℕ := 256 * 1024

inductive StemError where
  | io (kind : ReadError)
  | ipc (msg : String)
  | frameTooLarge (size max : ℕ)

/-- The encoder and the decoder of `postcard` at one type, with the texts of their errors. -/
structure Postcard (T : Type) where
  toStdvec : T → Except String (List UInt8)
  fromBytes : List UInt8 → Except String T

variable {T σ τ : Type} (postcard : Postcard T)

def encodeFrame (msg : T) : Except StemError (List UInt8) := do
  let payload ← (postcard.toStdvec msg).mapError .ipc
  if payload.length > maxFrame then throw (.frameTooLarge payload.length maxFrame)
  return toLeBytes 4 payload.length ++ payload

def decodePayload (payload : List UInt8) : Except StemError T :=
  (postcard.fromBytes payload).mapError .ipc

/-! ### The readers -/

/-- The text of both readers. -/
def readFrame (readExact : ℕ → σ → Except ReadError (List UInt8 × σ)) (r : σ) :
    Except StemError (List UInt8 × σ) := do
  let (len, r) ← (readExact 4 r).mapError .io
  let len := fromLeBytes len
  if len > maxFrame then throw (.frameTooLarge len maxFrame)
  (readExact len r).mapError .io

def readFrameSync : Source UInt8 → Except StemError (List UInt8 × Source UInt8) :=
  readFrame readExact

/-- `tokio` is the `read_exact` of `tokio::io::AsyncReadExt`. -/
def readFrameAsync (tokio : ℕ → τ → Except ReadError (List UInt8 × τ)) :
    τ → Except StemError (List UInt8 × τ) :=
  readFrame tokio

def readMsg (readFrame : σ → Except StemError (List UInt8 × σ)) (r : σ) :
    Except StemError (T × σ) := do
  let (payload, r) ← readFrame r
  let msg ← decodePayload postcard payload
  return (msg, r)

/-! ### What a reader depends on -/

variable {postcard}

def parseFrame : List UInt8 → Except StemError (List UInt8 × List UInt8) := readFrame takeExact

theorem parses_readFrame {left : σ → List UInt8}
    {readExact : ℕ → σ → Except ReadError (List UInt8 × σ)} (h : Exact left readExact) :
    Parses (readFrame readExact) left parseFrame := by
  intro r
  rw [parseFrame, readFrame, readFrame, ← h.map_leaving 4 r]
  rcases readExact 4 r with e | ⟨len, r⟩
  · rfl
  · show Except.map _ (if fromLeBytes len > maxFrame then _ else _) =
      if fromLeBytes len > maxFrame then _ else _
    split
    · rfl
    · show Except.map _ ((readExact (fromLeBytes len) r).mapError _) =
        (takeExact (fromLeBytes len) (left r)).mapError _
      rw [← h.map_leaving (fromLeBytes len) r]
      rcases readExact (fromLeBytes len) r with e | ⟨payload, r⟩ <;> rfl

variable (postcard) in
theorem parses_readMsg {left : σ → List UInt8}
    {readFrame : σ → Except StemError (List UInt8 × σ)} (h : Parses readFrame left parseFrame) :
    Parses (readMsg postcard readFrame) left (readMsg postcard parseFrame) := by
  intro r
  rw [readMsg, readMsg, ← h r]
  rcases readFrame r with e | ⟨payload, r⟩
  · rfl
  · show Except.map _ ((decodePayload postcard payload).bind _) =
      (decodePayload postcard payload).bind _
    rcases decodePayload postcard payload with e | msg <;> rfl

/-! ### Frames tell where they end -/

theorem encodeFrame_eq_ok (h : encodeFrame postcard msg = .ok frame) :
    ∃ payload, postcard.toStdvec msg = .ok payload ∧ payload.length ≤ maxFrame ∧
      frame = toLeBytes 4 payload.length ++ payload := by
  rw [encodeFrame] at h
  rcases hpayload : postcard.toStdvec msg with e | payload
  · rw [hpayload] at h
    contradiction
  · rw [hpayload] at h
    change (if payload.length > maxFrame then _ else _) = _ at h
    split at h
    · contradiction
    · exact ⟨payload, rfl, by omega, (Except.ok.inj h).symm⟩

theorem fromLeBytes_length (h : n ≤ maxFrame) : fromLeBytes (toLeBytes 4 n) = n :=
  fromLeBytes_toLeBytes (Nat.lt_of_le_of_lt h (by decide))

theorem parseFrame_length (h : n ≤ maxFrame) (rest : List UInt8) :
    parseFrame (toLeBytes 4 n ++ rest) = (takeExact n rest).mapError .io := by
  have htake := takeExact_append (toLeBytes 4 n) rest
  rw [length_toLeBytes] at htake
  rw [parseFrame, readFrame, htake]
  show (if fromLeBytes (toLeBytes 4 n) > maxFrame then _ else _) = _
  rw [fromLeBytes_length h, if_neg (by omega)]

theorem delimits_parseFrame (h : payload.length ≤ maxFrame) :
    Delimits parseFrame (.io .unexpectedEof) payload (toLeBytes 4 payload.length ++ payload) := by
  refine ⟨fun rest => ?_, fun k hk => ?_⟩
  · rw [append_assoc, parseFrame_length h, takeExact_append]
    rfl
  · rw [length_append, length_toLeBytes] at hk
    rcases Nat.lt_or_ge k 4 with hlen | hlen
    · -- the stream ends within the length
      rw [parseFrame, readFrame, takeExact_of_lt (by rw [length_take]; omega)]
      rfl
    · rw [take_append, take_of_length_le (by rw [length_toLeBytes]; exact hlen),
        parseFrame_length h, takeExact_of_lt (by rw [length_take, length_toLeBytes]; omega)]
      rfl

theorem delimits_encodeFrame
    (hpostcard : ∀ msg payload, postcard.toStdvec msg = .ok payload → postcard.fromBytes payload =
      .ok msg) (h : encodeFrame postcard msg = .ok frame) :
    Delimits (readMsg postcard parseFrame) (.io .unexpectedEof) msg frame := by
  obtain ⟨payload, hpayload, hle, rfl⟩ := encodeFrame_eq_ok h
  have hframe := delimits_parseFrame hle
  refine ⟨fun rest => ?_, fun k hk => ?_⟩
  · rw [readMsg, hframe.1]
    show ((decodePayload postcard payload).bind _) = _
    rw [decodePayload, hpostcard msg payload hpayload]
    rfl
  · rw [readMsg, hframe.2 k hk]
    rfl

/-! ### Streams of frames -/

/-- Reading messages from a stream that holds `bytes` until the reader fails: it returns `msgs`,
reports the end of the stream, and finds `rest` at the call that does. -/
def Yields (left : σ → List UInt8) (readMsg : σ → Except StemError (T × σ)) (bytes : List UInt8)
    (msgs : List T) (rest : List UInt8) : Prop :=
  ∀ r, left r = bytes → ∀ n, msgs.length < n →
    ∃ r', readAll readMsg n r = (msgs, some (.io .unexpectedEof), r') ∧ left r' = rest

variable {left : σ → List UInt8} {readFrame : σ → Except StemError (List UInt8 × σ)}
  {msgs : List T} {frames : List (List UInt8)}

theorem readMsgs_frames (hread : Parses readFrame left parseFrame)
    (hpostcard : ∀ msg payload, postcard.toStdvec msg = .ok payload →
      postcard.fromBytes payload = .ok msg)
    (hframes : Forall₂ (fun msg frame => encodeFrame postcard msg = .ok frame) msgs frames)
    (k : ℕ) :
    Yields left (readMsg postcard readFrame) (frames.flatten.take k) (msgs.take (complete frames k))
      ((frames.flatten.take k).drop (frames.take (complete frames k)).flatten.length) := by
  intro r hr n hn
  rw [length_take, hframes.length_eq, Nat.min_eq_left (complete_le frames k)] at hn
  have hnil : readMsg postcard parseFrame [] = .error (.io .unexpectedEof) := rfl
  have hall := readAll_parses (parses_readMsg postcard hread) n r
  rw [hr, readAll_take hnil (hframes.imp fun msg frame h => delimits_encodeFrame hpostcard h) k hn]
    at hall
  simp only [readAllLeaving, Prod.mk.injEq] at hall
  obtain ⟨hmsgs, heof, hrest⟩ := hall
  exact ⟨_, Prod.ext hmsgs (Prod.ext heof rfl), hrest⟩

/-- A stream of frames is read back as its messages and ends cleanly. The first `k` bytes of it are
read as the messages whose frames they hold, and the reader then fails at what is left of the next
frame. The readers agree on every stream of bytes. -/
theorem framing_round_trip (postcard : Postcard T)
    (hpostcard : ∀ msg payload, postcard.toStdvec msg = .ok payload →
      postcard.fromBytes payload = .ok msg)
    {leftAsync : τ → List UInt8} {tokio : ℕ → τ → Except ReadError (List UInt8 × τ)}
    (htokio : Exact leftAsync tokio) :
    (∀ msgs frames,
      List.Forall₂ (fun msg frame => encodeFrame postcard msg = .ok frame) msgs frames →
      Yields ExactReads.left (readMsg postcard readFrameSync) frames.flatten msgs [] ∧
        Yields leftAsync (readMsg postcard (readFrameAsync tokio)) frames.flatten msgs []) ∧
    (∀ msgs frames,
      List.Forall₂ (fun msg frame => encodeFrame postcard msg = .ok frame) msgs frames →
      ∀ k, ∃ j, (frames.take j).flatten.length ≤ k ∧
        (j < frames.length → k < (frames.take (j + 1)).flatten.length) ∧
        Yields ExactReads.left (readMsg postcard readFrameSync) (frames.flatten.take k)
          (msgs.take j) ((frames.flatten.take k).drop (frames.take j).flatten.length) ∧
        Yields leftAsync (readMsg postcard (readFrameAsync tokio)) (frames.flatten.take k)
          (msgs.take j) ((frames.flatten.take k).drop (frames.take j).flatten.length)) ∧
    (∀ (r : Source UInt8) (r' : τ), ExactReads.left r = leftAsync r' →
      (readFrameSync r).map (leaving ExactReads.left) =
        (readFrameAsync tokio r').map (leaving leftAsync) ∧
      ∀ n, readAllLeaving (readMsg postcard readFrameSync) ExactReads.left n r =
        readAllLeaving (readMsg postcard (readFrameAsync tokio)) leftAsync n r') := by
  have hsync : Parses readFrameSync ExactReads.left parseFrame := parses_readFrame exact_readExact
  have hasync : Parses (readFrameAsync tokio) leftAsync parseFrame := parses_readFrame htokio
  refine ⟨fun msgs frames hframes => ?_, fun msgs frames hframes k => ?_, fun r r' h => ?_⟩
  · have hall : frames.flatten.take frames.flatten.length = frames.flatten := take_length
    have hmsgs : msgs.take (complete frames frames.flatten.length) = msgs := by
      rw [complete_length, ← hframes.length_eq, take_length]
    have hrest : frames.flatten.drop (frames.take
        (complete frames frames.flatten.length)).flatten.length = [] := by
      rw [complete_length, take_length, drop_length]
    have hs := readMsgs_frames hsync hpostcard hframes frames.flatten.length
    have ha := readMsgs_frames hasync hpostcard hframes frames.flatten.length
    rw [hall, hmsgs, hrest] at hs ha
    exact ⟨hs, ha⟩
  · exact ⟨complete frames k, (complete_spec frames k).1, (complete_spec frames k).2,
      readMsgs_frames hsync hpostcard hframes k, readMsgs_frames hasync hpostcard hframes k⟩
  · refine ⟨by rw [hsync r, hasync r', h], fun n => ?_⟩
    rw [readAll_parses (parses_readMsg postcard hsync), h,
      readAll_parses (parses_readMsg postcard hasync)]

/-- Postcard on the messages that have no fields but flags. -/
def flagsPostcard : Postcard Ipc.HolderMsg where
  toStdvec
    | .ok => .ok [1]
    | .termiosAck echo icanon => .ok [8, echo.toUInt8, icanon.toUInt8]
    | _ => .error "not a message of flags"
  fromBytes
    | [1] => .ok .ok
    | [8, 0, 0] => .ok (.termiosAck false false)
    | [8, 0, 1] => .ok (.termiosAck false true)
    | [8, 1, 0] => .ok (.termiosAck true false)
    | [8, 1, 1] => .ok (.termiosAck true true)
    | _ => .error "not a message of flags"

theorem framing_round_trip_flags :
    Yields ExactReads.left (readMsg flagsPostcard (readFrameAsync readExact))
      [1, 0, 0, 0, 1, 3, 0, 0, 0, 8, 1, 0] [.ok, .termiosAck true false] [] := by
  have hpostcard : ∀ msg payload, flagsPostcard.toStdvec msg = .ok payload →
      flagsPostcard.fromBytes payload = .ok msg := by
    intro msg payload h
    rcases msg with _ | _ | _ | _ | _ | _ | _ | _ | ⟨_ | _, _ | _⟩ <;> first
        | contradiction
        | (obtain rfl := Except.ok.inj h; rfl)
  exact ((framing_round_trip flagsPostcard hpostcard exact_readExact).1 _
    [[1, 0, 0, 0, 1], [3, 0, 0, 0, 8, 1, 0]] (.cons rfl (.cons rfl .nil))).2

end Bud.Framing
