import Mathlib.Data.List.Basic

/-!
# The body of a proxied request

`sendBufferedProxyRequestBody` of `proxy-edge.ts` cuts a buffered request body into `stream_data`
frames of at most `maxChunkBytes` bytes; `sendDataPlaneStreamData` checks each against the stream's
send credit and numbers it. At the other end `read_request_body` of `proxy/mod.rs` takes the frames
from the stream's event channel and puts the body together again. Each side keeps its own offset,
and the receiver also a declared length and the end-of-stream marker of the last frame.

## Modelling notes

A frame's bytes travel as base64 and are decoded before they reach the channel; what arrives are the
bytes themselves. While a write is awaited the router may handle `stream_credit` frames of the
daemon: `inbound offset` is what it handles during the write of the chunk at `offset`. Such a frame
cuts the send credit to `maxInFlightBytes`, below the credit a longer body was registered with. A
carrier that is connected takes every write.

The channel is the list of the events in it, closed at the end.
-/

namespace Bud.RequestBody

open List

/-! ### The sender -/

/-- The sending side of `DataPlaneRuntimeStream`. -/
structure Stream where
  streamType : String
  sendOffset : ℕ
  sendCreditBytes : ℕ
  remoteReceiveOffset : ℕ
  localClosed : Bool
  resetReason : Option String

/-- What a `stream_data` frame says about its place in the body. -/
structure Chunk where
  offset : ℕ
  data : List UInt8
  endStream : Bool

structure StreamDataFrame where
  streamId : String
  streamType : String
  chunk : Chunk

structure Tracker where
  /-- `isDataPlaneSessionConnected`. -/
  connected : Bool
  maxChunkBytes : ℕ
  maxInFlightBytes : ℕ
  runtimeStreams : String → Option Stream
  /-- What `sendFrame` has been called with, in order. -/
  sent : List StreamDataFrame

/-- `registerDataPlaneRuntimeStream`: a stream that is already there is left alone. -/
def registerDataPlaneRuntimeStream (tracker : Tracker) (streamId streamType : String)
    (initialSendCreditBytes : ℕ) : Tracker :=
  match tracker.runtimeStreams streamId with
  | some _ => tracker
  | none =>
    { tracker with
      runtimeStreams := Function.update tracker.runtimeStreams streamId
        (some
          { streamType := streamType
            sendOffset := 0
            sendCreditBytes := initialSendCreditBytes
            remoteReceiveOffset := 0
            localClosed := false
            resetReason := none }) }

/-- What is thrown, by its message. -/
abbrev SendError : Type := String

/-- `stream.localClosed || stream.resetReason`; an empty reason is falsy. -/
def Stream.notWritable (stream : Stream) : Bool :=
  stream.localClosed || stream.resetReason.getD "" != ""

def sendDataPlaneFrame (tracker : Tracker) (frame : StreamDataFrame) :
    Tracker × Option SendError :=
  if tracker.connected then ({ tracker with sent := tracker.sent ++ [frame] }, none)
  else (tracker, some "data-plane carrier is not active")

/-- The stream after a chunk of `byteLength` bytes has been taken from its credit. -/
def Stream.advance (stream : Stream) (byteLength : ℕ) (endStream : Bool) : Stream :=
  { stream with
    sendOffset := stream.sendOffset + byteLength
    sendCreditBytes := stream.sendCreditBytes - byteLength
    localClosed := stream.localClosed || endStream }

/-- `sendDataPlaneStreamData`: the tracker it leaves, and what it throws. -/
def sendDataPlaneStreamData (tracker : Tracker) (streamId : String) (data : List UInt8)
    (endStream : Bool) (maxChunkBytes : ℕ) : Tracker × Option SendError :=
  match tracker.runtimeStreams streamId with
  | none => (tracker, some ("unknown data-plane runtime stream: " ++ streamId))
  | some stream =>
    if stream.notWritable then
      (tracker, some ("data-plane runtime stream is not writable: " ++ streamId))
    else if maxChunkBytes < data.length then
      (tracker,
        some ("data-plane runtime stream chunk exceeds " ++ toString maxChunkBytes ++ " bytes"))
    else if stream.sendCreditBytes < data.length then
      (tracker, some ("data-plane runtime stream has insufficient send credit: " ++ streamId))
    else
      sendDataPlaneFrame
        { tracker with
          runtimeStreams := Function.update tracker.runtimeStreams streamId
            (some (stream.advance data.length endStream)) }
        { streamId := streamId
          streamType := stream.streamType
          chunk := { offset := stream.sendOffset, data := data, endStream := endStream } }

/-- A `stream_credit` frame of the daemon. -/
structure Credit where
  receiveOffset : ℕ
  creditBytes : ℕ

def recordDataPlaneOutboundCredit (stream : Stream) (credit : Credit) : Stream :=
  { stream with
    remoteReceiveOffset := max stream.remoteReceiveOffset credit.receiveOffset
    sendCreditBytes := stream.sendCreditBytes + credit.creditBytes }

def handleStreamCredit (streamId : String) (tracker : Tracker) (credit : Credit) : Tracker :=
  match tracker.runtimeStreams streamId with
  | none => tracker
  | some stream =>
    let stream := recordDataPlaneOutboundCredit stream credit
    { tracker with
      runtimeStreams := Function.update tracker.runtimeStreams streamId
        (some
          { stream with
            sendCreditBytes := min stream.sendCreditBytes tracker.maxInFlightBytes }) }

/-- The loop of `sendBufferedProxyRequestBody` from `offset`. `none` is a loop that has not ended
within `fuel` rounds. -/
def sendFrom (streamId : String) (body : List UInt8) (inbound : ℕ → List Credit) :
    ℕ → ℕ → Tracker → Option (Tracker × Option SendError)
  | 0, _, _ => none
  | fuel + 1, offset, tracker =>
    if offset < body.length then
      let finish := min (offset + tracker.maxChunkBytes) body.length
      match sendDataPlaneStreamData tracker streamId ((body.drop offset).take (finish - offset))
        (decide (body.length ≤ finish)) tracker.maxChunkBytes with
      | (tracker', some err) => some (tracker', some err)
      | (tracker', none) =>
        sendFrom streamId body inbound fuel (offset + tracker.maxChunkBytes)
          ((inbound offset).foldl (handleStreamCredit streamId) tracker')
    else some (tracker, none)

def sendBufferedProxyRequestBody (fuel : ℕ) (tracker : Tracker) (streamId : String)
    (body : List UInt8) (inbound : ℕ → List Credit) : Option (Tracker × Option SendError) :=
  sendFrom streamId body inbound fuel 0 tracker

/-! ### The receiver -/

def maxRequestBodyBytes : ℕ := 10 * 1024 * 1024

inductive ProxyStreamEvent where
  | requestBody (chunk : Chunk)
  | credit (creditBytes : ℕ)
  | reset (reason : String)

/-- The loop of `read_request_body`, with the body read so far, whether its last chunk ended the
stream, and what is in the channel. It returns the body and what it left in the channel. -/
def readLoop (expected : ℕ) (body : List UInt8) (sawEndStream : Bool) :
    List ProxyStreamEvent → Except String (List UInt8 × List ProxyStreamEvent)
  | [] =>
    if body.length < expected then .error "proxy request body channel closed"
    else if sawEndStream then .ok (body, [])
    else .error "proxy request body completed without end_stream"
  | event :: events =>
    if body.length < expected then
      match event with
      | .requestBody chunk =>
        if chunk.offset ≠ body.length then
          .error ("proxy request body offset mismatch: expected " ++ toString body.length ++
            ", got " ++ toString chunk.offset)
        else
          let nextLen := body.length + chunk.data.length
          if expected < nextLen ∨ maxRequestBodyBytes < nextLen then
            .error "proxy request body exceeded declared size"
          else if chunk.endStream ∧ nextLen ≠ expected then
            .error "proxy request body ended before declared size"
          else readLoop expected (body ++ chunk.data) chunk.endStream events
      | .reset reason =>
        .error ("proxy stream reset while reading request body: " ++ reason)
      | .credit _ => readLoop expected body sawEndStream events
    else if sawEndStream then .ok (body, event :: events)
    else .error "proxy request body completed without end_stream"

/-- `read_request_body`, with what it leaves in the channel. -/
def readRequestBody (requestBodyBytes : Option ℕ) (events : List ProxyStreamEvent) :
    Except String (Option (List UInt8) × List ProxyStreamEvent) :=
  let expected := requestBodyBytes.getD 0
  if expected = 0 then .ok (none, events)
  else if maxRequestBodyBytes < expected then
    .error ("proxy request body exceeds " ++ toString maxRequestBodyBytes ++ " bytes")
  else
    (readLoop expected [] false events).map fun read => (some read.1, read.2)

/-! ### Chunks that make up a body -/

/-- The chunks tile `body` from `start` on: their offsets follow one another, they concatenate to
it, and the last of them, and no other, ends the stream. -/
structure Tiles (start : ℕ) (body : List UInt8) (chunks : List Chunk) : Prop where
  offsets : ∀ before chunk after, chunks = before ++ chunk :: after →
    chunk.offset = start + (before.flatMap Chunk.data).length
  bytes : chunks.flatMap Chunk.data = body
  ended : ∃ init last, chunks = init ++ [last] ∧ last.endStream = true ∧
    ∀ chunk ∈ init, chunk.endStream = false

variable {start remaining : ℕ} {chunk : Chunk} {chunks : List Chunk} {tracker : Tracker}
  {streamId : String}

theorem Tiles.single (ho : chunk.offset = start) (he : chunk.endStream = true) :
    Tiles start chunk.data [chunk] where
  offsets before c after h := by
    obtain ⟨rfl, rfl, rfl⟩ : before = [] ∧ c = chunk ∧ after = [] := by
      cases before with
      | nil => simpa [eq_comm] using h
      | cons b before => simp at h
    simpa using ho
  bytes := by simp
  ended := ⟨[], chunk, rfl, he, by simp⟩

theorem Tiles.cons {rest : List UInt8} (ho : chunk.offset = start) (he : chunk.endStream = false)
    (h : Tiles (start + chunk.data.length) rest chunks) :
    Tiles start (chunk.data ++ rest) (chunk :: chunks) where
  offsets before c after hc := by
    cases before with
    | nil =>
      obtain ⟨rfl, -⟩ : chunk = c ∧ _ := by simpa using hc
      simpa using ho
    | cons b before =>
      obtain ⟨rfl, hrest⟩ : chunk = b ∧ chunks = before ++ c :: after := by simpa using hc
      rw [h.offsets before c after hrest, flatMap_cons, length_append]
      omega
  bytes := by rw [flatMap_cons, h.bytes]
  ended := by
    obtain ⟨init, last, rfl, hl, hi⟩ := h.ended
    refine ⟨chunk :: init, last, rfl, hl, ?_⟩
    rintro c hc
    rcases mem_cons.mp hc with rfl | hc
    · exact he
    · exact hi c hc

theorem Tiles.ne_nil (h : Tiles start body chunks) : chunks ≠ [] := by
  obtain ⟨init, last, rfl, -⟩ := h.ended
  simp

theorem Tiles.uncons (h : Tiles start body (chunk :: chunks)) :
    chunk.offset = start ∧
      ((chunk.endStream = true ∧ chunks = [] ∧ body = chunk.data) ∨
        (chunk.endStream = false ∧ ∃ rest, body = chunk.data ++ rest ∧
          Tiles (start + chunk.data.length) rest chunks)) := by
  have ho : chunk.offset = start := by simpa using h.offsets [] chunk chunks rfl
  refine ⟨ho, ?_⟩
  obtain ⟨init, last, hc, hl, hi⟩ := h.ended
  cases init with
  | nil =>
    obtain ⟨rfl, rfl⟩ : chunk = last ∧ chunks = [] := by simpa using hc
    exact .inl ⟨hl, rfl, by simpa using h.bytes.symm⟩
  | cons c init =>
    obtain ⟨rfl, rfl⟩ : chunk = c ∧ chunks = init ++ [last] := by simpa using hc
    refine .inr ⟨hi chunk (by simp), _, by rw [← h.bytes, flatMap_cons], ?_, rfl, ?_⟩
    · rintro before c after hc
      rw [h.offsets (chunk :: before) c after (by rw [hc, cons_append]), flatMap_cons,
        length_append]
      omega
    · exact ⟨init, last, rfl, hl, fun c hc => hi c (by simp [hc])⟩

/-! ### What the sender sends -/

/-- The tracker can send the `remaining` bytes from `offset` on. -/
structure Ready (tracker : Tracker) (streamId : String) (offset remaining : ℕ) : Prop where
  connected : tracker.connected = true
  writable : ∃ stream, tracker.runtimeStreams streamId = some stream ∧
    stream.sendOffset = offset ∧ remaining ≤ stream.sendCreditBytes ∧ stream.notWritable = false

theorem ready_registerDataPlaneRuntimeStream (hc : tracker.connected = true)
    (hs : tracker.runtimeStreams streamId = none) (streamType : String) (creditBytes : ℕ) :
    Ready (registerDataPlaneRuntimeStream tracker streamId streamType creditBytes) streamId 0
      creditBytes := by
  rw [registerDataPlaneRuntimeStream, hs]
  exact ⟨hc, _, Function.update_self .., rfl, Nat.le_refl _, rfl⟩

theorem sent_registerDataPlaneRuntimeStream (tracker : Tracker) (streamId streamType : String)
    (creditBytes : ℕ) :
    (registerDataPlaneRuntimeStream tracker streamId streamType creditBytes).sent = tracker.sent ∧
      (registerDataPlaneRuntimeStream tracker streamId streamType creditBytes).maxChunkBytes =
        tracker.maxChunkBytes ∧
      (registerDataPlaneRuntimeStream tracker streamId streamType creditBytes).maxInFlightBytes =
        tracker.maxInFlightBytes := by
  rw [registerDataPlaneRuntimeStream]
  split <;> exact ⟨rfl, rfl, rfl⟩

theorem sent_handleStreamCredit (streamId : String) (tracker : Tracker) (credit : Credit) :
    (handleStreamCredit streamId tracker credit).sent = tracker.sent ∧
      (handleStreamCredit streamId tracker credit).maxChunkBytes = tracker.maxChunkBytes ∧
      (handleStreamCredit streamId tracker credit).maxInFlightBytes =
        tracker.maxInFlightBytes := by
  rw [handleStreamCredit]
  split <;> exact ⟨rfl, rfl, rfl⟩

/-- Credit that arrives takes nothing away from what may be in flight. -/
theorem Ready.handleStreamCredit (h : Ready tracker streamId offset remaining)
    (hr : remaining ≤ tracker.maxInFlightBytes) (credit : Credit) :
    Ready (handleStreamCredit streamId tracker credit) streamId offset remaining := by
  obtain ⟨stream, hs, ho, hr', hw⟩ := h.writable
  rw [RequestBody.handleStreamCredit, hs]
  exact ⟨h.connected, _, Function.update_self .., ho,
    Nat.le_min.mpr ⟨Nat.le_add_right_of_le hr', hr⟩, hw⟩

theorem sent_foldl_handleStreamCredit (streamId : String) (credits : List Credit)
    (tracker : Tracker) :
    (credits.foldl (handleStreamCredit streamId) tracker).sent = tracker.sent ∧
      (credits.foldl (handleStreamCredit streamId) tracker).maxChunkBytes =
        tracker.maxChunkBytes ∧
      (credits.foldl (handleStreamCredit streamId) tracker).maxInFlightBytes =
        tracker.maxInFlightBytes := by
  induction credits generalizing tracker with
  | nil => exact ⟨rfl, rfl, rfl⟩
  | cons credit credits ih =>
    obtain ⟨hs, hm, hi⟩ := sent_handleStreamCredit streamId tracker credit
    rw [foldl_cons, (ih _).1, (ih _).2.1, (ih _).2.2, hs, hm, hi]
    exact ⟨rfl, rfl, rfl⟩

theorem Ready.foldl_handleStreamCredit (credits : List Credit)
    (hr : credits ≠ [] → remaining ≤ tracker.maxInFlightBytes)
    (h : Ready tracker streamId offset remaining) :
    Ready (credits.foldl (RequestBody.handleStreamCredit streamId) tracker) streamId offset
      remaining := by
  induction credits generalizing tracker with
  | nil => exact h
  | cons credit credits ih =>
    have hr := hr (cons_ne_nil credit credits)
    refine ih (fun _ => ?_) (h.handleStreamCredit hr credit)
    rwa [(sent_handleStreamCredit streamId tracker credit).2.2]

/-- A tracker that is ready takes the next chunk, and is ready for what follows it. -/
theorem Ready.sendDataPlaneStreamData (h : Ready tracker streamId offset remaining)
    (hr : data.length ≤ remaining) (hm : data.length ≤ maxChunkBytes) (endStream : Bool) :
    ∃ tracker' frame,
      sendDataPlaneStreamData tracker streamId data endStream maxChunkBytes = (tracker', none) ∧
      tracker'.sent = tracker.sent ++ [frame] ∧ tracker'.maxChunkBytes = tracker.maxChunkBytes ∧
      tracker'.maxInFlightBytes = tracker.maxInFlightBytes ∧ frame.streamId = streamId ∧
      frame.chunk = { offset := offset, data := data, endStream := endStream } ∧
      (endStream = false →
        Ready tracker' streamId (offset + data.length) (remaining - data.length)) := by
  obtain ⟨stream, hs, rfl, hcredit, hw⟩ := h.writable
  rw [RequestBody.sendDataPlaneStreamData, hs]
  dsimp only
  rw [if_neg (by simp [hw]), if_neg (by omega), if_neg (by omega), sendDataPlaneFrame,
    if_pos h.connected]
  refine ⟨_, _, rfl, rfl, rfl, rfl, rfl, rfl, ?_⟩
  rintro rfl
  refine ⟨h.connected, _, Function.update_self .., rfl, ?_, ?_⟩
  · show remaining - data.length ≤ stream.sendCreditBytes - data.length
    omega
  · show (stream.localClosed || false || _) = false
    rw [Bool.or_false]
    exact hw

/-- What the loop sends from `offset` on tiles the rest of the body. -/
theorem tiles_sendFrom {body : List UInt8} (inbound : ℕ → List Credit) :
    ∀ (fuel offset : ℕ) (tracker : Tracker), 0 < tracker.maxChunkBytes → offset < body.length →
      body.length - offset < fuel → Ready tracker streamId offset (body.length - offset) →
      (∀ offset, inbound offset ≠ [] → body.length - offset ≤ tracker.maxInFlightBytes) →
      ∃ tracker' frames,
        sendFrom streamId body inbound fuel offset tracker = some (tracker', none) ∧
        tracker'.sent = tracker.sent ++ frames ∧ (∀ frame ∈ frames, frame.streamId = streamId) ∧
        Tiles offset (body.drop offset) (frames.map StreamDataFrame.chunk) ∧
        ∀ frame ∈ frames, frame.chunk.data ≠ [] := by
  intro fuel
  induction fuel with
  | zero => intro offset tracker _ _ hf; omega
  | succ fuel ih =>
    intro offset tracker hmax ho hf hready hinbound
    rw [sendFrom, if_pos ho]
    dsimp only
    set finish := min (offset + tracker.maxChunkBytes) body.length with hfinish
    set data := (body.drop offset).take (finish - offset) with hdata
    have hlen : data.length = finish - offset := by
      rw [hdata, length_take, length_drop]
      omega
    have hne : data ≠ [] := ne_nil_of_length_pos (by omega)
    have hrest : data.length ≤ body.length - offset := by omega
    have hchunkMax : data.length ≤ tracker.maxChunkBytes := by omega
    obtain ⟨tracker₁, frame, hsend, hsent, hmax₁, hflight₁, hid, hchunk, hready₁⟩ :=
      hready.sendDataPlaneStreamData hrest hchunkMax (decide (body.length ≤ finish))
    rw [hsend]
    dsimp only
    obtain ⟨hsent₂, hmax₂, hflight₂⟩ :=
      sent_foldl_handleStreamCredit streamId (inbound offset) tracker₁
    by_cases hend : body.length ≤ finish
    · -- the last chunk: the next round finds nothing left to send
      have hall : data = body.drop offset :=
        take_of_length_le (by rw [length_drop]; omega)
      obtain ⟨fuel, rfl⟩ : ∃ k, fuel = k + 1 := ⟨fuel - 1, by omega⟩
      have hdone : ¬ offset + tracker.maxChunkBytes < body.length := by omega
      rw [sendFrom, if_neg hdone]
      refine ⟨_, [frame], rfl, by rw [hsent₂, hsent], by simpa using hid, ?_, ?_⟩
      · have ho : frame.chunk.offset = offset := by rw [hchunk]
        have htiles := Tiles.single ho (by rw [hchunk]; exact decide_eq_true hend)
        rw [hchunk] at htiles
        rw [map_singleton, hchunk, ← hall]
        exact htiles
      · simpa [hchunk] using hne
    · have hfin : finish = offset + tracker.maxChunkBytes := by omega
      have hdrop : body.drop offset = data ++ body.drop (offset + tracker.maxChunkBytes) := by
        rw [hdata, show offset + tracker.maxChunkBytes = offset + (finish - offset) by omega,
          ← drop_drop, take_append_drop]
      have hready₂ : Ready ((inbound offset).foldl (handleStreamCredit streamId) tracker₁)
          streamId (offset + tracker.maxChunkBytes)
          (body.length - (offset + tracker.maxChunkBytes)) := by
        have hnext := (hready₁ (decide_eq_false hend)).foldl_handleStreamCredit (inbound offset)
          fun hne => by
            have := hinbound offset hne
            omega
        rw [show offset + data.length = offset + tracker.maxChunkBytes by omega,
          show body.length - offset - data.length
            = body.length - (offset + tracker.maxChunkBytes) by omega] at hnext
        exact hnext
      obtain ⟨tracker', frames, hrun, hsent', hids, htiles, hnes⟩ :=
        ih (offset + tracker.maxChunkBytes) _ (by rw [hmax₂, hmax₁]; exact hmax) (by omega)
          (by omega) hready₂ (by rwa [hflight₂, hflight₁])
      refine ⟨tracker', frame :: frames, hrun, ?_, ?_, ?_, ?_⟩
      · rw [hsent', hsent₂, hsent, append_assoc, singleton_append]
      · rintro f hf
        rcases mem_cons.mp hf with rfl | hf
        · exact hid
        · exact hids f hf
      · rw [map_cons, hchunk, hdrop]
        refine @Tiles.cons offset ⟨offset, data, _⟩ _ _ rfl (decide_eq_false hend) ?_
        show Tiles (offset + data.length) _ _
        rw [show offset + data.length = offset + tracker.maxChunkBytes by omega]
        exact htiles
      · rintro f hf
        rcases mem_cons.mp hf with rfl | hf
        · rw [hchunk]
          exact hne
        · exact hnes f hf

/-- **The sender sends the whole body**, on a stream registered with the body's length as its send
credit. -/
theorem tiles_sendBufferedProxyRequestBody (streamType : String) (inbound : ℕ → List Credit)
    (hc : tracker.connected = true) (hs : tracker.runtimeStreams streamId = none)
    (hm : 0 < tracker.maxChunkBytes) (hb : body ≠ []) (hf : body.length < fuel)
    (hinbound : ∀ offset, inbound offset ≠ [] → body.length - offset ≤ tracker.maxInFlightBytes) :
    ∃ tracker' frames, sendBufferedProxyRequestBody fuel
        (registerDataPlaneRuntimeStream tracker streamId streamType body.length) streamId body
        inbound = some (tracker', none) ∧
      tracker'.sent = tracker.sent ++ frames ∧ (∀ frame ∈ frames, frame.streamId = streamId) ∧
      Tiles 0 body (frames.map StreamDataFrame.chunk) ∧
      ∀ frame ∈ frames, frame.chunk.data ≠ [] := by
  obtain ⟨hsent, hmax, hflight⟩ :=
    sent_registerDataPlaneRuntimeStream tracker streamId streamType body.length
  have hpos : 0 < body.length := length_pos_iff.mpr hb
  have hrun := @tiles_sendFrom streamId body inbound fuel 0 _
    (by rw [hmax]; exact hm) hpos (by omega)
    (by simpa using ready_registerDataPlaneRuntimeStream hc hs streamType body.length)
    (by rwa [hflight])
  rwa [hsent, drop_zero] at hrun

/-! ### What the receiver takes -/

/-- The chunk a data event carries. -/
def ProxyStreamEvent.chunk? : ProxyStreamEvent → Option Chunk
  | .requestBody chunk => some chunk
  | .credit _ => none
  | .reset _ => none

theorem readLoop_full (h : ¬ body.length < expected) (saw : Bool) (events : List ProxyStreamEvent) :
    readLoop expected body saw events =
      if saw then .ok (body, events)
      else .error "proxy request body completed without end_stream" := by
  cases events with
  | nil => rw [readLoop, if_neg h]
  | cons event events => cases event <;> rw [readLoop, if_neg h]

/-- The loop reads chunks that tile what it adds to the body, up to the declared length. -/
theorem readLoop_sound :
    ∀ (events : List ProxyStreamEvent) (body : List UInt8) (saw : Bool),
      body.length < expected → readLoop expected body saw events = .ok (out, rest) →
      ∃ consumed tail, events = consumed ++ rest ∧ out = body ++ tail ∧ out.length = expected ∧
        (∀ reason, .reset reason ∉ consumed) ∧
        Tiles body.length tail (consumed.filterMap ProxyStreamEvent.chunk?) := by
  intro events
  induction events with
  | nil =>
    intro body saw hlt h
    rw [readLoop, if_pos hlt] at h
    simp at h
  | cons event events ih =>
    intro body saw hlt h
    cases event with
    | credit creditBytes =>
      rw [readLoop, if_pos hlt] at h
      obtain ⟨consumed, tail, rfl, hout, hlen, hreset, htiles⟩ := ih body saw hlt h
      exact ⟨.credit creditBytes :: consumed, tail, rfl, hout, hlen, by simpa using hreset,
        htiles⟩
    | reset reason =>
      rw [readLoop, if_pos hlt] at h
      simp at h
    | requestBody chunk =>
      rw [readLoop, if_pos hlt] at h
      dsimp only at h
      split at h
      · simp at h
      · next ho =>
        split at h
        · simp at h
        · next hle =>
          split at h
          · simp at h
          · next hend =>
            have ho : chunk.offset = body.length := not_not.mp ho
            have hlen₁ : (body ++ chunk.data).length = body.length + chunk.data.length :=
              length_append
            by_cases hfull : body.length + chunk.data.length = expected
            · -- the body is complete, and was only taken if this chunk ended the stream
              have hstop : chunk.endStream = true ∧ out = body ++ chunk.data ∧ rest = events := by
                rw [readLoop_full (by omega)] at h
                split at h
                · next he => simpa [he, eq_comm] using h
                · simp at h
              obtain ⟨he, rfl, rfl⟩ := hstop
              exact ⟨[.requestBody chunk], chunk.data, rfl, rfl, by omega, by simp,
                Tiles.single ho he⟩
            · have he : chunk.endStream = false := by
                by_contra he
                exact hend ⟨by simpa using he, hfull⟩
              obtain ⟨consumed, tail, rfl, hout, hlen, hreset, htiles⟩ :=
                ih (body ++ chunk.data) chunk.endStream (by omega) h
              refine ⟨.requestBody chunk :: consumed, chunk.data ++ tail, rfl,
                by rw [hout, append_assoc], hlen, by simpa using hreset, ?_⟩
              rw [hlen₁] at htiles
              exact Tiles.cons ho he htiles

/-- Chunks that tile the rest of the body are read, with credits anywhere between them. -/
theorem readLoop_complete (hmax : expected ≤ maxRequestBodyBytes) :
    ∀ (events : List ProxyStreamEvent) (body tail : List UInt8) (saw : Bool),
      (∀ reason, .reset reason ∉ events) →
      (∀ chunk ∈ events.filterMap ProxyStreamEvent.chunk?, chunk.data ≠ []) →
      body.length + tail.length = expected →
      Tiles body.length tail (events.filterMap ProxyStreamEvent.chunk?) →
      ∃ rest, readLoop expected body saw events = .ok (body ++ tail, rest) := by
  intro events
  induction events with
  | nil =>
    intro body tail saw _ _ _ htiles
    exact absurd rfl htiles.ne_nil
  | cons event events ih =>
    intro body tail saw hreset hne hlen htiles
    have hreset' : ∀ reason, ProxyStreamEvent.reset reason ∉ events :=
      fun reason h => hreset reason (mem_cons_of_mem _ h)
    have hbytes : 0 < tail.length := by
      rw [← htiles.bytes]
      obtain ⟨init, last, hc, -⟩ := htiles.ended
      have := length_pos_iff.mpr (hne last (by rw [hc]; simp))
      rw [hc, flatMap_append, length_append]
      simp only [flatMap_cons, flatMap_nil, append_nil]
      omega
    have hlt : body.length < expected := by omega
    cases event with
    | reset reason => exact absurd (mem_cons_self ..) (hreset reason)
    | credit creditBytes =>
      rw [readLoop, if_pos hlt]
      exact ih body tail saw hreset' hne hlen htiles
    | requestBody chunk =>
      rw [readLoop, if_pos hlt]
      dsimp only
      obtain ⟨ho, ⟨he, hnil, rfl⟩ | ⟨he, rest, rfl, htiles'⟩⟩ := htiles.uncons
      · rw [if_neg (by simpa using ho), if_neg (by omega), if_neg (by omega), he,
          readLoop_full (by rw [length_append]; omega)]
        exact ⟨events, if_pos rfl⟩
      · rw [length_append] at hlen
        rw [if_neg (by simpa using ho), if_neg (by omega), if_neg (by simp [he]),
          ← append_assoc]
        exact ih (body ++ chunk.data) rest chunk.endStream hreset'
          (fun c hc => hne c (mem_cons_of_mem _ hc)) (by rw [length_append]; omega)
          (by rw [length_append]; exact htiles')

/-! ### The transfer -/

/-- **The body arrives as it was sent, and nothing else is taken for a body.** Credit that comes in
while the body is sent finds no more left of it than may be in flight. -/
theorem requestBody_transfer :
    (∀ (tracker : Tracker) (streamId streamType : String) (body : List UInt8)
      (inbound : ℕ → List Credit) (fuel : ℕ), tracker.connected = true →
      tracker.runtimeStreams streamId = none → 0 < tracker.maxChunkBytes → body ≠ [] →
      body.length ≤ maxRequestBodyBytes → body.length < fuel →
      (∀ offset, inbound offset ≠ [] → body.length - offset ≤ tracker.maxInFlightBytes) →
      ∃ tracker' frames,
        sendBufferedProxyRequestBody fuel
          (registerDataPlaneRuntimeStream tracker streamId streamType body.length) streamId body
          inbound = some (tracker', none) ∧
        tracker'.sent = tracker.sent ++ frames ∧
        ∀ events, (∀ reason, .reset reason ∉ events) →
          events.filterMap ProxyStreamEvent.chunk? = frames.map StreamDataFrame.chunk →
          ∃ rest, readRequestBody (some body.length) events = .ok (some body, rest)) ∧
    ∀ requestBodyBytes events body rest,
      readRequestBody requestBodyBytes events = .ok (some body, rest) →
      ∃ consumed, events = consumed ++ rest ∧ (∀ reason, .reset reason ∉ consumed) ∧
        requestBodyBytes = some body.length ∧
        Tiles 0 body (consumed.filterMap ProxyStreamEvent.chunk?) := by
  constructor
  · intro tracker streamId streamType body inbound fuel hc hs hm hb hmax hf hinbound
    obtain ⟨tracker', frames, hrun, hsent, -, htiles, hne⟩ :=
      tiles_sendBufferedProxyRequestBody streamType inbound hc hs hm hb hf hinbound
    refine ⟨tracker', frames, hrun, hsent, ?_⟩
    intro events hreset hevents
    have hpos : 0 < body.length := length_pos_iff.mpr hb
    obtain ⟨rest, hread⟩ := readLoop_complete hmax events [] body false hreset
      (by rw [hevents]; simpa using hne) (by simp) (by rw [hevents]; exact htiles)
    refine ⟨rest, ?_⟩
    rw [readRequestBody]
    dsimp only [Option.getD_some]
    rw [if_neg (by omega), if_neg (by omega), hread]
    rfl
  · intro requestBodyBytes events body rest h
    rw [readRequestBody] at h
    split at h
    · simp at h
    · next hpos =>
      split at h
      · simp at h
      · obtain ⟨⟨out, left⟩, hread, hpair⟩ : ∃ read,
            readLoop (requestBodyBytes.getD 0) [] false events = .ok read ∧
            (some read.1, read.2) = (some body, rest) := by
          cases hread : readLoop (requestBodyBytes.getD 0) [] false events with
          | error err => rw [hread] at h; simp [Except.map] at h
          | ok read => rw [hread] at h; exact ⟨read, rfl, by simpa [Except.map] using h⟩
        obtain ⟨rfl, rfl⟩ : out = body ∧ left = rest := by simpa using hpair
        obtain ⟨consumed, tail, hevents, hout, hlen, hreset, htiles⟩ :=
          readLoop_sound events [] false (Nat.pos_of_ne_zero hpos) hread
        obtain rfl : out = tail := by simpa using hout
        refine ⟨consumed, hevents, hreset, ?_, htiles⟩
        cases requestBodyBytes with
        | none => simp at hpos
        | some n => rw [hlen]; rfl

/-- Three bytes in frames of two, with a credit of the daemon before the second. -/
def threeBytes : List ProxyStreamEvent :=
  [.requestBody ⟨0, [1, 2], false⟩, .credit 64, .requestBody ⟨2, [3], true⟩]

theorem requestBody_transfer_threeBytes :
    (∃ tracker' frames,
      sendBufferedProxyRequestBody 4
        (registerDataPlaneRuntimeStream ⟨true, 2, 64, fun _ => none, []⟩
          "st_1" "localhost_http_proxy" 3)
        "st_1" [1, 2, 3] (fun _ => [⟨2, 64⟩]) = some (tracker', none) ∧
      tracker'.sent = [] ++ frames ∧
      ∀ events, (∀ reason, .reset reason ∉ events) →
        events.filterMap ProxyStreamEvent.chunk? = frames.map StreamDataFrame.chunk →
        ∃ rest, readRequestBody (some 3) events = .ok (some [1, 2, 3], rest)) ∧
    ∃ consumed, threeBytes = consumed ++ [] ∧ (∀ reason, .reset reason ∉ consumed) ∧
      some 3 = some [1, 2, 3].length ∧
      Tiles 0 [1, 2, 3] (consumed.filterMap ProxyStreamEvent.chunk?) :=
  ⟨requestBody_transfer.1 _ "st_1" "localhost_http_proxy" [1, 2, 3] _ 4 rfl rfl (by decide)
      (by decide) (by decide) (by decide) fun _ _ => Nat.le_trans (Nat.sub_le _ _) (by decide),
    requestBody_transfer.2 (some 3) threeBytes [1, 2, 3] [] (by rfl)⟩

end Bud.RequestBody
