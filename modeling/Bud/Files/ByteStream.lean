import Bud.DataPlane.Flow
import Bud.Files.Selection
import Bud.Lib.Segments

/-!
# Sending the bytes of a file

`run_validated_file` of `files/mod.rs`: an accepted response is cut into chunks, and each chunk is
sent once there is credit for all of it. Credit and resets arrive through the stream's event
channel, which is read only while credit is lacking.

The channel is the list of the events in it and whether it is closed behind them. A task that waits
for an event that never comes has sent what it will ever send. So has one whose transport refuses a
frame, and what went through are then the frames before it.
-/

namespace Bud.Files

open Segments DataPlane List

inductive FileStreamEvent where
  | credit (creditBytes : ℕ)
  | reset (reason : String)

structure Channel where
  events : List FileStreamEvent
  closed : Bool

/-- A frame that the task sends. -/
inductive Outbound where
  | accepted (response : FileReadResponse)
  | rejected (rejection : FileOpenRejection)
  | streamData (offset : ℕ) (data : List UInt8) (endStream : Bool)
  | streamClose (finalOffset : ℕ)
  deriving DecidableEq

/-- How the task ends. -/
inductive Ending where
  | finished
  | stopped (error : String)
  | waiting
  | panicked
  deriving DecidableEq

/-! ### The task -/

/-- The credit and the events behind the ones that were taken, or how the task ends. -/
def waitForCredit (closed : Bool) (required availableCredit : ℕ) :
    List FileStreamEvent → Except Ending (ℕ × List FileStreamEvent)
  | [] =>
    if availableCredit < required then
      if closed then .error (.stopped "file stream credit channel closed") else .error .waiting
    else
      .ok (availableCredit, [])
  | .credit creditBytes :: events =>
    if availableCredit < required then
      waitForCredit closed required (min (availableCredit + creditBytes) u64Max) events
    else
      .ok (availableCredit, .credit creditBytes :: events)
  | .reset reason :: events =>
    if availableCredit < required then
      .error (.stopped ("file stream reset: " ++ reason))
    else
      .ok (availableCredit, .reset reason :: events)

def sendSegments (closed : Bool) :
    List (List UInt8) → ℕ → ℕ → List FileStreamEvent → List Outbound × Ending
  | [], _, offset, _ => ([.streamClose offset], .finished)
  | segment :: segments, availableCredit, offset, events =>
    match waitForCredit closed segment.length availableCredit events with
    | .error ending => ([], ending)
    | .ok (availableCredit, events) =>
      match add offset segment.length with
      | .error _ => ([.streamData offset segment false], .panicked)
      | .ok next =>
        (.streamData offset segment false ::
            (sendSegments closed segments (availableCredit - segment.length) next events).1,
          (sendSegments closed segments (availableCredit - segment.length) next events).2)

def defaultInitialCreditBytes : ℕ := 1024 * 1024

def defaultMaxChunkBytes : ℕ := 16 * 1024

/-- `max_chunk_bytes` of the frame, clamped. -/
def FileOpenFrame.chunkBytes (frame : FileOpenFrame) : ℕ :=
  max 1 (min (frame.maxChunkBytes.getD defaultMaxChunkBytes) maxChunkBytesLimit)

def FileOpenFrame.initialCredit (frame : FileOpenFrame) : ℕ :=
  frame.initialCreditBytes.getD defaultInitialCreditBytes

def runValidatedFile (frame : FileOpenFrame) (view : FileView) (channel : Channel) :
    List Outbound × Ending :=
  match readFileResponse frame view with
  | .error (.rejected rejection) => ([.rejected rejection], .finished)
  | .error .overflow => ([], .panicked)
  | .ok response =>
    (.accepted response ::
        (sendSegments channel.closed (Chunks.chunks frame.chunkBytes response.body)
          frame.initialCredit 0 channel.events).1,
      (sendSegments channel.closed (Chunks.chunks frame.chunkBytes response.body)
        frame.initialCredit 0 channel.events).2)

/-! ### Credit -/

/-- The credit that arrives before a reset. -/
def granted : List FileStreamEvent → ℕ
  | [] => 0
  | .credit creditBytes :: events => creditBytes + granted events
  | .reset _ :: _ => 0

variable {closed : Bool} {required available : ℕ} {events : List FileStreamEvent}

/-- Waiting ends with enough credit if it ends well. Credit that was granted is only lost where it
would exceed what any file can need, so whatever of `total` bytes was covered still is. -/
theorem waitForCredit_of_ok
    (h : waitForCredit closed required available events = .ok (available', events')) :
    required ≤ available' ∧ available' + granted events' ≤ available + granted events ∧
      ∀ total ≤ u64Max, total ≤ available + granted events →
        total ≤ available' + granted events' := by
  fun_induction waitForCredit closed required available events with
  | case1 | case2 | case6 => contradiction
  | case4 available creditBytes events hlt ih =>
    obtain ⟨hreq, hle, hkeep⟩ := ih h
    simp only [granted]
    exact ⟨hreq, by omega, fun total ht hcover => hkeep total ht (by omega)⟩
  | case3 _ hge | case5 _ _ _ hge | case7 _ _ _ hge =>
    obtain ⟨rfl, rfl⟩ := Prod.mk.inj (Except.ok.inj h)
    exact ⟨Nat.le_of_not_lt hge, Nat.le_refl _, fun _ _ ht => ht⟩

theorem waitForCredit_of_error (hreq : required ≤ u64Max)
    (h : waitForCredit closed required available events = .error ending) :
    available + granted events < required ∧ ending ≠ .finished ∧ ending ≠ .panicked := by
  fun_induction waitForCredit closed required available events with
  | case1 _ hlt | case2 _ hlt | case6 _ _ _ hlt =>
    obtain rfl := Except.error.inj h
    exact ⟨hlt, by simp, by simp⟩
  | case4 available creditBytes events hlt ih =>
    obtain ⟨hlt', hne⟩ := ih h
    simp only [granted]
    exact ⟨by omega, hne⟩
  | case3 | case5 | case7 => contradiction

/-! ### What is sent -/

/-- The data frames of consecutive segments. -/
def dataFrames : ℕ → List (List UInt8) → List Outbound
  | _, [] => []
  | offset, segment :: segments =>
    .streamData offset segment false :: dataFrames (offset + segment.length) segments

/-- With credit for all of the bytes they are all sent, and the stream is closed behind them. -/
theorem sendSegments_of_le (hsize : offset + segments.flatten.length < 2 ^ 64)
    (hcredit : segments.flatten.length ≤ available + granted events) :
    sendSegments closed segments available offset events =
      (dataFrames offset segments ++ [.streamClose (offset + segments.flatten.length)],
        .finished) := by
  induction segments generalizing available offset events with
  | nil => rfl
  | cons segment segments ih =>
    rw [flatten_cons, length_append] at hsize hcredit ⊢
    rw [sendSegments]
    rcases hwait : waitForCredit closed segment.length available events with ending | ⟨a, es⟩
    · obtain ⟨hlt, -⟩ := waitForCredit_of_error (by rw [u64Max]; omega) hwait
      omega
    · obtain ⟨hreq, -, hkeep⟩ := waitForCredit_of_ok hwait
      have hcover := hkeep _ (by rw [u64Max]; omega) hcredit
      dsimp only
      rw [add, if_pos (by omega)]
      dsimp only
      rw [ih (by omega) (by omega), Nat.add_assoc]
      rfl

/-- With too little credit a beginning of the segments is sent and the stream is not closed. -/
theorem sendSegments_of_lt (hsize : offset + segments.flatten.length < 2 ^ 64)
    (hcredit : available + granted events < segments.flatten.length) :
    ∃ n ending, sendSegments closed segments available offset events =
        (dataFrames offset (segments.take n), ending) ∧
      ending ≠ .finished ∧ ending ≠ .panicked := by
  induction segments generalizing available offset events with
  | nil => exact absurd hcredit (Nat.not_lt_zero _)
  | cons segment segments ih =>
    rw [flatten_cons, length_append] at hsize hcredit
    rw [sendSegments]
    rcases hwait : waitForCredit closed segment.length available events with ending | ⟨a, es⟩
    · exact ⟨0, ending, rfl, (waitForCredit_of_error (by rw [u64Max]; omega) hwait).2⟩
    · obtain ⟨hreq, hle, -⟩ := waitForCredit_of_ok hwait
      dsimp only
      rw [add, if_pos (by omega)]
      have hlt : a - segment.length + granted es < segments.flatten.length := by omega
      have hnext : offset + segment.length + segments.flatten.length < 2 ^ 64 := by omega
      obtain ⟨n, ending, hrest, hne⟩ := ih hnext hlt
      refine ⟨n + 1, ending, ?_, hne⟩
      dsimp only
      rw [hrest]
      rfl

def Outbound.segment? : Outbound → Option (ℕ × List UInt8)
  | .streamData offset data _ => some (offset, data)
  | _ => none

def sentData (frames : List Outbound) : List (ℕ × List UInt8) := frames.filterMap Outbound.segment?

theorem contiguous_dataFrames (offset : ℕ) (segments : List (List UInt8)) :
    Contiguous offset (sentData (dataFrames offset segments)) := by
  induction segments generalizing offset with
  | nil => trivial
  | cons segment segments ih => exact ⟨rfl, ih _⟩

theorem bytes_dataFrames (offset : ℕ) (segments : List (List UInt8)) :
    bytes (sentData (dataFrames offset segments)) = segments.flatten := by
  induction segments generalizing offset with
  | nil => rfl
  | cons segment segments ih => exact congrArg (segment ++ ·) (ih _)

theorem close_notMem_dataFrames (finalOffset offset : ℕ) (segments : List (List UInt8)) :
    .streamClose finalOffset ∉ dataFrames offset segments := by
  induction segments generalizing offset with
  | nil => exact not_mem_nil
  | cons segment segments ih => simpa [dataFrames] using ih _

theorem sentData_append_close (frames : List Outbound) (finalOffset : ℕ) :
    sentData (frames ++ [.streamClose finalOffset]) = sentData frames := by
  rw [sentData, filterMap_append]
  exact append_nil _

theorem chunkBytes_pos (frame : FileOpenFrame) : 0 < frame.chunkBytes :=
  Nat.lt_of_lt_of_le Nat.one_pos (Nat.le_max_left _ _)

/-- What the frames of a task carry of a body of `length` bytes, when `credit` bytes of credit ever
reach the task. -/
structure CarriesBody (frames : List Outbound) (body : List UInt8) (credit : ℕ) : Prop where
  contiguous : Contiguous 0 (sentData frames)
  isPrefix : bytes (sentData frames) <+: body
  /-- The stream is closed behind the whole body only. -/
  close : ∀ finalOffset, .streamClose finalOffset ∈ frames →
    bytes (sentData frames) = body ∧ finalOffset = body.length
  close_iff : (∃ finalOffset, .streamClose finalOffset ∈ frames) ↔ body.length ≤ credit

theorem sendSegments_carries (closed : Bool) (hpos : 0 < size) (hsize : body.length < 2 ^ 64)
    (response : FileReadResponse) (available : ℕ) (events : List FileStreamEvent) :
    CarriesBody
        (.accepted response ::
          (sendSegments closed (Chunks.chunks size body) available 0 events).1)
        body (available + granted events) ∧
      (sendSegments closed (Chunks.chunks size body) available 0 events).2 ≠ .panicked := by
  have hflatten := Chunks.flatten_chunks hpos body
  have hfits : 0 + (Chunks.chunks size body).flatten.length < 2 ^ 64 := by
    rw [hflatten, Nat.zero_add]
    exact hsize
  rcases Nat.lt_or_ge (available + granted events) body.length with hlt | hge
  · have hshort : available + granted events < (Chunks.chunks size body).flatten.length := by
      rwa [hflatten]
    obtain ⟨n, ending, hsent, -, hne⟩ := sendSegments_of_lt hfits hshort
    rw [hsent]
    have hopen : ∀ finalOffset, .streamClose finalOffset ∉
          Outbound.accepted response :: dataFrames 0 ((Chunks.chunks size body).take n) := by
      intro finalOffset
      simpa using close_notMem_dataFrames finalOffset 0 ((Chunks.chunks size body).take n)
    refine ⟨?_, hne⟩
    exact {
      contiguous := contiguous_dataFrames 0 _
      isPrefix := by
        show bytes (sentData (dataFrames 0 ((Chunks.chunks size body).take n))) <+: body
        refine ⟨((Chunks.chunks size body).drop n).flatten, ?_⟩
        rw [bytes_dataFrames, ← flatten_append, take_append_drop, hflatten]
      close := fun finalOffset h => absurd h (hopen finalOffset)
      close_iff := ⟨fun ⟨finalOffset, h⟩ => absurd h (hopen finalOffset), fun h => by omega⟩ }
  · rw [sendSegments_of_le hfits (by rwa [hflatten]), hflatten, Nat.zero_add]
    have hdata : sentData (.accepted response ::
        (dataFrames 0 (Chunks.chunks size body) ++ [.streamClose body.length])) =
        sentData (dataFrames 0 (Chunks.chunks size body)) :=
      sentData_append_close _ _
    refine ⟨?_, by simp⟩
    exact {
      contiguous := hdata ▸ contiguous_dataFrames 0 _
      isPrefix := ⟨[], by rw [hdata, append_nil, bytes_dataFrames, hflatten]⟩
      close := by
        intro finalOffset h
        refine ⟨by rw [hdata, bytes_dataFrames, hflatten], ?_⟩
        have hnot := close_notMem_dataFrames finalOffset 0 (Chunks.chunks size body)
        simpa [hnot] using h
      close_iff := ⟨fun _ => hge, fun _ => ⟨body.length, by simp⟩⟩ }

/-- The bytes that a stream carries and what is said about them. A selection never overflows, lies
within the file and is described by its response, a `stat` by the size of the file. The data frames
of an accepted stream carry a beginning of the selected bytes; the last frame, which tells their
number, follows exactly when credit for all of them arrives, and then they are all. -/
theorem runValidatedFile_carries (frame : FileOpenFrame) :
    (∀ fileSize maxBytes, fileSize < 2 ^ 64 →
      Meets (selectFileBytes frame fileSize maxBytes) (·.Describes fileSize maxBytes)) ∧
    ∀ view channel,
      (runValidatedFile frame view channel).2 ≠ .panicked ∧
      ∀ response, readFileResponse frame view = .ok response →
        ∃ sel, selectFileBytes frame response.size (frame.maxBytes.getD defaultMaxBytes) = .ok sel ∧
          response.Carries sel view ∧
          CarriesBody (runValidatedFile frame view channel).1 response.body
            (frame.initialCredit + granted channel.events) := by
  refine ⟨fun fileSize maxBytes hsize => selectFileBytes_spec hsize, fun view channel => ?_⟩
  obtain ⟨hno, hspec⟩ := readFileResponse_spec frame view
  rw [runValidatedFile]
  rcases hread : readFileResponse frame view with (rejection | _) | response
  · exact ⟨by simp, fun _ h => by contradiction⟩
  · exact absurd hread hno
  · obtain ⟨sel, hsel, hdesc, hcarries⟩ := hspec response hread
    have hsize : response.body.length < 2 ^ 64 := by
      have hwithin := hdesc.within
      rw [hcarries.size] at hwithin
      rw [hcarries.length]
      exact Nat.lt_of_le_of_lt (Nat.le_trans (Nat.le_add_left _ _) hwithin)
        response.contentIdentity.size_lt
    obtain ⟨hsent, hne⟩ := sendSegments_carries channel.closed (chunkBytes_pos frame) hsize response
      frame.initialCredit channel.events
    refine ⟨hne, fun _ h => ?_⟩
    obtain rfl := Except.ok.inj h
    exact ⟨sel, hsel, hcarries, hsent⟩

/-- A frame that opens a file, and bytes 1 to 3 of it when the mode is `range`. -/
def openFrame (mode : String) (initialCreditBytes : ℕ) : FileOpenFrame where
  streamId := "st1"
  streamType := "file_read"
  mode := mode
  rangeStart := if mode = "range" then some 1 else none
  rangeEnd := if mode = "range" then some 3 else none
  rangeSuffixBytes := none
  expectedContentIdentity := none
  maxBytes := none
  initialCreditBytes := some initialCreditBytes
  maxChunkBytes := some 2

def helloView : FileView where
  before := .ok ⟨5, 0, by decide⟩
  content := .ok [104, 101, 108, 108, 111]
  after := .ok ⟨5, 0, by decide⟩

/-- A `stat` selects no byte and reports five, and a stream without credit sends none of the three
bytes it has selected. -/
theorem stat_and_starved :
    (∃ sel, selectFileBytes (openFrame "stat" 0) 5 100 = .ok sel ∧ sel.length = 0 ∧
      sel.contentLength = 5) ∧
    (∃ sel, selectFileBytes (openFrame "range" 0) 5 100 = .ok sel ∧ sel.length = 3 ∧
      bytes (sentData (runValidatedFile (openFrame "range" 0) helloView ⟨[], false⟩).1) = []) := by
  refine ⟨⟨_, rfl, rfl, rfl⟩, ⟨_, rfl, rfl, ?_⟩⟩
  decide

/-- Bytes 1 to 3 of a file of five, in two chunks that wait for three grants of a byte each. -/
theorem runValidatedFile_carries_range :
    Meets (selectFileBytes (openFrame "range" 0) 5 100) (·.Describes 5 100) ∧
    ∃ response, readFileResponse (openFrame "range" 0) helloView = .ok response ∧
      response.body = [101, 108, 108] ∧
      (runValidatedFile (openFrame "range" 0) helloView
        ⟨[.credit 1, .credit 1, .credit 1], false⟩).1 =
        [.accepted response, .streamData 0 [101, 108] false, .streamData 2 [108] false,
          .streamClose 3] ∧
      CarriesBody (runValidatedFile (openFrame "range" 0) helloView
        ⟨[.credit 1, .credit 1, .credit 1], false⟩).1 response.body 3 := by
  obtain ⟨hsel, hrun⟩ := runValidatedFile_carries (openFrame "range" 0)
  refine ⟨hsel 5 100 (by decide), ?_⟩
  obtain ⟨-, hcarries⟩ := hrun helloView ⟨[.credit 1, .credit 1, .credit 1], false⟩
  refine ⟨_, rfl, rfl, by decide, ?_⟩
  obtain ⟨-, -, -, hbody⟩ := hcarries _ rfl
  exact hbody

end Bud.Files
