import Bud.Lib.Runs
import Mathlib.Data.List.Nodup
import Mathlib.Data.List.TakeWhile
import Mathlib.Order.Nat

/-!
# The agent's event stream and its resumption

`agent-runtime-state.ts`: what happens to an agent is emitted as events of its thread, and a client
that reads the thread's snapshot can attach to the events after the snapshot's cursor. Events and
silent checkpoints draw their cursors from one counter and share one buffer, which is pruned by age
and by count; a client whose cursor is no longer in the buffer is told to resync.

## Modelling notes

Cursors come from `monotonicFactory`, whose values only grow, across threads too: the counter
`nextCursor`. Each reading of `Date.now()` is the next value of `clock`, which is any function at
all. A listener is a callback of its own and does not call the manager back; `received` is what it
has been called with.

The maps of the manager are keyed by thread, and a `Thread` is what they hold for one; `State` is a
thread with the two counters, which all the methods but `invalidateReplay` work on. Of a snapshot
only what some branch reads is kept. The setters differ in the other fields: `setPendingTool`,
`setPendingUserQuestions` and `setPendingTerminalWait` move the cursor as `markThinking` does, and
`setDraftAssistant`, `clearDraftAssistant`, `setDraftReasoning`, `clearDraftReasoning`,
`setContextBudget`, `clearContextBudget`, `setLastError`, `clearLastError` and `setEnvironment` as
`advanceCursor` does. The presentation that `emit` adds to a tool call is part of the event.
-/

namespace Bud.EventStream

open List

/-! ### Data -/

inductive OutputState where
  | working
  | text
  | awaitingCompletion
  deriving DecidableEq

structure OutputActivity where
  llmCallId : String
  state : OutputState
  deriving DecidableEq

inductive Event where
  | outputActivity (turnId llmCallId : String) (state : Option OutputState)
  | resyncRequired (reason : String)
  | other (event data : String)
  deriving DecidableEq

structure SseEvent where
  id : ℕ
  event : Event
  deriving DecidableEq

/-- An entry without an event is a checkpoint. -/
structure BufferEntry where
  cursor : ℕ
  event : Option SseEvent
  recordedAt : ℤ
  deriving DecidableEq

structure Snapshot where
  outputActivity : Option OutputActivity
  active : Bool
  turnId : Option String
  streamCursor : ℕ

structure Listener where
  afterCursor : Option ℕ
  received : List SseEvent
  deriving DecidableEq

structure Thread where
  buffer : List BufferEntry
  listeners : List Listener
  snapshot : Option Snapshot
  /-- Every event `emit` has been called for, in order. -/
  emitted : List SseEvent

structure State where
  nextCursor : ℕ
  /-- How often the clock has been read. -/
  readings : ℕ
  thread : Thread

structure Config where
  bufferLimit : ℕ
  bufferTtlMs : ℤ
  bufferLimit_pos : 0 < bufferLimit

variable (config : Config) (clock : ℕ → ℤ)

/-! ### The buffer -/

def State.setBuffer (s : State) (buffer : List BufferEntry) : State :=
  { s with thread := { s.thread with buffer := buffer } }

def State.setSnapshot (s : State) (snapshot : Snapshot) : State :=
  { s with thread := { s.thread with snapshot := some snapshot } }

/-- `while (buffer.length > this.bufferLimit) buffer.shift()`. -/
def Config.shift (buffer : List BufferEntry) : List BufferEntry :=
  buffer.drop (buffer.length - config.bufferLimit)

/-- The entries the age limit leaves at `now`. -/
def Config.unexpired (now : ℤ) (buffer : List BufferEntry) : List BufferEntry :=
  buffer.dropWhile fun entry => entry.recordedAt < now - config.bufferTtlMs

def pruneBuffer (s : State) : State :=
  match s.thread.buffer with
  | [] => s
  | _ :: _ =>
    { s with readings := s.readings + 1 }.setBuffer
      (config.shift (config.unexpired (clock s.readings) s.thread.buffer))

def appendBuffer (s : State) (entry : BufferEntry) : State :=
  let s := pruneBuffer config clock s
  s.setBuffer (config.shift (s.thread.buffer ++ [entry]))

/-- Draw a cursor and append an entry with it, recorded now. -/
def record (s : State) (event : ℕ → Option SseEvent) : State :=
  appendBuffer config clock
    { s with
      nextCursor := s.nextCursor + 1
      readings := s.readings + 1 }
    { cursor := s.nextCursor, event := event s.nextCursor, recordedAt := clock s.readings }

/-- `pushCheckpoint`; the cursor it returns is `s.nextCursor`. -/
def pushCheckpoint (s : State) : State := record config clock s fun _ => none

/-! ### Events -/

def Thread.publish (thread : Thread) (event : SseEvent) : Thread :=
  { thread with
    emitted := thread.emitted ++ [event]
    listeners := thread.listeners.map fun listener =>
      { listener with received := listener.received ++ [event] } }

/-- `emit`; the cursor it returns is `s.nextCursor`. -/
def emit (s : State) (event : Event) (beforePublish : ℕ → State → State) : State :=
  let s' := record config clock (beforePublish s.nextCursor s) fun cursor => some ⟨cursor, event⟩
  { s' with thread := s'.thread.publish ⟨s.nextCursor, event⟩ }

/-! ### Snapshots -/

def initialSnapshot (cursor : ℕ) : Snapshot :=
  { outputActivity := none
    active := false
    turnId := none
    streamCursor := cursor }

/-- `ensureSnapshot`: the state it leaves, with the snapshot it returns. -/
def ensureSnapshot (s : State) : State × Snapshot :=
  match s.thread.snapshot with
  | some existing => (pruneBuffer config clock s, existing)
  | none =>
    let snapshot := initialSnapshot s.nextCursor
    ((pushCheckpoint config clock s).setSnapshot snapshot, snapshot)

def hasCursor (buffer : List BufferEntry) (cursor : ℕ) : Bool :=
  buffer.any fun entry => entry.cursor == cursor

def ensureCursorAvailable (s : State) (snapshot : Snapshot) : State × Snapshot :=
  let s := pruneBuffer config clock s
  if hasCursor s.thread.buffer snapshot.streamCursor then (s, snapshot)
  else
    let snapshot := { snapshot with streamCursor := s.nextCursor }
    ((pushCheckpoint config clock s).setSnapshot snapshot, snapshot)

def updateSnapshot (s : State) (updater : Snapshot → Snapshot) (cursor : Option ℕ) : State :=
  let (s, snapshot) := ensureSnapshot config clock s
  match cursor with
  | some cursor =>
    s.setSnapshot { updater snapshot with streamCursor := max cursor snapshot.streamCursor }
  | none =>
    (pushCheckpoint config clock s).setSnapshot
      { updater snapshot with streamCursor := s.nextCursor }

/-- `getSnapshot`, with the cursor of the snapshot it returns. -/
def getSnapshot (s : State) (freshBoundary : Bool) : State × ℕ :=
  let (s, snapshot) := ensureSnapshot config clock s
  let (s, snapshot) := ensureCursorAvailable config clock s snapshot
  if freshBoundary then
    ((pushCheckpoint config clock s).setSnapshot { snapshot with streamCursor := s.nextCursor },
      s.nextCursor)
  else (s, snapshot.streamCursor)

def setOutputActivity (s : State) (turnId llmCallId : String) (state : Option OutputState)
    (begin' : Bool) : State :=
  let (s, snapshot) := ensureSnapshot config clock s
  let current := snapshot.outputActivity
  if !snapshot.active || snapshot.turnId != some turnId then s
  else if !begin' && current.map OutputActivity.llmCallId != some llmCallId then s
  else if current.isSome && current == state.map (OutputActivity.mk llmCallId) then s
  else
    emit config clock s (.outputActivity turnId llmCallId state) fun cursor s =>
      s.setSnapshot
        { snapshot with
          outputActivity := state.map (OutputActivity.mk llmCallId)
          streamCursor := cursor }

def clearOutputActivity (s : State) : State :=
  let (s, snapshot) := ensureSnapshot config clock s
  match snapshot.turnId, snapshot.outputActivity with
  | some turnId, some activity =>
    -- an empty turn id is falsy
    if turnId = "" then s
    else setOutputActivity config clock s turnId activity.llmCallId none false
  | _, _ => s

def startTurn (s : State) (turnId : String) : State :=
  updateSnapshot config clock s
    (fun snapshot =>
      { snapshot with
        outputActivity := none
        active := true
        turnId := some turnId })
    none

def finishTurn (s : State) : State :=
  updateSnapshot config clock (clearOutputActivity config clock s)
    (fun snapshot =>
      { snapshot with
        active := false
        turnId := none })
    none

def markThinking (s : State) (cursor : Option ℕ) : State :=
  updateSnapshot config clock (clearOutputActivity config clock s) id cursor

def advanceCursor (s : State) (cursor : Option ℕ) : State :=
  updateSnapshot config clock s id cursor

/-! ### Attaching -/

inductive Attachment where
  | attached (replayed : ℕ)
  | resyncRequired (providedCursor : ℕ)
  deriving DecidableEq

/-- `prepareAttachment`: the events to replay, or `none` when a resync is required. -/
def prepareAttachment (s : State) (afterCursor : Option ℕ) : State × Option (List SseEvent) :=
  let (s, snapshot) := ensureSnapshot config clock s
  let (s, _) := ensureCursorAvailable config clock s snapshot
  match afterCursor with
  | none => (s, some [])
  | some cursor =>
    match s.thread.buffer.dropWhile fun entry => entry.cursor != cursor with
    | [] => (s, none)
    | _ :: after => (s, some (after.filterMap BufferEntry.event))

/-- `attach` and `attachCallback`. -/
def attach (s : State) (afterCursor : Option ℕ) : State × Attachment :=
  match prepareAttachment config clock s afterCursor with
  | (s, none) => (s, .resyncRequired (afterCursor.getD 0))
  | (s, some replay) =>
    ({ s with
        thread :=
          { s.thread with
            listeners :=
              s.thread.listeners ++ [{ afterCursor := afterCursor, received := replay }] } },
      .attached replay.length)

def detach (s : State) (k : ℕ) : State :=
  { s with thread := { s.thread with listeners := s.thread.listeners.eraseIdx k } }

/-! ### The manager -/

structure Manager where
  nextCursor : ℕ
  readings : ℕ
  threads : String → Thread
  /-- Every thread a call has been made for. -/
  known : List String

def Manager.state (m : Manager) (threadId : String) : State :=
  { nextCursor := m.nextCursor
    readings := m.readings
    thread := m.threads threadId }

def Manager.put (m : Manager) (threadId : String) (s : State) : Manager :=
  { nextCursor := s.nextCursor
    readings := s.readings
    threads := Function.update m.threads threadId s.thread
    known := threadId :: m.known }

/-- `this.buffers.clear()`. -/
def Manager.clearBuffers (m : Manager) : Manager :=
  { m with threads := fun threadId => { m.threads threadId with buffer := [] } }

def emitResync (m : Manager) (threadId : String) : Manager :=
  m.put threadId
    (emit config clock (m.state threadId) (.resyncRequired "publication_failed") fun _ s => s)

/-- The thread is a key of `buffers` or of `listeners`. -/
def Manager.hasEntry (m : Manager) (threadId : String) : Bool :=
  !(m.threads threadId).buffer.isEmpty || !(m.threads threadId).listeners.isEmpty

/-- `invalidateReplay`; `threads` are the keys of the two maps, in the order they come in. -/
def invalidateReplay (m : Manager) (threads : List String) : Manager :=
  threads.foldl (emitResync config clock) m.clearBuffers

def init : Manager :=
  { nextCursor := 0
    readings := 0
    threads := fun _ =>
      { buffer := []
        listeners := []
        snapshot := none
        emitted := [] }
    known := [] }

inductive Act where
  | emit (threadId : String) (event : Event)
  | setOutputActivity (threadId turnId llmCallId : String) (state : Option OutputState)
    (begin' : Bool)
  | clearOutputActivity (threadId : String)
  | getSnapshot (threadId : String) (freshBoundary : Bool)
  | startTurn (threadId turnId : String)
  | finishTurn (threadId : String)
  | markThinking (threadId : String) (cursor : Option ℕ)
  | advanceCursor (threadId : String) (cursor : Option ℕ)
  | invalidateReplay (threads : List String)
  | attach (threadId : String) (afterCursor : Option ℕ)
  | detach (threadId : String) (k : ℕ)

def Drawn (m : Manager) (cursor : Option ℕ) : Prop := ∀ c ∈ cursor, c < m.nextCursor

instance (m : Manager) (cursor : Option ℕ) : Decidable (Drawn m cursor) :=
  inferInstanceAs (Decidable (∀ c ∈ cursor, c < m.nextCursor))

def step (m : Manager) : Act → Option Manager
  | .emit threadId event =>
    some (m.put threadId (emit config clock (m.state threadId) event fun _ s => s))
  | .setOutputActivity threadId turnId llmCallId state begin' =>
    some (m.put threadId
      (setOutputActivity config clock (m.state threadId) turnId llmCallId state begin'))
  | .clearOutputActivity threadId =>
    some (m.put threadId (clearOutputActivity config clock (m.state threadId)))
  | .getSnapshot threadId freshBoundary =>
    some (m.put threadId (getSnapshot config clock (m.state threadId) freshBoundary).1)
  | .startTurn threadId turnId =>
    some (m.put threadId (startTurn config clock (m.state threadId) turnId))
  | .finishTurn threadId => some (m.put threadId (finishTurn config clock (m.state threadId)))
  | .markThinking threadId cursor =>
    if Drawn m cursor then
      some (m.put threadId (markThinking config clock (m.state threadId) cursor))
    else none
  | .advanceCursor threadId cursor =>
    if Drawn m cursor then
      some (m.put threadId (advanceCursor config clock (m.state threadId) cursor))
    else none
  | .invalidateReplay threads =>
    if threads.Nodup ∧ ∀ threadId ∈ m.known ++ threads, threadId ∈ threads ↔ m.hasEntry threadId
    then some (invalidateReplay config clock m threads)
    else none
  | .attach threadId afterCursor =>
    some (m.put threadId (attach config clock (m.state threadId) afterCursor).1)
  | .detach threadId k => some (m.put threadId (detach (m.state threadId) k))

variable {config clock}

/-! ### The buffer only loses its front -/

/-- `s'` is `s` but for entries lost from the front of the buffer. -/
structure Trimmed (s s' : State) : Prop where
  nextCursor : s'.nextCursor = s.nextCursor
  thread : s'.thread = { s.thread with buffer := s'.thread.buffer }
  suffix : s'.thread.buffer <:+ s.thread.buffer

theorem Trimmed.refl (s : State) : Trimmed s s := ⟨rfl, rfl, suffix_rfl⟩

theorem Config.shift_suffix (config : Config) (buffer : List BufferEntry) :
    config.shift buffer <:+ buffer := drop_suffix _ _

theorem Config.unexpired_suffix (config : Config) (now : ℤ) (buffer : List BufferEntry) :
    config.unexpired now buffer <:+ buffer := dropWhile_suffix _

theorem Config.length_shift_le (config : Config) (buffer : List BufferEntry) :
    (config.shift buffer).length ≤ config.bufferLimit := by
  rw [Config.shift, length_drop]
  omega

variable {buffer : List BufferEntry} {s : State} {snapshot : Snapshot} {m : Manager}

theorem Config.shift_of_length_le (h : buffer.length ≤ config.bufferLimit) :
    config.shift buffer = buffer := by
  rw [Config.shift, Nat.sub_eq_zero_of_le h, drop_zero]

theorem Config.shift_concat (config : Config) (buffer : List BufferEntry) (entry : BufferEntry) :
    ∃ kept, kept <:+ buffer ∧ config.shift (buffer ++ [entry]) = kept ++ [entry] := by
  refine ⟨buffer.drop (buffer.length + 1 - config.bufferLimit), drop_suffix _ _, ?_⟩
  have := config.bufferLimit_pos
  rw [Config.shift, length_append, length_singleton, drop_append_of_le_length (by omega)]

theorem trimmed_pruneBuffer (config : Config) (clock : ℕ → ℤ) (s : State) :
    Trimmed s (pruneBuffer config clock s) := by
  rw [pruneBuffer]
  split
  · exact Trimmed.refl s
  · exact ⟨rfl, rfl, (config.shift_suffix _).trans (config.unexpired_suffix _ _)⟩

/-- What `record` does: the front may go, the new entry is at the end. -/
theorem record_eq (config : Config) (clock : ℕ → ℤ) (s : State) (event : ℕ → Option SseEvent) :
    ∃ kept recordedAt, kept <:+ s.thread.buffer ∧ kept.length + 1 ≤ config.bufferLimit ∧
      (record config clock s event).nextCursor = s.nextCursor + 1 ∧
      (record config clock s event).thread =
        { s.thread with
          buffer := kept ++ [⟨s.nextCursor, event s.nextCursor, recordedAt⟩] } := by
  set t : State :=
    { s with
      nextCursor := s.nextCursor + 1
      readings := s.readings + 1 } with ht
  obtain ⟨hn, hthread, hsuffix⟩ := trimmed_pruneBuffer config clock t
  obtain ⟨kept, hkept, hshift⟩ := config.shift_concat (pruneBuffer config clock t).thread.buffer
    ⟨s.nextCursor, event s.nextCursor, clock s.readings⟩
  have hlen := config.length_shift_le ((pruneBuffer config clock t).thread.buffer ++
    [⟨s.nextCursor, event s.nextCursor, clock s.readings⟩])
  rw [hshift, length_append] at hlen
  refine ⟨kept, clock s.readings, hkept.trans hsuffix, hlen, hn, ?_⟩
  have hrecord : (record config clock s event).thread =
      { (pruneBuffer config clock t).thread with buffer := kept ++
          [⟨s.nextCursor, event s.nextCursor, clock s.readings⟩] } := by
    rw [← hshift]
    rfl
  rw [hrecord, hthread]

/-! ### The invariant -/

def eventsAfter (emitted : List SseEvent) (cursor : ℕ) : List SseEvent :=
  emitted.filter fun event => cursor < event.id

/-- The entries behind an entry of the buffer carry the events after its cursor, and a listener
attached after a cursor has been given the events after that. -/
structure Inv (config : Config) (s : State) : Prop where
  buffer_lt : ∀ entry ∈ s.thread.buffer, entry.cursor < s.nextCursor
  buffer_sorted : s.thread.buffer.Pairwise fun a b => a.cursor < b.cursor
  length_le : s.thread.buffer.length ≤ config.bufferLimit
  emitted_lt : ∀ event ∈ s.thread.emitted, event.id < s.nextCursor
  emitted_sorted : s.thread.emitted.Pairwise fun a b => a.id < b.id
  replay : ∀ before entry after, s.thread.buffer = before ++ entry :: after →
    after.filterMap BufferEntry.event = eventsAfter s.thread.emitted entry.cursor
  received : ∀ listener ∈ s.thread.listeners, ∀ cursor, listener.afterCursor = some cursor →
    cursor < s.nextCursor ∧ listener.received = eventsAfter s.thread.emitted cursor
  snapshot_lt : ∀ snapshot, s.thread.snapshot = some snapshot →
    snapshot.streamCursor < s.nextCursor

/-- The snapshot of `s'` is not behind that of `s`. -/
structure Later (s s' : State) : Prop where
  nextCursor : s.nextCursor ≤ s'.nextCursor
  snapshot : ∀ snapshot, s.thread.snapshot = some snapshot →
    ∃ snapshot', s'.thread.snapshot = some snapshot' ∧
      snapshot.streamCursor ≤ snapshot'.streamCursor

theorem Later.refl (s : State) : Later s s :=
  ⟨Nat.le_refl _, fun snapshot h => ⟨snapshot, h, Nat.le_refl _⟩⟩

theorem Later.trans (h : Later s t) (h' : Later t u) : Later s u where
  nextCursor := h.nextCursor.trans h'.nextCursor
  snapshot snapshot hs := by
    obtain ⟨snapshot', hs', hle⟩ := h.snapshot snapshot hs
    obtain ⟨snapshot'', hs'', hle'⟩ := h'.snapshot snapshot' hs'
    exact ⟨snapshot'', hs'', hle.trans hle'⟩

/-- What a method does to a thread that satisfies the invariant. -/
def Keeps (config : Config) (s s' : State) : Prop := Inv config s' ∧ Later s s'

theorem Keeps.trans (h : Keeps config s t) (h' : Keeps config t u) :
    Keeps config s u := ⟨h'.1, h.2.trans h'.2⟩

variable {s' : State} {entry : BufferEntry} {emitted : List SseEvent} {m' : Manager}

theorem Inv.trimmed (h : Inv config s) (ht : Trimmed s s') : Inv config s' := by
  obtain ⟨hn, hthread, hsuffix⟩ := ht
  obtain ⟨front, hfront⟩ := hsuffix
  refine ⟨?_, ?_, ?_, ?_, ?_, ?_, ?_, ?_⟩
  · rw [hn]
    exact fun entry he => h.buffer_lt entry (by rw [← hfront]; exact mem_append_right _ he)
  · have := h.buffer_sorted
    rw [← hfront] at this
    exact (pairwise_append.mp this).2.1
  · have := h.length_le
    rw [← hfront, length_append] at this
    omega
  · rw [hn, hthread]
    exact h.emitted_lt
  · rw [hthread]
    exact h.emitted_sorted
  · rintro before entry after hb
    rw [hthread]
    exact h.replay (front ++ before) entry after (by rw [← hfront, hb, append_assoc])
  · rw [hn, hthread]
    exact h.received
  · rw [hn, hthread]
    exact h.snapshot_lt

theorem Trimmed.later (ht : Trimmed s s') : Later s s' where
  nextCursor := ht.nextCursor.ge
  snapshot snapshot hs := ⟨snapshot, by rw [ht.thread]; exact hs, Nat.le_refl _⟩

theorem keeps_pruneBuffer (h : Inv config s) (clock : ℕ → ℤ) :
    Keeps config s (pruneBuffer config clock s) :=
  have ht := trimmed_pruneBuffer config clock s
  ⟨h.trimmed ht, ht.later⟩

/-- Another thread has drawn cursors and read the clock. -/
theorem Inv.mono (h : Inv config s) (hn : s.nextCursor ≤ s'.nextCursor)
    (ht : s'.thread = s.thread) : Inv config s' := by
  constructor <;> rw [ht]
  · exact fun entry he => (h.buffer_lt entry he).trans_le hn
  · exact h.buffer_sorted
  · exact h.length_le
  · exact fun event he => (h.emitted_lt event he).trans_le hn
  · exact h.emitted_sorted
  · exact h.replay
  · exact fun listener hl cursor hc =>
      ⟨((h.received listener hl cursor hc).1).trans_le hn, (h.received listener hl cursor hc).2⟩
  · exact fun snapshot hs => (h.snapshot_lt snapshot hs).trans_le hn

theorem Inv.setSnapshot (h : Inv config s) (hlt : snapshot.streamCursor < s.nextCursor) :
    Inv config (s.setSnapshot snapshot) where
  buffer_lt := h.buffer_lt
  buffer_sorted := h.buffer_sorted
  length_le := h.length_le
  emitted_lt := h.emitted_lt
  emitted_sorted := h.emitted_sorted
  replay := h.replay
  received := h.received
  snapshot_lt := by
    rintro _ ⟨⟩
    exact hlt

/-! ### Recording and emitting -/

theorem split_concat {after : List BufferEntry} (h : buffer ++ [last] = before ++ entry :: after) :
    (entry = last ∧ after = []) ∨
      ∃ after', after = after' ++ [last] ∧ buffer = before ++ entry :: after' := by
  rcases eq_nil_or_concat after with rfl | ⟨after', x, rfl⟩
  · obtain ⟨-, hl⟩ := append_inj' h rfl
    exact .inl ⟨by simpa [eq_comm] using hl, rfl⟩
  · rw [concat_eq_append] at h ⊢
    rw [← cons_append, ← append_assoc] at h
    obtain ⟨hb, hl⟩ := append_inj' h rfl
    obtain rfl : last = x := by simpa using hl
    exact .inr ⟨after', rfl, hb⟩

theorem eventsAfter_eq_nil (h : ∀ event ∈ emitted, event.id ≤ cursor) :
    eventsAfter emitted cursor = [] := by
  rw [eventsAfter, filter_eq_nil_iff]
  intro event he hlt
  exact absurd (of_decide_eq_true hlt) (Nat.not_lt.mpr (h event he))

theorem eventsAfter_concat {event : SseEvent} {cursor : ℕ} (h : cursor < event.id) :
    eventsAfter (emitted ++ [event]) cursor = eventsAfter emitted cursor ++ [event] := by
  rw [eventsAfter, filter_append, filter_singleton, decide_eq_true h]
  rfl

/-- The buffer after `record` is sorted and below the counter. -/
theorem Inv.buffer_concat (h : Inv config s) {kept : List BufferEntry}
    (hk : kept <:+ s.thread.buffer) {last : BufferEntry} (hl : last.cursor = s.nextCursor) :
    (∀ entry ∈ kept ++ [last], entry.cursor < s.nextCursor + 1) ∧
      (kept ++ [last]).Pairwise fun a b => a.cursor < b.cursor := by
  have hlt : ∀ entry ∈ kept, entry.cursor < s.nextCursor :=
    fun entry he => h.buffer_lt entry (hk.subset he)
  constructor
  · intro entry he
    rcases mem_append.mp he with he | he
    · exact Nat.lt_succ_of_lt (hlt entry he)
    · rw [mem_singleton.mp he, hl]
      exact Nat.lt_succ_self _
  · refine pairwise_append.mpr ⟨h.buffer_sorted.sublist hk.sublist, pairwise_singleton _ _, ?_⟩
    intro a ha b hb
    rw [mem_singleton.mp hb, hl]
    exact hlt a ha

theorem inv_pushCheckpoint (h : Inv config s) (clock : ℕ → ℤ) :
    Inv config (pushCheckpoint config clock s) := by
  obtain ⟨kept, recordedAt, hk, hlen, hn, hthread⟩ :=
    record_eq config clock s fun _ => none
  obtain ⟨hlt, hsorted⟩ := @Inv.buffer_concat config s h kept hk
    ⟨s.nextCursor, none, recordedAt⟩ rfl
  rw [← pushCheckpoint] at hn hthread
  constructor <;> rw [hthread]
  · rw [hn]
    exact hlt
  · exact hsorted
  · simpa using hlen
  · rw [hn]
    exact fun event he => Nat.lt_succ_of_lt (h.emitted_lt event he)
  · exact h.emitted_sorted
  · rintro before entry after hb
    rcases split_concat hb with ⟨rfl, rfl⟩ | ⟨after', rfl, rfl⟩
    · exact (eventsAfter_eq_nil fun event he => (h.emitted_lt event he).le).symm
    · obtain ⟨front, hfront⟩ := hk
      rw [filterMap_append, h.replay (front ++ before) entry after'
        (by rw [← hfront, append_assoc])]
      exact append_nil _
  · rw [hn]
    exact fun listener hl cursor hc =>
      ⟨Nat.lt_succ_of_lt (h.received listener hl cursor hc).1, (h.received listener hl cursor hc).2⟩
  · rw [hn]
    exact fun snapshot hs => Nat.lt_succ_of_lt (h.snapshot_lt snapshot hs)

theorem pushCheckpoint_frame (config : Config) (clock : ℕ → ℤ) (s : State) :
    (pushCheckpoint config clock s).nextCursor = s.nextCursor + 1 ∧
      (pushCheckpoint config clock s).thread.snapshot = s.thread.snapshot ∧
      hasCursor (pushCheckpoint config clock s).thread.buffer s.nextCursor = true := by
  obtain ⟨kept, recordedAt, -, -, hn, hthread⟩ := record_eq config clock s fun _ => none
  refine ⟨hn, ?_, ?_⟩ <;> rw [pushCheckpoint, hthread]
  simp [hasCursor]

/-- A checkpoint that the snapshot is anchored to. -/
theorem keeps_pushCheckpoint (h : Inv config s) (clock : ℕ → ℤ)
    (hs : snapshot.streamCursor = s.nextCursor) :
    Keeps config s ((pushCheckpoint config clock s).setSnapshot snapshot) := by
  obtain ⟨hn, -, -⟩ := pushCheckpoint_frame config clock s
  refine ⟨(inv_pushCheckpoint h clock).setSnapshot (by rw [hs, hn]; exact Nat.lt_succ_self _),
    ?_, ?_⟩
  · show s.nextCursor ≤ (pushCheckpoint config clock s).nextCursor
    omega
  · intro old hold
    exact ⟨snapshot, rfl, by rw [hs]; exact (h.snapshot_lt old hold).le⟩

/-- Emitting, where the snapshot may be moved to the event's cursor first. -/
theorem keeps_emit (h : Inv config s) (clock : ℕ → ℤ) (event : Event)
    (hb : beforePublish s.nextCursor s = s ∨ ∃ snapshot, beforePublish s.nextCursor s =
      s.setSnapshot snapshot ∧ snapshot.streamCursor = s.nextCursor) :
    Keeps config s (emit config clock s event beforePublish) := by
  -- the snapshot that is published with, and how it lies to the old one
  obtain ⟨snapshot, hpub, hlt, hlater⟩ : ∃ snapshot, beforePublish s.nextCursor s =
        { s with thread := { s.thread with snapshot := snapshot } } ∧
      (∀ new, snapshot = some new → new.streamCursor < s.nextCursor + 1) ∧
      ∀ old, s.thread.snapshot = some old →
        ∃ new, snapshot = some new ∧ old.streamCursor ≤ new.streamCursor := by
    rcases hb with hb | ⟨new, hb, hnew⟩
    · exact ⟨s.thread.snapshot, hb, fun new hn => Nat.lt_succ_of_lt (h.snapshot_lt new hn),
        fun old ho => ⟨old, ho, Nat.le_refl _⟩⟩
    · refine ⟨some new, hb, ?_, fun old ho =>
        ⟨new, rfl, by rw [hnew]; exact (h.snapshot_lt old ho).le⟩⟩
      rintro _ ⟨⟩
      omega
  set t : State := { s with thread := { s.thread with snapshot := snapshot } } with ht
  obtain ⟨kept, recordedAt, hk, hlen, hn, hthread⟩ :=
    record_eq config clock t fun cursor => some ⟨cursor, event⟩
  have hk : kept <:+ s.thread.buffer := hk
  obtain ⟨hcursor, hsorted⟩ := @Inv.buffer_concat config s h kept hk
    ⟨s.nextCursor, some ⟨s.nextCursor, event⟩, recordedAt⟩ rfl
  have hemit : (emit config clock s event beforePublish).nextCursor = s.nextCursor + 1 ∧
      (emit config clock s event beforePublish).thread = Thread.publish
          { s.thread with
            buffer := kept ++ [⟨s.nextCursor, some ⟨s.nextCursor, event⟩, recordedAt⟩]
            snapshot := snapshot }
          ⟨s.nextCursor, event⟩ := by
    rw [emit, hpub]
    exact ⟨hn, by rw [hthread]⟩
  obtain ⟨hnext, hfinal⟩ := hemit
  refine ⟨?_, by rw [hnext]; exact Nat.le_succ _, ?_⟩
  · constructor <;> rw [hfinal]
    · rw [hnext]
      exact hcursor
    · exact hsorted
    · show (kept ++ [_]).length ≤ _
      simpa using hlen
    · rw [hnext]
      intro e he
      rcases mem_append.mp he with he | he
      · exact Nat.lt_succ_of_lt (h.emitted_lt e he)
      · rw [mem_singleton.mp he]
        exact Nat.lt_succ_self _
    · refine pairwise_append.mpr ⟨h.emitted_sorted, pairwise_singleton _ _, ?_⟩
      intro a ha b hb
      rw [mem_singleton.mp hb]
      exact h.emitted_lt a ha
    · rintro before entry after hsplit
      show _ = eventsAfter (s.thread.emitted ++ [_]) _
      rcases split_concat hsplit with ⟨rfl, rfl⟩ | ⟨after', rfl, rfl⟩
      · refine (eventsAfter_eq_nil ?_).symm
        intro e he
        rcases mem_append.mp he with he | he
        · exact (h.emitted_lt e he).le
        · exact (congrArg SseEvent.id (mem_singleton.mp he)).le
      · obtain ⟨front, hfront⟩ := hk
        have hentry : entry.cursor < s.nextCursor :=
          h.buffer_lt entry (by rw [← hfront]; simp)
        rw [filterMap_append, h.replay (front ++ before) entry after'
          (by rw [← hfront, append_assoc]), eventsAfter_concat hentry]
        rfl
    · rw [hnext]
      intro listener hl cursor hc
      obtain ⟨old, hold, rfl⟩ := mem_map.mp hl
      obtain ⟨hlt', hrec⟩ := h.received old hold cursor hc
      refine ⟨Nat.lt_succ_of_lt hlt', ?_⟩
      show old.received ++ [_] = eventsAfter (s.thread.emitted ++ [_]) _
      rw [hrec, @eventsAfter_concat _ ⟨s.nextCursor, event⟩ _ hlt']
    · rw [hnext]
      exact hlt
  · intro old ho
    rw [hfinal]
    exact hlater old ho

/-! ### The methods -/

theorem keeps_setSnapshot (h : Inv config s) (hold : s.thread.snapshot = some old)
    (hle : old.streamCursor ≤ new.streamCursor) (hlt : new.streamCursor < s.nextCursor) :
    Keeps config s (s.setSnapshot new) := by
  refine ⟨h.setSnapshot hlt, Nat.le_refl _, ?_⟩
  intro snapshot hs
  obtain rfl : old = snapshot := Option.some.inj (hold.symm.trans hs)
  exact ⟨new, rfl, hle⟩

theorem snapshot_pruneBuffer (config : Config) (clock : ℕ → ℤ) (s : State) :
    (pruneBuffer config clock s).thread.snapshot = s.thread.snapshot := by
  rw [(trimmed_pruneBuffer config clock s).thread]

theorem keeps_ensureSnapshot (h : Inv config s) (clock : ℕ → ℤ) :
    Keeps config s (ensureSnapshot config clock s).1 ∧
      (ensureSnapshot config clock s).1.thread.snapshot =
        some (ensureSnapshot config clock s).2 := by
  rw [ensureSnapshot]
  split
  · next existing hs =>
    exact ⟨keeps_pruneBuffer h clock, by rw [snapshot_pruneBuffer, hs]⟩
  · exact ⟨keeps_pushCheckpoint h clock rfl, rfl⟩

theorem keeps_ensureCursorAvailable (h : Inv config s) (clock : ℕ → ℤ)
    (hs : s.thread.snapshot = some snapshot) :
    Keeps config s (ensureCursorAvailable config clock s snapshot).1 ∧
      (ensureCursorAvailable config clock s snapshot).1.thread.snapshot =
        some (ensureCursorAvailable config clock s snapshot).2 ∧
      hasCursor (ensureCursorAvailable config clock s snapshot).1.thread.buffer
        (ensureCursorAvailable config clock s snapshot).2.streamCursor = true := by
  have hprune := keeps_pruneBuffer h clock
  rw [ensureCursorAvailable]
  dsimp only
  split
  · next hhas => exact ⟨hprune, by rw [snapshot_pruneBuffer, hs], hhas⟩
  · exact ⟨hprune.trans (keeps_pushCheckpoint hprune.1 clock rfl), rfl,
      (pushCheckpoint_frame config clock _).2.2⟩

theorem keeps_updateSnapshot (h : Inv config s) (clock : ℕ → ℤ) (updater : Snapshot → Snapshot)
    (hc : ∀ c ∈ cursor, c < s.nextCursor) :
    Keeps config s (updateSnapshot config clock s updater cursor) := by
  obtain ⟨hensure, hsnapshot⟩ := keeps_ensureSnapshot h clock
  rw [updateSnapshot]
  refine hensure.trans ?_
  cases cursor with
  | none => exact keeps_pushCheckpoint hensure.1 clock rfl
  | some c =>
    refine keeps_setSnapshot hensure.1 hsnapshot (Nat.le_max_right _ _) ?_
    exact Nat.max_lt.mpr ⟨(hc c rfl).trans_le hensure.2.nextCursor,
      hensure.1.snapshot_lt _ hsnapshot⟩

/-- `getSnapshot` returns the cursor the snapshot is left with, and it is in the buffer. -/
theorem keeps_getSnapshot (h : Inv config s) (clock : ℕ → ℤ) (freshBoundary : Bool) :
    Keeps config s (getSnapshot config clock s freshBoundary).1 ∧
      (∃ snapshot, (getSnapshot config clock s freshBoundary).1.thread.snapshot = some snapshot ∧
        snapshot.streamCursor = (getSnapshot config clock s freshBoundary).2) ∧
      hasCursor (getSnapshot config clock s freshBoundary).1.thread.buffer
        (getSnapshot config clock s freshBoundary).2 = true := by
  obtain ⟨hensure, hsnapshot⟩ := keeps_ensureSnapshot h clock
  obtain ⟨havail, hsnapshot', hhas⟩ := keeps_ensureCursorAvailable hensure.1 clock hsnapshot
  rw [getSnapshot]
  dsimp only
  split
  · exact ⟨(hensure.trans havail).trans (keeps_pushCheckpoint havail.1 clock rfl),
      ⟨_, rfl, rfl⟩, (pushCheckpoint_frame config clock _).2.2⟩
  · exact ⟨hensure.trans havail, ⟨_, hsnapshot', rfl⟩, hhas⟩

theorem keeps_setOutputActivity (h : Inv config s) (clock : ℕ → ℤ) (turnId llmCallId : String)
    (state : Option OutputState) (begin' : Bool) :
    Keeps config s (setOutputActivity config clock s turnId llmCallId state begin') := by
  obtain ⟨hensure, -⟩ := keeps_ensureSnapshot h clock
  rw [setOutputActivity]
  dsimp only
  split
  · exact hensure
  · split
    · exact hensure
    · split
      · exact hensure
      · exact hensure.trans (keeps_emit hensure.1 clock _ (.inr ⟨_, rfl, rfl⟩))

theorem keeps_clearOutputActivity (h : Inv config s) (clock : ℕ → ℤ) :
    Keeps config s (clearOutputActivity config clock s) := by
  obtain ⟨hensure, -⟩ := keeps_ensureSnapshot h clock
  rw [clearOutputActivity]
  dsimp only
  split
  · split
    · exact hensure
    · exact hensure.trans (keeps_setOutputActivity hensure.1 clock _ _ none false)
  · exact hensure

theorem keeps_clearThenUpdate (h : Inv config s) (clock : ℕ → ℤ) (updater : Snapshot → Snapshot)
    (hc : ∀ c ∈ cursor, c < s.nextCursor) : Keeps config s
      (updateSnapshot config clock (clearOutputActivity config clock s) updater cursor) := by
  have hclear := keeps_clearOutputActivity h clock
  exact hclear.trans (keeps_updateSnapshot hclear.1 clock updater
    fun c hmem => (hc c hmem).trans_le hclear.2.nextCursor)

/-! ### Attaching -/

theorem keeps_prepareAttachment (h : Inv config s) (clock : ℕ → ℤ) (afterCursor : Option ℕ) :
    Keeps config s (prepareAttachment config clock s afterCursor).1 ∧
      ∀ replay, (prepareAttachment config clock s afterCursor).2 = some replay →
        ∀ cursor, afterCursor = some cursor →
          cursor < (prepareAttachment config clock s afterCursor).1.nextCursor ∧
          replay = eventsAfter
            (prepareAttachment config clock s afterCursor).1.thread.emitted cursor := by
  obtain ⟨hensure, hsnapshot⟩ := keeps_ensureSnapshot h clock
  obtain ⟨havail, -, -⟩ := keeps_ensureCursorAvailable hensure.1 clock hsnapshot
  rw [prepareAttachment]
  dsimp only
  cases afterCursor with
  | none => exact ⟨hensure.trans havail, fun replay _ cursor hc => nomatch hc⟩
  | some c =>
    dsimp only
    split
    · exact ⟨hensure.trans havail, fun replay hr => nomatch hr⟩
    · next entry after hdrop =>
      refine ⟨hensure.trans havail, ?_⟩
      rintro _ ⟨⟩ _ ⟨⟩
      obtain rfl : entry.cursor = c := by
        have := head?_dropWhile_not (fun entry : BufferEntry => entry.cursor != c)
          (ensureCursorAvailable config clock (ensureSnapshot config clock s).1
            (ensureSnapshot config clock s).2).1.thread.buffer
        rw [hdrop] at this
        simpa using this
      have hsplit := takeWhile_append_dropWhile
        (p := fun e : BufferEntry => e.cursor != entry.cursor)
        (l := (ensureCursorAvailable config clock (ensureSnapshot config clock s).1
            (ensureSnapshot config clock s).2).1.thread.buffer)
      rw [hdrop] at hsplit
      exact ⟨havail.1.buffer_lt entry (by rw [← hsplit]; simp),
        havail.1.replay _ entry after hsplit.symm⟩

theorem keeps_attach (h : Inv config s) (clock : ℕ → ℤ) (afterCursor : Option ℕ) :
    Keeps config s (attach config clock s afterCursor).1 := by
  obtain ⟨hkeeps, hreplay⟩ := keeps_prepareAttachment h clock afterCursor
  rw [attach]
  split
  · next t hprep =>
    rw [hprep] at hkeeps
    exact hkeeps
  · next t replay hprep =>
    rw [hprep] at hkeeps hreplay
    refine hkeeps.trans ⟨?_, Nat.le_refl _, fun snapshot hs => ⟨snapshot, hs, Nat.le_refl _⟩⟩
    have hi := hkeeps.1
    refine { hi with received := ?_ }
    intro listener hl cursor hc
    rcases mem_append.mp hl with hl | hl
    · exact hi.received listener hl cursor hc
    · obtain rfl := mem_singleton.mp hl
      exact hreplay replay rfl cursor hc

theorem keeps_detach (h : Inv config s) (k : ℕ) : Keeps config s (detach s k) where
  left :=
    { h with received := fun listener hl => h.received listener (mem_of_mem_eraseIdx hl) }
  right := ⟨Nat.le_refl _, fun snapshot hs => ⟨snapshot, hs, Nat.le_refl _⟩⟩

/-- Preparing an attachment emits nothing and calls no listener. -/
theorem prepareAttachment_frame (config : Config) (clock : ℕ → ℤ) (s : State)
    (afterCursor : Option ℕ) :
    (prepareAttachment config clock s afterCursor).1.thread.emitted = s.thread.emitted ∧
      (prepareAttachment config clock s afterCursor).1.thread.listeners = s.thread.listeners := by
  have hprune : ∀ t : State, (pruneBuffer config clock t).thread.emitted = t.thread.emitted ∧
      (pruneBuffer config clock t).thread.listeners = t.thread.listeners := by
    intro t
    rw [(trimmed_pruneBuffer config clock t).thread]
    exact ⟨rfl, rfl⟩
  have hpush : ∀ (t : State) (snapshot : Snapshot),
      ((pushCheckpoint config clock t).setSnapshot snapshot).thread.emitted = t.thread.emitted ∧
      ((pushCheckpoint config clock t).setSnapshot snapshot).thread.listeners =
        t.thread.listeners := by
    intro t snapshot
    obtain ⟨kept, recordedAt, -, -, -, hthread⟩ := record_eq config clock t fun _ => none
    rw [State.setSnapshot, pushCheckpoint, hthread]
    exact ⟨rfl, rfl⟩
  have hensure : (ensureSnapshot config clock s).1.thread.emitted = s.thread.emitted ∧
      (ensureSnapshot config clock s).1.thread.listeners = s.thread.listeners := by
    rw [ensureSnapshot]
    split
    · exact hprune s
    · exact hpush s _
  have havail : ∀ (t : State) (snapshot : Snapshot),
      (ensureCursorAvailable config clock t snapshot).1.thread.emitted = t.thread.emitted ∧
      (ensureCursorAvailable config clock t snapshot).1.thread.listeners = t.thread.listeners := by
    intro t snapshot
    rw [ensureCursorAvailable]
    dsimp only
    split
    · exact hprune t
    · rw [(hpush _ _).1, (hpush _ _).2]
      exact hprune t
  obtain ⟨he, hl⟩ := havail (ensureCursorAvailable config clock (ensureSnapshot config clock s).1
    (ensureSnapshot config clock s).2).1 (ensureSnapshot config clock s).2
  rw [prepareAttachment]
  dsimp only
  cases afterCursor with
  | none => exact ⟨(havail _ _).1.trans hensure.1, (havail _ _).2.trans hensure.2⟩
  | some c =>
    dsimp only
    split <;> exact ⟨(havail _ _).1.trans hensure.1, (havail _ _).2.trans hensure.2⟩

/-- A client with a cursor is told to resync, or becomes a listener that has been given the events
after it. -/
theorem attach_cases (h : Inv config s) (clock : ℕ → ℤ) (cursor : ℕ) :
    ((attach config clock s (some cursor)).2 = .resyncRequired cursor ∧
        (attach config clock s (some cursor)).1.thread.listeners = s.thread.listeners) ∨
      (attach config clock s (some cursor)).2 =
          .attached (eventsAfter s.thread.emitted cursor).length ∧
        (attach config clock s (some cursor)).1.thread.listeners =
          s.thread.listeners ++ [⟨some cursor, eventsAfter s.thread.emitted cursor⟩] := by
  obtain ⟨-, hreplay⟩ := keeps_prepareAttachment h clock (some cursor)
  obtain ⟨hemitted, hlisteners⟩ := prepareAttachment_frame config clock s (some cursor)
  rw [attach]
  split
  · next t hprep =>
    rw [hprep] at hlisteners
    exact .inl ⟨rfl, hlisteners⟩
  · next t replay hprep =>
    rw [hprep] at hreplay hemitted hlisteners
    obtain ⟨-, hr⟩ := hreplay replay rfl cursor rfl
    dsimp only at hr hemitted hlisteners
    rw [hemitted] at hr
    rw [hr, hlisteners]
    exact .inr ⟨rfl, rfl⟩

/-! ### The age limit -/

/-- At `now`, some entry at or before the cursor has not reached the age limit. -/
def Current (config : Config) (s : State) (cursor : ℕ) (now : ℤ) : Prop :=
  ∃ entry ∈ s.thread.buffer, entry.cursor ≤ cursor ∧ now - config.bufferTtlMs ≤ entry.recordedAt

/-- An entry survives as long as one before it does. -/
theorem mem_unexpired_iff (hsorted : buffer.Pairwise fun a b => a.cursor < b.cursor)
    (hmem : entry ∈ buffer) : entry ∈ config.unexpired now buffer ↔
      ∃ e ∈ buffer, e.cursor ≤ entry.cursor ∧ now - config.bufferTtlMs ≤ e.recordedAt := by
  induction buffer with
  | nil => exact absurd hmem not_mem_nil
  | cons a buffer ih =>
    obtain ⟨hfirst, hrest⟩ := pairwise_cons.mp hsorted
    have hle : a.cursor ≤ entry.cursor := by
      rcases mem_cons.mp hmem with rfl | hmem
      · exact Nat.le_refl _
      · exact (hfirst entry hmem).le
    by_cases hexp : a.recordedAt < now - config.bufferTtlMs
    · rw [Config.unexpired, dropWhile_cons, if_pos (decide_eq_true hexp), ← Config.unexpired]
      rcases mem_cons.mp hmem with rfl | hmem
      · -- everything up to the first entry has expired
        constructor
        · intro hin
          exact absurd (hfirst _ ((config.unexpired_suffix now buffer).subset hin))
            (Nat.lt_irrefl _)
        · rintro ⟨e, he, hec, hnow⟩
          rcases mem_cons.mp he with rfl | he
          · omega
          · exact absurd (hfirst e he) (Nat.not_lt.mpr hec)
      · rw [ih hrest hmem]
        constructor
        · rintro ⟨e, he, hec, hnow⟩
          exact ⟨e, mem_cons_of_mem _ he, hec, hnow⟩
        · rintro ⟨e, he, hec, hnow⟩
          rcases mem_cons.mp he with rfl | he
          · omega
          · exact ⟨e, he, hec, hnow⟩
    · rw [Config.unexpired, dropWhile_cons, if_neg (by simpa using hexp)]
      exact ⟨fun _ => ⟨a, mem_cons_self .., hle, by omega⟩, fun _ => hmem⟩

theorem hasCursor_iff :
    hasCursor buffer cursor = true ↔ ∃ entry ∈ buffer, entry.cursor = cursor := by
  simp [hasCursor]

/-- What pruning leaves of a buffer that is not empty. -/
theorem buffer_pruneBuffer (h : Inv config s) (clock : ℕ → ℤ) (hne : s.thread.buffer ≠ []) :
    (pruneBuffer config clock s).thread.buffer =
        config.unexpired (clock s.readings) s.thread.buffer ∧
      (pruneBuffer config clock s).readings = s.readings + 1 := by
  have hlen : (config.unexpired (clock s.readings) s.thread.buffer).length ≤ config.bufferLimit :=
    (config.unexpired_suffix _ _).length_le.trans h.length_le
  rw [pruneBuffer]
  split
  · next hnil => exact absurd hnil hne
  · exact ⟨config.shift_of_length_le hlen, rfl⟩

theorem hasCursor_pruneBuffer_iff (h : Inv config s) (clock : ℕ → ℤ)
    (hhas : hasCursor s.thread.buffer cursor = true) :
    hasCursor (pruneBuffer config clock s).thread.buffer cursor = true ↔
      Current config s cursor (clock s.readings) := by
  obtain ⟨entry, hmem, rfl⟩ := hasCursor_iff.mp hhas
  rw [(buffer_pruneBuffer h clock (ne_nil_of_mem hmem)).1, Current,
    ← mem_unexpired_iff h.buffer_sorted hmem, hasCursor_iff]
  constructor
  · rintro ⟨e, he, hec⟩
    have hin := (config.unexpired_suffix (clock s.readings) s.thread.buffer).subset he
    have hnodup : (s.thread.buffer.map BufferEntry.cursor).Nodup :=
      pairwise_map.mpr (h.buffer_sorted.imp Nat.ne_of_lt)
    rwa [← inj_on_of_nodup_map hnodup hin hmem hec]
  · exact fun hin => ⟨entry, hin, rfl⟩

/-- Two prunings in a row leave a cursor if at either reading it is current. -/
theorem hasCursor_pruneBuffer_pruneBuffer_iff (h : Inv config s) (clock : ℕ → ℤ)
    (hhas : hasCursor s.thread.buffer cursor = true) :
    hasCursor (pruneBuffer config clock (pruneBuffer config clock s)).thread.buffer cursor = true ↔
      Current config s cursor (clock s.readings) ∧
        Current config s cursor (clock (s.readings + 1)) := by
  obtain ⟨entry, hmem, rfl⟩ := hasCursor_iff.mp hhas
  obtain ⟨hbuffer, hreadings⟩ := buffer_pruneBuffer h clock (ne_nil_of_mem hmem)
  have hprune := keeps_pruneBuffer h clock
  have htrim := (trimmed_pruneBuffer config clock s).suffix
  by_cases hfirst : Current config s entry.cursor (clock s.readings)
  · rw [hasCursor_pruneBuffer_iff hprune.1 clock ((hasCursor_pruneBuffer_iff h clock hhas).mpr
      hfirst), hreadings]
    refine ⟨?_, ?_⟩
    · rintro ⟨e, he, hec, hnow⟩
      exact ⟨hfirst, e, htrim.subset he, hec, hnow⟩
    · rintro ⟨-, e, he, hec, hnow⟩
      by_cases hin : e ∈ (pruneBuffer config clock s).thread.buffer
      · exact ⟨e, hin, hec, hnow⟩
      · -- the clock has gone back, and what survived the first pruning survives the second
        obtain ⟨e', he', hec', hnow'⟩ := hfirst
        have hold : ¬ clock s.readings - config.bufferTtlMs ≤ e.recordedAt := by
          intro hcur
          rw [hbuffer, mem_unexpired_iff h.buffer_sorted he] at hin
          exact hin ⟨e, he, Nat.le_refl _, hcur⟩
        refine ⟨e', ?_, hec', by omega⟩
        rw [hbuffer, mem_unexpired_iff h.buffer_sorted he']
        exact ⟨e', he', Nat.le_refl _, hnow'⟩
  · refine iff_of_false ?_ fun hboth => hfirst hboth.1
    intro hin
    refine hfirst ((hasCursor_pruneBuffer_iff h clock hhas).mp ?_)
    obtain ⟨e, he, hec⟩ := hasCursor_iff.mp hin
    exact hasCursor_iff.mpr
      ⟨e, (trimmed_pruneBuffer config clock (pruneBuffer config clock s)).suffix.subset he, hec⟩

/-- An attach finds its cursor if the buffer has it once the snapshot's is available. -/
theorem attached_iff (config : Config) (clock : ℕ → ℤ) (s : State) (cursor : ℕ) :
    (∃ replayed, (attach config clock s (some cursor)).2 = .attached replayed) ↔
      hasCursor (ensureCursorAvailable config clock (ensureSnapshot config clock s).1
        (ensureSnapshot config clock s).2).1.thread.buffer cursor = true := by
  rw [attach, prepareAttachment]
  dsimp only
  generalize ensureCursorAvailable config clock (ensureSnapshot config clock s).1
    (ensureSnapshot config clock s).2 = t
  cases hdrop : t.1.thread.buffer.dropWhile fun entry => entry.cursor != cursor with
  | nil =>
    refine iff_of_false (fun ⟨replayed, hr⟩ => nomatch hr) fun hhas => ?_
    obtain ⟨e, he, hec⟩ := hasCursor_iff.mp hhas
    have := dropWhile_eq_nil_iff.mp hdrop e he
    simp [hec] at this
  | cons entry after =>
    refine iff_of_true ⟨_, rfl⟩ (hasCursor_iff.mpr ⟨entry, ?_, ?_⟩)
    · exact (dropWhile_suffix _).subset (hdrop ▸ mem_cons_self ..)
    · have := head?_dropWhile_not (fun e : BufferEntry => e.cursor != cursor) t.1.thread.buffer
      rw [hdrop] at this
      simpa using this

/-- **When the cursor of a snapshot can be resumed from.** The cursor is in the buffer when
`getSnapshot` returns; an attach that follows reads the clock twice before it looks for it. -/
theorem attach_getSnapshot_iff (h : Inv config s) (clock : ℕ → ℤ) (freshBoundary : Bool)
    (hget : getSnapshot config clock s freshBoundary = (t, cursor)) :
    (∃ replayed, (attach config clock t (some cursor)).2 = .attached replayed) ↔
      Current config t cursor (clock t.readings) ∧
        Current config t cursor (clock (t.readings + 1)) := by
  obtain ⟨hkeeps, ⟨snapshot, hsnapshot, hcursor⟩, hhas⟩ := keeps_getSnapshot h clock freshBoundary
  rw [hget] at hkeeps hsnapshot hcursor hhas
  dsimp only at hkeeps hsnapshot hcursor hhas
  obtain rfl := hcursor
  have hprune := keeps_pruneBuffer hkeeps.1 clock
  have hprune' := keeps_pruneBuffer hprune.1 clock
  have hensure : ensureSnapshot config clock t = (pruneBuffer config clock t, snapshot) := by
    rw [ensureSnapshot, hsnapshot]
  rw [attached_iff, hensure, ← hasCursor_pruneBuffer_pruneBuffer_iff hkeeps.1 clock hhas,
    ensureCursorAvailable]
  dsimp only
  split
  · rfl
  · next hin =>
    -- the checkpoint that takes the snapshot's place has a cursor of its own
    refine iff_of_false (fun hhas' => ?_) hin
    obtain ⟨e, he, hec⟩ := hasCursor_iff.mp hhas'
    obtain ⟨kept, recordedAt, hk, -, -, hthread⟩ := record_eq config clock
      (pruneBuffer config clock (pruneBuffer config clock t)) fun _ => none
    rw [State.setSnapshot, pushCheckpoint, hthread] at he
    rcases mem_append.mp he with he | he
    · exact hin (hasCursor_iff.mpr ⟨e, hk.subset he, hec⟩)
    · have hlt := hkeeps.1.snapshot_lt snapshot hsnapshot
      have hle := hprune.2.nextCursor.trans hprune'.2.nextCursor
      rw [mem_singleton.mp he] at hec
      dsimp only at hec
      omega

/-! ### Runs -/

/-- Every thread satisfies the invariant. -/
def Manager.Inv (config : Config) (m : Manager) : Prop :=
  ∀ threadId, EventStream.Inv config (m.state threadId)

/-- No snapshot has moved back. -/
def Manager.Later (m m' : Manager) : Prop :=
  ∀ threadId, EventStream.Later (m.state threadId) (m'.state threadId)

theorem inv_init (config : Config) : init.Inv config := by
  intro threadId
  constructor <;> simp [init, Manager.state]

theorem Manager.Inv.put (h : m.Inv config) (hk : Keeps config (m.state threadId) s) :
    (m.put threadId s).Inv config ∧ m.Later (m.put threadId s) := by
  have hnext : m.nextCursor ≤ s.nextCursor := hk.2.nextCursor
  have hself : (m.put threadId s).state threadId = s := by
    rw [Manager.state, Manager.put]
    dsimp only
    rw [Function.update_self]
  have hother : ∀ other, other ≠ threadId →
      ((m.put threadId s).state other).thread = (m.state other).thread :=
    fun other hne => Function.update_of_ne hne ..
  constructor <;> intro other <;> by_cases hid : other = threadId
  · rw [hid, hself]
    exact hk.1
  · exact (h other).mono hnext (hother other hid)
  · rw [hid, hself]
    exact hk.2
  · refine ⟨hnext, fun snapshot hs => ⟨snapshot, ?_, Nat.le_refl _⟩⟩
    rw [hother other hid]
    exact hs

theorem Manager.Later.trans (h : m.Later m') (h' : m'.Later m'') :
    m.Later m'' := fun threadId => (h threadId).trans (h' threadId)

theorem inv_invalidateReplay (h : m.Inv config) (clock : ℕ → ℤ) (threads : List String) :
    (invalidateReplay config clock m threads).Inv config ∧
      m.Later (invalidateReplay config clock m threads) := by
  have hclear : m.clearBuffers.Inv config ∧ m.Later m.clearBuffers := by
    have htrim : ∀ threadId, Trimmed (m.state threadId) (m.clearBuffers.state threadId) :=
      fun threadId => ⟨rfl, rfl, nil_suffix⟩
    exact ⟨fun threadId => (h threadId).trimmed (htrim threadId),
      fun threadId => (htrim threadId).later⟩
  rw [invalidateReplay]
  generalize m.clearBuffers = n at hclear
  induction threads generalizing n with
  | nil => exact hclear
  | cons threadId threads ih =>
    obtain ⟨hinv, hlater⟩ := hclear
    have hemit : Keeps config (n.state threadId) (emit config clock (n.state threadId)
        (.resyncRequired "publication_failed") fun _ s => s) :=
      keeps_emit (hinv threadId) clock _ (.inl rfl)
    obtain ⟨hinv', hlater'⟩ := hinv.put hemit
    exact ih _ ⟨hinv', hlater.trans hlater'⟩

/-- **What one call preserves.** -/
theorem inv_step (h : m.Inv config) (hs : step config clock m a = some m') :
    m'.Inv config ∧ m.Later m' := by
  cases a with
  | emit threadId event =>
    cases hs
    exact h.put (keeps_emit (h threadId) clock event (.inl rfl))
  | setOutputActivity threadId turnId llmCallId state begin' =>
    cases hs
    exact h.put (keeps_setOutputActivity (h threadId) clock turnId llmCallId state begin')
  | clearOutputActivity threadId =>
    cases hs
    exact h.put (keeps_clearOutputActivity (h threadId) clock)
  | getSnapshot threadId freshBoundary =>
    cases hs
    exact h.put (keeps_getSnapshot (h threadId) clock freshBoundary).1
  | startTurn threadId turnId =>
    cases hs
    exact h.put (keeps_updateSnapshot (h threadId) clock _ (by simp))
  | finishTurn threadId =>
    cases hs
    exact h.put (keeps_clearThenUpdate (h threadId) clock _ (by simp))
  | markThinking threadId cursor =>
    obtain ⟨hdrawn, rfl⟩ := Runs.of_guard hs
    exact h.put (keeps_clearThenUpdate (h threadId) clock _ hdrawn)
  | advanceCursor threadId cursor =>
    obtain ⟨hdrawn, rfl⟩ := Runs.of_guard hs
    exact h.put (keeps_updateSnapshot (h threadId) clock _ hdrawn)
  | invalidateReplay threads =>
    obtain ⟨-, rfl⟩ := Runs.of_guard hs
    exact inv_invalidateReplay h clock threads
  | attach threadId afterCursor =>
    cases hs
    exact h.put (keeps_attach (h threadId) clock afterCursor)
  | detach threadId k =>
    cases hs
    exact h.put (keeps_detach (h threadId) k)

theorem inv_of_run (h : m.Inv config) (hrun : Runs.run (step config clock) acts m = some m') :
    m'.Inv config ∧ m.Later m' :=
  @Runs.invariant _ _ (step config clock) (fun t => t.Inv config ∧ m.Later t)
    (fun _ _ _ hi hs => ⟨(inv_step hi.1 hs).1, hi.2.trans (inv_step hi.1 hs).2⟩)
    acts m m' hrun ⟨h, fun _ => Later.refl _⟩

/-- **Resuming is exact.** In every state that calls lead to: the events of a thread have increasing
ids, every listener attached after a cursor has been given the events after it, and a client that
attaches with one resyncs or becomes such a listener; the cursor `getSnapshot` returns can be
resumed from as long as an entry at or before it is within the age limit; and from there on no
snapshot moves back. -/
theorem resume_exactly_once {acts : List Act} {m : Manager}
    (hrun : Runs.run (step config clock) acts init = some m) :
    (∀ threadId,
      (m.threads threadId).emitted.Pairwise (fun a b => a.id < b.id) ∧
      (∀ listener ∈ (m.threads threadId).listeners, ∀ cursor,
        listener.afterCursor = some cursor →
        listener.received = eventsAfter (m.threads threadId).emitted cursor) ∧
      ∀ cursor,
        ((attach config clock (m.state threadId) (some cursor)).2 = .resyncRequired cursor ∧
          (attach config clock (m.state threadId) (some cursor)).1.thread.listeners =
            (m.threads threadId).listeners) ∨
        (attach config clock (m.state threadId) (some cursor)).2 =
            .attached (eventsAfter (m.threads threadId).emitted cursor).length ∧
          (attach config clock (m.state threadId) (some cursor)).1.thread.listeners =
            (m.threads threadId).listeners ++
              [⟨some cursor, eventsAfter (m.threads threadId).emitted cursor⟩]) ∧
    (∀ threadId freshBoundary t cursor,
      getSnapshot config clock (m.state threadId) freshBoundary = (t, cursor) →
      ((∃ replayed, (attach config clock t (some cursor)).2 = .attached replayed) ↔
        Current config t cursor (clock t.readings) ∧
          Current config t cursor (clock (t.readings + 1)))) ∧
    ∀ acts' m', Runs.run (step config clock) acts' m = some m' → ∀ threadId snapshot,
      (m.threads threadId).snapshot = some snapshot →
      ∃ snapshot', (m'.threads threadId).snapshot = some snapshot' ∧
        snapshot.streamCursor ≤ snapshot'.streamCursor := by
  obtain ⟨hinv, -⟩ := inv_of_run (inv_init config) hrun
  refine ⟨fun threadId => ⟨(hinv threadId).emitted_sorted, ?_, ?_⟩, ?_, ?_⟩
  · exact fun listener hl cursor hc => ((hinv threadId).received listener hl cursor hc).2
  · exact attach_cases (hinv threadId) clock
  · exact fun threadId freshBoundary t cursor hget =>
      attach_getSnapshot_iff (hinv threadId) clock freshBoundary hget
  · exact fun acts' m' hrun' threadId => ((inv_of_run hinv hrun').2 threadId).snapshot

/-- **What is replayed is bounded and complete.** In every state that calls lead to, a thread's
buffer has at most `bufferLimit` entries with increasing cursors that have been drawn, and what is
behind one of them is every event after its cursor. -/
theorem buffer_bounded {acts : List Act} {m : Manager}
    (hrun : Runs.run (step config clock) acts init = some m) (threadId : String) :
    (m.threads threadId).buffer.length ≤ config.bufferLimit ∧
      (m.threads threadId).buffer.Pairwise (fun a b => a.cursor < b.cursor) ∧
      (∀ entry ∈ (m.threads threadId).buffer, entry.cursor < m.nextCursor) ∧
      ∀ before entry after, (m.threads threadId).buffer = before ++ entry :: after →
        after.filterMap BufferEntry.event =
          eventsAfter (m.threads threadId).emitted entry.cursor :=
  have h := (inv_of_run (inv_init config) hrun).1 threadId
  ⟨h.length_le, h.buffer_sorted, h.buffer_lt, h.replay⟩

/-- A buffer of two entries that are kept for a minute. -/
def minute : Config :=
  { bufferLimit := 2
    bufferTtlMs := 60000
    bufferLimit_pos := by decide }

/-- The clock stands still for two readings and then moves past the age limit. -/
def jump (k : ℕ) : ℤ := if k < 2 then 0 else 60001

def exampleActs : List Act :=
  [.getSnapshot "t" false, .emit "t" (.other "agent.message" "{}"), .attach "t" (some 0)]

def exampleEnd : Option Manager := Runs.run (step minute fun _ => 0) exampleActs init

theorem resume_exactly_once_example : ∃ m, exampleEnd = some m ∧
    (∀ listener ∈ (m.threads "t").listeners, ∀ cursor, listener.afterCursor = some cursor →
      listener.received = eventsAfter (m.threads "t").emitted cursor) ∧
    (m.threads "t").listeners = [⟨some 0, [⟨1, .other "agent.message" "{}"⟩]⟩] := by
  have hrun : ∃ m, exampleEnd = some m := Option.isSome_iff_exists.mp (by decide)
  obtain ⟨m, hm⟩ := hrun
  refine ⟨m, hm, ((resume_exactly_once hm).1 "t").2.1, ?_⟩
  have hlisteners : exampleEnd.map (fun m => (m.threads "t").listeners) =
      some [⟨some 0, [⟨1, .other "agent.message" "{}"⟩]⟩] := by decide
  rw [hm] at hlisteners
  exact Option.some.inj hlisteners

theorem buffer_bounded_example : ∃ m, exampleEnd = some m ∧ (m.threads "t").buffer.length ≤ 2 := by
  obtain ⟨m, hm⟩ : ∃ m, exampleEnd = some m := Option.isSome_iff_exists.mp (by decide)
  exact ⟨m, hm, (buffer_bounded hm "t").1⟩

/-- **A snapshot's cursor may be too old by the time of the attach.** -/
theorem not_resumable_jump : ∃ t cursor,
    getSnapshot minute jump (init.state "t") false = (t, cursor) ∧
      (attach minute jump t (some cursor)).2 = .resyncRequired cursor :=
  ⟨_, _, rfl, by decide⟩

end Bud.EventStream
