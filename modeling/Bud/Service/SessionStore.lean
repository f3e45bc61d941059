import Bud.Lib.Runs

/-!
# The lifecycle of a terminal session's row

`session-store.ts` and `terminal-session-manager.ts`: a terminal session is one row, and six
operations write its `state` column. Some are guarded by the row they write
(`suspendSessionsForBud`, `markIdleSessions`), some by a row read before an `await`
(`ensureSession`), and two not at all (`markClosed`, `updateStatus`).

A statement of SQL is one action, and so is everything a call does between two of them. Calls of
the service interleave freely; frames of the daemon are handled one at a time, in arrival order, by
the session's ingest queue.

## Modelling notes

There is one session, and its row exists. Times are numbers. Frames other than `terminal_status`
and the `child_exited` event do not write `state`; together with input, output and resizes they
are `touch`. Sending to the daemon succeeds when the Bud is online, which is left to the scheduler.

## What is load-bearing

That nothing writes another state over a row that has been closed. `suspendSessionsForBud` says so
in its `where`. `updateStatus` and the last statement of `ensureSession` do not: a status frame
under way when the service closes the session, or an `ensureSession` that read the row before it
was closed, opens it again, with `closedAt` still set.
-/

namespace Bud.SessionStore

/-! ### The row -/

structure Row where
  budId : String
  state : String
  cols : ℕ
  rows : ℕ
  cwd : Option String
  startedAt : Option ℕ
  lastActivityAt : Option ℕ
  closedAt : Option ℕ

/-- `TerminalStatusPayload`, the fields the store writes. -/
structure StatusPayload where
  state : String
  cols : Option ℕ
  rows : Option ℕ
  cwd : Option String

/-- The row `ensureSessionRecordForThread` inserts. -/
def Row.new (budId : String) : Row :=
  { budId := budId
    state := "pending"
    cols := 200
    rows := 50
    cwd := none
    startedAt := none
    lastActivityAt := none
    closedAt := none }

/-! ### The statements -/

def markClosed (now : ℕ) (row : Row) : Row :=
  { row with state := "closed", closedAt := some now }

def updateStatus (now : ℕ) (payload : StatusPayload) (row : Row) : Row :=
  { row with
    state := payload.state
    cols := payload.cols.getD row.cols
    rows := payload.rows.getD row.rows
    cwd := payload.cwd.or row.cwd
    startedAt := if payload.state = "ready" then row.startedAt.or (some now) else row.startedAt
    closedAt := if payload.state = "closed" then row.closedAt.or (some now) else row.closedAt
    lastActivityAt := some now }

/-- The last statement of `ensureSession`. -/
def markCreating (now : ℕ) (row : Row) : Row :=
  { row with state := "creating", lastActivityAt := some now }

def suspendSessionsForBud (budId : String) (row : Row) : Row :=
  if row.budId = budId ∧ row.state ∈ ["ready", "active", "idle", "creating"] ∧
      row.closedAt = none then
    { row with state := "pending" }
  else row

/-- `last_activity_at < threshold`, which a null is not. -/
def inactiveSince (threshold : ℕ) (row : Row) : Bool :=
  row.lastActivityAt.any fun t => t < threshold

def markIdleSessions (threshold : ℕ) (row : Row) : Row :=
  if row.state ∈ ["ready", "active"] ∧ inactiveSince threshold row then { row with state := "idle" }
  else row

/-! ### Calls and frames -/

/-- A call of the service that is under way. -/
inductive Call where
  /-- `ensureSession`, before it reads the row. -/
  | ensureRead
  /-- `ensureSession`, with `terminal_ensure` sent. -/
  | ensureWrite
  /-- `closeSession`, before it reads the row. -/
  | closeRead
  /-- `closeSession`, with `terminal_close` sent. -/
  | closeWrite
  deriving DecidableEq

/-- The frames that write `state`. -/
inductive Frame where
  | terminalStatus (payload : StatusPayload)
  | childExited

structure Sys where
  row : Row
  calls : List Call
  /-- Frames with the Bud they came from; the first is being handled. -/
  ingest : List (String × Frame)
  /-- The first frame has passed `resolveOwnedSession`. -/
  resolved : Bool

def init (budId : String) : Sys :=
  { row := Row.new budId, calls := [], ingest := [], resolved := false }

inductive Act where
  | ensureSession
  | closeSession
  /-- The idle monitor finds the session stale and closes it. -/
  | closeStale (threshold : ℕ)
  | call (i : ℕ) (budOnline : Bool) (now : ℕ)
  | frame (budId : String) (frame : Frame)
  /-- The handler of the first frame goes on to its next statement. -/
  | ingest (now : ℕ)
  | suspendSessionsForBud (budId : String)
  | markIdleSessions (threshold : ℕ)
  /-- Output, input, a resize or a working directory. -/
  | touch (now : ℕ) (cols rows : Option ℕ) (cwd : Option String)

/-- What `ensureSession` goes on with after it read the row. -/
def afterEnsureRead (row : Row) (budOnline : Bool) : List Call :=
  if row.state = "closed" then []
  else if row.state = "ready" ∨ row.state = "active" ∨ row.state = "idle" then []
  else if budOnline then [.ensureWrite]
  else []

/-- A call's next statement: the row it leaves, and what is left of the call. -/
def Call.advance (row : Row) (budOnline : Bool) (now : ℕ) : Call → Row × List Call
  | .ensureRead => (row, afterEnsureRead row budOnline)
  | .ensureWrite => (markCreating now row, [])
  | .closeRead => (row, [.closeWrite])
  | .closeWrite => (markClosed now row, [])

/-- The statement a frame's handler runs once it knows the session. -/
def Frame.write (now : ℕ) (row : Row) : Frame → Row
  | .terminalStatus payload => updateStatus now payload row
  | .childExited => markClosed now row

def step (s : Sys) : Act → Option Sys
  | .ensureSession => some { s with calls := s.calls ++ [.ensureRead] }
  | .closeSession => some { s with calls := s.calls ++ [.closeRead] }
  | .closeStale threshold =>
    if s.row.state = "idle" ∧ inactiveSince threshold s.row then
      some { s with calls := s.calls ++ [.closeRead] }
    else none
  | .call i budOnline now =>
    (s.calls[i]?).map fun call =>
      let (row, rest) := call.advance s.row budOnline now
      { s with row := row, calls := s.calls.eraseIdx i ++ rest }
  | .frame budId frame => some { s with ingest := s.ingest ++ [(budId, frame)] }
  | .ingest now =>
    match s.ingest with
    | [] => none
    | (budId, frame) :: ingest =>
      if s.resolved then
        some { s with row := frame.write now s.row, ingest := ingest, resolved := false }
      else if s.row.budId = budId then some { s with resolved := true }
      -- a frame from a Bud that does not own the session is dropped
      else some { s with ingest := ingest }
  | .suspendSessionsForBud budId => some { s with row := suspendSessionsForBud budId s.row }
  | .markIdleSessions threshold => some { s with row := markIdleSessions threshold s.row }
  | .touch now cols rows cwd =>
    some { s with row := { s.row with
      lastActivityAt := some now
      cols := cols.getD s.row.cols
      rows := rows.getD s.row.rows
      cwd := cwd.or s.row.cwd } }

/-! ### Closed sessions -/

def Closed (row : Row) : Prop := row.closedAt ≠ none → row.state = "closed"

/-- The frame's handler may write to the row: it closes it, or the row is open. -/
def Frame.Guarded (row : Row) : Frame → Prop
  | .terminalStatus payload => payload.state ≠ "closed" → row.closedAt = none
  | .childExited => True

/-- Neither a status other than `closed` nor the last statement of `ensureSession` is written to a
row whose `closedAt` is set. -/
def Guarded (s : Sys) : Act → Prop
  | .call i _ _ => s.calls[i]? = some .ensureWrite → s.row.closedAt = none
  | .ingest _ => s.resolved = true → ∀ head ∈ s.ingest.head?, head.2.Guarded s.row
  | _ => True

instance (row : Row) : Decidable (Closed row) := inferInstanceAs (Decidable (_ → _))

instance (row : Row) : ∀ frame : Frame, Decidable (frame.Guarded row)
  | .terminalStatus _ => inferInstanceAs (Decidable (_ → _))
  | .childExited => .isTrue trivial

instance (s : Sys) : ∀ act, Decidable (Guarded s act)
  | .call .. => inferInstanceAs (Decidable (_ → _))
  | .ingest _ => inferInstanceAs (Decidable (_ → ∀ head ∈ s.ingest.head?, head.2.Guarded s.row))
  | .ensureSession | .closeSession | .closeStale _ | .frame .. | .suspendSessionsForBud _
  | .markIdleSessions _ | .touch .. => .isTrue trivial

/-! ### What each statement does to a closed row -/

theorem closed_markClosed (now : ℕ) (row : Row) : Closed (markClosed now row) := fun _ => rfl

theorem closed_markCreating_iff (now : ℕ) (row : Row) :
    Closed (markCreating now row) ↔ row.closedAt = none := by
  constructor
  · intro h
    by_contra hne
    exact absurd (h hne) (by simp [markCreating])
  · intro hnone hne
    exact absurd hnone hne

/-- A status other than `closed` leaves `closedAt` as it is, and moves the state away. -/
theorem closed_updateStatus_iff (now : ℕ) (payload : StatusPayload) (row : Row) :
    Closed (updateStatus now payload row) ↔ (payload.state ≠ "closed" → row.closedAt = none) := by
  by_cases hclosed : payload.state = "closed"
  · constructor
    · exact fun _ hne => absurd hclosed hne
    · exact fun _ _ => hclosed
  · have hstate : (updateStatus now payload row).state = payload.state := rfl
    have hclosedAt : (updateStatus now payload row).closedAt = row.closedAt := if_neg hclosed
    rw [Closed, hstate, hclosedAt]
    constructor
    · intro h _
      by_contra hne
      exact hclosed (h hne)
    · exact fun h hne => absurd (h hclosed) hne

theorem closed_write_iff (now : ℕ) (row : Row) (frame : Frame) :
    Closed (frame.write now row) ↔ frame.Guarded row := by
  cases frame with
  | terminalStatus payload => exact closed_updateStatus_iff now payload row
  | childExited =>
    constructor
    · exact fun _ => trivial
    · exact fun _ => closed_markClosed now row

theorem Closed.suspendSessionsForBud (h : Closed row) (budId : String) :
    Closed (SessionStore.suspendSessionsForBud budId row) := by
  rw [SessionStore.suspendSessionsForBud]
  split
  · next hguard => exact fun hne => absurd hguard.2.2 hne
  · exact h

/-- `markIdleSessions` does not, but a closed row is not among the states it looks for. -/
theorem Closed.markIdleSessions (h : Closed row) (threshold : ℕ) :
    Closed (SessionStore.markIdleSessions threshold row) := by
  rw [SessionStore.markIdleSessions]
  split
  · next hguard =>
    intro hne
    have hclosed : row.state = "closed" := h hne
    rw [hclosed] at hguard
    exact absurd hguard.1 (by decide)
  · exact h

/-- **One action.** From a state in which a closed session is closed, the next one is such a state
exactly when the action does not write over a closed row. -/
theorem guarded_iff_closed (h : Closed s.row) (hstep : step s act = some t) :
    Guarded s act ↔ Closed t.row := by
  cases act with
  | ensureSession | closeSession | frame _ _ | touch now cols rows cwd =>
    cases hstep
    exact iff_of_true trivial h
  | closeStale threshold =>
    obtain ⟨-, rfl⟩ := Runs.of_guard hstep
    exact iff_of_true trivial h
  | call i budOnline now =>
    obtain ⟨call, hcall, rfl⟩ := Option.map_eq_some_iff.mp hstep
    rw [Guarded, hcall]
    cases call with
    | ensureRead | closeRead => exact iff_of_true (fun hne => absurd hne (by simp)) h
    | ensureWrite =>
      show (some Call.ensureWrite = some Call.ensureWrite → s.row.closedAt = none) ↔
        Closed (markCreating now s.row)
      rw [closed_markCreating_iff]
      exact ⟨fun himp => himp rfl, fun hnone _ => hnone⟩
    | closeWrite => exact iff_of_true (fun hne => absurd hne (by simp)) (closed_markClosed _ _)
  | ingest now =>
    rw [step] at hstep
    rw [Guarded]
    split at hstep
    · cases hstep
    · next budId frame ingest hingest =>
      rw [hingest]
      split at hstep
      · next hresolved =>
        cases hstep
        rw [closed_write_iff]
        constructor
        · exact fun himp => himp hresolved (budId, frame) rfl
        · rintro hguard - _ ⟨⟩
          exact hguard
      · next hresolved =>
        refine iff_of_true (fun hres => absurd hres hresolved) ?_
        split at hstep
        all_goals
          cases hstep
          exact h
  | suspendSessionsForBud budId =>
    cases hstep
    exact iff_of_true trivial (h.suspendSessionsForBud budId)
  | markIdleSessions threshold =>
    cases hstep
    exact iff_of_true trivial (h.markIdleSessions threshold)

/-- **When closed sessions stay closed.** A run of one session keeps the state `closed` in every
state in which `closedAt` is set, exactly when none of its steps writes another status, or the
`creating` of `ensureSession`, to a row whose `closedAt` is set. -/
theorem closed_forall_prefix_iff_guarded {budId : String} {acts : List Act} {s : Sys}
    (hrun : Runs.run step acts (init budId) = some s) :
    (∀ past rest t, acts = past ++ rest → Runs.run step past (init budId) = some t →
      Closed t.row) ↔ Runs.Along step Guarded acts (init budId) :=
  (Runs.along_iff_forall_prefix (fun _ _ _ h hs => guarded_iff_closed h hs) hrun
    (fun hne => absurd rfl hne)).symm

/-- The service closes the session, and the daemon reports it closed. -/
def closedTwice : List Act :=
  [.frame "bud" (.terminalStatus ⟨"ready", none, none, none⟩), .ingest 1, .ingest 1, .closeSession,
    .call 0 true 2, .call 0 true 2, .frame "bud" (.terminalStatus ⟨"closed", none, none, none⟩),
    .ingest 3, .ingest 3, .markIdleSessions 9]

/-- A ready session that is closed by both sides is closed in every state it passes through with
`closedAt` set. -/
theorem closed_forall_prefix_closedTwice :
    ∃ s, Runs.run step closedTwice (init "bud") = some s ∧ s.row.closedAt = some 2 ∧
      ∀ past rest t, closedTwice = past ++ rest → Runs.run step past (init "bud") = some t →
        Closed t.row := by
  obtain ⟨s, hs, hv⟩ := Option.map_eq_some_iff.mp
    (show (Runs.run step closedTwice (init "bud")).map (fun s => s.row.closedAt) = some (some 2) by
      decide)
  exact ⟨s, hs, hv, (closed_forall_prefix_iff_guarded hs).mpr (by decide)⟩

/-- The service closes the session while a `ready` is under way. -/
def lateReady : List Act :=
  [.closeSession, .call 0 true 1, .call 0 true 1,
    .frame "bud" (.terminalStatus ⟨"ready", none, none, none⟩), .ingest 2, .ingest 2]

/-- The row says `ready`, with `closedAt` set. -/
theorem not_closed_lateReady :
    ∃ s, Runs.run step lateReady (init "bud") = some s ∧ s.row.state = "ready" ∧
      s.row.closedAt = some 1 ∧ ¬ Closed s.row := by
  obtain ⟨s, hs, hv⟩ := Option.map_eq_some_iff.mp
    (show (Runs.run step lateReady (init "bud")).map
      (fun s => (s.row.state, s.row.closedAt, decide (Closed s.row)))
        = some ("ready", some 1, false) by decide)
  simp only [Prod.mk.injEq, decide_eq_false_iff_not] at hv
  exact ⟨s, hs, hv⟩

end Bud.SessionStore
