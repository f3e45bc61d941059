import Mathlib.Data.Int.Notation
import Mathlib.Data.List.Basic

/-!
# Rows of terminal commands

`terminal-command-store.ts`, `TerminalCommandStore`: a `command_started` event inserts the row of
its command unless there is one, and a `command_finished` event updates that row, or inserts a
complete one when the started event was lost. Events may be delivered again after a reconnect, and
in any order.

A timestamp is its milliseconds. The persistence is `DrizzleTerminalCommandPersistence` on a table
keyed by the command id. A statement that the database refuses is logged and leaves the table as it
was, so such a call is one that is not in the sequence of events.

## The row of one command

All that the events `S` and `F` of one command can do to its row is

```
            F                      none ───── F ────▶ completeRow
   none ── S ──▶ startedRow ── F ──▶ finalize F startedRow
```

and every other step is a loop (`recordCommandStarted_of_some`, `finalize_finalize`,
`finalize_completeRow`). A complete row knows nothing of `S`: it has the started time that `F`
computes from the duration, and output from `0` if `F` does not say where the output starts. The
started time always differs, the output start only when `F` leaves it out and `S` has another.
-/

namespace Bud.CommandStore

open List Function

structure TerminalSession where
  sessionId : String
  threadId : Option String
  budId : String
  createdByUserId : Option String
  tenantId : Option String

structure TerminalCommandRecord where
  commandId : String
  terminalSessionId : String
  threadId : Option String
  budId : String
  createdByUserId : Option String
  tenantId : Option String
  commandStartedAt : ℤ
  commandFinishedAt : Option ℤ
  exitCode : Option ℤ
  outputByteStart : ℕ
  outputByteEnd : Option ℕ

structure CommandStartedEvent where
  commandId : String
  outputByteStart : ℕ
  ts : ℤ
  deriving DecidableEq

/-- A duration that is not a finite number is `none`, as `null` is. -/
structure CommandFinishedEvent where
  commandId : String
  exitCode : Option ℤ
  durationMs : Option ℤ
  outputByteStart : Option ℕ
  outputByteEnd : Option ℕ
  ts : ℤ
  deriving DecidableEq

/-! ### The persistence -/

/-- The rows of `terminal_command` by their key. -/
abbrev CommandTable := String → Option TerminalCommandRecord

/-- `INSERT … ON CONFLICT (command_id) DO NOTHING`, and whether the row was inserted. -/
def insertCommand (row : TerminalCommandRecord) (t : CommandTable) : Bool × CommandTable :=
  match t row.commandId with
  | some _ => (false, t)
  | none => (true, Function.update t row.commandId (some row))

structure FinalizeArgs where
  commandFinishedAt : ℤ
  exitCode : Option ℤ
  outputByteEnd : Option ℕ
  outputByteStart : Option ℕ

/-- The columns that `finalizeCommand` sets: an output start of `null` leaves the column alone. -/
def FinalizeArgs.set (args : FinalizeArgs) (row : TerminalCommandRecord) : TerminalCommandRecord :=
  { row with
    commandFinishedAt := some args.commandFinishedAt
    exitCode := args.exitCode
    outputByteEnd := args.outputByteEnd
    outputByteStart := args.outputByteStart.getD row.outputByteStart }

/-- `UPDATE … WHERE command_id = …`, and whether a row was updated. -/
def finalizeCommand (commandId : String) (args : FinalizeArgs) (t : CommandTable) :
    Bool × CommandTable :=
  match t commandId with
  | some row => (true, Function.update t commandId (some (args.set row)))
  | none => (false, t)

/-! ### The store -/

variable (session : TerminalSession)

def startedRow (event : CommandStartedEvent) : TerminalCommandRecord where
  commandId := event.commandId
  terminalSessionId := session.sessionId
  threadId := session.threadId
  budId := session.budId
  createdByUserId := session.createdByUserId
  tenantId := session.tenantId
  commandStartedAt := event.ts
  commandFinishedAt := none
  exitCode := none
  outputByteStart := event.outputByteStart
  outputByteEnd := none

def recordCommandStarted (event : CommandStartedEvent) (t : CommandTable) : CommandTable :=
  (insertCommand (startedRow session event) t).2

def CommandFinishedEvent.startedAt (event : CommandFinishedEvent) : ℤ :=
  match event.durationMs with
  | some durationMs => event.ts - max durationMs 0
  | none => event.ts

/-- The complete row that `recordCommandFinished` inserts when there is none to update. -/
def completeRow (event : CommandFinishedEvent) : TerminalCommandRecord where
  commandId := event.commandId
  terminalSessionId := session.sessionId
  threadId := session.threadId
  budId := session.budId
  createdByUserId := session.createdByUserId
  tenantId := session.tenantId
  commandStartedAt := event.startedAt
  commandFinishedAt := some event.ts
  exitCode := event.exitCode
  outputByteStart := event.outputByteStart.getD 0
  outputByteEnd := event.outputByteEnd

def CommandFinishedEvent.finalizeArgs (event : CommandFinishedEvent) : FinalizeArgs where
  commandFinishedAt := event.ts
  exitCode := event.exitCode
  outputByteEnd := event.outputByteEnd
  outputByteStart := event.outputByteStart

def recordCommandFinished (event : CommandFinishedEvent) (t : CommandTable) : CommandTable :=
  match finalizeCommand event.commandId event.finalizeArgs t with
  | (true, updated) => updated
  | (false, t) => (insertCommand (completeRow session event) t).2

inductive CommandEvent where
  | started (event : CommandStartedEvent)
  | finished (event : CommandFinishedEvent)
  deriving DecidableEq

def record (t : CommandTable) : CommandEvent → CommandTable
  | .started event => recordCommandStarted session event t
  | .finished event => recordCommandFinished session event t

def ingest (t : CommandTable) (events : List CommandEvent) : CommandTable :=
  events.foldl (record session) t

/-! ### What a step does to a row -/

variable {session} {S : CommandStartedEvent} {F : CommandFinishedEvent} {t : CommandTable}
  {row : TerminalCommandRecord}

theorem recordCommandStarted_of_none (h : t S.commandId = none) :
    recordCommandStarted session S t = update t S.commandId (some (startedRow session S)) := by
  show (insertCommand (startedRow session S) t).2 = _
  rw [insertCommand, show t (startedRow session S).commandId = none from h]
  rfl

theorem recordCommandStarted_of_some (h : t S.commandId = some row) :
    recordCommandStarted session S t = t := by
  show (insertCommand (startedRow session S) t).2 = _
  rw [insertCommand, show t (startedRow session S).commandId = some row from h]

theorem recordCommandFinished_of_none (h : t F.commandId = none) :
    recordCommandFinished session F t = update t F.commandId (some (completeRow session F)) := by
  rw [recordCommandFinished, finalizeCommand, h]
  show (insertCommand (completeRow session F) t).2 = _
  rw [insertCommand, show t (completeRow session F).commandId = none from h]
  rfl

theorem recordCommandFinished_of_some (h : t F.commandId = some row) :
    recordCommandFinished session F t = update t F.commandId (some (F.finalizeArgs.set row)) := by
  rw [recordCommandFinished, finalizeCommand, h]

theorem finalize_finalize (args : FinalizeArgs) (row : TerminalCommandRecord) :
    args.set (args.set row) = args.set row := by
  simp only [FinalizeArgs.set, TerminalCommandRecord.mk.injEq, true_and, and_true]
  cases args.outputByteStart <;> rfl

theorem finalize_completeRow (F : CommandFinishedEvent) :
    F.finalizeArgs.set (completeRow session F) = completeRow session F := by
  simp only [FinalizeArgs.set, completeRow, CommandFinishedEvent.finalizeArgs,
    TerminalCommandRecord.mk.injEq, true_and, and_true]
  cases F.outputByteStart <;> rfl

/-! ### What a run does to a row -/

/-- The sequence delivers the two events of one command, in any order and any number of times. -/
def Delivers (S : CommandStartedEvent) (F : CommandFinishedEvent) (events : List CommandEvent) :
    Prop :=
  ∀ e ∈ events, e = .started S ∨ e = .finished F

variable {events events' more : List CommandEvent}

theorem Delivers.tail (h : Delivers S F (e :: events)) : Delivers S F events :=
  fun e he => h e (mem_cons_of_mem _ he)

theorem ingest_append :
    ingest session t (events ++ more) = ingest session (ingest session t events) more :=
  foldl_append

theorem ingest_of_fixed (hid : F.commandId = S.commandId) (hrow : F.finalizeArgs.set row = row)
    (hd : Delivers S F events) (h : t S.commandId = some row) :
    ingest session t events S.commandId = some row := by
  induction events generalizing t with
  | nil => exact h
  | cons e events ih =>
    refine ih hd.tail ?_
    rcases hd e mem_cons_self with rfl | rfl
    · show recordCommandStarted session S t S.commandId = some row
      rw [recordCommandStarted_of_some h, h]
    · show recordCommandFinished session F t S.commandId = some row
      rw [recordCommandFinished_of_some (hid ▸ h), hid, update_self, hrow]

/-- A started row waits for the finished event, which finalizes it once and for all. -/
theorem ingest_of_started (hid : F.commandId = S.commandId) (hd : Delivers S F events)
    (h : t S.commandId = some row) :
    ingest session t events S.commandId =
      some (if .finished F ∈ events then F.finalizeArgs.set row else row) := by
  induction events generalizing t with
  | nil => exact h
  | cons e events ih =>
    rcases hd e mem_cons_self with rfl | rfl
    · show ingest session (recordCommandStarted session S t) events S.commandId = _
      rw [recordCommandStarted_of_some h, ih hd.tail h]
      simp only [mem_cons, reduceCtorEq, false_or]
    · rw [if_pos mem_cons_self]
      show ingest session (recordCommandFinished session F t) events S.commandId = _
      refine ingest_of_fixed hid (finalize_finalize _ _) hd.tail ?_
      rw [recordCommandFinished_of_some (hid ▸ h), hid, update_self]

variable (session S F) in
def rowAfter : List CommandEvent → Option TerminalCommandRecord
  | [] => none
  | .started _ :: events =>
    some (if .finished F ∈ events then F.finalizeArgs.set (startedRow session S)
      else startedRow session S)
  | .finished _ :: _ => some (completeRow session F)

theorem ingest_row (hid : F.commandId = S.commandId) (hd : Delivers S F events)
    (h : t S.commandId = none) :
    ingest session t events S.commandId = rowAfter session S F events := by
  rcases events with _ | ⟨e, events⟩
  · exact h
  rcases hd e mem_cons_self with rfl | rfl
  · show ingest session (recordCommandStarted session S t) events S.commandId = _
    refine ingest_of_started hid hd.tail ?_
    rw [recordCommandStarted_of_none h, update_self]
  · show ingest session (recordCommandFinished session F t) events S.commandId = _
    refine ingest_of_fixed hid (finalize_completeRow F) hd.tail ?_
    rw [recordCommandFinished_of_none (hid ▸ h), hid, update_self]

/-! ### What depends on the order -/

/-- The columns that only `command_finished` sets. -/
def TerminalCommandRecord.outcome (row : TerminalCommandRecord) :
    Option ℤ × Option ℤ × Option ℕ :=
  (row.commandFinishedAt, row.exitCode, row.outputByteEnd)

/-- The two rows with the finished event recorded have the same output start: `F` has one, or `S`
has the one that the complete row falls back to. -/
def StartsAgree (S : CommandStartedEvent) (F : CommandFinishedEvent) : Prop :=
  F.outputByteStart = none → S.outputByteStart = 0

theorem startsAgree_iff :
    StartsAgree S F ↔ F.outputByteStart.getD S.outputByteStart = F.outputByteStart.getD 0 := by
  rcases hF : F.outputByteStart with _ | start
  · exact ⟨fun h => h hF, fun h _ => h⟩
  · exact ⟨fun _ => rfl, fun _ h => by rw [hF] at h; contradiction⟩

/-- What the two rows with the finished event recorded agree on depends only on the set of events
received. -/
theorem rowAfter_map {α : Type} {f : TerminalCommandRecord → α}
    (hf : f (F.finalizeArgs.set (startedRow session S)) = f (completeRow session F))
    (hd : Delivers S F events) :
    (rowAfter session S F events).map f =
      if .finished F ∈ events then some (f (completeRow session F))
      else if .started S ∈ events then some (f (startedRow session S))
      else none := by
  rcases events with _ | ⟨e, events⟩
  · rfl
  rcases hd e mem_cons_self with rfl | rfl
  · by_cases hF : .finished F ∈ events
    · rw [if_pos (mem_cons_of_mem _ hF), rowAfter, if_pos hF]
      exact congrArg some hf
    · rw [if_neg (by simpa using hF), if_pos mem_cons_self, rowAfter, if_neg hF]
      rfl
  · rw [if_pos mem_cons_self]
    rfl

theorem rowAfter_map_congr {α : Type} {f : TerminalCommandRecord → α}
    (hf : f (F.finalizeArgs.set (startedRow session S)) = f (completeRow session F))
    (hd : Delivers S F events) (hd' : Delivers S F events') (h : ∀ e, e ∈ events ↔ e ∈ events') :
    (rowAfter session S F events).map f = (rowAfter session S F events').map f := by
  rw [rowAfter_map hf hd, rowAfter_map hf hd']
  simp only [h]

/-- A recorded finish is one of the two rows that no event changes any more. -/
theorem finalize_rowAfter (hrow : rowAfter session S F events = some row)
    (hfinished : row.commandFinishedAt ≠ none) : F.finalizeArgs.set row = row := by
  rcases events with _ | ⟨_ | _, events⟩
  · contradiction
  · obtain rfl := Option.some.inj hrow
    split at hfinished
    next hF => rw [if_pos hF, finalize_finalize]
    next => exact absurd rfl hfinished
  · obtain rfl := Option.some.inj hrow
    exact finalize_completeRow F

theorem rowAfter_started_finished :
    rowAfter session S F [.started S, .finished F] =
      some (F.finalizeArgs.set (startedRow session S)) :=
  congrArg some (if_pos mem_cons_self)

/-- Once both events were received, the row is the one of start-then-finish but for the started time
and, unless the output starts agree, the output start. -/
theorem rowAfter_of_both (hid : F.commandId = S.commandId) (hd : Delivers S F events)
    (hF : .finished F ∈ events) :
    ∃ row, rowAfter session S F events = some row ∧
      row = { F.finalizeArgs.set (startedRow session S) with
        commandStartedAt := row.commandStartedAt
        outputByteStart := row.outputByteStart } ∧
      (StartsAgree S F →
        row.outputByteStart = (F.finalizeArgs.set (startedRow session S)).outputByteStart) := by
  rcases events with _ | ⟨e, events⟩
  · exact absurd hF not_mem_nil
  rcases hd e mem_cons_self with rfl | rfl
  · refine ⟨_, congrArg some (if_pos ?_), rfl, fun _ => rfl⟩
    simpa using hF
  · refine ⟨_, rfl, ?_, fun h => (startsAgree_iff.mp h).symm⟩
    simp only [completeRow, FinalizeArgs.set, startedRow, CommandFinishedEvent.finalizeArgs, hid]

/-- The finished time, the exit code and the output end depend only on the set of events received,
and the output start does exactly when the output starts agree. A recorded finish is never changed
again. -/
theorem ingest_idempotent (hid : F.commandId = S.commandId) (ht : t S.commandId = none) :
    (∀ events events', Delivers S F events → Delivers S F events' →
      (∀ e, e ∈ events ↔ e ∈ events') →
      (ingest session t events S.commandId).map TerminalCommandRecord.outcome =
        (ingest session t events' S.commandId).map TerminalCommandRecord.outcome) ∧
    (StartsAgree S F ↔ ∀ events events', Delivers S F events → Delivers S F events' →
      (∀ e, e ∈ events ↔ e ∈ events') →
      (ingest session t events S.commandId).map TerminalCommandRecord.outputByteStart =
        (ingest session t events' S.commandId).map TerminalCommandRecord.outputByteStart) ∧
    (∀ events more row, Delivers S F (events ++ more) →
      ingest session t events S.commandId = some row → row.commandFinishedAt ≠ none →
      ingest session t (events ++ more) S.commandId = some row) ∧
    (∀ events, Delivers S F events → .started S ∈ events → .finished F ∈ events →
      ∃ row row', ingest session t events S.commandId = some row ∧
        ingest session t [.started S, .finished F] S.commandId = some row' ∧
        row = { row' with
          commandStartedAt := row.commandStartedAt
          outputByteStart := row.outputByteStart } ∧
        (StartsAgree S F → row.outputByteStart = row'.outputByteStart)) := by
  have hboth : Delivers S F [.started S, .finished F] := by simp [Delivers]
  refine ⟨fun events events' hd hd' h => ?_, ⟨fun hagree events events' hd hd' h => ?_, ?_⟩, ?_, ?_⟩
  · rw [ingest_row hid hd ht, ingest_row hid hd' ht]
    exact rowAfter_map_congr rfl hd hd' h
  · rw [ingest_row hid hd ht, ingest_row hid hd' ht]
    exact rowAfter_map_congr (startsAgree_iff.mp hagree) hd hd' h
  · -- the two orders of one delivery each tell the output starts apart
    intro h
    have hboth' : Delivers S F [.finished F, .started S] := by simp [Delivers]
    have hrows := h _ _ hboth hboth' fun e => by simp [or_comm]
    rw [ingest_row hid hboth ht, ingest_row hid hboth' ht, rowAfter_started_finished] at hrows
    exact startsAgree_iff.mpr (Option.some.inj hrows)
  · intro events more row hd hrow hfinished
    have hd' : Delivers S F events := fun e he => hd e (mem_append_left _ he)
    rw [ingest_append]
    exact ingest_of_fixed hid
      (finalize_rowAfter ((ingest_row hid hd' ht).symm.trans hrow) hfinished)
      (fun e he => hd e (mem_append_right _ he)) hrow
  · intro events hd _ hF
    obtain ⟨row, hrow, hsame, hstart⟩ := rowAfter_of_both hid hd hF
    exact ⟨row, _, (ingest_row hid hd ht).trans hrow,
      (ingest_row hid hboth ht).trans rowAfter_started_finished, hsame, hstart⟩

/-- A finished event without an output start hides the one of a started event behind it. -/
theorem outputByteStart_of_order :
    let session : TerminalSession := ⟨"s1", none, "b1", none, none⟩
    let S : CommandStartedEvent := ⟨"c1", 7, 100⟩
    let F : CommandFinishedEvent := ⟨"c1", some 0, some 5, none, some 9, 105⟩
    (∀ e, e ∈ [CommandEvent.started S, .finished F] ↔ e ∈ [CommandEvent.finished F, .started S]) ∧
      (ingest session (fun _ => none) [.started S, .finished F] "c1").map
        TerminalCommandRecord.outputByteStart = some 7 ∧
      (ingest session (fun _ => none) [.finished F, .started S] "c1").map
        TerminalCommandRecord.outputByteStart = some 0 := by
  intro session S F
  refine ⟨fun e => ?_, by decide, by decide⟩
  simp only [mem_cons, not_mem_nil, or_false]
  exact or_comm

theorem ingest_idempotent_redelivered :
    let session : TerminalSession := ⟨"s1", none, "b1", none, none⟩
    let S : CommandStartedEvent := ⟨"c1", 7, 100⟩
    let F : CommandFinishedEvent := ⟨"c1", some 0, some 5, some 7, some 9, 105⟩
    ∃ row row',
      ingest session (fun _ => none) [.finished F, .started S, .finished F] "c1" = some row ∧
      ingest session (fun _ => none) [.started S, .finished F] "c1" = some row' ∧
      row = { row' with
        commandStartedAt := row.commandStartedAt
        outputByteStart := row.outputByteStart } ∧
      (StartsAgree S F → row.outputByteStart = row'.outputByteStart) := by
  intro session S F
  have hid : F.commandId = S.commandId := rfl
  have hd : Delivers S F [.finished F, .started S, .finished F] := by simp [Delivers]
  exact (ingest_idempotent hid rfl).2.2.2 _ hd (by decide) (by decide)

end Bud.CommandStore
