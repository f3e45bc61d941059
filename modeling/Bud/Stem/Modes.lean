import Bud.Stem.Semantic

/-!
# Session events and the mode machine

`events.rs` and `modes.rs`: the typed events a session emits, and the classification of the
session as shell, TUI, REPL or unknown from scanner facts and quiet-time cursor lines. The REPL
matcher is injected by the caller, so it is a parameter here too.
-/

namespace Bud.Modes

open Semantic

inductive Integration where
  | osc133
  /-- The caller wraps commands with an exit-code sentinel. -/
  | sentinel
  | none
  deriving DecidableEq

inductive Mode where
  | shell
  | tui
  | repl
  | unknown
  deriving DecidableEq

inductive Event where
  | output (offset : ℕ) (bytes : List UInt8)
  | promptReady (cwd : Option (List Char))
  /-- `screen` is the rendered screen after the chunk that carried the marker. -/
  | commandStarted (commandIndex outputByteStart : ℕ) (screen : List (List Char))
  | commandFinished (commandIndex : ℕ) (exitCode : Option ℤ) (outputByteStart outputByteEnd : ℕ)
  | modeChanged (mode : Mode) (integration : Integration)
  | settled (mode : Mode) (quietMs : ℕ)
  | cwdChanged (cwd : List Char)
  /-- The bytes in `[fromOffset, resumeOffset)` are lost. -/
  | outputGap (fromOffset resumeOffset : ℕ)
  | childExited (exitCode signal : Option ℤ)
  | bracketedPasteChanged (enabled : Bool)
  | resized (cols rows : ℕ)
  deriving DecidableEq

/-! ### The mode machine -/

structure ModeChange where
  mode : Mode
  integration : Integration
  /-- Set when `mode` is `repl`. -/
  replLabel : Option String

/-- `ModeMachine`, without the injected matcher. -/
structure ModeMachine where
  mode : Mode
  integration : Integration
  /-- Mode to restore on `altScreenLeave`. -/
  priorNonTui : Mode
  replLabel : Option String
  /-- Label paired with `priorNonTui` when that is `repl`. -/
  priorReplLabel : Option String
  /-- Consecutive quiet samples that failed the matcher while in `repl`. -/
  replMissStreak : ℕ

namespace ModeMachine

def new : ModeMachine :=
  { mode := .unknown
    integration := .none
    priorNonTui := .unknown
    replLabel := none
    priorReplLabel := none
    replMissStreak := 0 }

def snapshot (m : ModeMachine) : Mode × Integration × Option String :=
  (m.mode, m.integration, m.replLabel)

def changeSince (m : ModeMachine) (before : Mode × Integration × Option String) :
    Option ModeChange :=
  if m.snapshot = before then none
  else some { mode := m.mode, integration := m.integration, replLabel := m.replLabel }

/-- A 133 marker is evidence of a shell; under the alternate screen it only decides what leaving
it restores. -/
def classifyShellFromMarker (m : ModeMachine) : ModeMachine :=
  if m.mode = .tui then { m with priorNonTui := .shell, priorReplLabel := none }
  else { m with mode := .shell, replLabel := none, replMissStreak := 0 }

def afterScan (m : ModeMachine) : ScanKind → ModeMachine
  | .promptStart | .commandInputStart | .commandOutputStart =>
    classifyShellFromMarker { m with integration := .osc133 }
  | .commandEnd _ =>
    -- a lone `D` is what the sentinel wrapper itself emits
    classifyShellFromMarker
      (if m.integration = .none then { m with integration := .osc133 } else m)
  | .cwd _ => m
  | .altScreenEnter =>
    if m.mode ≠ .tui then
      { m with
        priorNonTui := m.mode
        priorReplLabel := m.replLabel
        mode := .tui
        replLabel := none
        replMissStreak := 0 }
    else m
  | .bracketedPasteSet _ => m
  | .altScreenLeave =>
    if m.mode = .tui then
      if m.integration = .osc133 then
        { m with mode := .shell, replLabel := none, replMissStreak := 0 }
      else
        { m with
          mode := m.priorNonTui
          replLabel := if m.priorNonTui = .repl then m.priorReplLabel else none
          replMissStreak := 0 }
    else m

/-- Feed a scanner fact; the change if the classification moved. -/
def onScan (m : ModeMachine) (kind : ScanKind) : ModeMachine × Option ModeChange :=
  (m.afterScan kind, (m.afterScan kind).changeSince m.snapshot)

def afterQuiet (isMatch : List Char → Option String) (m : ModeMachine) (line : List Char) :
    ModeMachine :=
  match isMatch line with
  | some label => { m with replMissStreak := 0, mode := .repl, replLabel := some label }
  | none =>
    if m.mode = .repl then
      -- two consecutive misses demote
      let streak := min (m.replMissStreak + 1) 255
      if 2 ≤ streak then { m with mode := .unknown, replLabel := none, replMissStreak := 0 }
      else { m with replMissStreak := streak }
    else m

/-- A quiet point, with the emulator's cursor line. -/
def onQuietCursorLine (isMatch : List Char → Option String) (m : ModeMachine)
    (line : List Char) : ModeMachine × Option ModeChange :=
  if m.mode = .tui ∨ m.integration = .osc133 then (m, none)
  else (m.afterQuiet isMatch line, (m.afterQuiet isMatch line).changeSince m.snapshot)

def markNoIntegration (m : ModeMachine) : ModeMachine × Option ModeChange :=
  let m' : ModeMachine :=
    { m with
      integration := .none
      mode := if m.mode = .shell then .unknown else m.mode
      priorNonTui := if m.priorNonTui = .shell then .unknown else m.priorNonTui }
  (m', m'.changeSince m.snapshot)

def markSentinelIntegration (m : ModeMachine) : ModeMachine × Option ModeChange :=
  let m' : ModeMachine :=
    if m.integration ≠ .osc133 then { m with integration := .sentinel } else m
  (m', m'.changeSince m.snapshot)

end ModeMachine

end Bud.Modes
