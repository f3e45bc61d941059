import Bud.Stem.Grid
import Bud.Stem.Modes

/-!
# A session's parse of its output

`session.rs`: the state a session shares with its event loop, and `process_chunk`, which runs one
output chunk through the scanner, the emulator and the mode machine and pushes the events derived
from it. The same function serves the attach replay (events below the resume offset suppressed, no
mode changes, no grid tracking) and live output.

`Output` is pushed first, then one marker after the other. What a marker does depends only on the
semantic part of the state (`Sem`), with the emulator read once for the screen attached to
`commandStarted`; `processChunk_spec` separates the two, and every law about markers is then a law
about the fold `Sem.onMarkers` over the markers the scanner finds.
-/

namespace Bud.Session

open Semantic Modes Emulator Grid Vte

/-- Shared state between the session handle and its event-loop task. -/
structure Inner (V T : Type) where
  emu : Emu T
  scanner : V
  modes : ModeMachine
  lastCwd : Option (List Char)
  nextCommandIndex : ℕ
  /-- Index and output start of the currently open command. -/
  openCommand : Option (ℕ × ℕ)
  /-- Offset after the most recent `A` or `B`. -/
  lastRegionStart : ℕ
  settledPending : Bool
  inputPending : Bool
  /-- A genuine `A`, `B` or `C` was seen, replay included. -/
  sawRealMarkers : Bool
  grid : GridTracker

/-- The event for a classification that moved, unless mode changes are suppressed. -/
def modeEvents (emitModeChanges : Bool) : Option ModeChange → List Event
  | some change => if emitModeChanges then [.modeChanged change.mode change.integration] else []
  | none => []

section

variable {V T : Type} [Parser V] [Terminal T]

/-- The state `attach` starts from, for a holder with the given geometry and oldest offset. -/
def Inner.new (cols rows scrollbackLines ringOldest : ℕ) : Inner V T :=
  { emu := Emu.new cols rows scrollbackLines
    scanner := Parser.new
    modes := .new
    lastCwd := none
    nextCommandIndex := 0
    openCommand := none
    lastRegionStart := ringOldest
    settledPending := false
    inputPending := false
    sawRealMarkers := false
    grid := .new }

/-! ### One marker -/

/-- The state after a marker, without the mode machine and the emulator. -/
def Inner.afterMarker (inner : Inner V T) (ev : ScanEvent) : Inner V T :=
  match ev.kind with
  | .promptStart =>
    { inner with
      sawRealMarkers := true
      lastRegionStart := ev.atOffset
      openCommand := none
      -- clear an application's cursor-style residue
      emu := inner.emu.resetCursorStyle }
  | .commandInputStart => { inner with sawRealMarkers := true, lastRegionStart := ev.atOffset }
  | .commandOutputStart =>
    { inner with
      sawRealMarkers := true
      nextCommandIndex := inner.nextCommandIndex + 1
      openCommand := some (inner.nextCommandIndex, ev.atOffset) }
  | .commandEnd _ =>
    match inner.openCommand with
    | some _ => { inner with openCommand := none }
    -- `D` without `C` takes an index of its own
    | none => { inner with nextCommandIndex := inner.nextCommandIndex + 1 }
  | .cwd path => { inner with lastCwd := some path }
  | .altScreenEnter | .altScreenLeave | .bracketedPasteSet _ => inner

/-- The event a marker pushes when it is emitted, from the state before it. -/
def Inner.markerEvent (inner : Inner V T) (ev : ScanEvent) : Option Event :=
  match ev.kind with
  | .promptStart => some (.promptReady inner.lastCwd)
  | .commandInputStart => none
  | .commandOutputStart =>
    some (.commandStarted inner.nextCommandIndex ev.atOffset inner.emu.screenLines)
  | .commandEnd exitCode =>
    let (index, start) := inner.openCommand.getD (inner.nextCommandIndex, inner.lastRegionStart)
    some (.commandFinished index exitCode start ev.atOffset)
  | .cwd path => some (.cwdChanged path)
  | .altScreenEnter | .altScreenLeave => none
  | .bracketedPasteSet enabled => some (.bracketedPasteChanged enabled)

/-- The body of the marker loop: the mode machine first, then the marker itself. -/
def Inner.onMarker (emitFrom : ℕ) (emitModeChanges : Bool) (inner : Inner V T) (ev : ScanEvent) :
    Inner V T × List Event :=
  let emit := decide (emitFrom ≤ ev.atOffset)
  let (modes, change) := inner.modes.onScan ev.kind
  let inner := { inner with modes := modes }
  (inner.afterMarker ev,
    modeEvents emitModeChanges change ++ if emit then (inner.markerEvent ev).toList else [])

/-- The marker loop. -/
def Inner.onMarkers (emitFrom : ℕ) (emitModeChanges : Bool) :
    Inner V T → List ScanEvent → Inner V T × List Event
  | inner, [] => (inner, [])
  | inner, ev :: evs =>
    let (inner, out) := inner.onMarker emitFrom emitModeChanges ev
    let (inner, outs) := inner.onMarkers emitFrom emitModeChanges evs
    (inner, out ++ outs)

/-! ### One chunk -/

/-- The `Output` of a chunk: the part of it at or above `emitFrom`. -/
def chunkOutput (offset : ℕ) (bytes : List UInt8) (emitFrom : ℕ) : List Event :=
  if emitFrom < offset + bytes.length then
    let skip := emitFrom - offset
    [.output (offset + skip) (bytes.drop skip)]
  else []

/-- A chunk through the scanner, the emulator and the grid tracker: the state its markers are
handled in, the markers, and the emulator's report. -/
def Inner.feedChunk (inner : Inner V T) (offset : ℕ) (bytes : List UInt8) (trackGrid : Bool) :
    Inner V T × List ScanEvent × FeedReport :=
  let (scanner, scanEvents) := scan inner.scanner offset bytes
  let (emu, report) := inner.emu.feed bytes
  ({ inner with
      scanner := scanner
      emu := emu
      grid := if trackGrid then inner.grid.observeFeed report emu else inner.grid },
    scanEvents, report)

/-- One output chunk through scanner, emulator and modes. The flag says whether it produced
meaningful damage. -/
def processChunk (inner : Inner V T) (offset : ℕ) (bytes : List UInt8) (emitFrom : ℕ)
    (emitModeChanges trackGrid : Bool) : Inner V T × List Event × Bool :=
  let (inner, scanEvents, report) := inner.feedChunk offset bytes trackGrid
  let (inner, out) := inner.onMarkers emitFrom emitModeChanges scanEvents
  (inner, chunkOutput offset bytes emitFrom ++ out, report.meaningfulDamage || report.fullRepaint)

/-- Consecutive chunks, the first of them at `offset`. -/
def processChunks (emitFrom : ℕ) (emitModeChanges trackGrid : Bool) :
    Inner V T → ℕ → List (List UInt8) → Inner V T × List Event
  | inner, _, [] => (inner, [])
  | inner, offset, bytes :: rest =>
    let (inner, out, _) := processChunk inner offset bytes emitFrom emitModeChanges trackGrid
    let (inner, outs) :=
      processChunks emitFrom emitModeChanges trackGrid inner (offset + bytes.length) rest
    (inner, out ++ outs)

/-! ### The grid consumer's side -/

/-- `Session::resize` once the holder has resized the PTY: a reflow makes the next frame full. -/
def Inner.resize (inner : Inner V T) (cols rows : ℕ) : Inner V T :=
  let emu := inner.emu.resize cols rows
  if emu.size ≠ inner.emu.size then
    { inner with emu := emu, grid := { inner.grid with fullPending := true, dirtyRows := [] } }
  else { inner with emu := emu }

/-- Discard the scrollback a fresh watch has from its snapshot. -/
def Inner.resetGridScrollbackPending (inner : Inner V T) : Inner V T :=
  { inner with grid := { inner.grid with scrollbackPush := [], scrollbackDropped := 0 } }

def Inner.takeGridFrame (inner : Inner V T) (choice : MostVoted) (forceFull : Bool) :
    Option (GridFrame × Inner V T) :=
  (take choice inner.emu inner.grid forceFull).map fun taken =>
    (taken.1, { inner with grid := taken.2 })

end

/-! ### The semantic state -/

/-- The part of `Inner` that markers read and write. -/
structure Sem where
  modes : ModeMachine
  lastCwd : Option (List Char)
  nextCommandIndex : ℕ
  openCommand : Option (ℕ × ℕ)
  lastRegionStart : ℕ
  sawRealMarkers : Bool

def eraseScreen : Event → Event
  | .commandStarted index start _ => .commandStarted index start []
  | e => e

/-- Everything but `Output`. -/
def isSemantic : Event → Bool
  | .output _ _ => false
  | _ => true

def semantic (es : List Event) : List Event := (es.filter isSemantic).map eraseScreen

@[simp] theorem semantic_nil : semantic [] = [] := rfl

theorem semantic_append (es fs : List Event) :
    semantic (es ++ fs) = semantic es ++ semantic fs := by
  simp [semantic]

namespace Sem

def new (ringOldest : ℕ) : Sem :=
  { modes := .new
    lastCwd := none
    nextCommandIndex := 0
    openCommand := none
    lastRegionStart := ringOldest
    sawRealMarkers := false }

def afterMarker (s : Sem) (ev : ScanEvent) : Sem :=
  match ev.kind with
  | .promptStart =>
    { s with sawRealMarkers := true, lastRegionStart := ev.atOffset, openCommand := none }
  | .commandInputStart => { s with sawRealMarkers := true, lastRegionStart := ev.atOffset }
  | .commandOutputStart =>
    { s with
      sawRealMarkers := true
      nextCommandIndex := s.nextCommandIndex + 1
      openCommand := some (s.nextCommandIndex, ev.atOffset) }
  | .commandEnd _ =>
    match s.openCommand with
    | some _ => { s with openCommand := none }
    | none => { s with nextCommandIndex := s.nextCommandIndex + 1 }
  | .cwd path => { s with lastCwd := some path }
  | .altScreenEnter | .altScreenLeave | .bracketedPasteSet _ => s

def markerEvent (s : Sem) (ev : ScanEvent) : Option Event :=
  match ev.kind with
  | .promptStart => some (.promptReady s.lastCwd)
  | .commandInputStart => none
  | .commandOutputStart => some (.commandStarted s.nextCommandIndex ev.atOffset [])
  | .commandEnd exitCode =>
    let (index, start) := s.openCommand.getD (s.nextCommandIndex, s.lastRegionStart)
    some (.commandFinished index exitCode start ev.atOffset)
  | .cwd path => some (.cwdChanged path)
  | .altScreenEnter | .altScreenLeave => none
  | .bracketedPasteSet enabled => some (.bracketedPasteChanged enabled)

/-- The state after a marker, and what it pushes. -/
def onMarker (emitFrom : ℕ) (emitModeChanges : Bool) (s : Sem) (ev : ScanEvent) :
    Sem × List Event :=
  let (modes, change) := s.modes.onScan ev.kind
  ({ s with modes := modes }.afterMarker ev,
    modeEvents emitModeChanges change ++
      if emitFrom ≤ ev.atOffset then (s.markerEvent ev).toList else [])

def onMarkers (emitFrom : ℕ) (emitModeChanges : Bool) : Sem → List ScanEvent → Sem × List Event
  | s, [] => (s, [])
  | s, ev :: evs =>
    let (s, out) := s.onMarker emitFrom emitModeChanges ev
    let (s, outs) := s.onMarkers emitFrom emitModeChanges evs
    (s, out ++ outs)

theorem onMarkers_append (emitFrom : ℕ) (emitModeChanges : Bool) (s : Sem)
    (xs ys : List ScanEvent) :
    s.onMarkers emitFrom emitModeChanges (xs ++ ys)
      = (((s.onMarkers emitFrom emitModeChanges xs).1.onMarkers emitFrom emitModeChanges ys).1,
         (s.onMarkers emitFrom emitModeChanges xs).2 ++
          ((s.onMarkers emitFrom emitModeChanges xs).1.onMarkers
            emitFrom emitModeChanges ys).2) := by
  induction xs generalizing s with
  | nil => rfl
  | cons x xs ih =>
    simp only [List.cons_append, onMarkers, ih, List.append_assoc]

end Sem

section

variable {V T : Type}

def Inner.sem (inner : Inner V T) : Sem :=
  { modes := inner.modes
    lastCwd := inner.lastCwd
    nextCommandIndex := inner.nextCommandIndex
    openCommand := inner.openCommand
    lastRegionStart := inner.lastRegionStart
    sawRealMarkers := inner.sawRealMarkers }

section

variable [Parser V] [Terminal T]

@[simp] theorem sem_new (cols rows scrollbackLines ringOldest : ℕ) :
    (Inner.new cols rows scrollbackLines ringOldest : Inner V T).sem = Sem.new ringOldest :=
  rfl

@[simp] theorem scanner_new (cols rows scrollbackLines ringOldest : ℕ) :
    (Inner.new cols rows scrollbackLines ringOldest : Inner V T).scanner = Parser.new :=
  rfl

end

variable [Terminal T]

theorem sem_afterMarker (inner : Inner V T) (ev : ScanEvent) :
    (inner.afterMarker ev).sem = inner.sem.afterMarker ev := by
  rw [Inner.afterMarker, Sem.afterMarker]
  cases ev.kind with
  | commandEnd exitCode =>
    simp only [Inner.sem]
    cases inner.openCommand <;> rfl
  | _ => rfl

theorem scanner_afterMarker (inner : Inner V T) (ev : ScanEvent) :
    (inner.afterMarker ev).scanner = inner.scanner := by
  rw [Inner.afterMarker]
  cases ev.kind with
  | commandEnd exitCode => cases hc : inner.openCommand <;> rfl
  | _ => rfl

theorem semantic_markerEvent (inner : Inner V T) (ev : ScanEvent) :
    semantic (inner.markerEvent ev).toList = (inner.sem.markerEvent ev).toList := by
  rw [Inner.markerEvent, Sem.markerEvent]
  cases ev.kind <;> rfl

theorem mem_modeEvents (h : e ∈ modeEvents emitModeChanges change) :
    ∃ mode integration, e = .modeChanged mode integration := by
  cases change with
  | none => cases h
  | some c =>
    cases emitModeChanges with
    | false => cases h
    | true => exact ⟨c.mode, c.integration, List.mem_singleton.mp h⟩

theorem semantic_modeEvents (emitModeChanges : Bool) (change : Option ModeChange) :
    semantic (modeEvents emitModeChanges change) = modeEvents emitModeChanges change := by
  cases change <;> cases emitModeChanges <;> rfl

theorem onMarker_spec (emitFrom : ℕ) (emitModeChanges : Bool) (inner : Inner V T) (ev : ScanEvent) :
    (inner.onMarker emitFrom emitModeChanges ev).1.sem
        = (inner.sem.onMarker emitFrom emitModeChanges ev).1 ∧
      semantic (inner.onMarker emitFrom emitModeChanges ev).2
        = (inner.sem.onMarker emitFrom emitModeChanges ev).2 ∧
      (inner.onMarker emitFrom emitModeChanges ev).1.scanner = inner.scanner := by
  refine ⟨sem_afterMarker _ ev, ?_, scanner_afterMarker _ ev⟩
  simp only [Inner.onMarker, Sem.onMarker, semantic_append]
  congr 1
  · exact semantic_modeEvents emitModeChanges _
  · by_cases hemit : emitFrom ≤ ev.atOffset
    · simp only [hemit, decide_true, if_true]
      exact semantic_markerEvent _ ev
    · simp [hemit]

theorem onMarkers_spec (emitFrom : ℕ) (emitModeChanges : Bool) (inner : Inner V T)
    (evs : List ScanEvent) :
    (inner.onMarkers emitFrom emitModeChanges evs).1.sem
        = (inner.sem.onMarkers emitFrom emitModeChanges evs).1 ∧
      semantic (inner.onMarkers emitFrom emitModeChanges evs).2
        = (inner.sem.onMarkers emitFrom emitModeChanges evs).2 ∧
      (inner.onMarkers emitFrom emitModeChanges evs).1.scanner = inner.scanner := by
  induction evs generalizing inner with
  | nil => exact ⟨rfl, rfl, rfl⟩
  | cons ev evs ih =>
    obtain ⟨hsem, hout, hscan⟩ := onMarker_spec emitFrom emitModeChanges inner ev
    obtain ⟨hsem', hout', hscan'⟩ := ih (inner.onMarker emitFrom emitModeChanges ev).1
    simp only [Inner.onMarkers, Sem.onMarkers, semantic_append]
    rw [hsem', hout, hout', hscan', hscan, hsem]
    exact ⟨rfl, rfl, rfl⟩

theorem semantic_chunkOutput (offset : ℕ) (bytes : List UInt8) (emitFrom : ℕ) :
    semantic (chunkOutput offset bytes emitFrom) = [] := by
  rw [chunkOutput]
  split_ifs <;> rfl

variable [Parser V]

/-- **What a chunk does to the semantic state** is what its markers do, and the parser advances
over its bytes. -/
theorem processChunk_spec (inner : Inner V T) (offset : ℕ) (bytes : List UInt8) (emitFrom : ℕ)
    (emitModeChanges trackGrid : Bool) :
    (processChunk inner offset bytes emitFrom emitModeChanges trackGrid).1.sem
        = (inner.sem.onMarkers emitFrom emitModeChanges (scan inner.scanner offset bytes).2).1 ∧
      semantic (processChunk inner offset bytes emitFrom emitModeChanges trackGrid).2.1
        = (inner.sem.onMarkers emitFrom emitModeChanges (scan inner.scanner offset bytes).2).2 ∧
      (processChunk inner offset bytes emitFrom emitModeChanges trackGrid).1.scanner
        = parse inner.scanner bytes := by
  simp only [processChunk, semantic_append, semantic_chunkOutput, List.nil_append]
  obtain ⟨hsem, hout, hscan⟩ := onMarkers_spec emitFrom emitModeChanges
    (inner.feedChunk offset bytes trackGrid).1 (scan inner.scanner offset bytes).2
  exact ⟨hsem, hout, hscan.trans (scan_fst _ _ _)⟩

/-- **Chunks add up.** However a stream is cut, the semantic state and events are those of its
markers in order. -/
theorem processChunks_spec (emitFrom : ℕ) (emitModeChanges trackGrid : Bool) (inner : Inner V T)
    (offset : ℕ) (chunks : List (List UInt8)) :
    (processChunks emitFrom emitModeChanges trackGrid inner offset chunks).1.sem
        = (inner.sem.onMarkers emitFrom emitModeChanges
            (scan inner.scanner offset chunks.flatten).2).1 ∧
      semantic (processChunks emitFrom emitModeChanges trackGrid inner offset chunks).2
        = (inner.sem.onMarkers emitFrom emitModeChanges
            (scan inner.scanner offset chunks.flatten).2).2 ∧
      (processChunks emitFrom emitModeChanges trackGrid inner offset chunks).1.scanner
        = parse inner.scanner chunks.flatten := by
  induction chunks generalizing inner offset with
  | nil => exact ⟨rfl, rfl, rfl⟩
  | cons bytes rest ih =>
    obtain ⟨hsem, hout, hscan⟩ :=
      processChunk_spec inner offset bytes emitFrom emitModeChanges trackGrid
    obtain ⟨hsem', hout', hscan'⟩ :=
      ih (processChunk inner offset bytes emitFrom emitModeChanges trackGrid).1
        (offset + bytes.length)
    simp only [processChunks, semantic_append, List.flatten_cons]
    rw [hsem', hout, hout', hscan', hscan, hsem, scan_append, Sem.onMarkers_append, parse_append]
    exact ⟨rfl, rfl, rfl⟩

end

end Bud.Session
