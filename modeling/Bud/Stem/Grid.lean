import Bud.Stem.Emu

/-!
# Grid frames

The grid-sync half of `session.rs`: damage accumulates in a `GridTracker` between takes, and a take
drains it into a `GridFrame` relative to the frame taken before. A pending full repaint is first
offered to `detectRowShift`, which compares row identities with those of the last frame and, when
one vertical shift explains enough rows, ships only the others.

## Modelling notes

`votes` is a hash map and `max_by_key` takes the last maximum in its iteration order, which is not
determined. `MostVoted` is any such choice, and the choice is a parameter of `take`.
-/

namespace Bud.Grid

open Emulator

/-! ### The tracker -/

def scrollbackPendingCap : ℕ := 1024

/-- Geometry and row identities at the last frame. -/
structure RowIdBaseline where
  cols : ℕ
  rows : ℕ
  ids : List (ℕ × UInt64)

structure GridRow where
  row : ℕ
  runs : List StyledRun

structure GridFrame where
  generation : ℕ
  full : Bool
  cols : ℕ
  rows : ℕ
  altScreen : Bool
  cursor : CursorPos
  rowShift : ℤ
  cursorShape : CursorShapeKind
  cursorBlink : Bool
  mouse : MouseModes
  appCursor : Bool
  dirtyRows : List GridRow
  scrollbackPush : List (List StyledRun)
  scrollbackDropped : ℕ

structure GridTracker where
  /-- The rows of a `BTreeSet`, in order. -/
  dirtyRows : List ℕ
  fullPending : Bool
  scrollbackPush : List (List StyledRun)
  scrollbackDropped : ℕ
  generation : ℕ
  lastCursor : Option CursorPos
  lastMouse : Option (MouseModes × Bool × CursorShapeKind × Bool)
  lastRowIds : Option RowIdBaseline

/-- `BTreeSet::insert`. -/
def insertRow (row : ℕ) : List ℕ → List ℕ
  | [] => [row]
  | r :: rs =>
    if row < r then row :: r :: rs else if row = r then r :: rs else r :: insertRow row rs

theorem mem_insertRow : r ∈ insertRow row rows ↔ r = row ∨ r ∈ rows := by
  induction rows with
  | nil => simp [insertRow]
  | cons x xs ih =>
    rw [insertRow]
    split_ifs with hlt heq
    · simp
    · subst heq
      simp
    · rw [List.mem_cons, ih, List.mem_cons]
      tauto

/-- `BTreeSet::extend`. -/
def insertRows (rows : List ℕ) (set : List ℕ) : List ℕ := rows.foldl (fun s r => insertRow r s) set

theorem mem_insertRows {set : List ℕ} : r ∈ insertRows rows set ↔ r ∈ rows ∨ r ∈ set := by
  induction rows generalizing set with
  | nil => simp [insertRows]
  | cons x xs ih =>
    rw [insertRows, List.foldl_cons]
    refine ih.trans ?_
    rw [mem_insertRow, List.mem_cons]
    tauto

namespace GridTracker

/-- The first frame a consumer takes is always full. -/
def new : GridTracker :=
  { dirtyRows := []
    fullPending := true
    scrollbackPush := []
    scrollbackDropped := 0
    generation := 0
    lastCursor := none
    lastMouse := none
    lastRowIds := none }

/-- One line into the bounded backlog: the oldest gives way, and is counted. -/
def pushLine (g : GridTracker) (line : List StyledRun) : GridTracker :=
  if g.scrollbackPush.length = scrollbackPendingCap then
    { g with
      scrollbackPush := g.scrollbackPush.drop 1 ++ [line]
      scrollbackDropped := g.scrollbackDropped + 1 }
  else { g with scrollbackPush := g.scrollbackPush ++ [line] }

section

variable {T : Type} [Terminal T]

/-- The scrollback part of `observe_feed`. -/
def observeScroll (g : GridTracker) (report : FeedReport) (emu : Emu T) : GridTracker :=
  let g :=
    if 0 < report.scrolledLines then
      let lines := emu.recentHistoryRuns report.scrolledLines
      lines.foldl pushLine
        { g with scrollbackDropped := g.scrollbackDropped + (report.scrolledLines - lines.length) }
    else g
  if report.scrollHistoryLost then { g with scrollbackDropped := g.scrollbackDropped + 1 } else g

def observeFeed (g : GridTracker) (report : FeedReport) (emu : Emu T) : GridTracker :=
  let g := g.observeScroll report emu
  if report.fullRepaint || report.altScreenChanged then
    { g with fullPending := true, dirtyRows := [] }
  else if !g.fullPending then { g with dirtyRows := insertRows report.damagedRows g.dirtyRows }
  else g

end

end GridTracker

/-! ### Scroll-shift detection -/

/-- `votes.entry(shift).or_insert(0) += 1`. -/
def vote (shift : ℤ) : List (ℤ × ℕ) → List (ℤ × ℕ)
  | [] => [(shift, 1)]
  | (s, n) :: votes => if s = shift then (s, n + 1) :: votes else (s, n) :: vote shift votes

/-- A choice of an entry with the most votes. -/
structure MostVoted where
  pick : List (ℤ × ℕ) → Option (ℤ × ℕ)
  mem : ∀ {votes v}, pick votes = some v → v ∈ votes
  most : ∀ {votes v}, pick votes = some v → ∀ w ∈ votes, w.2 ≤ v.2
  eq_none : ∀ {votes}, pick votes = none ↔ votes = []

/-- The votes of the rows that moved unchanged. An address that occurs twice maps to its last
index. -/
def shiftVotes (prev current : List (ℕ × UInt64)) : List (ℤ × ℕ) :=
  (current.zipIdx).foldl (fun votes entry =>
    let (id, i) := entry
    match (prev.zipIdx).reverse.find? fun p => p.1.1 == id.1 with
    | some (p, j) => if p.2 = id.2 then vote ((j : ℤ) - i) votes else votes
    | none => votes) []

/-- Row `i` is row `i + shift` of the previous frame, by identity. -/
def rowMatched (prev : List (ℕ × UInt64)) (shift : ℤ) (i : ℕ) (id : ℕ × UInt64) : Bool :=
  let source := (i : ℤ) + shift
  decide (0 ≤ source) && prev[source.toNat]? == some id

def detectRowShift (choice : MostVoted) (baseline : Option RowIdBaseline) (cols rows : ℕ)
    (current : List (ℕ × UInt64)) : Option (ℤ × List ℕ) :=
  match baseline with
  | none => none
  | some base =>
    if base.cols ≠ cols ∨ base.rows ≠ rows ∨ base.ids.length ≠ current.length then none
    else
      match choice.pick (shiftVotes base.ids current) with
      | none => none
      | some (shift, count) =>
        if count * 4 < rows then none
        else
          some (shift, ((current.zipIdx).filter fun entry =>
            !rowMatched base.ids shift entry.2 entry.1).map Prod.snd)

/-! ### Taking a frame -/

section

variable {T : Type} [Terminal T]

/-- The rows a frame ships, its shift, and whether it is full. -/
def frameRows (choice : MostVoted) (emu : Emu T) (g : GridTracker) (forceFull : Bool) :
    List ℕ × ℤ × Bool :=
  if forceFull || g.fullPending then
    match if forceFull then none
      else detectRowShift choice g.lastRowIds emu.cols emu.rows emu.viewportRowIds with
    | some (shift, dirty) => (dirty, shift, false)
    | none => (List.range emu.rows, 0, true)
  else (g.dirtyRows.filter fun row => decide (row < emu.rows), 0, false)

/-- `take_grid_frame_inner`, on the emulator and the tracker of a session. -/
def take (choice : MostVoted) (emu : Emu T) (g : GridTracker) (forceFull : Bool) :
    Option (GridFrame × GridTracker) :=
  let cursor := emu.cursor
  let mouse := emu.mouseModes
  let appCursor := (Terminal.mode emu.term).appCursor
  let (cursorShape, cursorBlink) := emu.cursorShape
  let full := forceFull || g.fullPending
  let cursorMoved := g.lastCursor ≠ some cursor
  let mouseChanged := g.lastMouse ≠ some (mouse, appCursor, cursorShape, cursorBlink)
  if full = false ∧ g.dirtyRows = [] ∧ g.scrollbackPush = [] ∧ g.scrollbackDropped = 0 ∧
      ¬ cursorMoved ∧ ¬ mouseChanged then none
  else
    let (dirty, rowShift, emitFull) := frameRows choice emu g forceFull
    some
      ({ generation := g.generation + 1
         full := emitFull
         cols := emu.cols
         rows := emu.rows
         altScreen := emu.altScreenActive
         cursor := cursor
         rowShift := rowShift
         cursorShape := cursorShape
         cursorBlink := cursorBlink
         mouse := mouse
         appCursor := appCursor
         dirtyRows := dirty.map fun row => { row := row, runs := emu.rowRuns row }
         scrollbackPush := g.scrollbackPush
         scrollbackDropped := g.scrollbackDropped },
       { g with
         generation := g.generation + 1
         dirtyRows := []
         fullPending := false
         lastCursor := some cursor
         lastMouse := some (mouse, appCursor, cursorShape, cursorBlink)
         lastRowIds :=
          some { cols := emu.cols, rows := emu.rows, ids := emu.viewportRowIds }
         scrollbackPush := []
         scrollbackDropped := 0 })

end

end Bud.Grid
