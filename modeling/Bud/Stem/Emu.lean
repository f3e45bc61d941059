import Bud.Lib.RustText

/-!
# The emulator wrapper

`emu.rs`: the daemon's view of a terminal. The VT emulation itself is `alacritty_terminal`, which
is a parameter here (`Terminal`): its grid of cells, its modes, its cursor, its damage report. What
the module adds is modelled in full: the damage filter of `feed`, scroll accounting, row
identities, and the serialisation of a row into styled runs.

`damage` always reports the cursor's cell, so `feed` discards what it takes for a cursor artifact:
a single-cell entry at the cursor, and a span that is exactly the cursor's travel on one line with
its cells unchanged. Only the second of the two looks at the cells.
-/

namespace Bud.Emulator

/-! ### What is used of the emulator -/

inductive NamedColor where
  | black | red | green | yellow | blue | magenta | cyan | white
  | brightBlack | brightRed | brightGreen | brightYellow | brightBlue | brightMagenta
  | brightCyan | brightWhite
  | foreground | background
  /-- The render-time variants, which applications cannot set. -/
  | other (code : ℕ)
  deriving DecidableEq

inductive AnsiColor where
  | named (color : NamedColor)
  | indexed (index : UInt8)
  | spec (r g b : UInt8)
  deriving DecidableEq

/-- The flags the module reads, and the remaining bits. -/
structure Flags where
  bold : Bool
  dim : Bool
  italic : Bool
  underline : Bool
  inverse : Bool
  strikeout : Bool
  wideCharSpacer : Bool
  leadingWideCharSpacer : Bool
  rest : ℕ
  deriving DecidableEq

/-- The optional extra data of a cell; `rest` is its hyperlink and underline colour. -/
structure CellExtra where
  zerowidth : List Char
  rest : ℕ
  deriving DecidableEq

structure Cell where
  c : Char
  fg : AnsiColor
  bg : AnsiColor
  flags : Flags
  extra : Option CellExtra
  deriving DecidableEq

def Cell.zerowidth (cell : Cell) : Option (List Char) := cell.extra.map CellExtra.zerowidth

structure TermMode where
  altScreen : Bool
  showCursor : Bool
  mouseMotion : Bool
  mouseDrag : Bool
  mouseReportClick : Bool
  sgrMouse : Bool
  alternateScroll : Bool
  appCursor : Bool
  appKeypad : Bool
  bracketedPaste : Bool

/-- Viewport lines count from 0; history lines are negative, -1 the most recent. -/
structure Point where
  line : ℤ
  column : ℕ

inductive AnsiCursorShape where
  | block | underline | beam | hollowBlock | hidden

structure CursorStyle where
  shape : AnsiCursorShape
  blinking : Bool

structure LineDamage where
  line : ℕ
  left : ℕ
  right : ℕ

inductive TermDamage where
  | full
  | lines (bounds : List LineDamage)

/-- `alacritty_terminal::Term` with its `Processor`. -/
class Terminal (T : Type) where
  new : (cols rows scrollingHistory : ℕ) → T
  advance : T → List UInt8 → T
  mode : T → TermMode
  cursorPoint : T → Point
  cursorStyle : T → CursorStyle
  cell : T → ℤ → ℕ → Cell
  /-- Address of a row's cell buffer. -/
  rowAddr : T → ℤ → ℕ
  historySize : T → ℕ
  /-- The damage since the last reset, and the cursor remembered for the next report. -/
  damage : T → TermDamage × T
  resetDamage : T → T
  setCursorStyle : T → Option CursorStyle → T
  resize : T → (cols rows : ℕ) → T
  flagBits : Flags → UInt64

/-! ### Styled runs -/

inductive CellColor where
  | indexed (index : UInt8)
  | rgb (r g b : UInt8)
  deriving DecidableEq

/-- A maximal run of consecutive cells sharing one presentation. -/
structure StyledRun where
  text : List Char
  fg : Option CellColor
  bg : Option CellColor
  attrs : UInt8
  deriving DecidableEq

def NamedColor.paletteIndex : NamedColor → Option UInt8
  | .black => some 0
  | .red => some 1
  | .green => some 2
  | .yellow => some 3
  | .blue => some 4
  | .magenta => some 5
  | .cyan => some 6
  | .white => some 7
  | .brightBlack => some 8
  | .brightRed => some 9
  | .brightGreen => some 10
  | .brightYellow => some 11
  | .brightBlue => some 12
  | .brightMagenta => some 13
  | .brightCyan => some 14
  | .brightWhite => some 15
  | .foreground | .background | .other _ => none

def NamedColor.code : NamedColor → ℕ
  | .foreground => 256
  | .background => 257
  | .other code => code
  | color => (color.paletteIndex.map UInt8.toNat).getD 0

def convertColor : AnsiColor → Option CellColor
  | .named color => color.paletteIndex.map .indexed
  | .indexed index => some (.indexed index)
  | .spec r g b => some (.rgb r g b)

def attrBits (flags : Flags) : UInt8 :=
  (if flags.bold then 1 else 0) ||| (if flags.dim then 2 else 0) |||
    (if flags.italic then 4 else 0) ||| (if flags.underline then 8 else 0) |||
    (if flags.inverse then 16 else 0) ||| (if flags.strikeout then 32 else 0)

def cellIsDefaultStyle (cell : Cell) : Bool :=
  decide (cell.fg = .named .foreground) && decide (cell.bg = .named .background) &&
    !(cell.flags.bold || cell.flags.dim || cell.flags.italic || cell.flags.underline ||
      cell.flags.inverse || cell.flags.strikeout)

/-- A tab is stored in the one cell it started at. -/
def displayChar (c : Char) : Char := if c = '\t' then ' ' else c

def isSpacer (cell : Cell) : Bool :=
  cell.flags.wideCharSpacer || cell.flags.leadingWideCharSpacer

def isTrailingBlank (cell : Cell) : Bool :=
  (cell.c == ' ' || cell.c == '\t') && cellIsDefaultStyle cell && cell.zerowidth.isNone

/-- The cell's own text: its character and the combiners attached to it. -/
def cellText (cell : Cell) : List Char := displayChar cell.c :: cell.zerowidth.getD []

/-- Append one cell to the runs so far, extending the last run if the presentation is the same. -/
def pushCell (runs : List StyledRun) (cell : Cell) : List StyledRun :=
  let fg := convertColor cell.fg
  let bg := convertColor cell.bg
  let attrs := attrBits cell.flags
  match runs.getLast? with
  | some run =>
    if run.fg = fg ∧ run.bg = bg ∧ run.attrs = attrs then
      runs.dropLast ++ [{ run with text := run.text ++ cellText cell }]
    else runs ++ [{ text := cellText cell, fg := fg, bg := bg, attrs := attrs }]
  | none => [{ text := cellText cell, fg := fg, bg := bg, attrs := attrs }]

/-- A row of cells as runs: trailing default-styled blanks trimmed, spacers skipped. -/
def runsOfCells (cells : List Cell) : List StyledRun :=
  let kept := (cells.reverse.dropWhile isTrailingBlank).reverse
  (kept.filter fun cell => !isSpacer cell).foldl pushCell []

/-- The text of a row without trailing white space, as `row_text` renders it. -/
def textOfCells (cells : List Cell) : List Char :=
  RustText.trimEnd ((cells.filter fun cell => !isSpacer cell).flatMap cellText)

/-! ### Row hashes -/

def fnvOffset : UInt64 := 0xcbf29ce484222325

def fnvPrime : UInt64 := 0x100000001b3

def mix (hash value : UInt64) : UInt64 := (hash ^^^ value) * fnvPrime

def colorHash : AnsiColor → UInt64
  | .named color => 0x0100 + UInt64.ofNat color.code
  | .indexed index => 0x0200 + index.toUInt64
  | .spec r g b => (0x01000000 : UInt64) + (r.toUInt64 <<< 16) + (g.toUInt64 <<< 8) + b.toUInt64

/-! ### The wrapper -/

structure CursorPos where
  row : ℕ
  col : ℕ
  visible : Bool
  deriving DecidableEq

inductive CursorShapeKind where
  | block | underline | beam
  deriving DecidableEq

inductive MouseReport where
  | none | click | drag | motion
  deriving DecidableEq

structure MouseModes where
  report : MouseReport
  sgr : Bool
  altScroll : Bool
  deriving DecidableEq

/-- What one `feed` changed. -/
structure FeedReport where
  meaningfulDamage : Bool
  damagedRows : List ℕ
  fullRepaint : Bool
  altScreenChanged : Bool
  scrolledLines : ℕ
  scrollHistoryLost : Bool

structure Emu (T : Type) where
  term : T
  cols : ℕ
  rows : ℕ
  scrollbackCap : ℕ
  primaryHistWatermark : ℕ
  primaryTopId : Option ℕ
  pendingScrollLoss : Bool
  anchorPendingAltExit : Bool
  deriving Repr

inductive RowLocation where
  | viewport
  | history (k : ℕ)
  | gone

section

variable {T : Type} [Terminal T]

open Terminal

def Emu.new (cols rows scrollbackLines : ℕ) : Emu T :=
  let cols := max cols 1
  let rows := max rows 1
  { term := Terminal.new cols rows scrollbackLines
    cols := cols
    rows := rows
    scrollbackCap := scrollbackLines
    primaryHistWatermark := 0
    primaryTopId := none
    pendingScrollLoss := false
    anchorPendingAltExit := false }

def lineCells (cols : ℕ) (t : T) (line : ℤ) : List Cell := (List.range cols).map (cell t line)

def rowContentHash (cols : ℕ) (t : T) (line : ℤ) : UInt64 :=
  (lineCells cols t line).foldl (fun hash cell =>
    mix (mix (mix (mix hash (UInt64.ofNat cell.c.toNat)) (colorHash cell.fg)) (colorHash cell.bg))
      (flagBits T cell.flags)) fnvOffset

/-- A row's identity: the address of its cells and a hash of their contents. -/
def rowId (cols : ℕ) (t : T) (line : ℤ) : ℕ × UInt64 := (rowAddr t line, rowContentHash cols t line)

namespace Emu

def lineRuns (e : Emu T) (line : ℤ) : List StyledRun := runsOfCells (lineCells e.cols e.term line)

def rowRuns (e : Emu T) (row : ℕ) : List StyledRun :=
  if e.rows ≤ row then [] else e.lineRuns row

def screenLines (e : Emu T) : List (List Char) :=
  (List.range e.rows).map fun line : ℕ => textOfCells (lineCells e.cols e.term line)

def viewportRowIds (e : Emu T) : List (ℕ × UInt64) :=
  (List.range e.rows).map fun line : ℕ => rowId e.cols e.term line

/-- The `n` most recently scrolled-off lines, oldest first. -/
def recentHistoryRuns (e : Emu T) (n : ℕ) : List (List StyledRun) :=
  let take := min n (historySize e.term)
  ((List.range take).reverse).map fun i : ℕ => e.lineRuns (-(i + 1 : ℤ))

def cursor (e : Emu T) : CursorPos :=
  let point := cursorPoint e.term
  { row := (max point.line 0).toNat, col := point.column, visible := (mode e.term).showCursor }

def cursorShape (e : Emu T) : CursorShapeKind × Bool :=
  let style := cursorStyle e.term
  (match style.shape with
    | .underline => .underline
    | .beam => .beam
    | .block | .hollowBlock | .hidden => .block, style.blinking)

def resetCursorStyle (e : Emu T) : Emu T := { e with term := setCursorStyle e.term none }

def altScreenActive (e : Emu T) : Bool := (mode e.term).altScreen

def mouseModes (e : Emu T) : MouseModes :=
  let m := mode e.term
  { report :=
      if m.mouseMotion then .motion
      else if m.mouseDrag then .drag
      else if m.mouseReportClick then .click
      else .none
    sgr := m.sgrMouse
    altScroll := m.alternateScroll }

def size (e : Emu T) : ℕ × ℕ := (e.cols, e.rows)

/-- Where the row at address `addr` is now. -/
def locateRow (e : Emu T) (addr history : ℕ) : RowLocation :=
  if (List.range e.rows).any fun r : ℕ => rowAddr e.term r == addr then .viewport
  else
    match (List.range history).find? fun k : ℕ => rowAddr e.term (-(k + 1 : ℤ)) == addr with
    | some k => .history (k + 1)
    | none => .gone

/-- The scroll accounting of a feed, on the emulator after it. -/
def accountScroll (e : Emu T) : Emu T × ℕ × Bool :=
  if (mode e.term).altScreen then (e, 0, false)
  else
    let histAfter := historySize e.term
    let (e', scrolled, lost) : Emu T × ℕ × Bool :=
      if e.anchorPendingAltExit then
        ({ e with anchorPendingAltExit := false, pendingScrollLoss := false }, 0, false)
      else if e.pendingScrollLoss then ({ e with pendingScrollLoss := false }, 0, true)
      else
        let grown := histAfter - e.primaryHistWatermark
        if 0 < e.scrollbackCap ∧ histAfter = e.scrollbackCap then
          match e.primaryTopId with
          | some addr =>
            match e.locateRow addr histAfter with
            | .history k => (e, k, false)
            | .viewport => (e, grown, false)
            | .gone => (e, grown, true)
          | none => (e, grown, false)
        else (e, grown, false)
    ({ e' with
        primaryHistWatermark := histAfter
        primaryTopId := some (rowAddr e.term 0) }, scrolled, lost)

end Emu

def isCursorCell (line col : ℕ) (cursor : Point) : Bool :=
  decide (0 ≤ cursor.line) && decide (cursor.line.toNat = line) && decide (cursor.column = col)

def singleCellArtifact (before after : Point) (b : LineDamage) : Bool :=
  decide (b.left = b.right) &&
    (isCursorCell b.line b.left before || isCursorCell b.line b.left after)

/-- `span_unchanged`: cells `left..=right` of the row against its snapshot from before the feed. -/
def spanUnchanged (t : T) (b : LineDamage) (snapshot : List Cell) : Bool :=
  (List.range (min b.right (snapshot.length - 1) + 1 - b.left)).all fun i =>
    snapshot[b.left + i]? == some (cell t b.line (b.left + i))

/-- A span that is exactly the cursor's travel on one line, over untouched cells. -/
def travelSpanArtifact (t : T) (before after : Point) (snapshot : List Cell) (b : LineDamage) :
    Bool :=
  decide (before.line = after.line) && decide (0 ≤ before.line) &&
    decide (before.line.toNat = b.line) && decide (b.left = min before.column after.column) &&
    decide (b.right = max before.column after.column) && spanUnchanged t b snapshot

namespace Emu

/-- Advance the terminal over raw bytes, and report what changed. -/
def feed (e : Emu T) (bytes : List UInt8) : Emu T × FeedReport :=
  let altBefore := (mode e.term).altScreen
  let before := cursorPoint e.term
  let snapshot := lineCells e.cols e.term before.line
  let term := advance e.term bytes
  let altAfter := (mode term).altScreen
  let after := cursorPoint term
  let (e, scrolledLines, scrollHistoryLost) := accountScroll { e with term := term }
  let (bounds, term) := damage e.term
  let term := resetDamage term
  let e := { e with term := term }
  match bounds with
  | .full =>
    (e,
      { meaningfulDamage := true
        damagedRows := []
        fullRepaint := true
        altScreenChanged := altBefore != altAfter
        scrolledLines := scrolledLines
        scrollHistoryLost := scrollHistoryLost })
  | .lines bounds =>
    let damagedRows := (bounds.filter fun b =>
      !singleCellArtifact before after b && !travelSpanArtifact term before after snapshot b).map
        LineDamage.line
    (e,
      { meaningfulDamage := !damagedRows.isEmpty
        damagedRows := damagedRows
        fullRepaint := false
        altScreenChanged := altBefore != altAfter
        scrolledLines := scrolledLines
        scrollHistoryLost := scrollHistoryLost })

/-- Re-anchor scroll accounting after the attach replay. -/
def syncScrollAnchor (e : Emu T) : Emu T :=
  if (mode e.term).altScreen then { e with anchorPendingAltExit := true }
  else
    { e with
      anchorPendingAltExit := false
      primaryHistWatermark := historySize e.term
      primaryTopId := some (rowAddr e.term 0) }

def resize (e : Emu T) (cols rows : ℕ) : Emu T :=
  let cols := max cols 1
  let rows := max rows 1
  if (cols, rows) = (e.cols, e.rows) then e
  else
    let e := { e with cols := cols, rows := rows, term := Terminal.resize e.term cols rows }
    if (mode e.term).altScreen then { e with primaryTopId := none, pendingScrollLoss := true }
    else
      { e with
        primaryHistWatermark := historySize e.term
        primaryTopId := some (rowAddr e.term 0) }

end Emu

end

end Bud.Emulator
