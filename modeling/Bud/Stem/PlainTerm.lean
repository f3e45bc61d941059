import Bud.Stem.Emu
import Bud.Stem.Vte

/-!
# A terminal for printable text

The emulator is a parameter of the session, and concrete runs need one. `PlainTerm` is a terminal
of one screen without history that prints ASCII and skips escape sequences; on such input its grid,
cursor and damage are those of `alacritty_terminal`: a printed cell is damaged, the cursor's old
and new cell are damaged when a report is taken, the bounds of a line are merged into one span, and
the cursor stays on the last column after printing there, until the next character wraps.
-/

namespace Bud.Emulator

open Vte

structure PlainTerm where
  esc : EscState
  cols : ℕ
  rows : ℕ
  /-- The characters of each line; a position past the end is blank. -/
  lines : List (List Char)
  row : ℕ
  col : ℕ
  /-- The cursor is on the last column with a character printed there. -/
  needsWrap : Bool
  style : CursorStyle
  fullDamage : Bool
  spans : List (Option (ℕ × ℕ))
  lastRow : ℕ
  lastCol : ℕ

namespace PlainTerm

def defaultStyle : CursorStyle := { shape := .block, blinking := true }

def plainFlags : Flags :=
  { bold := false
    dim := false
    italic := false
    underline := false
    inverse := false
    strikeout := false
    wideCharSpacer := false
    leadingWideCharSpacer := false
    rest := 0 }

def plainCell (c : Char) : Cell :=
  { c := c
    fg := .named .foreground
    bg := .named .background
    flags := plainFlags
    extra := none }

def blankScreen (cols rows : ℕ) : PlainTerm :=
  { esc := .ground
    cols := cols
    rows := rows
    lines := List.replicate rows (List.replicate cols ' ')
    row := 0
    col := 0
    needsWrap := false
    style := defaultStyle
    fullDamage := true
    spans := List.replicate rows none
    lastRow := 0
    lastCol := 0 }

def damagePoint (t : PlainTerm) (row col : ℕ) : PlainTerm :=
  { t with spans := t.spans.modify row fun span =>
      match span with
      | none => some (col, col)
      | some (left, right) => some (min left col, max right col) }

/-- Print one character at the cursor. -/
def put (t : PlainTerm) (c : Char) : PlainTerm :=
  let t :=
    if t.needsWrap && decide (t.row + 1 < t.rows) then
      { t with row := t.row + 1, col := 0, needsWrap := false }
    else t
  let t := { t with lines := t.lines.modify t.row fun line => line.set t.col c }
  let t := t.damagePoint t.row t.col
  if t.col + 1 < t.cols then { t with col := t.col + 1 } else { t with needsWrap := true }

def advanceByte (t : PlainTerm) (b : UInt8) : PlainTerm :=
  let t' := { t with esc := (EscState.advance t.esc b).1 }
  if t.esc = .ground ∧ 0x20 ≤ b ∧ b < 0x7f then t'.put (Char.ofNat b.toNat) else t'

/-- Report the damage, with the cursor's old and new cell in it. -/
def report (t : PlainTerm) : TermDamage × PlainTerm :=
  let moved := { t with lastRow := t.row, lastCol := t.col }
  if t.fullDamage then (.full, moved)
  else
    let t := (moved.damagePoint t.lastRow t.lastCol).damagePoint t.row t.col
    (.lines ((t.spans.zipIdx).filterMap fun entry =>
      entry.1.map fun span => { line := entry.2, left := span.1, right := span.2 }), t)

instance : Terminal PlainTerm where
  new cols rows _ := blankScreen cols rows
  advance t bytes := bytes.foldl advanceByte t
  mode _ :=
    { altScreen := false
      showCursor := true
      mouseMotion := false
      mouseDrag := false
      mouseReportClick := false
      sgrMouse := false
      alternateScroll := true
      appCursor := false
      appKeypad := false
      bracketedPaste := false }
  cursorPoint t := { line := t.row, column := t.col }
  cursorStyle t := t.style
  cell t line col := plainCell (((t.lines[line.toNat]?.getD [])[col]?).getD ' ')
  rowAddr _ line := line.toNat
  historySize _ := 0
  damage := report
  resetDamage t := { t with fullDamage := false, spans := List.replicate t.rows none }
  setCursorStyle t style := { t with style := style.getD defaultStyle }
  resize t cols rows :=
    { blankScreen cols rows with
      esc := t.esc
      lines := (List.range rows).map fun r =>
        (List.range cols).map fun c => ((t.lines[r]?.getD [])[c]?).getD ' '
      row := min t.row (rows - 1)
      col := min t.col (cols - 1)
      style := t.style }
  flagBits flags := UInt64.ofNat flags.rest

end PlainTerm

end Bud.Emulator
