import Bud.Stem.ScrollAccounting

/-!
# A terminal that scrolls

`PlainTerm` with carriage return, line feed and a history: a line feed on the last line moves the
top line into the history, from which the oldest line goes once it is full. Every line has a buffer
of its own. `alacritty_terminal` keeps spare buffers and turns the ring of all of them, so on runs
as short as those here no buffer of a lost line is seen again.
-/

namespace Bud.Emulator

open Vte

structure ScrollTerm where
  screen : PlainTerm
  cap : ℕ
  /-- The lines of the history with their buffers, the most recent first. -/
  above : List (ℕ × List Char)
  /-- The buffers of the lines on the screen. -/
  buffers : List ℕ
  nextBuffer : ℕ

namespace ScrollTerm

def blankScreen (cols rows cap : ℕ) : ScrollTerm :=
  { screen := PlainTerm.blankScreen cols rows
    cap := cap
    above := []
    buffers := List.range rows
    nextBuffer := rows }

/-- The screen moves up by one line. -/
def scrollUp (t : ScrollTerm) : ScrollTerm :=
  { t with
    screen := { t.screen with
      lines := t.screen.lines.drop 1 ++ [List.replicate t.screen.cols ' ']
      fullDamage := true }
    above := (t.buffers.zip t.screen.lines |>.take 1) ++ t.above |>.take t.cap
    buffers := t.buffers.drop 1 ++ [t.nextBuffer]
    nextBuffer := t.nextBuffer + 1 }

def advanceByte (t : ScrollTerm) (b : UInt8) : ScrollTerm :=
  if t.screen.esc = .ground ∧ b = 0x0d then
    { t with screen := { t.screen with col := 0, needsWrap := false } }
  else if t.screen.esc = .ground ∧ b = 0x0a then
    if t.screen.row + 1 < t.screen.rows then
      { t with screen := { t.screen with row := t.screen.row + 1, needsWrap := false } }
    else ({ t with screen := { t.screen with needsWrap := false } } : ScrollTerm).scrollUp
  else { t with screen := t.screen.advanceByte b }

/-- The characters of a line, of the screen or of the history. -/
def line (t : ScrollTerm) (line : ℤ) : List Char :=
  if line < 0 then ((t.above[(-line - 1).toNat]?).map Prod.snd).getD []
  else t.screen.lines[line.toNat]?.getD []

instance : Terminal ScrollTerm where
  new := blankScreen
  advance t bytes := bytes.foldl advanceByte t
  mode t := Terminal.mode t.screen
  cursorPoint t := Terminal.cursorPoint t.screen
  cursorStyle t := Terminal.cursorStyle t.screen
  cell t line col := PlainTerm.plainCell (((t.line line)[col]?).getD ' ')
  rowAddr t line :=
    if line < 0 then ((t.above[(-line - 1).toNat]?).map Prod.fst).getD 0
    else t.buffers[line.toNat]?.getD 0
  historySize t := t.above.length
  damage t := ((Terminal.damage t.screen).1, { t with screen := (Terminal.damage t.screen).2 })
  resetDamage t := { t with screen := Terminal.resetDamage t.screen }
  setCursorStyle t style := { t with screen := Terminal.setCursorStyle t.screen style }
  -- the history is kept as it is: no reflow
  resize t cols rows :=
    { t with
      screen := Terminal.resize t.screen cols rows
      buffers := (List.range rows).map fun r => t.buffers[r]?.getD (t.nextBuffer + r)
      nextBuffer := t.nextBuffer + rows }
  flagBits := Terminal.flagBits PlainTerm

theorem report_lines (t : PlainTerm) : (PlainTerm.report t).2.lines = t.lines := by
  rw [PlainTerm.report]
  split_ifs <;> rfl

instance : LawfulScrollback ScrollTerm where
  cell_damage t line col := by
    have hlines : (Terminal.damage t.screen).2.lines = t.screen.lines := report_lines t.screen
    show PlainTerm.plainCell _ = PlainTerm.plainCell _
    simp only [ScrollTerm.line, Terminal.damage] at hlines ⊢
    rw [hlines]
  cell_resetDamage _ _ _ := rfl
  cell_setCursorStyle _ _ _ _ := rfl
  historySize_damage _ := rfl
  historySize_resetDamage _ := rfl

end ScrollTerm

end Bud.Emulator
