import Bud.Stem.PlainTerm

/-!
# What a feed reports as damaged

`Emu.feed` drops damage it takes for a cursor artifact. `lineCells_feed` says what that costs: when
the terminal's damage covers the cells that changed, a row that is not reported has the cells it had
before, provided that no dropped single-cell entry changed its cell. A dropped travel span needs no
such provision, because its cells were compared.
-/

namespace Bud.Emulator

open Terminal List

/-- The operations that only touch bookkeeping keep the cells. -/
class LawfulTerminal (T : Type) [Terminal T] : Prop where
  cell_damage : ∀ (t : T) (line : ℤ) (col : ℕ), cell (damage t).2 line col = cell t line col
  cell_resetDamage : ∀ (t : T) (line : ℤ) (col : ℕ), cell (resetDamage t) line col = cell t line col
  cell_setCursorStyle : ∀ (t : T) (style : Option CursorStyle) (line : ℤ) (col : ℕ),
    cell (setCursorStyle t style) line col = cell t line col

instance : LawfulTerminal PlainTerm where
  cell_damage t line col := by
    have hlines : (PlainTerm.report t).2.lines = t.lines := by
      rw [PlainTerm.report]
      split_ifs <;> rfl
    exact congrArg (fun lines : List (List Char) =>
      PlainTerm.plainCell (((lines[line.toNat]?.getD [])[col]?).getD ' ')) hlines
  cell_resetDamage _ _ _ := rfl
  cell_setCursorStyle _ _ _ _ := rfl

namespace TermDamage

def bounds : TermDamage → List LineDamage
  | .full => []
  | .lines bounds => bounds

/-- A cell is inside the damage. -/
def covers : TermDamage → ℕ → ℕ → Bool
  | .full, _, _ => true
  | .lines bounds, line, col =>
    bounds.any fun b => decide (b.line = line ∧ b.left ≤ col ∧ col ≤ b.right)

end TermDamage

section

variable {T : Type} [Terminal T]

def feedDamage (e : Emu T) (bytes : List UInt8) : TermDamage := (damage (advance e.term bytes)).1

/-- **Damage covers every changed cell** of the viewport. -/
def DamageCovers (e : Emu T) (bytes : List UInt8) : Prop :=
  ∀ line < e.rows, ∀ col < e.cols,
    cell (advance e.term bytes) line col ≠ cell e.term line col →
      (feedDamage e bytes).covers line col = true

/-- The cell of an entry is as it was before the feed. -/
def CellKept (e : Emu T) (bytes : List UInt8) (b : LineDamage) : Prop :=
  cell (advance e.term bytes) b.line b.left = cell e.term b.line b.left

/-- An entry that `feed` drops without a look at the cells. -/
def loneCursorCell (e : Emu T) (bytes : List UInt8) (b : LineDamage) : Bool :=
  singleCellArtifact (cursorPoint e.term) (cursorPoint (advance e.term bytes)) b

instance (e : Emu T) (bytes : List UInt8) : Decidable (DamageCovers e bytes) :=
  inferInstanceAs (Decidable (∀ line < e.rows, ∀ col < e.cols, _ → _))

instance (e : Emu T) (bytes : List UInt8) (b : LineDamage) : Decidable (CellKept e bytes b) :=
  inferInstanceAs (Decidable (_ = _))

/-- **Every changed row is reported**, by itself or in a full repaint. -/
def ReportsChanges (e : Emu T) (bytes : List UInt8) : Prop :=
  ∀ row < e.rows,
    lineCells e.cols (e.feed bytes).1.term (row : ℕ) ≠ lineCells e.cols e.term (row : ℕ) →
      (e.feed bytes).2.fullRepaint = true ∨ row ∈ (e.feed bytes).2.damagedRows

/-- An entry that `feed` keeps: no lone cursor cell, and no travel over untouched cells. -/
def entryKept (e : Emu T) (bytes : List UInt8) (b : LineDamage) : Bool :=
  !loneCursorCell e bytes b &&
    !travelSpanArtifact (advance e.term bytes) (cursorPoint e.term)
      (cursorPoint (advance e.term bytes)) (lineCells e.cols e.term (cursorPoint e.term).line) b

/-- A lone cursor entry over a visible cell that the feed printed. -/
def HidesPrint (e : Emu T) (bytes : List UInt8) (b : LineDamage) : Prop :=
  loneCursorCell e bytes b = true ∧ b.line < e.rows ∧ b.left < e.cols ∧ ¬ CellKept e bytes b

/-- **No print is hidden**, unless another entry of its row is kept. -/
def NoHiddenPrint (e : Emu T) (bytes : List UInt8) : Prop :=
  ∀ b ∈ (feedDamage e bytes).bounds, HidesPrint e bytes b →
    ∃ b' ∈ (feedDamage e bytes).bounds, b'.line = b.line ∧ entryKept e bytes b' = true

instance (e : Emu T) (bytes : List UInt8) : Decidable (ReportsChanges e bytes) :=
  inferInstanceAs (Decidable (∀ row < e.rows, _ → _))

instance (e : Emu T) (bytes : List UInt8) (b : LineDamage) : Decidable (HidesPrint e bytes b) :=
  inferInstanceAs (Decidable (_ ∧ _))

instance (e : Emu T) (bytes : List UInt8) : Decidable (NoHiddenPrint e bytes) :=
  inferInstanceAs (Decidable (∀ b ∈ (feedDamage e bytes).bounds, _ → _))

namespace Emu

/-! ### Scroll accounting -/

theorem accountScroll_frame (e : Emu T) :
    e.accountScroll.1.term = e.term ∧ e.accountScroll.1.cols = e.cols ∧
      e.accountScroll.1.rows = e.rows := by
  simp only [accountScroll]
  split_ifs
  · exact ⟨rfl, rfl, rfl⟩
  · exact ⟨rfl, rfl, rfl⟩
  · exact ⟨rfl, rfl, rfl⟩
  · cases e.primaryTopId with
    | none => exact ⟨rfl, rfl, rfl⟩
    | some addr =>
      simp only
      cases e.locateRow addr (historySize e.term) <;> exact ⟨rfl, rfl, rfl⟩
  · exact ⟨rfl, rfl, rfl⟩

/-! ### The report -/

/-- What `feed` leaves of the terminal, and what it says of its rows. -/
theorem feed_spec (e : Emu T) (bytes : List UInt8) :
    (e.feed bytes).1.term = resetDamage (damage (advance e.term bytes)).2 ∧
      (e.feed bytes).1.cols = e.cols ∧ (e.feed bytes).1.rows = e.rows ∧
      ((e.feed bytes).2.fullRepaint = true ∧ feedDamage e bytes = .full ∨
        (e.feed bytes).2.fullRepaint = false ∧
          feedDamage e bytes = .lines (feedDamage e bytes).bounds ∧
          (e.feed bytes).2.damagedRows = ((feedDamage e bytes).bounds.filter fun b =>
            !loneCursorCell e bytes b &&
              !travelSpanArtifact (e.feed bytes).1.term (cursorPoint e.term)
                (cursorPoint (advance e.term bytes))
                (lineCells e.cols e.term (cursorPoint e.term).line) b).map LineDamage.line) := by
  obtain ⟨hterm, hcols, hrows⟩ := accountScroll_frame { e with term := advance e.term bytes }
  have hdamage : (damage (accountScroll { e with term := advance e.term bytes }).1.term).1
      = feedDamage e bytes := by rw [hterm, feedDamage]
  rw [feed]
  simp only
  rw [hdamage]
  cases hd : feedDamage e bytes with
  | full => exact ⟨by rw [hterm], hcols, hrows, Or.inl ⟨rfl, rfl⟩⟩
  | lines bounds =>
    refine ⟨by rw [hterm], hcols, hrows, Or.inr ⟨rfl, rfl, rfl⟩⟩

/-! ### Cells -/

variable [LawfulTerminal T]

theorem cell_feed (e : Emu T) (bytes : List UInt8) (line : ℤ) (col : ℕ) :
    cell (e.feed bytes).1.term line col = cell (advance e.term bytes) line col := by
  rw [(feed_spec e bytes).1, LawfulTerminal.cell_resetDamage, LawfulTerminal.cell_damage]

omit [LawfulTerminal T] in
/-- The cells under a travel artifact are those of the snapshot. -/
theorem cell_of_travelSpanArtifact {e : Emu T} {t : T} {after : Point}
    (h : travelSpanArtifact t (cursorPoint e.term) after (lineCells e.cols e.term (cursorPoint
      e.term).line) b = true) (hcol : col < e.cols) (hleft : b.left ≤ col)
    (hright : col ≤ b.right) : cell t b.line col = cell e.term b.line col := by
  simp only [travelSpanArtifact, Bool.and_eq_true, decide_eq_true_eq] at h
  obtain ⟨⟨⟨⟨⟨_, hnonneg⟩, hline⟩, _⟩, _⟩, hspan⟩ := h
  have hbefore : (cursorPoint e.term).line = (b.line : ℤ) := by omega
  have hlen : (lineCells e.cols e.term (cursorPoint e.term).line).length = e.cols := by
    simp [lineCells]
  rw [spanUnchanged, hlen, all_eq_true] at hspan
  have hmem : col - b.left ∈ range (min b.right (e.cols - 1) + 1 - b.left) := by
    rw [mem_range]
    omega
  have hcell := hspan _ hmem
  rw [Nat.add_sub_cancel' hleft, hbefore] at hcell
  have hsnap : (lineCells e.cols e.term b.line)[col]? = some (cell e.term b.line col) := by
    simp [lineCells, hcol]
  rw [hsnap, beq_iff_eq, Option.some.injEq] at hcell
  exact hcell.symm

/-- **A row that is not reported has not changed**, if the damage covered what did and no lone
cursor entry on it hides a change. -/
theorem lineCells_feed {e : Emu T} {bytes : List UInt8} (hcovers : DamageCovers e bytes) {row : ℕ}
    (hrow : row < e.rows) (hnotfull : (e.feed bytes).2.fullRepaint = false)
    (hnot : row ∉ (e.feed bytes).2.damagedRows)
    (hkept : ∀ b ∈ (feedDamage e bytes).bounds, loneCursorCell e bytes b = true → b.line = row →
      b.left < e.cols → CellKept e bytes b) :
    lineCells e.cols (e.feed bytes).1.term row = lineCells e.cols e.term row := by
  obtain ⟨-, -, -, ⟨hfull, -⟩ | ⟨-, hlines, hrows⟩⟩ := feed_spec e bytes
  · rw [hnotfull] at hfull
    cases hfull
  refine map_congr_left fun col hcol => ?_
  rw [mem_range] at hcol
  by_contra hchanged
  rw [cell_feed] at hchanged
  have hcover := hcovers row hrow col hcol hchanged
  rw [hlines, TermDamage.covers, any_eq_true] at hcover
  obtain ⟨b, hb, hin⟩ := hcover
  obtain ⟨rfl, hleft, hright⟩ := of_decide_eq_true hin
  -- the entry that covers the cell was dropped, in one of two ways
  have hdropped : loneCursorCell e bytes b = true ∨
      travelSpanArtifact (e.feed bytes).1.term (cursorPoint e.term)
        (cursorPoint (advance e.term bytes)) (lineCells e.cols e.term (cursorPoint e.term).line) b
        = true := by
    by_contra hneither
    rw [not_or, Bool.not_eq_true, Bool.not_eq_true] at hneither
    refine hnot ?_
    rw [hrows]
    refine mem_map_of_mem (mem_filter.mpr ⟨hb, ?_⟩)
    rw [hneither.1, hneither.2]
    rfl
  rcases hdropped with hlone | htravel
  · have hone : b.left = b.right := by
      simp only [loneCursorCell, singleCellArtifact, Bool.and_eq_true, decide_eq_true_eq] at hlone
      exact hlone.1
    obtain rfl : col = b.left := by omega
    exact hchanged (hkept b hb hlone rfl hcol)
  · refine hchanged ?_
    rw [← cell_feed]
    exact cell_of_travelSpanArtifact htravel hcol hleft hright

/-- Only the cells of the terminal count for the travel of the cursor. -/
theorem travelSpanArtifact_feed (e : Emu T) (bytes : List UInt8) (before after : Point)
    (snapshot : List Cell) (b : LineDamage) :
    travelSpanArtifact (e.feed bytes).1.term before after snapshot b
      = travelSpanArtifact (advance e.term bytes) before after snapshot b := by
  have hspan : spanUnchanged (e.feed bytes).1.term b snapshot
      = spanUnchanged (advance e.term bytes) b snapshot := by
    rw [spanUnchanged, spanUnchanged]
    congr 1
    funext i
    rw [cell_feed]
  rw [travelSpanArtifact, travelSpanArtifact, hspan]

theorem mem_damagedRows {e : Emu T} (hnotfull : (e.feed bytes).2.fullRepaint = false) :
    row ∈ (e.feed bytes).2.damagedRows ↔
      ∃ b ∈ (feedDamage e bytes).bounds, b.line = row ∧ entryKept e bytes b = true := by
  obtain ⟨-, -, -, ⟨hfull, -⟩ | ⟨-, -, hrows⟩⟩ := feed_spec e bytes
  · rw [hnotfull] at hfull
    cases hfull
  rw [hrows]
  simp only [travelSpanArtifact_feed, mem_map, mem_filter]
  constructor
  · rintro ⟨b, ⟨hb, hkept⟩, hline⟩
    exact ⟨b, hb, hline, hkept⟩
  · rintro ⟨b, hb, hline, hkept⟩
    exact ⟨b, ⟨hb, hkept⟩, hline⟩

end Emu

/-! ### Losing no row -/

/-- **The filter loses no row exactly when no print is hidden** under a lone cursor entry. -/
theorem reportsChanges_iff [LawfulTerminal T] {e : Emu T} {bytes : List UInt8}
    (hcovers : DamageCovers e bytes) : ReportsChanges e bytes ↔ NoHiddenPrint e bytes := by
  constructor
  · rintro hreports b hb ⟨-, hline, hleft, hprinted⟩
    have hchanged : lineCells e.cols (e.feed bytes).1.term b.line
        ≠ lineCells e.cols e.term b.line := by
      intro hsame
      have hcell := map_inj_left.mp hsame b.left (mem_range.mpr hleft)
      rw [Emu.cell_feed] at hcell
      exact hprinted hcell
    obtain ⟨-, -, -, ⟨-, hfull⟩ | ⟨hnotfull, -, -⟩⟩ := Emu.feed_spec e bytes
    · -- a full report has no entries
      rw [hfull] at hb
      cases hb
    · rcases hreports b.line hline hchanged with hfull | hrow
      · rw [hnotfull] at hfull
        cases hfull
      · exact (Emu.mem_damagedRows hnotfull).mp hrow
  · intro hnone row hrow hchanged
    by_contra hunreported
    rw [not_or, Bool.not_eq_true] at hunreported
    obtain ⟨hnotfull, hnot⟩ := hunreported
    refine hchanged (Emu.lineCells_feed hcovers hrow hnotfull hnot ?_)
    intro b hb hlone hline hleft
    by_contra hprinted
    subst hline
    exact hnot ((Emu.mem_damagedRows hnotfull).mpr (hnone b hb ⟨hlone, hrow, hleft, hprinted⟩))

end

def plainAfter (cols rows : ℕ) (chunks : List (List UInt8)) : Emu PlainTerm :=
  chunks.foldl (fun e bytes => (e.feed bytes).1) (Emu.new cols rows 0)

/-- `b` in the second of three columns. -/
theorem reportsChanges_iff_middleColumn :
    DamageCovers (plainAfter 3 1 [[0x61]]) [0x62] ∧
      ReportsChanges (plainAfter 3 1 [[0x61]]) [0x62] := by
  have hcovers : DamageCovers (plainAfter 3 1 [[0x61]]) [0x62] := by decide
  exact ⟨hcovers, (reportsChanges_iff hcovers).mpr (by decide)⟩

/-- `b` in the second of two columns: the cursor is on the printed cell before and after, and the
row is not reported. -/
theorem not_reportsChanges_lastColumn :
    DamageCovers (plainAfter 2 1 [[0x61]]) [0x62] ∧
      ¬ ReportsChanges (plainAfter 2 1 [[0x61]]) [0x62] := by
  constructor
  · decide
  · decide

end Bud.Emulator
