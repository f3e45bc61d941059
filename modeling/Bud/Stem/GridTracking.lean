import Bud.Stem.Damage
import Bud.Stem.Session

/-!
# What the grid tracker knows

Between two frames the tracker has to know which rows still are what the last frame said. `Tracks`
is that relation, between the emulator at the last frame and the current one: unless a full repaint
is pending, the rows that are not dirty have the cells they had. Every operation of a session keeps
it, and a take re-establishes it for the next frame.

A frame is then right relative to the one before (`take_delta`): every row it leaves out is, up to
its shift, a row of the last frame.
-/

namespace Bud.Session

open Emulator Grid Terminal Semantic Vte

/-! ### The relation -/

section

variable {T : Type} [Terminal T]

/-- The tuple `last_mouse` remembers. -/
def modeFacts (e : Emu T) : MouseModes × Bool × CursorShapeKind × Bool :=
  (e.mouseModes, (mode e.term).appCursor, e.cursorShape.1, e.cursorShape.2)

/-- The size, and the cells of each visible row but some. -/
structure SameRows (e₀ e : Emu T) (dirty : List ℕ) : Prop where
  cols : e.cols = e₀.cols
  rows : e.rows = e₀.rows
  cells : ∀ row < e₀.rows, row ∉ dirty →
    lineCells e₀.cols e.term row = lineCells e₀.cols e₀.term row

/-- **What the tracker knows**: `e₀` is the emulator at the last frame, `e` the current one. -/
structure Tracks (e₀ e : Emu T) (g : GridTracker) : Prop where
  ids : g.lastRowIds = some { cols := e₀.cols, rows := e₀.rows, ids := e₀.viewportRowIds }
  cursor : g.lastCursor = some e₀.cursor
  facts : g.lastMouse = some (modeFacts e₀)
  clean : g.fullPending = false → SameRows e₀ e g.dirtyRows

/-- Equal row identities are equal rows. -/
def IdsSound (e₀ e : Emu T) : Prop :=
  e.cols = e₀.cols → e.rows = e₀.rows → ∀ i < e.rows, ∀ j < e₀.rows,
    rowId e.cols e.term (i : ℕ) = rowId e₀.cols e₀.term (j : ℕ) →
      lineCells e.cols e.term (i : ℕ) = lineCells e₀.cols e₀.term (j : ℕ)

instance (e₀ e : Emu T) : Decidable (IdsSound e₀ e) :=
  inferInstanceAs (Decidable (_ → _ → ∀ i < e.rows, ∀ j < e₀.rows, _ → _))

/-- **No print under a lone cursor entry**: a cell whose damage is dropped unseen is unchanged,
unless its row will be shipped all the same. -/
def CursorCellsKept (g : GridTracker) (e : Emu T) (bytes : List UInt8) : Prop :=
  ∀ b ∈ (feedDamage e bytes).bounds, loneCursorCell e bytes b = true →
    g.fullPending = true ∨ b.line ∈ g.dirtyRows ∨ CellKept e bytes b

instance (g : GridTracker) (e : Emu T) (bytes : List UInt8) :
    Decidable (CursorCellsKept g e bytes) :=
  inferInstanceAs (Decidable (∀ b ∈ (feedDamage e bytes).bounds, _ → _))

theorem SameRows.refl (e : Emu T) (dirty : List ℕ) : SameRows e e dirty :=
  ⟨rfl, rfl, fun _ _ _ => rfl⟩

variable {e₀ : Emu T}

variable {dirty : List ℕ} {choice : MostVoted} {g g' : GridTracker} {forceFull : Bool}
  {frame : GridFrame}

theorem SameRows.trans (h : SameRows e₀ e dirty) (h' : SameRows e e' dirty') (hsub : dirty ⊆ all)
    (hsub' : dirty' ⊆ all) : SameRows e₀ e' all := by
  refine ⟨h'.cols.trans h.cols, h'.rows.trans h.rows, fun row hrow hnot => ?_⟩
  have hcells := h'.cells row (by rw [h.rows]; exact hrow) fun hmem => hnot (hsub' hmem)
  rw [h.cols] at hcells
  exact hcells.trans (h.cells row hrow fun hmem => hnot (hsub hmem))

theorem SameRows.rowRuns (h : SameRows e₀ e dirty) (hrow : row < e₀.rows) (hnot : row ∉ dirty) :
    e.rowRuns row = e₀.rowRuns row := by
  rw [Emu.rowRuns, Emu.rowRuns, if_neg (by rw [h.rows]; omega), if_neg (by omega), Emu.lineRuns,
    Emu.lineRuns, h.cols, h.cells row hrow hnot]

/-! ### Feeding -/

/-- A feed leaves alone what it does not report. -/
theorem sameRows_feed [LawfulTerminal T] {e : Emu T} (hcovers : DamageCovers e bytes)
    (hnotfull : (e.feed bytes).2.fullRepaint = false)
    (hkept : ∀ b ∈ (feedDamage e bytes).bounds, loneCursorCell e bytes b = true → b.line ∈ dirty ∨
      CellKept e bytes b) :
    SameRows e (e.feed bytes).1 (insertRows (e.feed bytes).2.damagedRows dirty) := by
  obtain ⟨-, hcols, hrows, -⟩ := Emu.feed_spec e bytes
  refine ⟨hcols, hrows, fun row hrow hnot => ?_⟩
  rw [mem_insertRows, not_or] at hnot
  refine Emu.lineCells_feed hcovers hrow hnotfull hnot.1 fun b hb hlone hline _ => ?_
  rcases hkept b hb hlone with hdirty | hkept
  · rw [hline] at hdirty
    exact absurd hdirty hnot.2
  · exact hkept

theorem foldl_pushLine_frame (lines : List (List StyledRun)) (g : GridTracker) :
    ∃ push dropped, lines.foldl GridTracker.pushLine g
      = { g with scrollbackPush := push, scrollbackDropped := dropped } := by
  induction lines generalizing g with
  | nil => exact ⟨_, _, rfl⟩
  | cons line lines ih =>
    obtain ⟨push, dropped, h⟩ := ih (g.pushLine line)
    refine ⟨push, dropped, ?_⟩
    rw [List.foldl_cons, h, GridTracker.pushLine]
    split_ifs <;> rfl

theorem observeScroll_frame (g : GridTracker) (report : FeedReport) (e : Emu T) :
    ∃ push dropped, g.observeScroll report e
      = { g with scrollbackPush := push, scrollbackDropped := dropped } := by
  rw [GridTracker.observeScroll]
  by_cases hscrolled : 0 < report.scrolledLines
  · obtain ⟨push, dropped, h⟩ := foldl_pushLine_frame (e.recentHistoryRuns report.scrolledLines)
      { g with scrollbackDropped := g.scrollbackDropped +
        (report.scrolledLines - (e.recentHistoryRuns report.scrolledLines).length) }
    simp only [hscrolled, if_true, h]
    split_ifs <;> exact ⟨_, _, rfl⟩
  · simp only [hscrolled, if_false]
    split_ifs <;> exact ⟨_, _, rfl⟩

/-- What a report does to the tracker: a repaint or more dirty rows, and scrollback. -/
theorem observeFeed_cases (g : GridTracker) (report : FeedReport) (e : Emu T) :
    ∃ push dropped, g.observeFeed report e = { g with
            fullPending := true
            dirtyRows := (g.observeFeed report e).dirtyRows
            scrollbackPush := push
            scrollbackDropped := dropped } ∨
      report.fullRepaint = false ∧ g.fullPending = false ∧ g.observeFeed report e = { g with
            dirtyRows := insertRows report.damagedRows g.dirtyRows
            scrollbackPush := push
            scrollbackDropped := dropped } := by
  obtain ⟨push, dropped, h⟩ := observeScroll_frame g report e
  refine ⟨push, dropped, ?_⟩
  rw [GridTracker.observeFeed, h]
  by_cases hrepaint : (report.fullRepaint || report.altScreenChanged) = true
  · left
    simp only [hrepaint, if_true]
  · have hnotfull : report.fullRepaint = false := by
      cases hr : report.fullRepaint with
      | false => rfl
      | true => simp [hr] at hrepaint
    cases hg : g.fullPending with
    | true =>
      left
      simp only [hrepaint, Bool.false_eq_true, if_false, Bool.not_true]
    | false =>
      right
      refine ⟨hnotfull, rfl, ?_⟩
      simp only [hrepaint, Bool.false_eq_true, if_false, Bool.not_false, if_true]

/-- What only a take changes: the generation and the baseline, and that a repaint stays pending. -/
structure Untaken (g g' : GridTracker) : Prop where
  generation : g'.generation = g.generation
  ids : g'.lastRowIds = g.lastRowIds
  pending : g.fullPending = true → g'.fullPending = true

theorem untaken_observeFeed (g : GridTracker) (report : FeedReport) (e : Emu T) :
    Untaken g (g.observeFeed report e) := by
  obtain ⟨push, dropped, hcase | ⟨-, -, hcase⟩⟩ := observeFeed_cases g report e
  · rw [hcase]
    exact ⟨rfl, rfl, fun _ => rfl⟩
  · rw [hcase]
    exact ⟨rfl, rfl, fun h => h⟩

/-! ### Taking -/

omit [Terminal T] in
theorem detectRowShift_spec
    (h : detectRowShift choice baseline cols rows current = some (shift, dirty)) :
    ∃ base, baseline = some base ∧ base.cols = cols ∧ base.rows = rows ∧
      ∀ i id, current[i]? = some id → i ∉ dirty → rowMatched base.ids shift i id = true := by
  cases baseline with
  | none => cases h
  | some base =>
    rw [detectRowShift] at h
    split_ifs at h with hgeometry
    rw [not_or, not_or, not_not, not_not] at hgeometry
    refine ⟨base, rfl, hgeometry.1, hgeometry.2.1, fun i id hid hnot => ?_⟩
    cases hpick : choice.pick (shiftVotes base.ids current) with
    | none =>
      rw [hpick] at h
      cases h
    | some vote =>
      rw [hpick] at h
      simp only at h
      split_ifs at h
      cases h
      by_contra hunmatched
      refine hnot (List.mem_map.mpr ⟨(id, i), List.mem_filter.mpr ⟨?_, ?_⟩, rfl⟩)
      · exact List.mem_zipIdx_iff_getElem?.mpr hid
      · rw [Bool.not_eq_true] at hunmatched
        simp only [hunmatched, Bool.not_false]

theorem frameRows_cases (choice : MostVoted) (e : Emu T) (g : GridTracker) (forceFull : Bool) :
    frameRows choice e g forceFull = (List.range e.rows, 0, true) ∨
      (∃ shift dirty, frameRows choice e g forceFull = (dirty, shift, false) ∧
        detectRowShift choice g.lastRowIds e.cols e.rows e.viewportRowIds = some (shift, dirty)) ∨
      g.fullPending = false ∧
        frameRows choice e g forceFull
          = (g.dirtyRows.filter fun row => decide (row < e.rows), 0, false) := by
  rw [frameRows]
  cases forceFull with
  | true => exact Or.inl rfl
  | false =>
    cases hpending : g.fullPending with
    | false => exact Or.inr (Or.inr ⟨rfl, rfl⟩)
    | true =>
      cases hdetect : detectRowShift choice g.lastRowIds e.cols e.rows e.viewportRowIds with
      | none =>
        left
        simp
      | some found =>
        right
        left
        exact ⟨found.1, found.2, by simp, rfl⟩

def shipped (e : Emu T) (dirty : List ℕ) : List GridRow :=
  dirty.map fun row => { row := row, runs := e.rowRuns row }

theorem take_eq_some {e : Emu T} (h : take choice e g forceFull = some (frame, g')) :
    frame.generation = g.generation + 1 ∧ g'.generation = g.generation + 1 ∧
      frame.cols = e.cols ∧ frame.rows = e.rows ∧ frame.cursor = e.cursor ∧
      (frame.cursorShape, frame.cursorBlink) = e.cursorShape ∧
      (∃ dirty, frameRows choice e g forceFull = (dirty, frame.rowShift, frame.full) ∧
        frame.dirtyRows = shipped e dirty) ∧
      Tracks e e g' := by
  simp only [take] at h
  split_ifs at h
  obtain ⟨rfl, rfl⟩ := Prod.mk.inj (Option.some.inj h)
  exact ⟨rfl, rfl, rfl, rfl, rfl, rfl, ⟨_, rfl, rfl⟩, rfl, rfl, rfl, fun _ => .refl e []⟩

/-- The rows a taken frame ships, by the way they were chosen. -/
theorem take_cases {e : Emu T} (h : take choice e g forceFull = some (frame, g')) :
    (frame.full = true ∧ frame.dirtyRows = shipped e (List.range e.rows)) ∨
      (frame.full = false ∧ ∃ dirty, frame.dirtyRows = shipped e dirty ∧
        detectRowShift choice g.lastRowIds e.cols e.rows e.viewportRowIds
          = some (frame.rowShift, dirty)) ∨
      (frame.full = false ∧ frame.rowShift = 0 ∧ g.fullPending = false ∧
        frame.dirtyRows = shipped e (g.dirtyRows.filter fun row => decide (row < e.rows))) := by
  obtain ⟨-, -, -, -, -, -, ⟨dirty, hrows, hdirty⟩, -⟩ := take_eq_some h
  rcases frameRows_cases choice e g forceFull with
    hcase | ⟨shift, found, hcase, hdetect⟩ | ⟨hidle, hcase⟩
  · obtain ⟨rfl, hrest⟩ := Prod.mk.inj (hrows.symm.trans hcase)
    exact Or.inl ⟨(Prod.mk.inj hrest).2, hdirty⟩
  · obtain ⟨rfl, hrest⟩ := Prod.mk.inj (hrows.symm.trans hcase)
    obtain ⟨rfl, hfull⟩ := Prod.mk.inj hrest
    exact Or.inr (Or.inl ⟨hfull, dirty, hdirty, hdetect⟩)
  · obtain ⟨rfl, hrest⟩ := Prod.mk.inj (hrows.symm.trans hcase)
    exact Or.inr (Or.inr ⟨(Prod.mk.inj hrest).2, (Prod.mk.inj hrest).1, hidle, hdirty⟩)

/-- **No frame** means that nothing a frame says has changed. -/
theorem take_none {e : Emu T} (h : take choice e g forceFull = none) :
    g.fullPending = false ∧ g.dirtyRows = [] ∧ g.lastCursor = some e.cursor ∧
      g.lastMouse = some (modeFacts e) := by
  simp only [take] at h
  split_ifs at h with hidle
  obtain ⟨hfull, hdirty, -, -, hcursor, hfacts⟩ := hidle
  exact ⟨(Bool.or_eq_false_iff.mp hfull).2, hdirty, not_not.mp hcursor, not_not.mp hfacts⟩

/-- **A full frame** ships every row. -/
theorem take_full {e : Emu T} (h : take choice e g forceFull = some (frame, g'))
    (hfull : frame.full = true) : frame.dirtyRows = shipped e (List.range e.rows) := by
  rcases take_cases h with ⟨-, hdirty⟩ | ⟨hdelta, -⟩ | ⟨hdelta, -⟩
  · exact hdirty
  all_goals
    rw [hfull] at hdelta
    cases hdelta

theorem take_full_of_fresh {e : Emu T} (h : take choice e g forceFull = some (frame, g'))
    (hpending : g.fullPending = true) (hids : g.lastRowIds = none) : frame.full = true := by
  rcases take_cases h with ⟨hfull, -⟩ | ⟨-, dirty, -, hdetect⟩ | ⟨-, -, hidle, -⟩
  · exact hfull
  · obtain ⟨base, hbase, -⟩ := detectRowShift_spec hdetect
    rw [hids] at hbase
    cases hbase
  · rw [hpending] at hidle
    cases hidle

theorem rowRuns_of_rowMatched (hsound : IdsSound e₀ e) (hcols : e.cols = e₀.cols)
    (hrows : e.rows = e₀.rows) (hi : i < e.rows)
    (h : rowMatched e₀.viewportRowIds shift i (rowId e.cols e.term i) = true) :
    ∃ j < e₀.rows, (j : ℤ) = i + shift ∧ e.rowRuns i = e₀.rowRuns j := by
  simp only [rowMatched, Bool.and_eq_true, decide_eq_true_eq, beq_iff_eq] at h
  obtain ⟨hnonneg, hid⟩ := h
  obtain ⟨j, hj⟩ := Int.eq_ofNat_of_zero_le hnonneg
  rw [hj, Int.toNat_natCast, Emu.viewportRowIds, List.getElem?_map, Option.map_eq_some_iff] at hid
  obtain ⟨j', hj', hid⟩ := hid
  obtain ⟨hlt, hget⟩ := List.getElem?_eq_some_iff.mp hj'
  rw [List.length_range] at hlt
  rw [List.getElem_range] at hget
  subst hget
  refine ⟨j, hlt, hj.symm, ?_⟩
  rw [Emu.rowRuns, Emu.rowRuns, if_neg (by omega), if_neg (by omega), Emu.lineRuns, Emu.lineRuns,
    hsound hcols hrows i hi j hlt hid.symm]

/-- **A delta is right relative to the last frame**: a row it leaves out is, up to the shift, a row
of the last frame. -/
theorem take_delta {e : Emu T} (htracks : Tracks e₀ e g) (hsound : IdsSound e₀ e)
    (h : take choice e g forceFull = some (frame, g')) (hdelta : frame.full = false) :
    e.cols = e₀.cols ∧ e.rows = e₀.rows ∧ ∃ dirty, frame.dirtyRows = shipped e dirty ∧
      ∀ i < e.rows, i ∉ dirty →
        ∃ j < e₀.rows, (j : ℤ) = i + frame.rowShift ∧ e.rowRuns i = e₀.rowRuns j := by
  rcases take_cases h with ⟨hfull, -⟩ | ⟨-, dirty, hdirty, hdetect⟩ | ⟨-, hshift, hidle, hdirty⟩
  · rw [hdelta] at hfull
    cases hfull
  · -- the shift: a row that is not shipped was matched by identity
    obtain ⟨base, hbase, hc, hr, hmatched⟩ := detectRowShift_spec hdetect
    rw [htracks.ids] at hbase
    obtain rfl := Option.some.inj hbase
    refine ⟨hc.symm, hr.symm, dirty, hdirty, fun i hi hnot => ?_⟩
    have hid : e.viewportRowIds[i]? = some (rowId e.cols e.term i) := by
      simp [Emu.viewportRowIds, hi]
    exact rowRuns_of_rowMatched hsound hc.symm hr.symm hi (hmatched i _ hid hnot)
  · -- the accumulated rows: a row that is not among them is as it was
    have hsame := htracks.clean hidle
    refine ⟨hsame.cols, hsame.rows, _, hdirty, fun i hi hnot => ?_⟩
    have hi₀ : i < e₀.rows := by
      rw [← hsame.rows]
      exact hi
    have hclean : i ∉ g.dirtyRows := fun hmem =>
      hnot (List.mem_filter.mpr ⟨hmem, decide_eq_true hi⟩)
    exact ⟨i, hi₀, by rw [hshift, Int.add_zero], hsame.rowRuns hi₀ hclean⟩

end

/-! ### Sessions -/

section

variable {V T : Type} [Terminal T] [LawfulTerminal T]

theorem sameRows_resetCursorStyle (e : Emu T) : SameRows e e.resetCursorStyle [] :=
  ⟨rfl, rfl, fun row _ _ => List.map_congr_left fun col _ =>
    LawfulTerminal.cell_setCursorStyle e.term none row col⟩

theorem onMarker_grid (emitFrom : ℕ) (emitModeChanges : Bool) (inner : Inner V T) (ev : ScanEvent) :
    (inner.onMarker emitFrom emitModeChanges ev).1.grid = inner.grid ∧
      SameRows inner.emu (inner.onMarker emitFrom emitModeChanges ev).1.emu [] := by
  simp only [Inner.onMarker, Inner.afterMarker]
  cases ev.kind with
  | promptStart => exact ⟨rfl, sameRows_resetCursorStyle inner.emu⟩
  | commandEnd exitCode =>
    simp only
    cases inner.openCommand <;> exact ⟨rfl, .refl _ _⟩
  | _ => exact ⟨rfl, .refl _ _⟩

theorem onMarkers_grid (emitFrom : ℕ) (emitModeChanges : Bool) (inner : Inner V T)
    (evs : List ScanEvent) :
    (inner.onMarkers emitFrom emitModeChanges evs).1.grid = inner.grid ∧
      SameRows inner.emu (inner.onMarkers emitFrom emitModeChanges evs).1.emu [] := by
  induction evs generalizing inner with
  | nil => exact ⟨rfl, .refl _ _⟩
  | cons ev evs ih =>
    obtain ⟨hgrid, hsame⟩ := onMarker_grid emitFrom emitModeChanges inner ev
    obtain ⟨hgrid', hsame'⟩ := ih (inner.onMarker emitFrom emitModeChanges ev).1
    exact ⟨hgrid'.trans hgrid, hsame.trans hsame' (List.Subset.refl _) (List.Subset.refl _)⟩

variable [Parser V]

theorem processChunk_grid (inner : Inner V T) (offset : ℕ) (bytes : List UInt8) (emitFrom : ℕ)
    (emitModeChanges : Bool) :
    (processChunk inner offset bytes emitFrom emitModeChanges true).1.grid
        = inner.grid.observeFeed (inner.emu.feed bytes).2 (inner.emu.feed bytes).1 ∧
      SameRows (inner.emu.feed bytes).1
        (processChunk inner offset bytes emitFrom emitModeChanges true).1.emu [] :=
  onMarkers_grid emitFrom emitModeChanges (inner.feedChunk offset bytes true).1
    (scan inner.scanner offset bytes).2

/-- **A chunk keeps the relation**, if its damage is complete and no lone cursor entry hides a
change. -/
theorem tracks_feed {inner : Inner V T} (h : Tracks e₀ inner.emu inner.grid)
    (hcovers : DamageCovers inner.emu bytes) (hkept : CursorCellsKept inner.grid inner.emu bytes)
    (emitFrom : ℕ) (emitModeChanges : Bool) :
    Tracks e₀ (processChunk inner offset bytes emitFrom emitModeChanges true).1.emu
      (processChunk inner offset bytes emitFrom emitModeChanges true).1.grid := by
  obtain ⟨hgrid, hmarkers⟩ := processChunk_grid inner offset bytes emitFrom emitModeChanges
  rw [hgrid]
  obtain ⟨push, dropped, hcase | ⟨hnotfull, hidle, hcase⟩⟩ :=
    observeFeed_cases inner.grid (inner.emu.feed bytes).2 (inner.emu.feed bytes).1
  · rw [hcase]
    exact { h with clean := fun hidle => by cases hidle }
  · rw [hcase]
    refine { h with clean := fun _ => ?_ }
    have hfeed : SameRows inner.emu (inner.emu.feed bytes).1
        (insertRows (inner.emu.feed bytes).2.damagedRows inner.grid.dirtyRows) := by
      refine sameRows_feed hcovers hnotfull fun b hb hlone => ?_
      rcases hkept b hb hlone with hpending | hkept
      · rw [hidle] at hpending
        cases hpending
      · exact hkept
    have hold : inner.grid.dirtyRows
        ⊆ insertRows (inner.emu.feed bytes).2.damagedRows inner.grid.dirtyRows :=
      fun row hrow => mem_insertRows.mpr (Or.inr hrow)
    have hseen := (h.clean hidle).trans hfeed hold (List.Subset.refl _)
    exact hseen.trans hmarkers (List.Subset.refl _) (List.nil_subset _)

end

/-! ### Resizes -/

section

variable {V T : Type} [Terminal T]

theorem resize_of_size_eq {e : Emu T} (h : (e.resize cols rows).size = e.size) :
    e.resize cols rows = e := by
  by_cases hsame : (max cols 1, max rows 1) = (e.cols, e.rows)
  · simp only [Emu.resize]
    rw [if_pos hsame]
  · have hsize : (e.resize cols rows).size = (max cols 1, max rows 1) := by
      simp only [Emu.resize]
      rw [if_neg hsame]
      split_ifs <;> rfl
    rw [hsize] at h
    exact absurd h hsame

/-- What a resize does to a session: nothing, or a repaint is pending. -/
theorem resize_cases (inner : Inner V T) (cols rows : ℕ) :
    inner.resize cols rows = inner ∨
      (inner.resize cols rows).grid = { inner.grid with fullPending := true, dirtyRows := [] } := by
  simp only [Inner.resize]
  by_cases hsize : (inner.emu.resize cols rows).size = inner.emu.size
  · left
    simp only [ne_eq, not_true_eq_false, if_false, resize_of_size_eq hsize]
  · right
    simp only [ne_eq, hsize, not_false_eq_true, if_true]

theorem untaken_resize (inner : Inner V T) (cols rows : ℕ) :
    Untaken inner.grid (inner.resize cols rows).grid := by
  rcases resize_cases inner cols rows with hsame | hgrid
  · rw [hsame]
    exact ⟨rfl, rfl, fun h => h⟩
  · rw [hgrid]
    exact ⟨rfl, rfl, fun _ => rfl⟩

theorem tracks_resize {inner : Inner V T} (h : Tracks e₀ inner.emu inner.grid) (cols rows : ℕ) :
    Tracks e₀ (inner.resize cols rows).emu (inner.resize cols rows).grid := by
  rcases resize_cases inner cols rows with hsame | hgrid
  · rw [hsame]
    exact h
  · rw [hgrid]
    exact { h with clean := fun hidle => by cases hidle }

end

end Bud.Session
