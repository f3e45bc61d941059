import Mathlib.Data.Int.Notation
import Mathlib.Data.List.Forall2

/-!
# The web client's grid

`terminal-grid-state.ts`: the reducer over `terminal.grid` frames. A full frame replaces the rows, a
delta shifts them and patches the rows it names, and a delta that does not continue the state it is
applied to is a discontinuity, which leaves the state as it is.

## Modelling notes

Rows keep their array identity where their content does not change. Identity is not visible here;
what is, is that `gridRowsEqual` compares content, so keeping the old row is keeping the new one, as
long as no run carries an explicit `a: 0` (`Canonical`).
-/

namespace Bud.Web

open List Option Function

inductive GridColor where
  | index (n : ℕ)
  | rgb (r g b : ℕ)
  deriving DecidableEq

structure GridRun where
  t : List Char
  fg : Option GridColor
  bg : Option GridColor
  /-- Attribute bits, absent when there are none. -/
  a : Option ℕ
  deriving DecidableEq

inductive GridCursorShape where
  | block
  | underline
  | beam
  deriving DecidableEq

structure GridCursor where
  row : ℕ
  col : ℕ
  visible : Bool
  shape : Option GridCursorShape
  blink : Option Bool
  deriving DecidableEq

inductive GridMouseReport where
  | none
  | click
  | drag
  | motion
  deriving DecidableEq

structure GridMouseModes where
  report : GridMouseReport
  sgr : Bool
  altScroll : Bool
  deriving DecidableEq

structure DirtyRow where
  row : ℕ
  runs : List GridRun

structure TerminalGridFrame where
  generation : ℕ
  full : Bool
  cols : ℕ
  rows : ℕ
  altScreen : Bool
  cursor : GridCursor
  dirtyRows : List DirtyRow
  scrollbackPush : List (List GridRun)
  scrollbackDropped : ℕ
  predictOk : Option Bool
  appliedInputSeq : Option ℕ
  mouse : Option GridMouseModes
  appCursor : Option Bool
  rowShift : Option ℤ

structure TerminalGridState where
  seeded : Bool
  generation : ℕ
  cols : ℕ
  rows : ℕ
  altScreen : Bool
  cursor : GridCursor
  grid : List (List GridRun)
  scrollback : List (List GridRun)
  scrollbackStart : ℕ
  scrollbackDropped : ℕ
  predictOk : Bool
  appliedInputSeq : Option ℕ
  mouse : GridMouseModes
  appCursor : Bool
  deriving DecidableEq

def gridScrollbackCap : ℕ := 5000

def emptyGridState : TerminalGridState :=
  { seeded := false
    generation := 0
    cols := 0
    rows := 0
    altScreen := false
    cursor := { row := 0, col := 0, visible := true, shape := none, blink := none }
    grid := []
    scrollback := []
    scrollbackStart := 0
    scrollbackDropped := 0
    predictOk := false
    appliedInputSeq := none
    mouse := { report := .none, sgr := false, altScroll := true }
    appCursor := false }

def colorEqual (a b : Option GridColor) : Bool := decide (a = b)

def gridRunsEqual (a b : GridRun) : Bool :=
  decide (a.t = b.t) && decide (a.a.getD 0 = b.a.getD 0) && colorEqual a.fg b.fg &&
    colorEqual a.bg b.bg

def gridRowsEqual : List GridRun → List GridRun → Bool
  | [], [] => true
  | a :: as, b :: bs => gridRunsEqual a b && gridRowsEqual as bs
  | _, _ => false

/-- Row `i` of a viewport shifted up by `shift`; a row that comes from outside is blank. -/
def shiftedRow (grid : List (List GridRun)) (shift : ℤ) (i : ℕ) : List GridRun :=
  let src := (i : ℤ) + shift
  if 0 ≤ src then (grid[src.toNat]?).getD [] else []

/-- The rows a frame's dirty rows are written into. -/
def baseRows (state : TerminalGridState) (frame : TerminalGridFrame) : List (List GridRun) :=
  if frame.full then
    let sameGeometry := decide (state.rows = frame.rows) && decide (state.cols = frame.cols)
    (List.range frame.rows).map fun i => if sameGeometry then (state.grid[i]?).getD [] else []
  else
    let shift := frame.rowShift.getD 0
    if shift ≠ 0 then (List.range frame.rows).map (shiftedRow state.grid shift) else state.grid

/-- Write one dirty row; a row with the same content keeps the old array. -/
def writeRow (rows : ℕ) (grid : List (List GridRun)) (dirty : DirtyRow) : List (List GridRun) :=
  if dirty.row < rows then
    match grid[dirty.row]? with
    | some prev => grid.set dirty.row (if gridRowsEqual prev dirty.runs then prev else dirty.runs)
    -- an assignment past the end leaves holes, which are read as empty rows
    | none => grid ++ List.replicate (dirty.row - grid.length) [] ++ [dirty.runs]
  else grid

/-- The scrollback after a frame, and how far its front has moved. -/
def pushScrollback (state : TerminalGridState) (push : List (List GridRun)) :
    List (List GridRun) × ℕ :=
  let scrollback := state.scrollback ++ push
  let extra := scrollback.length - gridScrollbackCap
  if push = [] then (state.scrollback, state.scrollbackStart)
  else (scrollback.drop extra, state.scrollbackStart + extra)

def contiguous (state : TerminalGridState) (frame : TerminalGridFrame) : Bool :=
  state.seeded && decide (frame.generation = state.generation + 1) &&
    decide (frame.cols = state.cols) && decide (frame.rows = state.rows)

/-- The state after a frame, and whether the frame was a discontinuity. -/
def applyGridFrame (state : TerminalGridState) (frame : TerminalGridFrame) :
    TerminalGridState × Bool :=
  if !frame.full && !contiguous state frame then (state, true)
  else
    let (scrollback, scrollbackStart) := pushScrollback state frame.scrollbackPush
    let scrollbackDropped := state.scrollbackDropped + frame.scrollbackDropped
    ({ seeded := true
       generation := frame.generation
       cols := frame.cols
       rows := frame.rows
       altScreen := frame.altScreen
       cursor := frame.cursor
       grid := frame.dirtyRows.foldl (writeRow frame.rows) (baseRows state frame)
       scrollback := scrollback
       scrollbackStart := scrollbackStart
       scrollbackDropped :=
        -- a full frame after missed generations: missed pushes, too
        if frame.full && state.seeded && decide (frame.generation ≠ state.generation + 1) then
          scrollbackDropped + 1
        else scrollbackDropped
       predictOk := frame.predictOk.getD false
       appliedInputSeq :=
        match frame.appliedInputSeq with
        | some seq => some (max seq (state.appliedInputSeq.getD 0))
        | none => state.appliedInputSeq
       mouse := frame.mouse.getD state.mouse
       appCursor := frame.appCursor.getD state.appCursor }, false)

/-! ### Rows -/

/-- No run says `a: 0`, so equal content is equality. -/
def Canonical (row : List GridRun) : Prop := ∀ run ∈ row, run.a ≠ some 0

theorem eq_of_gridRunsEqual (h : gridRunsEqual a b = true) (ha : a.a ≠ some 0) (hb : b.a ≠ some 0) :
    a = b := by
  simp only [gridRunsEqual, colorEqual, Bool.and_eq_true, decide_eq_true_eq] at h
  obtain ⟨⟨⟨ht, hattr⟩, hfg⟩, hbg⟩ := h
  have hattr' : a.a = b.a := by
    cases hx : a.a with
    | none =>
      cases hy : b.a with
      | none => rfl
      | some n =>
        rw [hx, hy, getD_none, getD_some] at hattr
        exact absurd (hy.trans (congrArg some hattr.symm)) hb
    | some m =>
      cases hy : b.a with
      | none =>
        rw [hx, hy, getD_none, getD_some] at hattr
        exact absurd (hx.trans (congrArg some hattr)) ha
      | some n =>
        rw [hx, hy, getD_some, getD_some] at hattr
        rw [hattr]
  cases a
  cases b
  simp_all

theorem eq_of_gridRowsEqual (h : gridRowsEqual as bs = true) (ha : Canonical as)
    (hb : Canonical bs) : as = bs := by
  induction as generalizing bs with
  | nil =>
    cases bs with
    | nil => rfl
    | cons b bs => cases h
  | cons a as ih =>
    cases bs with
    | nil => cases h
    | cons b bs =>
      rw [gridRowsEqual, Bool.and_eq_true] at h
      have hab := eq_of_gridRunsEqual h.1 (ha a mem_cons_self) (hb b mem_cons_self)
      have htail := ih h.2 (fun r hr => ha r (mem_cons_of_mem _ hr))
        fun r hr => hb r (mem_cons_of_mem _ hr)
      rw [hab, htail]

variable {grid : List (List GridRun)} {state : TerminalGridState} {frame : TerminalGridFrame}

theorem writeRow_eq (hlen : grid.length = rows) (hgrid : ∀ row ∈ grid, Canonical row)
    (hdirty : Canonical dirty.runs) : writeRow rows grid dirty = grid.set dirty.row dirty.runs := by
  rw [writeRow]
  by_cases hlt : dirty.row < rows
  · have hget : grid[dirty.row]? = some (grid.get ⟨dirty.row, by omega⟩) :=
      getElem?_eq_getElem _
    rw [if_pos hlt, hget]
    simp only
    split
    · next heq =>
      rw [eq_of_gridRowsEqual heq (hgrid _ (get_mem _ _)) hdirty]
    · rfl
  · rw [if_neg hlt, set_eq_of_length_le (by omega)]

theorem set_map_range {α : Type} (f : ℕ → α) (n d : ℕ) (a : α) :
    ((range n).map f).set d a = (range n).map (update f d a) := by
  refine ext_getElem (by simp) fun i hi _ => ?_
  by_cases hid : d = i
  · subst hid
    simp
  · simp [hid, update_of_ne (Ne.symm hid)]

/-- **The rows after a patch.** The dirty rows say what `runs` says; the others are as before. -/
theorem foldl_writeRow {runs : ℕ → List GridRun} (hruns : ∀ i, Canonical (runs i)) (dirty : List ℕ)
    (hbase : ∀ i, Canonical (base i)) :
    (dirty.map fun i => (⟨i, runs i⟩ : DirtyRow)).foldl (writeRow rows) ((range rows).map base)
      = (range rows).map fun i => if i ∈ dirty then runs i else base i := by
  induction dirty generalizing base with
  | nil => simp
  | cons d dirty ih =>
    have hcanon : ∀ row ∈ (range rows).map base, Canonical row := by
      intro row hrow
      obtain ⟨i, _, rfl⟩ := mem_map.mp hrow
      exact hbase i
    have hupdate : ∀ i, Canonical (update base d (runs d) i) := by
      intro i
      by_cases hid : i = d
      · subst hid
        rw [update_self]
        exact hruns i
      · rw [update_of_ne hid]
        exact hbase i
    rw [map_cons, foldl_cons, writeRow_eq (by simp) hcanon (hruns d), set_map_range,
      ih hupdate]
    refine map_congr_left fun i _ => ?_
    by_cases hid : i = d
    · subst hid
      simp
    · simp [hid]

theorem canonical_getD (hgrid : ∀ row ∈ grid, Canonical row) (i : ℕ) :
    Canonical ((grid[i]?).getD []) := by
  cases hi : grid[i]? with
  | none => exact fun run hrun => absurd hrun not_mem_nil
  | some row => exact hgrid row (mem_of_getElem? hi)

theorem canonical_shiftedRow (hgrid : ∀ row ∈ grid, Canonical row) (shift : ℤ) (i : ℕ) :
    Canonical (shiftedRow grid shift i) := by
  rw [shiftedRow]
  split_ifs
  · exact canonical_getD hgrid _
  · exact fun run hrun => absurd hrun not_mem_nil

theorem baseRows_delta (hfull : frame.full = false) (hlen : state.grid.length = frame.rows) :
    baseRows state frame
      = (range frame.rows).map (shiftedRow state.grid (frame.rowShift.getD 0)) := by
  rw [baseRows, hfull, if_neg Bool.false_ne_true]
  by_cases hshift : frame.rowShift.getD 0 = 0
  · simp only [hshift, ne_eq, not_true_eq_false, if_false]
    refine ext_getElem (by simp [hlen]) fun i hi _ => ?_
    simp [shiftedRow, getElem?_eq_getElem hi]
  · simp only [ne_eq, hshift, not_false_eq_true, if_true]

/-! ### Frames -/

/-- What a state shows after a frame was applied to it. -/
structure Shows (state : TerminalGridState) (frame : TerminalGridFrame)
    (grid : List (List GridRun)) : Prop where
  seeded : state.seeded = true
  generation : state.generation = frame.generation
  cols : state.cols = frame.cols
  rows : state.rows = frame.rows
  cursor : state.cursor = frame.cursor
  grid : state.grid = grid

theorem applyGridFrame_gap (hfull : frame.full = false) (hgap : contiguous state frame = false) :
    applyGridFrame state frame = (state, true) := by
  rw [applyGridFrame, hfull, hgap]
  rfl

theorem applyGridFrame_accepted (h : frame.full = true ∨ contiguous state frame = true) :
    ∃ next, applyGridFrame state frame = (next, false) ∧
      Shows next frame (frame.dirtyRows.foldl (writeRow frame.rows) (baseRows state frame)) := by
  have hok : (!frame.full && !contiguous state frame) = false := by
    rcases h with h | h <;> simp [h]
  rw [applyGridFrame, hok, if_neg Bool.false_ne_true]
  exact ⟨_, rfl, rfl, rfl, rfl, rfl, rfl, rfl⟩

variable {state : TerminalGridState} {frame : TerminalGridFrame} {runs : ℕ → List GridRun}

/-- **A full frame** is accepted by any state, and replaces every row. -/
theorem applyGridFrame_full (hgrid : ∀ row ∈ state.grid, Canonical row)
    (hruns : ∀ i, Canonical (runs i)) (hfull : frame.full = true)
    (hdirty : frame.dirtyRows = (range frame.rows).map fun i => ⟨i, runs i⟩) :
    ∃ next, applyGridFrame state frame = (next, false) ∧
      Shows next frame ((range frame.rows).map runs) := by
  have haccept : frame.full = true ∨ contiguous state frame = true := Or.inl hfull
  obtain ⟨next, happly, hshows⟩ := applyGridFrame_accepted haccept
  refine ⟨next, happly, ?_⟩
  have hbase : ∀ (same : Bool) (i : ℕ),
      Canonical (if same then (state.grid[i]?).getD [] else []) := by
    intro same i
    cases same with
    | true => exact canonical_getD hgrid i
    | false => exact fun run hrun => absurd hrun not_mem_nil
  have hrows : (range frame.rows).map (fun i => if i ∈ range frame.rows then runs i
      else if decide (state.rows = frame.rows) && decide (state.cols = frame.cols) then
        (state.grid[i]?).getD [] else []) = (range frame.rows).map runs :=
    map_congr_left fun i hi => if_pos hi
  rw [hdirty, baseRows, hfull, if_pos rfl, foldl_writeRow hruns _ (hbase _), hrows] at hshows
  exact hshows

/-- **A delta** that continues the state shifts the rows and replaces those it names. -/
theorem applyGridFrame_delta (hgrid : ∀ row ∈ state.grid, Canonical row)
    (hruns : ∀ i, Canonical (runs i)) (hfull : frame.full = false)
    (hlen : state.grid.length = frame.rows) (hcont : contiguous state frame = true) {dirty : List ℕ}
    (hdirty : frame.dirtyRows = dirty.map fun i => ⟨i, runs i⟩) :
    ∃ next, applyGridFrame state frame = (next, false) ∧
      Shows next frame ((range frame.rows).map fun i =>
        if i ∈ dirty then runs i else shiftedRow state.grid (frame.rowShift.getD 0) i) := by
  obtain ⟨next, happly, hshows⟩ := applyGridFrame_accepted (Or.inr hcont)
  refine ⟨next, happly, ?_⟩
  rw [hdirty, baseRows_delta hfull hlen, foldl_writeRow hruns _ (canonical_shiftedRow hgrid _)]
    at hshows
  exact hshows

end Bud.Web
