import Bud.Lib.Runs
import Bud.Stem.GridTracking
import Bud.Web.GridState
import Mathlib.Data.List.MinMax

/-!
# Grid synchronisation

The daemon's emulator against the web client's grid, end to end: output is fed, the terminal is
resized, frames are taken at any time, and each frame is either delivered to the client in order or
lost. A client that has folded every frame since a full one shows exactly the emulator of the last
take; one that has missed a frame refuses the next delta.

The run theorem has two kinds of conditions. `Assumed` is what the terminal is trusted with: its
damage covers what changed, and equal row identities are equal rows. `CursorCellKept` is not: it
asks that no chunk prints a character under a damage entry that `feed` takes for the cursor's own,
as a print in the last column is, which does not move the cursor. Such a chunk leaves the row stale
on the client (`lastColumn`).
-/

namespace Bud.Web

open Emulator Grid Session Vte Runs List Option

/-! ### The wire -/

def colorValue : CellColor → GridColor
  | .indexed index => .index index.toNat
  | .rgb r g b => .rgb r.toNat g.toNat b.toNat

/-- The default colours and attributes are left out. -/
def runValue (run : StyledRun) : GridRun :=
  { t := run.text
    fg := run.fg.map colorValue
    bg := run.bg.map colorValue
    a := if run.attrs = 0 then none else some run.attrs.toNat }

def runsValue (runs : List StyledRun) : List GridRun := runs.map runValue

def shapeValue : CursorShapeKind → GridCursorShape
  | .block => .block
  | .underline => .underline
  | .beam => .beam

def cursorValue (cursor : CursorPos) (shape : CursorShapeKind) (blink : Bool) : GridCursor :=
  { row := cursor.row
    col := cursor.col
    visible := cursor.visible
    shape := some (shapeValue shape)
    blink := some blink }

def mouseValue (mouse : MouseModes) : GridMouseModes :=
  { report :=
      match mouse.report with
      | .none => .none
      | .click => .click
      | .drag => .drag
      | .motion => .motion
    sgr := mouse.sgr
    altScroll := mouse.altScroll }

/-- `grid_frame_fields`, with the two fields the watch adds to it. -/
def gridFrameFields (frame : GridFrame) (predictOk : Bool) (appliedInputSeq : Option ℕ) :
    TerminalGridFrame :=
  { generation := frame.generation
    full := frame.full
    cols := frame.cols
    rows := frame.rows
    altScreen := frame.altScreen
    cursor := cursorValue frame.cursor frame.cursorShape frame.cursorBlink
    dirtyRows := frame.dirtyRows.map fun row => { row := row.row, runs := runsValue row.runs }
    scrollbackPush := frame.scrollbackPush.map runsValue
    scrollbackDropped := frame.scrollbackDropped
    predictOk := some predictOk
    appliedInputSeq := appliedInputSeq
    mouse := some (mouseValue frame.mouse)
    appCursor := some frame.appCursor
    rowShift := if frame.rowShift = 0 then none else some frame.rowShift }

theorem canonical_runsValue (runs : List StyledRun) : Canonical (runsValue runs) := by
  intro run hrun hzero
  obtain ⟨styled, -, rfl⟩ := mem_map.mp hrun
  simp only [runValue] at hzero
  split_ifs at hzero with hattrs
  refine hattrs (UInt8.toNat_inj.mp ?_)
  rw [some.inj hzero]
  rfl

/-! ### The system -/

/-- A session, a client of its frames, and what the history of the two was. -/
structure Sys (V T : Type) where
  inner : Session.Inner V T
  client : TerminalGridState
  /-- The emulator at the last frame taken. -/
  taken : Option (Emu T)
  /-- The client has folded every frame since a full one. -/
  following : Bool

inductive Act where
  | feed (offset : ℕ) (bytes : List UInt8)
  | resize (cols rows : ℕ)
  | resetScrollback
  | take (choice : MostVoted) (forceFull predictOk : Bool) (appliedInputSeq : Option ℕ)
      (delivered : Bool)

section

variable {V T : Type} [Parser V] [Terminal T]

def Sys.start (inner : Session.Inner V T) : Sys V T :=
  { inner := inner
    client := emptyGridState
    taken := none
    following := false }

def step (s : Sys V T) : Act → Option (Sys V T)
  | .feed offset bytes => some { s with inner := (processChunk s.inner offset bytes 0 true true).1 }
  | .resize cols rows => some { s with inner := s.inner.resize cols rows }
  | .resetScrollback => some { s with inner := s.inner.resetGridScrollbackPending }
  | .take choice forceFull predictOk appliedInputSeq delivered =>
    match s.inner.takeGridFrame choice forceFull with
    | none => some s
    | some (frame, inner) =>
      some
        { inner := inner
          client :=
            if delivered then
              (applyGridFrame s.client (gridFrameFields frame predictOk appliedInputSeq)).1
            else s.client
          taken := some s.inner.emu
          following := delivered && (frame.full || s.following) }

/-- **The client shows the emulator**: size, cursor and the runs of every visible row. -/
structure Matches (client : TerminalGridState) (e : Emu T) : Prop where
  cols : client.cols = e.cols
  rows : client.rows = e.rows
  cursor : client.cursor = cursorValue e.cursor e.cursorShape.1 e.cursorShape.2
  grid : client.grid = (List.range e.rows).map fun row => runsValue (e.rowRuns row)

/-- **The outcome of a take.** The first frame is full. A client that follows, or is given a full
frame, accepts it and shows the emulator; one that has missed a frame refuses a delta and keeps its
state. -/
def GridSynced (s : Sys V T) (choice : MostVoted) (forceFull predictOk : Bool)
    (appliedInputSeq : Option ℕ) : Prop :=
  match s.inner.takeGridFrame choice forceFull with
  | none => s.following = true → Matches s.client s.inner.emu
  | some (frame, _) =>
    let applied := applyGridFrame s.client (gridFrameFields frame predictOk appliedInputSeq)
    (s.taken.isNone = true → frame.full = true) ∧
      if s.following || frame.full then applied.2 = false ∧ Matches applied.1 s.inner.emu
      else applied = (s.client, true)

instance (client : TerminalGridState) (e : Emu T) : Decidable (Matches client e) :=
  decidable_of_iff
    (client.cols = e.cols ∧ client.rows = e.rows ∧
      client.cursor = cursorValue e.cursor e.cursorShape.1 e.cursorShape.2 ∧
      client.grid = (List.range e.rows).map fun row => runsValue (e.rowRuns row))
    ⟨fun h => ⟨h.1, h.2.1, h.2.2.1, h.2.2.2⟩, fun h => ⟨h.cols, h.rows, h.cursor, h.grid⟩⟩

instance (s : Sys V T) (choice : MostVoted) (forceFull predictOk : Bool)
    (appliedInputSeq : Option ℕ) :
    Decidable (GridSynced s choice forceFull predictOk appliedInputSeq) :=
  match h : s.inner.takeGridFrame choice forceFull with
  | none => decidable_of_iff (s.following = true → Matches s.client s.inner.emu) (by
      rw [GridSynced, h])
  | some (frame, _) =>
    let applied := applyGridFrame s.client (gridFrameFields frame predictOk appliedInputSeq)
    decidable_of_iff
      ((s.taken.isNone = true → frame.full = true) ∧
        if s.following || frame.full then applied.2 = false ∧ Matches applied.1 s.inner.emu
        else applied = (s.client, true)) (by rw [GridSynced, h])

/-- **What the terminal is trusted with**: complete damage, and sound row identities. -/
def Assumed (s : Sys V T) : Act → Prop
  | .feed _ bytes => DamageCovers s.inner.emu bytes
  | .take _ _ _ _ _ => ∀ e₀ ∈ s.taken, IdsSound e₀ s.inner.emu
  | .resize _ _ | .resetScrollback => True

/-- No chunk prints under a lone cursor entry. -/
def CursorCellKept (s : Sys V T) : Act → Prop
  | .feed _ bytes => CursorCellsKept s.inner.grid s.inner.emu bytes
  | .resize _ _ | .resetScrollback | .take _ _ _ _ _ => True

instance decidableAssumed (s : Sys V T) : (a : Act) → Decidable (Assumed s a)
  | .feed _ bytes => inferInstanceAs (Decidable (DamageCovers s.inner.emu bytes))
  | .take _ _ _ _ _ => inferInstanceAs (Decidable (∀ e₀ ∈ s.taken, IdsSound e₀ s.inner.emu))
  | .resize _ _ | .resetScrollback => .isTrue trivial

instance decidableCursorCellKept (s : Sys V T) : (a : Act) → Decidable (CursorCellKept s a)
  | .feed _ bytes => inferInstanceAs (Decidable (CursorCellsKept s.inner.grid s.inner.emu bytes))
  | .resize _ _ | .resetScrollback | .take _ _ _ _ _ => .isTrue trivial

end

/-! ### One frame -/

section

variable {T : Type} [Terminal T]

/-- The client is where the tracker is, and shows `e`. -/
structure Current (client : TerminalGridState) (e : Emu T) (g : GridTracker) : Prop where
  seeded : client.seeded = true
  generation : client.generation = g.generation
  shows : Matches client e

theorem Matches.canonical {client : TerminalGridState} {e : Emu T} (h : Matches client e) :
    ∀ row ∈ client.grid, Canonical row := by
  intro row hrow
  rw [h.grid] at hrow
  obtain ⟨i, -, rfl⟩ := mem_map.mp hrow
  exact canonical_runsValue _

variable {choice : MostVoted} {e : Emu T} {g g' : GridTracker} {forceFull : Bool}
  {frame : GridFrame} {client next : TerminalGridState} {predictOk : Bool}
  {appliedInputSeq : Option ℕ}

/-- A state that took over a frame of `e`, with the rows of `e`, is current. -/
theorem current_of_shows (htake : take choice e g forceFull = some (frame, g'))
    (hshows : Shows next (gridFrameFields frame predictOk appliedInputSeq) grid)
    (hgrid : grid = (range e.rows).map fun row => runsValue (e.rowRuns row)) :
    Current next e g' := by
  obtain ⟨hgen, hgen', hcols, hrows, hcursor, hshape, -, -⟩ := take_eq_some htake
  refine ⟨hshows.seeded, ?_, ⟨hshows.cols.trans hcols, hshows.rows.trans hrows, ?_, ?_⟩⟩
  · rw [hshows.generation, gridFrameFields, hgen, hgen']
  · rw [hshows.cursor, gridFrameFields, hcursor, ← hshape]
  · rw [hshows.grid, hgrid]

theorem apply_full (htake : take choice e g forceFull = some (frame, g'))
    (hfull : frame.full = true) (hcanon : ∀ row ∈ client.grid, Canonical row) :
    ∃ next,
      applyGridFrame client (gridFrameFields frame predictOk appliedInputSeq) = (next, false) ∧
        Current next e g' := by
  obtain ⟨-, -, -, hrows, -⟩ := take_eq_some htake
  have hdirty : (gridFrameFields frame predictOk appliedInputSeq).dirtyRows
      = (range frame.rows).map fun i => ⟨i, runsValue (e.rowRuns i)⟩ := by
    rw [gridFrameFields, take_full htake hfull, shipped, List.map_map, hrows]
    rfl
  obtain ⟨next, happly, hshows⟩ :=
    applyGridFrame_full hcanon (fun i => canonical_runsValue (e.rowRuns i)) hfull hdirty
  exact ⟨next, happly, current_of_shows htake hshows (by rw [← hrows]; rfl)⟩

theorem apply_delta (htracks : Tracks e₀ e g) (hsound : IdsSound e₀ e)
    (htake : take choice e g forceFull = some (frame, g')) (hdelta : frame.full = false)
    (hcurrent : Current client e₀ g) :
    ∃ next,
      applyGridFrame client (gridFrameFields frame predictOk appliedInputSeq) = (next, false) ∧
        Current next e g' := by
  obtain ⟨hgen, -, hcols, hrows, -⟩ := take_eq_some htake
  obtain ⟨hcols₀, hrows₀, dirty, hdirty, hsource⟩ := take_delta htracks hsound htake hdelta
  have hwire : (gridFrameFields frame predictOk appliedInputSeq).dirtyRows
      = dirty.map fun i => ⟨i, runsValue (e.rowRuns i)⟩ := by
    rw [gridFrameFields, hdirty, shipped, List.map_map]
    rfl
  have hcont : contiguous client (gridFrameFields frame predictOk appliedInputSeq) = true := by
    simp only [contiguous, gridFrameFields, hcurrent.seeded, hcurrent.generation, hgen, hcols,
      hrows, hcurrent.shows.cols, hcurrent.shows.rows, hcols₀, hrows₀, decide_true, Bool.and_true]
  have hlen : client.grid.length = (gridFrameFields frame predictOk appliedInputSeq).rows := by
    rw [hcurrent.shows.grid, length_map, length_range, gridFrameFields, hrows, hrows₀]
  obtain ⟨next, happly, hshows⟩ := applyGridFrame_delta hcurrent.shows.canonical
    (fun i => canonical_runsValue (e.rowRuns i)) hdelta hlen hcont hwire
  refine ⟨next, happly, current_of_shows htake hshows ?_⟩
  have hshift : (gridFrameFields frame predictOk appliedInputSeq).rowShift.getD 0
      = frame.rowShift := by
    simp only [gridFrameFields]
    split_ifs with hzero
    · exact hzero.symm
    · rfl
  rw [hshift, gridFrameFields, hrows]
  refine map_congr_left fun i hi => ?_
  rw [mem_range] at hi
  by_cases hmem : i ∈ dirty
  · rw [if_pos hmem]
  · -- a row the frame leaves out is the client's row at its source
    rw [if_neg hmem]
    obtain ⟨j, hj, hsrc, hruns⟩ := hsource i hi hmem
    simp only [shiftedRow, ← hsrc]
    rw [if_pos (Int.natCast_nonneg j), Int.toNat_natCast, hcurrent.shows.grid, hruns]
    simp [hj]

theorem apply_gap (htake : take choice e g forceFull = some (frame, g'))
    (hdelta : frame.full = false)
    (hbehind : client.seeded = true → client.generation < g.generation) :
    applyGridFrame client (gridFrameFields frame predictOk appliedInputSeq) = (client, true) := by
  obtain ⟨hgen, -⟩ := take_eq_some htake
  refine applyGridFrame_gap hdelta ?_
  simp only [contiguous, gridFrameFields, hgen]
  cases hseeded : client.seeded with
  | false => rfl
  | true =>
    have hne : ¬ g.generation + 1 = client.generation + 1 := by
      have := hbehind hseeded
      omega
    simp only [decide_eq_false hne, Bool.and_false, Bool.false_and]

end

/-! ### Runs -/

section

variable {V T : Type} [Terminal T]

/-- **The invariant of a run.** -/
structure Inv (s : Sys V T) : Prop where
  canonical : ∀ row ∈ s.client.grid, Canonical row
  fresh : s.taken = none →
    s.inner.grid.fullPending = true ∧ s.inner.grid.lastRowIds = none ∧ s.following = false
  tracks : ∀ e₀ ∈ s.taken, Tracks e₀ s.inner.emu s.inner.grid
  current : s.following = true → ∀ e₀ ∈ s.taken, Current s.client e₀ s.inner.grid
  behind : s.following = false → s.client.seeded = true →
    s.client.generation < s.inner.grid.generation

variable {inner : Session.Inner V T} {choice : MostVoted} {forceFull : Bool} {frame : GridFrame}
  {s : Sys V T}

theorem inv_start (hgrid : inner.grid = .new) : Inv (Sys.start inner) := by
  refine ⟨fun row hrow => absurd hrow not_mem_nil, fun _ => ?_, ?_, ?_, ?_⟩
  · simp [Sys.start, hgrid, GridTracker.new]
  · rintro e₀ ⟨⟩
  · rintro ⟨⟩
  · rintro - ⟨⟩

theorem takeGridFrame_eq_some (h : inner.takeGridFrame choice forceFull = some (frame, inner')) :
    take choice inner.emu inner.grid forceFull = some (frame, inner'.grid) ∧
      inner'.emu = inner.emu := by
  rw [Session.Inner.takeGridFrame, map_eq_some_iff] at h
  obtain ⟨⟨frame', g'⟩, htake, heq⟩ := h
  obtain ⟨rfl, rfl⟩ := Prod.mk.inj heq
  exact ⟨htake, rfl⟩

/-- A client that follows has the frame of the last take. -/
theorem Inv.exists_taken (hinv : Inv s) (hfollowing : s.following = true) :
    ∃ e₀ ∈ s.taken, Tracks e₀ s.inner.emu s.inner.grid ∧ Current s.client e₀ s.inner.grid := by
  cases htaken : s.taken with
  | none =>
    rw [(hinv.fresh htaken).2.2] at hfollowing
    cases hfollowing
  | some e₀ => exact ⟨e₀, rfl, hinv.tracks e₀ htaken, hinv.current hfollowing e₀ htaken⟩

/-- The frame of a take, applied to the client. -/
theorem apply_taken (hinv : Inv s) (hsound : ∀ e₀ ∈ s.taken, IdsSound e₀ s.inner.emu)
    (htake : s.inner.takeGridFrame choice forceFull = some (frame, inner)) (predictOk : Bool)
    (appliedInputSeq : Option ℕ) : if s.following || frame.full then
      ∃ next, applyGridFrame s.client (gridFrameFields frame predictOk appliedInputSeq)
          = (next, false) ∧ Current next s.inner.emu inner.grid
    else applyGridFrame s.client (gridFrameFields frame predictOk appliedInputSeq)
      = (s.client, true) := by
  obtain ⟨htake, -⟩ := takeGridFrame_eq_some htake
  cases hfull : frame.full with
  | true =>
    rw [Bool.or_true, if_pos rfl]
    exact apply_full htake hfull hinv.canonical
  | false =>
    rw [Bool.or_false]
    cases hfollowing : s.following with
    | false => exact apply_gap htake hfull (hinv.behind hfollowing)
    | true =>
      rw [if_pos rfl]
      obtain ⟨e₀, htaken, htracks, hcurrent⟩ := hinv.exists_taken hfollowing
      exact apply_delta htracks (hsound e₀ htaken) htake hfull hcurrent

theorem Inv.generation_le (hinv : Inv s) (hseeded : s.client.seeded = true) :
    s.client.generation ≤ s.inner.grid.generation := by
  cases hfollowing : s.following with
  | false => exact Nat.le_of_lt (hinv.behind hfollowing hseeded)
  | true =>
    obtain ⟨e₀, -, -, hcurrent⟩ := hinv.exists_taken hfollowing
    exact Nat.le_of_eq hcurrent.generation

/-- Between takes only the tracked rows change. -/
theorem inv_of_untaken (hinv : Inv s) (hkeeps : Untaken s.inner.grid inner.grid)
    (htracks : ∀ e₀ ∈ s.taken, Tracks e₀ inner.emu inner.grid) : Inv { s with inner := inner } := by
  refine ⟨hinv.canonical, fun htaken => ?_, htracks, fun hfollowing e₀ he₀ => ?_,
    fun hfollowing hseeded => ?_⟩
  · obtain ⟨hpending, hids, hfollowing⟩ := hinv.fresh htaken
    exact ⟨hkeeps.pending hpending, hkeeps.ids.trans hids, hfollowing⟩
  · have h := hinv.current hfollowing e₀ he₀
    exact ⟨h.seeded, h.generation.trans hkeeps.generation.symm, h.shows⟩
  · have h := hinv.behind hfollowing hseeded
    rw [← hkeeps.generation] at h
    exact h

theorem inv_take (hinv : Inv s) (hsound : ∀ e₀ ∈ s.taken, IdsSound e₀ s.inner.emu)
    (htake : s.inner.takeGridFrame choice forceFull = some (frame, inner)) (predictOk : Bool)
    (appliedInputSeq : Option ℕ) (delivered : Bool) : Inv
      { inner := inner
        client :=
          if delivered then
            (applyGridFrame s.client (gridFrameFields frame predictOk appliedInputSeq)).1
          else s.client
        taken := some s.inner.emu
        following := delivered && (frame.full || s.following) } := by
  have happly := apply_taken hinv hsound htake predictOk appliedInputSeq
  obtain ⟨htake, hemu⟩ := takeGridFrame_eq_some htake
  obtain ⟨-, hgen, -, -, -, -, -, htracks⟩ := take_eq_some htake
  have htracks' : ∀ e₀ ∈ some s.inner.emu, Tracks e₀ inner.emu inner.grid := by
    rintro e₀ ⟨⟩
    rw [hemu]
    exact htracks
  -- a client whose state stays as it is has fallen behind
  have hmissed : Inv
      { inner := inner, client := s.client, taken := some s.inner.emu, following := false } := by
    refine ⟨hinv.canonical, ?_, htracks', ?_, fun _ hseeded => ?_⟩
    · rintro ⟨⟩
    · rintro ⟨⟩
    · rw [hgen]
      exact Nat.lt_succ_of_le (hinv.generation_le hseeded)
  cases delivered with
  | false => exact hmissed
  | true =>
    rw [if_pos rfl, Bool.true_and, Bool.or_comm]
    cases haccepts : s.following || frame.full with
    | false =>
      rw [haccepts, if_neg Bool.false_ne_true] at happly
      rw [happly]
      exact hmissed
    | true =>
      rw [haccepts, if_pos rfl] at happly
      obtain ⟨next, happly, hcurrent⟩ := happly
      rw [happly]
      refine ⟨hcurrent.shows.canonical, ?_, htracks', ?_, ?_⟩
      · rintro ⟨⟩
      · rintro - e₀ ⟨⟩
        exact hcurrent
      · rintro ⟨⟩

variable [LawfulTerminal T] [Parser V]

theorem inv_step (hinv : Inv s) (hok : Assumed s a ∧ CursorCellKept s a) (h : step s a = some s') :
    Inv s' := by
  cases a with
  | feed offset bytes =>
    obtain rfl := some.inj h
    refine inv_of_untaken hinv ?_ fun e₀ he₀ => tracks_feed (hinv.tracks e₀ he₀) hok.1 hok.2 0 true
    rw [(processChunk_grid s.inner offset bytes 0 true).1]
    exact untaken_observeFeed _ _ _
  | resize cols rows =>
    obtain rfl := some.inj h
    exact inv_of_untaken hinv (untaken_resize s.inner cols rows) fun e₀ he₀ =>
      tracks_resize (hinv.tracks e₀ he₀) cols rows
  | resetScrollback =>
    obtain rfl := some.inj h
    refine inv_of_untaken hinv ⟨rfl, rfl, fun h => h⟩ fun e₀ he₀ => ?_
    have htracks := hinv.tracks e₀ he₀
    exact { htracks with }
  | take choice forceFull predictOk appliedInputSeq delivered =>
    rw [step] at h
    cases htake : s.inner.takeGridFrame choice forceFull with
    | none =>
      rw [htake] at h
      obtain rfl := some.inj h
      exact hinv
    | some taken =>
      rw [htake] at h
      obtain rfl := some.inj h
      exact inv_take hinv hok.1 htake predictOk appliedInputSeq delivered

omit [LawfulTerminal T] [Parser V] in
theorem gridSynced_of_inv (hinv : Inv s) (hsound : ∀ e₀ ∈ s.taken, IdsSound e₀ s.inner.emu)
    (choice : MostVoted) (forceFull predictOk : Bool) (appliedInputSeq : Option ℕ) :
    GridSynced s choice forceFull predictOk appliedInputSeq := by
  rw [GridSynced]
  cases htake : s.inner.takeGridFrame choice forceFull with
  | none =>
    intro hfollowing
    rw [Session.Inner.takeGridFrame, map_eq_none_iff] at htake
    obtain ⟨hidle, hdirty, hcursor, hfacts⟩ := take_none htake
    obtain ⟨e₀, -, htracks, ⟨-, -, hshows⟩⟩ := hinv.exists_taken hfollowing
    have hsame := htracks.clean hidle
    rw [hdirty] at hsame
    rw [htracks.cursor, some.injEq] at hcursor
    rw [htracks.facts, some.injEq] at hfacts
    obtain ⟨-, -, hshape, hblink⟩ := by simpa only [modeFacts, Prod.mk.injEq] using hfacts
    refine ⟨hshows.cols.trans hsame.cols.symm, hshows.rows.trans hsame.rows.symm, ?_, ?_⟩
    · rw [hshows.cursor, hcursor, hshape, hblink]
    · rw [hshows.grid, hsame.rows]
      refine map_congr_left fun row hrow => ?_
      rw [hsame.rowRuns (mem_range.mp hrow) not_mem_nil]
  | some taken =>
    have happly := apply_taken hinv hsound htake predictOk appliedInputSeq
    refine ⟨fun hnone => ?_, ?_⟩
    · obtain ⟨hpending, hids, -⟩ := hinv.fresh (isNone_iff_eq_none.mp hnone)
      exact take_full_of_fresh (takeGridFrame_eq_some htake).1 hpending hids
    split_ifs at happly ⊢
    · obtain ⟨next, happly, hcurrent⟩ := happly
      rw [happly]
      exact ⟨rfl, hcurrent.shows⟩
    · exact happly

/-- **Grid synchronisation.** In every run of an attachment in which the terminal keeps its promises
and no chunk prints under a lone cursor entry, the first frame is full, every take leaves a
following client with exactly the emulator's rows, cursor and size, and a client that missed a frame
refuses the next delta. -/
theorem gridSynced_of_run {inner : Session.Inner V T} (hgrid : inner.grid = .new) {acts : List Act}
    {s : Sys V T} {choice : MostVoted} {forceFull predictOk delivered : Bool}
    {appliedInputSeq : Option ℕ} (hrun : run step acts (Sys.start inner) = some s)
    (hassumed : Along step Assumed
      (acts ++ [.take choice forceFull predictOk appliedInputSeq delivered]) (Sys.start inner))
    (hkept : Along step CursorCellKept acts (Sys.start inner)) :
    GridSynced s choice forceFull predictOk appliedInputSeq := by
  obtain ⟨hassumed, hlast⟩ := along_append.mp hassumed
  have hinv : Inv s := invariant_along (fun s a s' hinv hok h => inv_step hinv hok h)
    (along_and hassumed hkept) hrun (inv_start hgrid)
  exact gridSynced_of_inv hinv (hlast s hrun).1 choice forceFull predictOk appliedInputSeq

end

/-! ### Concrete runs -/

def firstMostVoted : MostVoted where
  pick votes := votes.argmax Prod.snd
  mem h := List.argmax_mem h
  most h _ hw := List.le_of_mem_argmax hw h
  eq_none := List.argmax_eq_none

def takePending (delivered : Bool) : Act := .take firstMostVoted false false none delivered

/-- A print, a resize there and back, a frame that is lost, and another print. -/
def lostFrame : List Act :=
  [takePending true, .feed 0 [0x61], takePending true, .resize 6 2, .resize 5 2, takePending true,
    .feed 1 [0x62], takePending false, .feed 2 [0x63]]

/-- A screen of the given size, before its first frame. -/
def blank (cols rows : ℕ) : Sys EscState PlainTerm := Sys.start (Session.Inner.new cols rows 0 0)

theorem gridSynced_of_run_lostFrame :
    ∃ s, run step lostFrame (blank 5 2) = some s ∧ s.following = false ∧
      GridSynced s firstMostVoted false false none := by
  have hend : (run step lostFrame (blank 5 2)).map Sys.following = some false := by decide
  obtain ⟨s, hrun, hfollowing⟩ := map_eq_some_iff.mp hend
  have hassumed : Along step Assumed (lostFrame ++ [takePending true]) (blank 5 2) := by
    decide
  have hkept : Along step CursorCellKept lostFrame (blank 5 2) := by decide
  exact ⟨s, hrun, hfollowing, gridSynced_of_run rfl hrun hassumed hkept⟩

/-- `a` in the first of two columns, a frame, then `b` in the last. -/
def lastColumn : List Act :=
  [takePending true, .feed 0 [0x61], takePending true, .feed 1 [0x62]]

/-- The print in the last column is taken for a cursor artifact: the client follows, no frame is
due, and it shows `a` where the emulator shows `ab`. -/
theorem not_gridSynced_lastColumn :
    ∃ s, run step lastColumn (blank 2 1) = some s ∧
      Along step Assumed (lastColumn ++ [takePending true]) (blank 2 1) ∧
        ¬ GridSynced s firstMostVoted false false none := by
  have hend : (run step lastColumn (blank 2 1)).map
      (fun s => decide (GridSynced s firstMostVoted false false none)) = some false := by
    decide
  obtain ⟨s, hrun, hstale⟩ := map_eq_some_iff.mp hend
  exact ⟨s, hrun, by decide, of_decide_eq_false hstale⟩

end Bud.Web
