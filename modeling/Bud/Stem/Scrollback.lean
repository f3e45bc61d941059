import Bud.Lib.Backlog
import Bud.Lib.Runs
import Bud.Stem.GridTracking
import Bud.Stem.ScrollTerm
import Mathlib.Data.List.MinMax

/-!
# Scrollback conservation

The lines that scroll off the screen reach the consumer of a session's frames through a bounded
queue in the tracker: a feed counts them and queues them, a frame drains the queue, and a fresh
watch resets it. Every line has a number, the order in which it scrolled off, and the run keeps
those of the queued and of the delivered ones (`Backlog`).

`conserved_of_run` says that the queue stays within its bound, that frames deliver lines that
scrolled off, in order and once, and that a gap between two consecutive deliveries is announced by
the frame with the second. Two kinds of gaps are not announced there. A reset throws away the
waiting lines together with the count of lost ones; and a feed that scrolls more than the history
holds may find its top row nowhere, in which case the next frame says so, and that frame may be the
one with the line before the gap.
-/

namespace Bud.Scrollback

open Emulator Grid Terminal Session Semantic Vte Runs Backlogs

/-! ### The queue of the tracker -/

theorem pushLine_eq (g : GridTracker) (line : List StyledRun)
    (hlen : g.scrollbackPush.length ≤ scrollbackPendingCap) :
    g.pushLine line = { g with
      scrollbackPush := newest scrollbackPendingCap (g.scrollbackPush ++ [line])
      scrollbackDropped :=
        g.scrollbackDropped + (g.scrollbackPush.length + 1 - scrollbackPendingCap) } := by
  rw [GridTracker.pushLine]
  split_ifs with hfull
  · rw [newest_concat_of_full (by decide) hfull, hfull, Nat.add_sub_cancel_left]
  · rw [newest_of_length_le (by rw [List.length_append, List.length_singleton]; omega),
      Nat.sub_eq_zero_of_le (by omega), Nat.add_zero]

theorem foldl_pushLine_eq (lines : List (List StyledRun)) (g : GridTracker)
    (hlen : g.scrollbackPush.length ≤ scrollbackPendingCap) :
    lines.foldl GridTracker.pushLine g = { g with
      scrollbackPush := newest scrollbackPendingCap (g.scrollbackPush ++ lines)
      scrollbackDropped :=
        g.scrollbackDropped +
          (g.scrollbackPush.length + lines.length - scrollbackPendingCap) } := by
  induction lines generalizing g with
  | nil =>
    rw [List.foldl_nil, List.append_nil, newest_of_length_le hlen, List.length_nil,
      Nat.sub_eq_zero_of_le (by omega), Nat.add_zero]
  | cons line lines ih =>
    have hone : (g.scrollbackPush ++ [line]).length = g.scrollbackPush.length + 1 := by
      rw [List.length_append, List.length_singleton]
    rw [List.foldl_cons, pushLine_eq g line hlen, ih _ (by rw [length_newest]; omega)]
    simp only [newest_newest_append, length_newest, hone, List.length_cons, List.append_assoc,
      List.singleton_append]
    -- the cap is a number only where it has to be
    generalize scrollbackPendingCap = cap at hlen ⊢
    congr 1
    omega

/-- What a report does to the queue and to the count of lost lines. -/
theorem observeFeed_scrollback {T : Type} [Terminal T] (g : GridTracker) (report : FeedReport)
    (e : Emu T) (hlen : g.scrollbackPush.length ≤ scrollbackPendingCap) :
    (g.observeFeed report e).scrollbackPush = newest scrollbackPendingCap
          (g.scrollbackPush ++ e.recentHistoryRuns report.scrolledLines) ∧
      (g.observeFeed report e).scrollbackDropped = g.scrollbackDropped
          + (report.scrolledLines - (e.recentHistoryRuns report.scrolledLines).length)
          + (g.scrollbackPush.length + (e.recentHistoryRuns report.scrolledLines).length
            - scrollbackPendingCap)
          + if report.scrollHistoryLost then 1 else 0 := by
  have hscroll : (g.observeFeed report e).scrollbackPush =
      (g.observeScroll report e).scrollbackPush ∧
      (g.observeFeed report e).scrollbackDropped =
        (g.observeScroll report e).scrollbackDropped := by
    rw [GridTracker.observeFeed]
    split_ifs <;> exact ⟨rfl, rfl⟩
  rw [hscroll.1, hscroll.2, GridTracker.observeScroll]
  by_cases hsome : 0 < report.scrolledLines
  · have hfold := foldl_pushLine_eq (e.recentHistoryRuns report.scrolledLines)
      { g with scrollbackDropped := g.scrollbackDropped +
        (report.scrolledLines - (e.recentHistoryRuns report.scrolledLines).length) } hlen
    simp only [hsome, if_true, hfold]
    generalize scrollbackPendingCap = cap
    split_ifs <;> exact ⟨rfl, rfl⟩
  · have hzero : report.scrolledLines = 0 := by omega
    have hnone : e.recentHistoryRuns 0 = [] := by simp [Emu.recentHistoryRuns]
    simp only [hzero, lt_irrefl, if_false, hnone, List.append_nil, newest_of_length_le hlen,
      List.length_nil, Nat.add_zero, Nat.sub_self, Nat.sub_eq_zero_of_le hlen]
    split_ifs <;> exact ⟨rfl, rfl⟩

theorem take_scrollback {T : Type} [Terminal T] {e : Emu T}
    (h : take choice e g forceFull = some (frame, g')) :
    frame.scrollbackPush = g.scrollbackPush ∧ frame.scrollbackDropped = g.scrollbackDropped ∧
      g'.scrollbackPush = [] ∧ g'.scrollbackDropped = 0 := by
  simp only [take] at h
  split_ifs at h
  obtain ⟨rfl, rfl⟩ := Prod.mk.inj (Option.some.inj h)
  exact ⟨rfl, rfl, rfl, rfl⟩

theorem exists_take_of_dropped {T : Type} [Terminal T] (choice : MostVoted) (e : Emu T)
    (forceFull : Bool) (hdropped : 0 < g.scrollbackDropped) :
    ∃ frame g', take choice e g forceFull = some (frame, g') ∧ 0 < frame.scrollbackDropped := by
  cases htake : take choice e g forceFull with
  | some taken => exact ⟨taken.1, taken.2, rfl, by rw [(take_scrollback htake).2.1]; exact hdropped⟩
  | none =>
    simp only [take] at htake
    split_ifs at htake with hidle
    omega

/-! ### The system -/

/-- A session and the lines that have scrolled off its primary screen. -/
structure Sys (V T : Type) where
  inner : Session.Inner V T
  log : List (List StyledRun)
  /-- The numbers of the queued lines and of those each frame delivered. -/
  backlog : Backlog GridFrame
  /-- Since the last frame or reset, a feed reported that it lost count. -/
  untracked : Bool

inductive Act where
  /-- A chunk that scrolls the given lines off the primary screen. -/
  | chunk (offset : ℕ) (bytes : List UInt8) (emitFrom : ℕ) (emitModeChanges : Bool)
      (off : List (List StyledRun))
  | take (choice : MostVoted) (forceFull : Bool)
  | reset

section

variable {V T : Type} [Parser V] [Terminal T]

def Sys.start (inner : Session.Inner V T) : Sys V T :=
  { inner := inner
    log := []
    backlog := .empty
    untracked := false }

/-- The lines that have scrolled off and are not accounted for: on the alternate screen the
accounting waits. -/
def Sys.since (s : Sys V T) (off : List (List StyledRun)) : List (List StyledRun) :=
  s.log.drop s.backlog.count ++ off

def step (s : Sys V T) : Act → Option (Sys V T)
  | .chunk offset bytes emitFrom emitModeChanges off =>
    let fed := s.inner.emu.feed bytes
    some
      { inner := (processChunk s.inner offset bytes emitFrom emitModeChanges true).1
        log := s.log ++ off
        backlog :=
          if (s.inner.emu.advanced bytes).altScreenActive then s.backlog
          else
            s.backlog.arrive scrollbackPendingCap (s.since off).length
              (fed.1.recentHistoryRuns fed.2.scrolledLines).length fed.2.scrollHistoryLost
        untracked := s.untracked || fed.2.scrollHistoryLost }
  | .take choice forceFull =>
    match s.inner.takeGridFrame choice forceFull with
    | none => some s
    | some (frame, inner) =>
      some
        { inner := inner
          log := s.log
          backlog := s.backlog.take frame
          untracked := false }
  | .reset =>
    some
      { inner := s.inner.resetGridScrollbackPending
        log := s.log
        backlog := s.backlog.reset
        untracked := false }

/-- **What the terminal is trusted with**: a chunk that ends on the primary screen has scrolled off
the lines that it is said to. -/
def Assumed (s : Sys V T) : Act → Prop
  | .chunk _ bytes _ _ off => (s.inner.emu.advanced bytes).altScreenActive = false →
      ScrollsOff (s.inner.emu.advanced bytes) (s.since off)
  | .take _ _ | .reset => True

instance decidableAssumed (s : Sys V T) : (a : Act) → Decidable (Assumed s a)
  | .chunk _ bytes _ _ off =>
    inferInstanceAs (Decidable ((s.inner.emu.advanced bytes).altScreenActive = false →
      ScrollsOff (s.inner.emu.advanced bytes) (s.since off)))
  | .take _ _ | .reset => .isTrue trivial

/-- A frame that says that lines were lost. -/
def Lossy (frame : GridFrame) : Prop := 0 < frame.scrollbackDropped

/-- **A gap is announced by the frame with the later line**, whatever caused it. -/
def LossIndicated (s : Sys V T) : Prop :=
  ∀ t ∈ s.backlog.batches, ∀ j ∈ t.ids, ∀ i ∈ s.backlog.delivered,
    Precedes s.backlog.delivered i j → i + 1 < j → 0 < t.body.scrollbackDropped

instance (s : Sys V T) : Decidable (LossIndicated s) :=
  inferInstanceAs (Decidable (∀ t ∈ s.backlog.batches, ∀ j ∈ t.ids, ∀ i ∈ s.backlog.delivered,
    Precedes s.backlog.delivered i j → i + 1 < j → 0 < t.body.scrollbackDropped))

/-- **Scrollback is conserved.** -/
structure Conserved (s : Sys V T) : Prop where
  bounded : s.inner.grid.scrollbackPush.length ≤ scrollbackPendingCap
  ordered : s.backlog.delivered.Pairwise (· < ·)
  /-- What a frame delivers are lines that scrolled off. -/
  lines : ∀ t ∈ s.backlog.batches, Numbers s.log t.ids t.body.scrollbackPush
  /-- A gap is announced, or there was a reset or a lost count in between. -/
  losses : ∀ t ∈ s.backlog.batches, ∀ j ∈ t.ids, ∀ i, Precedes s.backlog.delivered i j →
    i + 1 < j → 0 < t.body.scrollbackDropped ∨ ∃ p ∈ s.backlog.breaks, i < p ∧ p ≤ j
  /-- A lost count is announced by the next frame. -/
  untracked : s.untracked = true → ∀ choice forceFull, ∃ frame inner,
    s.inner.takeGridFrame choice forceFull = some (frame, inner) ∧ 0 < frame.scrollbackDropped

/-- The invariant of a run. -/
structure Inv (s : Sys V T) : Prop where
  accounted : Accounted Lossy (0 < s.inner.grid.scrollbackDropped) s.backlog
  queued : Numbers s.log s.backlog.pending s.inner.grid.scrollbackPush
  bounded : s.inner.grid.scrollbackPush.length ≤ scrollbackPendingCap
  count : s.backlog.count ≤ s.log.length
  lines : ∀ t ∈ s.backlog.batches, Numbers s.log t.ids t.body.scrollbackPush
  unanchored : Unanchored s.inner.emu → s.backlog.delivered ++ s.backlog.pending = []
  untracked : s.untracked = true → 0 < s.inner.grid.scrollbackDropped

omit [Parser V] [Terminal T] in
theorem inv_start {inner : Session.Inner V T} (hgrid : inner.grid = .new) :
    Inv (Sys.start inner) where
  accounted := accounted_empty
  queued := by
    rw [Sys.start, hgrid]
    rfl
  bounded := by
    rw [Sys.start, hgrid]
    exact Nat.zero_le _
  count := le_rfl
  lines _ ht := by cases ht
  unanchored _ := rfl
  untracked h := by cases h

/-! ### Chunks -/

omit [Parser V] in
theorem unanchored_onMarker (emitFrom : ℕ) (emitModeChanges : Bool) (inner : Session.Inner V T)
    (ev : ScanEvent) :
    Unanchored (inner.onMarker emitFrom emitModeChanges ev).1.emu ↔ Unanchored inner.emu := by
  simp only [Inner.onMarker, Inner.afterMarker]
  cases ev.kind with
  | commandEnd exitCode =>
    simp only
    cases inner.openCommand <;> exact Iff.rfl
  | _ => exact Iff.rfl

omit [Parser V] in
theorem unanchored_onMarkers (emitFrom : ℕ) (emitModeChanges : Bool) (inner : Session.Inner V T)
    (evs : List ScanEvent) :
    Unanchored (inner.onMarkers emitFrom emitModeChanges evs).1.emu ↔ Unanchored inner.emu := by
  induction evs generalizing inner with
  | nil => exact Iff.rfl
  | cons ev evs ih => exact (ih _).trans (unanchored_onMarker emitFrom emitModeChanges inner ev)

theorem unanchored_processChunk (inner : Session.Inner V T) (offset : ℕ) (bytes : List UInt8)
    (emitFrom : ℕ) (emitModeChanges : Bool) :
    Unanchored (processChunk inner offset bytes emitFrom emitModeChanges true).1.emu ↔
      Unanchored (inner.emu.feed bytes).1 :=
  unanchored_onMarkers emitFrom emitModeChanges (inner.feedChunk offset bytes true).1 _

variable [LawfulScrollback T]

/-- What a chunk does to the queue and to the count of lost lines. -/
theorem processChunk_scrollback {inner : Session.Inner V T}
    (hlen : inner.grid.scrollbackPush.length ≤ scrollbackPendingCap) (offset : ℕ)
    (bytes : List UInt8) (emitFrom : ℕ) (emitModeChanges : Bool) :
    (processChunk inner offset bytes emitFrom emitModeChanges true).1.grid.scrollbackPush
        = newest scrollbackPendingCap (inner.grid.scrollbackPush
          ++ (inner.emu.feed bytes).1.recentHistoryRuns (inner.emu.feed bytes).2.scrolledLines) ∧
      (processChunk inner offset bytes emitFrom emitModeChanges true).1.grid.scrollbackDropped
        = inner.grid.scrollbackDropped
          + ((inner.emu.feed bytes).2.scrolledLines - ((inner.emu.feed bytes).1.recentHistoryRuns
            (inner.emu.feed bytes).2.scrolledLines).length)
          + (inner.grid.scrollbackPush.length + ((inner.emu.feed bytes).1.recentHistoryRuns
            (inner.emu.feed bytes).2.scrolledLines).length - scrollbackPendingCap)
          + if (inner.emu.feed bytes).2.scrollHistoryLost then 1 else 0 := by
  rw [(processChunk_grid inner offset bytes emitFrom emitModeChanges).1]
  exact observeFeed_scrollback inner.grid _ _ hlen

variable {s : Sys V T}

theorem inv_chunk_alt {offset : ℕ} (hinv : Inv s)
    (halt : (s.inner.emu.advanced bytes).altScreenActive = true) :
    Inv { inner := (processChunk s.inner offset bytes emitFrom emitModeChanges true).1
          log := s.log ++ off
          backlog := s.backlog
          untracked := s.untracked || (s.inner.emu.feed bytes).2.scrollHistoryLost } := by
  obtain ⟨hscrolled, hlost, hsame⟩ := Emu.feed_alt halt
  obtain ⟨hpush, hdropped⟩ := processChunk_scrollback hinv.bounded offset bytes emitFrom
    emitModeChanges
  have hnone : (s.inner.emu.feed bytes).1.recentHistoryRuns 0 = [] := by
    simp [Emu.recentHistoryRuns]
  have hfits := Nat.sub_eq_zero_of_le hinv.bounded
  rw [hscrolled, hnone, List.append_nil, newest_of_length_le hinv.bounded] at hpush
  rw [hscrolled, hnone, hlost, List.length_nil, Nat.sub_zero, Nat.add_zero, Nat.add_zero, hfits,
    if_neg Bool.false_ne_true] at hdropped
  refine ⟨?_, ?_, ?_, ?_, fun t ht => (hinv.lines t ht).append_log off, ?_, ?_⟩
  · rw [hdropped]
    exact hinv.accounted
  · rw [hpush]
    exact hinv.queued.append_log off
  · rw [hpush]
    exact hinv.bounded
  · rw [List.length_append]
    exact hinv.count.trans (Nat.le_add_right _ _)
  · rw [unanchored_processChunk, hsame]
    exact hinv.unanchored
  · rw [hlost, Bool.or_false, hdropped]
    exact hinv.untracked

theorem inv_chunk_primary {offset : ℕ} (hinv : Inv s)
    (hprimary : (s.inner.emu.advanced bytes).altScreenActive = false)
    (hoff : ScrollsOff (s.inner.emu.advanced bytes) (s.since off)) :
    Inv { inner := (processChunk s.inner offset bytes emitFrom emitModeChanges true).1
          log := s.log ++ off
          backlog := s.backlog.arrive scrollbackPendingCap (s.since off).length
            ((s.inner.emu.feed bytes).1.recentHistoryRuns
              (s.inner.emu.feed bytes).2.scrolledLines).length
            (s.inner.emu.feed bytes).2.scrollHistoryLost
          untracked := s.untracked || (s.inner.emu.feed bytes).2.scrollHistoryLost } := by
  obtain ⟨hle, hruns, hcount, hfresh⟩ := Emu.feed_primary hprimary hoff
  obtain ⟨hpush, hdropped⟩ := processChunk_scrollback hinv.bounded offset bytes emitFrom
    emitModeChanges
  generalize hscrolled : (s.inner.emu.feed bytes).2.scrolledLines = scrolled at *
  generalize hlost : (s.inner.emu.feed bytes).2.scrollHistoryLost = lost at *
  have hlen : ((s.inner.emu.feed bytes).1.recentHistoryRuns scrolled).length = scrolled := by
    rw [hruns, List.length_drop]
    omega
  rw [hlen, Nat.sub_self, Nat.add_zero] at hdropped
  rw [hlen]
  -- the queued lines are the end of the stream
  have hsince : s.since off = (s.log ++ off).drop s.backlog.count := by
    rw [Sys.since, List.drop_append_of_le_length hinv.count]
  have htotal : s.backlog.count + (s.since off).length = (s.log ++ off).length := by
    have hcount := hinv.count
    rw [hsince, List.length_drop, List.length_append]
    omega
  have hnew : Numbers (s.log ++ off)
      (List.range' (s.backlog.count + (s.since off).length - scrolled) scrolled)
      ((s.inner.emu.feed bytes).1.recentHistoryRuns scrolled) := by
    have hend := numbers_drop (s.log ++ off) ((s.log ++ off).length - scrolled)
    rw [hruns, htotal, hsince, List.drop_drop, List.length_drop]
    rw [Nat.sub_sub_self (by omega)] at hend
    have hstart : s.backlog.count + ((s.log ++ off).length - s.backlog.count - scrolled)
        = (s.log ++ off).length - scrolled := by omega
    rw [hstart]
    exact hend
  have hbounded : s.backlog.pending.length ≤ scrollbackPendingCap := by
    rw [← hinv.queued.length_eq]
    exact hinv.bounded
  refine ⟨?_, ?_, ?_, htotal.le, fun t ht => (hinv.lines t ht).append_log off, ?_, ?_⟩
  · refine hinv.accounted.arrive (by decide) hbounded hle ?_ fun hkept => ?_
    · rcases hcount with hall | hnone | hlost
      · exact Or.inl hall
      · exact Or.inr (Or.inl (hinv.unanchored hnone))
      · exact Or.inr (Or.inr hlost)
    · rw [hdropped] at hkept
      cases lost with
      | true =>
        rw [if_pos rfl] at hkept
        omega
      | false =>
        rw [← hinv.queued.length_eq]
        exact ⟨by omega, rfl, by omega⟩
  · rw [hpush, Backlog.arrive_pending]
    exact ((hinv.queued.append_log off).append hnew).newest scrollbackPendingCap
  · rw [hpush, length_newest]
    exact Nat.min_le_left _ _
  · intro hnone
    rw [unanchored_processChunk] at hnone
    obtain ⟨hnone, rfl⟩ := hfresh hnone
    rw [Backlog.arrive_delivered, Backlog.arrive_pending, List.range'_zero, List.append_nil,
      newest_of_length_le hbounded]
    exact hinv.unanchored hnone
  · intro huntracked
    rw [hdropped]
    rcases Bool.or_eq_true_iff.mp huntracked with hold | hnew
    · have := hinv.untracked hold
      omega
    · rw [if_pos hnew]
      omega

/-! ### Runs -/

theorem inv_step {a : Act} (hinv : Inv s) (hassumed : Assumed s a) (h : step s a = some s') :
    Inv s' := by
  cases a with
  | chunk offset bytes emitFrom emitModeChanges off =>
    obtain rfl := Option.some.inj h
    cases halt : (s.inner.emu.advanced bytes).altScreenActive with
    | true =>
      simp only [if_true]
      exact inv_chunk_alt hinv halt
    | false =>
      simp only [Bool.false_eq_true, if_false]
      exact inv_chunk_primary hinv halt (hassumed halt)
  | take choice forceFull =>
    rw [step, Inner.takeGridFrame] at h
    cases htake : take choice s.inner.emu s.inner.grid forceFull with
    | none =>
      rw [htake] at h
      obtain rfl := Option.some.inj h
      exact hinv
    | some taken =>
      rw [htake] at h
      obtain rfl := Option.some.inj h
      obtain ⟨hpush, hdropped, hempty, hzero⟩ := take_scrollback htake
      refine ⟨hinv.accounted.take ?_ _, ?_, ?_, hinv.count, ?_, ?_, ?_⟩
      · intro hmissed
        show 0 < taken.1.scrollbackDropped
        rw [hdropped]
        exact hmissed
      · show Numbers s.log [] taken.2.scrollbackPush
        rw [hempty]
        rfl
      · show taken.2.scrollbackPush.length ≤ scrollbackPendingCap
        rw [hempty]
        exact Nat.zero_le _
      · intro t ht
        rcases List.mem_append.mp ht with hold | hnew
        · exact hinv.lines t hold
        · obtain rfl := List.mem_singleton.mp hnew
          show Numbers s.log s.backlog.pending taken.1.scrollbackPush
          rw [hpush]
          exact hinv.queued
      · intro hnone
        rw [Backlog.delivered_take]
        exact (List.append_nil _).trans (hinv.unanchored hnone)
      · rintro ⟨⟩
  | reset =>
    obtain rfl := Option.some.inj h
    refine ⟨hinv.accounted.reset _, rfl, Nat.zero_le _, hinv.count, hinv.lines, ?_, ?_⟩
    · intro hnone
      exact (List.append_nil _).trans (List.append_eq_nil_iff.mp (hinv.unanchored hnone)).1
    · rintro ⟨⟩

omit [Parser V] [LawfulScrollback T] in
theorem conserved_of_inv (hinv : Inv s) : Conserved s where
  bounded := hinv.bounded
  ordered := hinv.accounted.delivered_sorted
  lines := hinv.lines
  losses _ ht _ hj _ hi hgap := hinv.accounted.lossy_or_break ht hj hi hgap
  untracked h choice forceFull := by
    obtain ⟨frame, g', htake, hdropped⟩ :=
      exists_take_of_dropped choice s.inner.emu forceFull (hinv.untracked h)
    refine ⟨frame, { s.inner with grid := g' }, ?_, hdropped⟩
    rw [Inner.takeGridFrame, htake]
    rfl

/-- **Scrollback conservation.** In every run of chunks, frames and resets from a fresh tracker, on
any emulator, the queue stays within its bound, frames deliver lines that scrolled off in order and
once, and a gap between consecutive deliveries is announced by the frame with the later line, unless
there was a reset in between or a chunk that the emulator reported to have lost count of. -/
theorem conserved_of_run {inner : Session.Inner V T} (hgrid : inner.grid = .new) {acts : List Act}
    {s : Sys V T} (hrun : run step acts (Sys.start inner) = some s)
    (hassumed : Along step Assumed acts (Sys.start inner)) : Conserved s :=
  conserved_of_inv
    (invariant_along (fun _ _ _ hinv hok h => inv_step hinv hok h) hassumed hrun (inv_start hgrid))

end

/-! ### Concrete runs -/

def textLine (text : List Char) : List StyledRun :=
  [{ text := text, fg := none, bg := none, attrs := 0 }]

/-- Letters, each on a line of its own that scrolls off a one-line screen. -/
def letters (cs : List Char) : Act :=
  .chunk 0 (cs.flatMap fun c => [UInt8.ofNat c.toNat, 0x0d, 0x0a]) 0 true
    (cs.map fun c => textLine [c])

theorem le_argmax {votes : List (ℤ × ℕ)} {v : ℤ × ℕ} (h : votes.argmax Prod.snd = some v) :
    ∀ w ∈ votes, w.2 ≤ v.2 :=
  fun _ hw => List.le_of_mem_argmax hw h

theorem argmax_eq_none {votes : List (ℤ × ℕ)} : votes.argmax Prod.snd = none ↔ votes = [] :=
  List.argmax_eq_none

def takePending : Act :=
  .take ⟨List.argmax Prod.snd, List.argmax_mem, @le_argmax, @argmax_eq_none⟩ false

/-- One line with a history of the given size, before its first frame. -/
def oneLine (history : ℕ) : Sys EscState ScrollTerm := Sys.start (Inner.new 4 1 history 0)

/-- Lines, a frame, a reset, and more lines than the history has, in two chunks. -/
def saturated : List Act :=
  [letters ['a', 'b'], takePending, .reset, letters ['c'], letters ['d', 'e', 'f'], takePending]

set_option maxRecDepth 8192 in
theorem conserved_of_run_saturated :
    ∃ s, run step saturated (oneLine 4) = some s ∧ s.backlog.delivered = [0, 1, 2, 3, 4, 5] ∧
      Conserved s := by
  obtain ⟨s, hrun, hdelivered⟩ := exists_end (show (run step saturated (oneLine 4)).any
      (fun s => decide (s.backlog.delivered = [0, 1, 2, 3, 4, 5])) = true by decide)
  have hassumed : Along step Assumed saturated (oneLine 4) := by decide
  exact ⟨s, hrun, hdelivered, conserved_of_run rfl hrun hassumed⟩

/-- A line, a frame, a line, a reset, a line and a frame. -/
def resetBetween : List Act :=
  [letters ['a'], takePending, letters ['b'], .reset, letters ['c'], takePending]

/-- With a history of one line: a line, three at once, a frame, a line and a frame. -/
def burst : List Act :=
  [letters ['a'], letters ['b', 'c', 'd'], takePending, letters ['e'], takePending]

set_option maxRecDepth 8192 in
/-- A reset loses `b` between the frames with `a` and `c`, and neither says so; and of a burst that
the history cannot hold, the frame with `a` says so and not the one with `e`. -/
theorem not_lossIndicated :
    (∃ s, run step resetBetween (oneLine 4) = some s ∧
      Along step Assumed resetBetween (oneLine 4) ∧ ¬ LossIndicated s) ∧
      ∃ s, run step burst (oneLine 1) = some s ∧
        Along step Assumed burst (oneLine 1) ∧ ¬ LossIndicated s := by
  constructor
  · obtain ⟨s, hrun, hlost⟩ := exists_end
      (show (run step resetBetween (oneLine 4)).any (fun s => decide (¬ LossIndicated s)) = true by
        decide)
    exact ⟨s, hrun, by decide, hlost⟩
  · obtain ⟨s, hrun, hlost⟩ := exists_end
      (show (run step burst (oneLine 1)).any (fun s => decide (¬ LossIndicated s)) = true by
        decide)
    exact ⟨s, hrun, by decide, hlost⟩

end Bud.Scrollback
