import Bud.Lib.Runs

/-!
# The refresh of the browser's state

`observeBrowserState` of the web client's `state-feed.ts` reads the state again after every change
it hears of, one read at a time. A change sets `dirty`, a read clears it as it starts, and whoever
leaves it set has to see to it that a read follows: the read in flight when it ends, the timer of a
failed one, or the page when it can be seen again.

## Modelling notes

The log of changes and reads is not in the source. What the options say is a parameter of each step:
`keep` is the answer of `options.hidden`. `failures` only sets the delay of the timer, and is left
out with it.
-/

namespace Bud.StateFeed

open List

inductive FeedEvent where
  | ready
  | changed
  | lost
  | revoked
  deriving DecidableEq

/-- A change that was heard of, or a read that was started. -/
inductive Note where
  | changed
  | read
  deriving DecidableEq

/-- What `read` came to; `refused` is `false`. -/
inductive Outcome where
  | done
  | refused
  | failed
  deriving DecidableEq

structure Observer where
  disposed : Bool
  dirty : Bool
  running : Bool
  /-- The signal of the last read is aborted. -/
  aborted : Bool
  /-- The handle, and whether its timer is still going to fire. -/
  timer : Option Bool
  documentHidden : Bool
  reads : ℕ
  log : List Note
  deriving DecidableEq

def init (documentHidden : Bool) : Observer :=
  { disposed := false
    dirty := false
    running := false
    aborted := false
    timer := none
    documentHidden := documentHidden
    reads := 0
    log := [] }

def Observer.clearTimeout (o : Observer) : Observer :=
  { o with timer := o.timer.map fun _ => false }

/-- `run` until its await. -/
def Observer.run (o : Observer) (keep : Bool) : Observer :=
  if o.disposed || o.running || !o.dirty || (o.documentHidden && !keep) then o
  else
    { o.clearTimeout with
      running := true
      dirty := false
      aborted := false
      reads := o.reads + 1
      log := o.log ++ [Note.read] }

def Observer.stop (o : Observer) : Observer :=
  { o.clearTimeout with
    disposed := true
    aborted := true }

def Observer.refresh (o : Observer) (keep : Bool) : Observer :=
  let o := { o with dirty := true }
  if o.timer.isNone then o.run keep else o

def Observer.hear (o : Observer) (keep : Bool) : FeedEvent → Observer
  | .revoked => o.stop
  | .lost => { o with aborted := true }.refresh keep
  | .ready | .changed => { o.clearTimeout with timer := none }.refresh keep

/-- The `finally` of `run`. -/
def Observer.finally (o : Observer) (keep : Bool) : Observer :=
  let o :=
    { o with
      running := false
      reads := o.reads - 1 }
  if !o.disposed && o.dirty && o.timer.isNone then o.run keep else o

/-- `run` from its await on. -/
def Observer.settled (o : Observer) (keep : Bool) : Outcome → Observer
  | .done => o.finally keep
  | .refused => o.stop.finally keep
  | .failed =>
    if !o.disposed && !o.aborted then
      Observer.finally
        { o with
          dirty := true
          timer := some true } keep
    else o.finally keep

inductive Act where
  | feed (event : FeedEvent)
  /-- The page calls `refresh`. -/
  | refresh
  | visibility (hidden : Bool)
  | timer
  | settled (outcome : Outcome)
  | stop
  deriving DecidableEq

/-- A change is noted as it is heard of. -/
def Observer.heard (o : Observer) : Observer := { o with log := o.log ++ [Note.changed] }

/-- One step; `none` is an action that cannot happen. A stopped observer has unsubscribed. -/
def step (o : Observer) : Act × Bool → Option Observer
  | (.feed event, keep) =>
    if o.disposed then none
    else some ((if event = .revoked then o else o.heard).hear keep event)
  | (.refresh, keep) => some (o.heard.refresh keep)
  | (.visibility hidden, keep) =>
    let o := { o with documentHidden := hidden }
    some (if o.disposed || hidden then o else o.heard.refresh keep)
  | (.timer, keep) => if o.timer = some true then some ({ o with timer := none }.run keep) else none
  | (.settled outcome, keep) => if o.reads = 0 then none else some (o.settled keep outcome)
  | (.stop, _) => some o.stop

/-! ### The invariant -/

/-- A read has been started after the last change. -/
def UpToDate (log : List Note) : Prop :=
  ∀ before after, log = before ++ .changed :: after → .read ∈ after

/-- Nothing is going to read the state of its own accord. -/
def Observer.Resting (o : Observer) : Prop :=
  o.disposed = false ∧ o.running = false ∧ o.documentHidden = false ∧ o.timer ≠ some true

structure Inv (o : Observer) : Prop where
  reads : o.reads = if o.running then 1 else 0
  /-- The handle of a timer that was cleared is gone. -/
  armed : o.disposed = false → o.timer ≠ some false
  resting : o.Resting → o.dirty = false
  upToDate : o.dirty = false → UpToDate o.log

theorem upToDate_read (log : List Note) : UpToDate (log ++ [.read]) := by
  intro before after h
  rcases eq_nil_or_concat after with rfl | ⟨rest, last, rfl⟩
  · exact absurd (append_inj_right' h rfl) (by decide)
  · rw [concat_eq_append, ← cons_append, ← append_assoc] at h
    rw [concat_eq_append, ← (append_inj' h rfl).2]
    exact mem_append_right _ (mem_singleton_self _)

theorem inv_init (documentHidden : Bool) : Inv (init documentHidden) where
  reads := rfl
  armed _ := nofun
  resting _ := rfl
  upToDate _ before after h := by cases before <;> cases h

variable {o o' : Observer} {keep : Bool}

/-- `run` is called with no timer, and starts the read that is owed. -/
theorem inv_run (hreads : o.reads = if o.running then 1 else 0) (htimer : o.timer = none)
    (hlog : o.dirty = false → UpToDate o.log) : Inv (o.run keep) := by
  rw [Observer.run]
  split
  · next hnot =>
    refine ⟨hreads, fun _ => by rw [htimer]; nofun, fun ⟨hd, hr, hv, _⟩ => ?_, hlog⟩
    simpa [hd, hr, hv] using hnot
  · next hrun =>
    simp only [Bool.or_eq_true, not_or, Bool.not_eq_true] at hrun
    refine ⟨?_, fun _ => ?_, fun hrest => absurd hrest.2.1 nofun, fun _ => upToDate_read o.log⟩
    · simp [hreads, hrun.1.1.2]
    · simp [Observer.clearTimeout, htimer]

/-- A timer that is not going to fire has left no handle. -/
theorem timer_eq_none (harmed : o.timer ≠ some false) (hnot : o.timer ≠ some true) :
    o.timer = none := by
  rcases ht : o.timer with _ | _ | _
  · rfl
  · exact absurd ht harmed
  · exact absurd ht hnot

theorem inv_refresh (hreads : o.reads = if o.running then 1 else 0)
    (harmed : o.disposed = false → o.timer ≠ some false) : Inv (o.refresh keep) := by
  rw [Observer.refresh]
  split
  · next htimer => exact inv_run hreads (Option.isNone_iff_eq_none.mp htimer) nofun
  · next htimer =>
    refine ⟨hreads, harmed, fun ⟨hd, _, _, hnot⟩ => absurd ?_ htimer, nofun⟩
    exact Option.isNone_iff_eq_none.mpr (timer_eq_none (harmed hd) hnot)

theorem Inv.stop (h : Inv o) : Inv o.stop where
  reads := h.reads
  armed := nofun
  resting hrest := absurd hrest.1 nofun
  upToDate := h.upToDate

theorem inv_finally (hreads : o.reads = 1) (harmed : o.disposed = false → o.timer ≠ some false)
    (hlog : o.dirty = false → UpToDate o.log) : Inv (o.finally keep) := by
  have hdone : o.reads - 1 = 0 := by rw [hreads]
  rw [Observer.finally]
  dsimp only
  split
  · next hrun =>
    simp only [Bool.and_eq_true, Option.isNone_iff_eq_none] at hrun
    exact inv_run hdone hrun.2 hlog
  · next hnot =>
    refine ⟨hdone, harmed, fun ⟨hd, _, _, htimer⟩ => ?_, hlog⟩
    simpa [show o.disposed = false from hd, timer_eq_none (harmed hd) htimer] using hnot

theorem Inv.settled (h : Inv o) (hreads : o.reads ≠ 0) (outcome : Outcome) :
    Inv (o.settled keep outcome) := by
  have hone : o.reads = 1 := by
    have := h.reads
    split at this <;> omega
  cases outcome with
  | done => exact inv_finally hone h.armed h.upToDate
  | refused => exact @inv_finally o.stop keep hone nofun h.upToDate
  | failed =>
    rw [Observer.settled]
    split
    · exact inv_finally hone (fun _ => nofun) nofun
    · exact inv_finally hone h.armed h.upToDate

/-- **What one step preserves.** -/
theorem inv_step (h : Inv o) (hs : step o a = some o') : Inv o' := by
  rcases a with ⟨a, keep⟩
  cases a with
  | feed event =>
    obtain ⟨hd, rfl⟩ := Runs.of_guard_not hs
    cases event with
    | revoked => exact h.stop
    | lost => exact @inv_refresh { o.heard with aborted := true } keep h.reads h.armed
    | ready | changed =>
      exact @inv_refresh { o.heard.clearTimeout with timer := none } keep h.reads fun _ => nofun
  | refresh =>
    cases hs
    exact @inv_refresh o.heard keep h.reads h.armed
  | visibility hidden =>
    cases hs
    dsimp only
    split
    · next hnot =>
      refine ⟨h.reads, h.armed, fun ⟨hd, _, hv, _⟩ => absurd hnot ?_, h.upToDate⟩
      simpa using ⟨hd, hv⟩
    · exact @inv_refresh (Observer.heard { o with documentHidden := hidden }) keep h.reads h.armed
  | timer =>
    obtain ⟨-, rfl⟩ := Runs.of_guard hs
    exact inv_run h.reads rfl h.upToDate
  | settled outcome =>
    obtain ⟨hreads, rfl⟩ := Runs.of_guard_not hs
    exact h.settled hreads outcome
  | stop =>
    cases hs
    exact h.stop

/-- **The refresh loses no change.** In every run at most one read is in flight, and an observer
that rests has started a read after the last change it heard of. -/
theorem refresh_loses_nothing {documentHidden : Bool} {acts : List (Act × Bool)}
    (hrun : Runs.run step acts (init documentHidden) = some o) :
    o.reads ≤ 1 ∧ (o.Resting → UpToDate o.log) := by
  have h : Inv o := Runs.invariant (fun _ _ _ => inv_step) hrun (inv_init documentHidden)
  refine ⟨?_, fun hrest => h.upToDate (h.resting hrest)⟩
  rw [h.reads]
  split <;> decide

/-- A change that comes during a read. -/
theorem refresh_loses_nothing_during : ∃ o,
    Runs.run step [(.feed .ready, false), (.feed .changed, false), (.settled .done, false),
      (.settled .done, false)] (init false) = some o ∧ o.reads ≤ 1 ∧ UpToDate o.log :=
  have h := @refresh_loses_nothing _ false
    [(.feed .ready, false), (.feed .changed, false), (.settled .done, false),
      (.settled .done, false)] rfl
  ⟨_, rfl, h.1, h.2 ⟨rfl, rfl, rfl, nofun⟩⟩

end Bud.StateFeed
