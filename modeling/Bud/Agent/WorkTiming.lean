import Bud.Agent.InvocationSteps
import Bud.Agent.LeaseFencing

/-!
# How long an invocation has been worked on

`invocation-timing.ts`: an invocation has two columns for the time a worker has run it. While it
runs, `work_started_at` says since when; what was settled before is in `work_duration_ms`, in whole
milliseconds. Every `update` of `invocation-repository.ts` that changes the status sets both, with
one of three fragments of SQL, and a duration that cannot be told any more is null for good.

Next to the columns we keep what they are to say: the intervals in which the invocation has really
been running. Every update is one of four things (`Timekeeping`), and each of the four keeps the
columns true to the intervals.

## Modelling notes

`clock_timestamp()` is in microseconds, and each update reads it once more; nothing is said of how
it goes with the seconds of `Store.now`. A time that would be negative is `greatest(0, …)` in the
source, which is subtraction here.
-/

namespace Bud

namespace Invocation

open List Option

/-! ### The fragments -/

/-- `work_duration_ms` and `work_started_at`. -/
structure Timing where
  workDurationMs : Option ℕ
  workStartedAt : Option ℕ

/-- `settledWorkDurationSql`. -/
def settledWorkDuration (status : Status) (clock : ℕ) (timing : Timing) : Option ℕ :=
  timing.workDurationMs.bind fun duration =>
    match timing.workStartedAt with
    | some startedAt =>
      if status = .running then some (duration + (clock - startedAt) / 1000) else none
    | none => if status = .running then none else some duration

def settleWorkTiming (status : Status) (clock : ℕ) (timing : Timing) : Timing :=
  { workDurationMs := settledWorkDuration status clock timing
    workStartedAt := none }

def invalidateWorkTiming : Timing := { workDurationMs := none, workStartedAt := none }

def beginWorkTiming (clock : ℕ) (timing : Timing) : Timing :=
  { workDurationMs := if timing.workStartedAt.isSome then none else timing.workDurationMs
    workStartedAt := some clock }

/-- What a method writes of the timing of a row. -/
def Method.timing (row : Row) (choice : Choice) (clock : ℕ) (timing : Timing) : Method → Timing
  | .heartbeat _ | .recordAction _ => timing
  | .start _ => beginWorkTiming clock timing
  | .defer _ _ _ | .parkBrowserHandoff _ | .parkQuestion _ | .expireQueued | .recoverEnded =>
    settleWorkTiming row.status clock timing
  | .finish _ status _ =>
    if row.cancelRequestedAt = none ∧ (choice.pending ∨ status = .needsReview) then
      invalidateWorkTiming
    else settleWorkTiming row.status clock timing
  | .requestCancel _ =>
    if row.status = .running then timing else settleWorkTiming row.status clock timing
  | .abandonReviewed _ _ => invalidateWorkTiming
  | .recoverExpired =>
    if row.status = .running then invalidateWorkTiming
    else settleWorkTiming row.status clock timing

/-! ### What has been worked -/

/-- An invocation's timing, and the intervals in which it has been running. -/
structure Worked where
  timing : Timing
  runningSince : Option ℕ
  completed : List (ℕ × ℕ)

/-- What `admit` inserts. -/
def Worked.new : Worked := ⟨⟨some 0, none⟩, none, []⟩

/-- The intervals, floored to milliseconds and added up. -/
def Worked.total (w : Worked) : ℕ := (w.completed.map fun x => (x.2 - x.1) / 1000).sum

/-- The status changes. An interval begins when it becomes `running`, and is completed when it is
something else again. -/
def Worked.pass (w : Worked) (before after : Status) (clock : ℕ) (timing : Timing) : Worked :=
  match decide (before = .running), decide (after = .running) with
  | true, true | false, false => { w with timing := timing }
  | false, true => { w with timing := timing, runningSince := some clock }
  | true, false =>
    { timing := timing
      runningSince := none
      completed := w.completed ++ w.runningSince.toList.map fun since => (since, clock) }

variable {timing : Timing}

@[simp] theorem pass_timing {w : Worked} {before after : Status} {clock : ℕ} :
    (w.pass before after clock timing).timing = timing := by
  unfold Worked.pass
  split <;> rfl

/-- The columns agree with the intervals, and the intervals with the clock. -/
structure Worked.Intact (w : Worked) (status : Status) (clock : ℕ) : Prop where
  since : w.runningSince.isSome ↔ status = .running
  started : ∀ t, w.timing.workStartedAt = some t → w.runningSince = some t
  duration : ∀ d, w.timing.workDurationMs = some d → d = w.total
  running : ∀ t, w.runningSince = some t → t ≤ clock
  ordered : ∀ x ∈ w.completed, x.1 ≤ x.2 ∧ x.2 ≤ clock

theorem intact_new (clock : ℕ) : Worked.new.Intact .pending clock :=
  ⟨by decide, by simp [Worked.new], by simp [Worked.new, Worked.total], by simp [Worked.new],
    by simp [Worked.new]⟩

theorem Worked.Intact.mono {w : Worked} {clock clock' : ℕ} (h : w.Intact status clock)
    (hle : clock ≤ clock') : w.Intact status clock' where
  since := h.since
  started := h.started
  duration := h.duration
  running t ht := Nat.le_trans (h.running t ht) hle
  ordered x hx := ⟨(h.ordered x hx).1, Nat.le_trans (h.ordered x hx).2 hle⟩

/-! ### Timekeeping -/

/-- What an update does with the timing, by how it changes the status. -/
inductive Timekeeping (before after : Status) (clock : ℕ) (timing : Timing) : Timing → Prop
  | keep (h : before = .running ↔ after = .running) : Timekeeping before after clock timing timing
  | begin (hbefore : before ≠ .running) (hafter : after = .running) :
    Timekeeping before after clock timing (beginWorkTiming clock timing)
  | settle (hafter : after ≠ .running) :
    Timekeeping before after clock timing (settleWorkTiming before clock timing)
  | invalidate (h : after = .running → before = .running) :
    Timekeeping before after clock timing invalidateWorkTiming

theorem Timekeeping.null {before after : Status} {clock : ℕ}
    (h : Timekeeping before after clock timing timing') (hnull : timing.workDurationMs = none) :
    timing'.workDurationMs = none := by
  cases h with
  | keep => exact hnull
  | begin => simp [beginWorkTiming, hnull]
  | settle => simp [settleWorkTiming, settledWorkDuration, hnull]
  | invalidate => rfl

section

variable {w : Worked} {before after : Status} {clock clock' : ℕ} {timing : Timing}

theorem pass_of_running (hbefore : before = .running) (hafter : after = .running) :
    w.pass before after clock timing = { w with timing := timing } := by
  simp [Worked.pass, hbefore, hafter]

theorem pass_of_idle (hbefore : before ≠ .running) (hafter : after ≠ .running) :
    w.pass before after clock timing = { w with timing := timing } := by
  simp [Worked.pass, hbefore, hafter]

theorem pass_of_begin (hbefore : before ≠ .running) (hafter : after = .running) :
    w.pass before after clock timing =
      { w with timing := timing, runningSince := some clock } := by
  simp [Worked.pass, hbefore, hafter]

theorem pass_of_end (hbefore : before = .running) (hafter : after ≠ .running)
    (hsince : w.runningSince = some since) :
    w.pass before after clock timing = ⟨timing, none, w.completed ++ [(since, clock)]⟩ := by
  simp [Worked.pass, hbefore, hafter, hsince]

theorem Worked.Intact.not_since (h : w.Intact before clock) (hbefore : before ≠ .running) :
    w.runningSince = none := by
  rw [← not_isSome_iff_eq_none, h.since]
  exact hbefore

theorem Worked.Intact.not_started (h : w.Intact before clock) (hbefore : before ≠ .running) :
    w.timing.workStartedAt = none := by
  by_contra hstarted
  obtain ⟨t, ht⟩ := ne_none_iff_exists'.mp hstarted
  have hsince := h.started t ht
  rw [h.not_since hbefore] at hsince
  cases hsince

theorem total_append {next : Option ℕ} :
    (⟨timing, next, completed ++ [(since, clock)]⟩ : Worked).total =
      (completed.map fun x => (x.2 - x.1) / 1000).sum + (clock - since) / 1000 := by
  simp [Worked.total]

/-- The status is as it was, as far as running goes. -/
theorem Worked.Intact.keep (h : w.Intact before clock) (hle : clock ≤ clock')
    (hrunning : before = .running ↔ after = .running) :
    (w.pass before after clock' w.timing).Intact after clock' := by
  have hsame : w.pass before after clock' w.timing = w := by
    by_cases hbefore : before = .running
    · exact pass_of_running hbefore (hrunning.mp hbefore)
    · exact pass_of_idle hbefore fun hafter => hbefore (hrunning.mpr hafter)
  rw [hsame]
  exact { h.mono hle with since := h.since.trans hrunning }

theorem Worked.Intact.begin (h : w.Intact before clock) (hle : clock ≤ clock')
    (hbefore : before ≠ .running) (hafter : after = .running) :
    (w.pass before after clock' (beginWorkTiming clock' w.timing)).Intact after clock' := by
  rw [pass_of_begin hbefore hafter]
  refine ⟨by simp [hafter], ?_, ?_, ?_, (h.mono hle).ordered⟩
  · exact fun t ht => ht
  · intro d hd
    rw [beginWorkTiming, h.not_started hbefore] at hd
    exact h.duration d hd
  · rintro t ⟨⟩
    exact Nat.le_refl _

/-- The interval that is completed is the one the columns have measured. -/
theorem Worked.Intact.settle (h : w.Intact before clock) (hle : clock ≤ clock')
    (hafter : after ≠ .running) :
    (w.pass before after clock' (settleWorkTiming before clock' w.timing)).Intact after clock' := by
  by_cases hbefore : before = .running
  · obtain ⟨since, hsince⟩ := isSome_iff_exists.mp (h.since.mpr hbefore)
    rw [pass_of_end hbefore hafter hsince]
    refine ⟨by simp [hafter], fun t ht => (by cases ht), ?_, fun t ht => (by cases ht), ?_⟩
    · intro d hd
      obtain ⟨duration, hduration, hsettled⟩ := bind_eq_some_iff.mp hd
      rw [total_append]
      cases hstarted : w.timing.workStartedAt with
      | none =>
        rw [hstarted, if_pos hbefore] at hsettled
        cases hsettled
      | some startedAt =>
        obtain rfl : startedAt = since :=
          some.inj ((h.started _ hstarted).symm.trans hsince)
        simp only [hstarted, hbefore, if_true, some.injEq] at hsettled
        rw [← hsettled, h.duration duration hduration, Worked.total]
    · intro x hx
      rcases mem_append.mp hx with hx | hx
      · exact (h.mono hle).ordered x hx
      · obtain rfl := mem_singleton.mp hx
        exact ⟨Nat.le_trans (h.running since hsince) hle, Nat.le_refl _⟩
  · rw [pass_of_idle hbefore hafter]
    refine ⟨?_, fun t ht => (by cases ht), ?_, (h.mono hle).running, (h.mono hle).ordered⟩
    · rw [h.not_since hbefore]
      simp [hafter]
    · intro d hd
      obtain ⟨duration, hduration, hsettled⟩ := bind_eq_some_iff.mp hd
      rw [h.not_started hbefore, if_neg hbefore] at hsettled
      exact h.duration d (hduration.trans hsettled)

theorem Worked.Intact.invalidate (h : w.Intact before clock) (hle : clock ≤ clock')
    (hrunning : after = .running → before = .running) :
    (w.pass before after clock' invalidateWorkTiming).Intact after clock' := by
  by_cases hbefore : before = .running
  · by_cases hafter : after = .running
    · rw [pass_of_running hbefore hafter]
      refine ⟨?_, fun t ht => (by cases ht), fun d hd => (by cases hd), (h.mono hle).running,
        (h.mono hle).ordered⟩
      rw [h.since, hbefore, hafter]
    · obtain ⟨since, hsince⟩ := isSome_iff_exists.mp (h.since.mpr hbefore)
      rw [pass_of_end hbefore hafter hsince]
      refine ⟨by simp [hafter], fun t ht => (by cases ht), fun d hd => (by cases hd),
        fun t ht => (by cases ht), fun x hx => ?_⟩
      rcases mem_append.mp hx with hx | hx
      · exact (h.mono hle).ordered x hx
      · obtain rfl := mem_singleton.mp hx
        exact ⟨Nat.le_trans (h.running since hsince) hle, Nat.le_refl _⟩
  · have hafter : after ≠ .running := fun hafter => hbefore (hrunning hafter)
    rw [pass_of_idle hbefore hafter]
    refine ⟨?_, fun t ht => (by cases ht), fun d hd => (by cases hd), (h.mono hle).running,
      (h.mono hle).ordered⟩
    rw [h.not_since hbefore]
    simp [hafter]

/-- **What every update keeps.** -/
theorem Timekeeping.intact {timing' : Timing}
    (h : Timekeeping before after clock' w.timing timing') (hw : w.Intact before clock)
    (hle : clock ≤ clock') : (w.pass before after clock' timing').Intact after clock' := by
  cases h with
  | keep hrunning => exact hw.keep hle hrunning
  | begin hbefore hafter => exact hw.begin hle hbefore hafter
  | settle hafter => exact hw.settle hle hafter
  | invalidate hrunning => exact hw.invalidate hle hrunning

end

/-- A method that writes keeps the time in one of the four ways. -/
theorem Method.timekeeping {identity : Identity} {row : Row} {choice : Choice} {clock : ℕ}
    {method : Method} (h : method.next identity row choice = .write) :
    Timekeeping row.status (method.update row row choice).status clock timing
      (method.timing row choice clock timing) := by
  cases method with
  | heartbeat | recordAction => exact .keep Iff.rfl
  | start =>
    have hstatus := mem_singleton.mp (lockedLease_eq_write h).1
    exact .begin (by rw [hstatus]; decide) rfl
  | defer _ status =>
    refine .settle ?_
    cases status <;> exact Status.noConfusion
  | parkBrowserHandoff | parkQuestion | expireQueued | recoverEnded =>
    exact .settle Status.noConfusion
  | finish lease status outcomeCode =>
    have hafter :
        (Method.update row row choice (.finish lease status outcomeCode)).status ≠ .running := by
      simp only [Method.update]
      split_ifs
      · decide
      · decide
      · cases status <;> decide
    simp only [Method.timing]
    split_ifs
    · exact .invalidate fun hrunning => absurd hrunning hafter
    · exact .settle hafter
  | requestCancel =>
    by_cases hrunning : row.status = .running
    · simp only [Method.timing, Method.update, if_pos hrunning]
      exact .keep Iff.rfl
    · simp only [Method.timing, Method.update, if_neg hrunning]
      exact .settle (by decide)
  | abandonReviewed => exact .invalidate fun hrunning => (by cases hrunning)
  | recoverExpired =>
    have hafter : (Method.update row row choice .recoverExpired).status ≠ .running := by
      simp only [Method.update]
      split_ifs <;> decide
    simp only [Method.timing]
    split_ifs
    · exact .invalidate fun hrunning => absurd hrunning hafter
    · exact .settle hafter

end Invocation

namespace Repository

open Invocation Transaction Relation

variable {cap : ℕ} {act : Act}

/-! ### The repository, with its timing -/

/-- The repository, what its invocations have been worked, and the clock that was read last. -/
structure Timed where
  store : Store
  worked : List Worked
  clock : ℕ

def Timed.empty (now clock : ℕ) (tables : Outside) : Timed := ⟨Store.empty now tables, [], clock⟩

/-- An `update` of one row, and of its timing. -/
def Timed.setRow (T : Timed) (id : ℕ) (entry : Entry) (update : Row → Row) (clock : ℕ)
    (timing : Timing → Timing) : Timed :=
  { store := T.store.setRow id update
    worked := T.worked.modify id fun w =>
      w.pass entry.row.status (update entry.row).status clock (timing w.timing)
    clock := clock }

variable (cap act) in
/-- One write of an act, with what it makes of the timing at a reading of the clock. -/
inductive TimedWrite (T : Timed) (clock : ℕ) : Timed → Prop
  | method {id : ℕ} {entry : Entry} {method : Method}
      (happlies : act.Applies id entry.row.status method)
      (hentry : T.store.invocations[id]? = some entry)
      (hnext : method.next entry.identity entry.row (T.store.choice id entry.identity) = .write)
      (hclock : T.clock ≤ clock) :
      TimedWrite T clock (T.setRow id entry
        (fun row => method.update entry.row row (T.store.choice id entry.identity)) clock
        fun timing => method.timing entry.row (T.store.choice id entry.identity) clock timing)
  /-- `claim` sets no timing when it leases. -/
  | lease {workerId : String} {id : ℕ} {acquired : Bool} {entry : Entry}
      (hact : act = .claim workerId id acquired)
      (hentry : T.store.invocations[id]? = some entry)
      (hclaimable : T.store.claimable cap id entry = true) (hclock : T.clock ≤ clock) :
      TimedWrite T clock (T.setRow id entry (fun _ => entry.row.leasedTo workerId T.store.now) clock
        fun timing => timing)
  | elapse {workerId : String} {id : ℕ} {acquired : Bool} {entry : Entry}
      (hact : act = .claim workerId id acquired)
      (hentry : T.store.invocations[id]? = some entry)
      (hclaimable : T.store.claimable cap id entry = true)
      (hstatus : entry.row.status ≠ .waitingForUser) (hclock : T.clock ≤ clock) :
      TimedWrite T clock (T.setRow id entry (fun row => row.startElapsed T.store.now) clock
        fun timing => settleWorkTiming entry.row.status clock timing)
  | superseded {input : Admission} {generatedClientId outcomeCode : String} {id : ℕ}
      (hact : act = .admission input generatedClientId) :
      TimedWrite T clock { T with
        store := T.store.setRow id fun row => { row with outcomeCode := some outcomeCode } }
  | insert {input : Admission} {generatedClientId : String} {entry : Entry}
      (hact : act = .admission input generatedClientId) (hrow : entry.row = Row.new T.store.now) :
      TimedWrite T clock { T with
        store := { T.store with invocations := T.store.invocations ++ [entry] }
        worked := T.worked ++ [Worked.new] }
  /-- A write of another table, or of the clock. -/
  | other {t : Store} (hwrite : Write cap act T.store t)
      (hrows : t.invocations = T.store.invocations) : TimedWrite T clock { T with store := t }

/-- A step of the repository, write by write, each at a reading of its own. -/
structure TimedStep (cap : ℕ) (act : Act) (T T' : Timed) : Prop where
  step : step cap T.store act = some T'.store
  writes : ReflTransGen (fun T T' => ∃ clock, TimedWrite cap act T clock T') T T'

/-- A step whose writes all read the clock at `clock`. -/
structure TimedStepAt (cap : ℕ) (act : Act) (clock : ℕ) (T T' : Timed) : Prop where
  step : Repository.step cap T.store act = some T'.store
  writes : ReflTransGen (fun T T' => TimedWrite cap act T clock T') T T'

/-- The rows that `invalidateInterruptedTiming` updates. -/
def interrupted (now : ℕ) (row : Row) (timing : Timing) : Bool :=
  timing.workStartedAt.isSome &&
    (row.status ≠ .running || row.leaseExpiresAt.all (· ≤ now))

/-- What the service does when it starts. -/
def Timed.invalidateInterruptedTiming (T : Timed) : Timed :=
  { T with
    worked := T.worked.mapIdx fun id w =>
      if T.store.invocations[id]?.any fun entry => interrupted T.store.now entry.row w.timing then
        { w with timing := invalidateWorkTiming }
      else w }

variable (cap) in
inductive TimedRun (T : Timed) : Timed → Prop
  | refl : TimedRun T T
  | step {T' T'' : Timed} {act : Act} (hrun : TimedRun T T') (hstep : TimedStep cap act T' T'') :
    TimedRun T T''
  | interrupted {T' : Timed} (hrun : TimedRun T T') : TimedRun T T'.invalidateInterruptedTiming

variable (cap) in
/-- A run of the repository, act by act, with the reading that each act takes of the clock. -/
inductive TimedRunAt : Timed → List (Act × ℕ) → Timed → Prop
  | nil (T : Timed) : TimedRunAt T [] T
  | cons {T T' T'' : Timed} {act : Act} {clock : ℕ} {readings : List (Act × ℕ)}
      (hstep : TimedStepAt cap act clock T T') (hrun : TimedRunAt T' readings T'') :
      TimedRunAt T ((act, clock) :: readings) T''

/-! ### Every run has its timing -/

variable {T T' : Timed} {id clock : ℕ} {entry : Entry} {update : Row → Row}

theorem TimedStepAt.timedStep (h : TimedStepAt cap act clock T T') : TimedStep cap act T T' :=
  ⟨h.step, ReflTransGen.mono (fun _ _ hwrite => ⟨clock, hwrite⟩) _ _ h.writes⟩

theorem TimedRunAt.timedRun {T₀ : Timed} {readings : List (Act × ℕ)}
    (h : TimedRunAt cap T readings T') (hrun : TimedRun cap T₀ T) : TimedRun cap T₀ T' := by
  induction h with
  | nil => exact hrun
  | cons hstep _ ih => exact ih (hrun.step hstep.timedStep)

/-- A write without timing leaves the clock where it was last read. -/
theorem Write.timed (h : Write cap act T.store t) (hclock : T.clock ≤ clock) :
    ∃ T', TimedWrite cap act T clock T' ∧ T'.store = t ∧ T'.clock ≤ clock := by
  cases h with
  | method happlies hentry hnext =>
    exact ⟨_, .method happlies hentry hnext hclock, rfl, Nat.le_refl _⟩
  | lease hact hentry hclaimable =>
    exact ⟨_, .lease hact hentry hclaimable hclock, rfl, Nat.le_refl _⟩
  | elapse hact hentry hclaimable hstatus =>
    exact ⟨_, .elapse hact hentry hclaimable hstatus hclock, rfl, Nat.le_refl _⟩
  | superseded hact => exact ⟨_, .superseded hact, rfl, hclock⟩
  | insert hact hrow => exact ⟨_, .insert hact hrow, rfl, hclock⟩
  | record hentry hstatus hnew =>
    exact ⟨_, .other (.record hentry hstatus hnew) rfl, rfl, hclock⟩
  | actions hkey hpending => exact ⟨_, .other (.actions hkey hpending) rfl, rfl, hclock⟩
  | tables tables => exact ⟨_, .other (.tables tables) rfl, rfl, hclock⟩
  | tick seconds => exact ⟨_, .other (.tick seconds) rfl, rfl, hclock⟩

/-- **Every step of the repository has its timing**, at any reading from the last one on. -/
theorem exists_timedStepAt (h : Repository.step cap T.store act = some t)
    (hclock : T.clock ≤ clock) :
    ∃ T', TimedStepAt cap act clock T T' ∧ T'.store = t ∧ T'.clock ≤ clock := by
  have hwrites : ∀ {u : Store}, ReflTransGen (Write cap act) T.store u →
      ∃ T', ReflTransGen (fun T T' => TimedWrite cap act T clock T') T T' ∧
        T'.store = u ∧ T'.clock ≤ clock := by
    intro u hu
    induction hu with
    | refl => exact ⟨T, .refl, rfl, hclock⟩
    | tail _ hwrite ih =>
      obtain ⟨T', hT', rfl, hclock'⟩ := ih
      obtain ⟨T'', hwrite, hstore, hclock''⟩ := hwrite.timed hclock'
      exact ⟨T'', hT'.tail hwrite, hstore, hclock''⟩
  obtain ⟨T', hT', hstore, hclock'⟩ := hwrites (writes_of_step h)
  exact ⟨T', ⟨by rw [hstore]; exact h, hT'⟩, hstore, hclock'⟩

/-- The run of the readings that are left, each of them no less than the clock. -/
theorem exists_timedRunAt {s : Store} {readings : List (Act × ℕ)}
    (hrun : Runs.run (step cap) (readings.map Prod.fst) T.store = some s)
    (hsorted : (readings.map Prod.snd).Pairwise (· ≤ ·))
    (hclock : ∀ clock ∈ readings.map Prod.snd, T.clock ≤ clock) :
    ∃ T', TimedRunAt cap T readings T' ∧ T'.store = s := by
  induction readings generalizing T with
  | nil => exact ⟨T, .nil T, Option.some.inj hrun⟩
  | cons reading readings ih =>
    obtain ⟨act, clock⟩ := reading
    obtain ⟨t, hstep, hrest⟩ := Runs.run_cons_eq_some.mp hrun
    obtain ⟨hle, hsorted⟩ := List.pairwise_cons.mp hsorted
    obtain ⟨T', hT', rfl, hclock'⟩ := exists_timedStepAt hstep (hclock clock (by simp))
    obtain ⟨T'', hT'', hstore⟩ := ih hrest hsorted fun c hc => hclock'.trans (hle c hc)
    exact ⟨T'', .cons hT' hT'', hstore⟩

/-- **Every run of the repository has its timing**, act by act, whatever the acts read of a clock
that does not go back. -/
theorem exists_timedRun {now clock : ℕ} {tables : Outside} {s : Store}
    {readings : List (Act × ℕ)}
    (hrun : Runs.run (step cap) (readings.map Prod.fst) (Store.empty now tables) = some s)
    (hsorted : (clock :: readings.map Prod.snd).Pairwise (· ≤ ·)) :
    ∃ T, TimedRunAt cap (Timed.empty now clock tables) readings T ∧ T.store = s ∧
      TimedRun cap (Timed.empty now clock tables) T := by
  obtain ⟨hclock, hsorted⟩ := List.pairwise_cons.mp hsorted
  obtain ⟨T, hT, hstore⟩ := exists_timedRunAt (T := Timed.empty now clock tables) hrun hsorted
    hclock
  exact ⟨T, hT, hstore, hT.timedRun .refl⟩

/-! ### Runs -/

/-- What every write keeps, and a start of the service, a run keeps. -/
theorem TimedRun.invariant {P : Timed → Prop} (h : TimedRun cap T T')
    (hwrite : ∀ {act : Act} {clock : ℕ} {U U' : Timed}, TimedWrite cap act U clock U' → P U → P U')
    (hinterrupted : ∀ {U : Timed}, P U → P U.invalidateInterruptedTiming) (hT : P T) : P T' := by
  induction h with
  | refl => exact hT
  | step _ hstep ih =>
    have hwrites := hstep.writes
    clear hstep
    induction hwrites with
    | refl => exact ih
    | tail _ hnext ih =>
      obtain ⟨_, hnext⟩ := hnext
      exact hwrite hnext ih
  | interrupted _ ih => exact hinterrupted ih

/-- Every invocation has its timing, and it is right. -/
structure Timed.Right (T : Timed) : Prop where
  length : T.worked.length = T.store.invocations.length
  intact : ∀ (id : ℕ) (entry : Entry) (w : Worked), T.store.invocations[id]? = some entry →
    T.worked[id]? = some w → w.Intact entry.row.status T.clock

theorem Timed.Right.setRow {clock : ℕ} {timing : Timing → Timing} (h : T.Right)
    (hentry : T.store.invocations[id]? = some entry)
    (hkeep : ∀ timing', Timekeeping entry.row.status (update entry.row).status clock timing' (timing
      timing')) (hclock : T.clock ≤ clock) : (T.setRow id entry update clock timing).Right := by
  constructor
  · simpa [Timed.setRow, Store.setRow] using h.length
  · intro other entry' w' hentry' hw'
    by_cases heq : id = other
    · subst heq
      obtain ⟨w, hw, rfl⟩ : ∃ w, T.worked[id]? = some w ∧
          w.pass entry.row.status (update entry.row).status clock (timing w.timing) = w' := by
        simpa [Timed.setRow] using hw'
      obtain rfl := Option.some.inj ((setRow_getElem? hentry).symm.trans hentry')
      exact (hkeep w.timing).intact (h.intact id entry w hentry hw) hclock
    · have hentry' : T.store.invocations[other]? = some entry' :=
        (setRow_ne heq).symm.trans hentry'
      have hw' : T.worked[other]? = some w' := by simpa [Timed.setRow, heq] using hw'
      exact (h.intact other entry' w' hentry' hw').mono hclock

theorem leased_timekeeping {s : Store} {clock : ℕ} {workerId : String}
    (h : s.claimable cap id entry = true) :
    Timekeeping entry.row.status (entry.row.leasedTo workerId s.now).status clock timing
      timing := by
  have hstatus := status_of_claimable h
  refine .keep ⟨fun hrunning => ?_, fun hrunning => (by cases hrunning)⟩
  simp [hrunning, queued] at hstatus

theorem status_setRow {s : Store} {other : ℕ} {entry' : Entry}
    (hentry : (s.setRow id update).invocations[other]? = some entry')
    (hstatus : ∀ row, (update row).status = row.status) :
    ∃ entry, s.invocations[other]? = some entry ∧ entry'.row.status = entry.row.status := by
  by_cases heq : id = other
  · subst heq
    obtain ⟨entry, hfound, rfl⟩ : ∃ entry, s.invocations[id]? = some entry ∧
        { entry with row := update entry.row } = entry' := by
      simpa [Store.setRow] using hentry
    exact ⟨entry, hfound, hstatus entry.row⟩
  · exact ⟨entry', (setRow_ne heq).symm.trans hentry, rfl⟩

theorem TimedWrite.right (h : TimedWrite cap act T clock T') (hT : T.Right) : T'.Right := by
  cases h with
  | method happlies hentry hnext hclock =>
    exact hT.setRow hentry (fun _ => Method.timekeeping hnext) hclock
  | lease hact hentry hclaimable hclock =>
    exact hT.setRow hentry (fun _ => leased_timekeeping hclaimable) hclock
  | elapse hact hentry hclaimable hstatus hclock =>
    exact hT.setRow hentry (fun _ => .settle Status.noConfusion) hclock
  | superseded hact =>
    refine ⟨by simpa [Store.setRow] using hT.length, fun id entry' w hentry' hw => ?_⟩
    obtain ⟨entry, hentry, hstatus⟩ := status_setRow hentry' fun _ => rfl
    rw [hstatus]
    exact hT.intact id entry w hentry hw
  | insert hact hrow =>
    refine ⟨by simpa using hT.length, fun id entry w hentry hw => ?_⟩
    by_cases hlt : id < T.worked.length
    · rw [List.getElem?_append_left hlt] at hw
      rw [List.getElem?_append_left (hT.length ▸ hlt)] at hentry
      exact hT.intact id entry w hentry hw
    · rw [List.getElem?_append_right (Nat.not_lt.mp hlt)] at hw
      rw [List.getElem?_append_right (hT.length ▸ Nat.not_lt.mp hlt)] at hentry
      obtain rfl := List.mem_singleton.mp (List.mem_of_getElem? hw)
      obtain rfl := List.mem_singleton.mp (List.mem_of_getElem? hentry)
      rw [hrow]
      exact intact_new _
  | other hwrite hrows =>
    refine ⟨by rw [hrows]; exact hT.length, fun id entry w hentry hw => ?_⟩
    exact hT.intact id entry w (hrows ▸ hentry) hw

/-- An invocation that the service finds interrupted keeps its status. -/
theorem right_invalidateInterruptedTiming (hT : T.Right) : T.invalidateInterruptedTiming.Right := by
  refine ⟨by simpa [Timed.invalidateInterruptedTiming] using hT.length,
    fun id entry w' hentry hw' => ?_⟩
  obtain ⟨w, hw, hw'⟩ : ∃ w, T.worked[id]? = some w ∧
      (if T.store.invocations[id]?.any fun entry =>
          interrupted T.store.now entry.row w.timing then
        { w with timing := invalidateWorkTiming }
      else w) = w' := by
    simpa [Timed.invalidateInterruptedTiming] using hw'
  have hintact := hT.intact id entry w hentry hw
  split at hw'
  · subst hw'
    exact { hintact with started := fun t ht => (by cases ht), duration := fun d hd => (by cases hd)
        }
  · subst hw'
    exact hintact

theorem TimedRun.right (h : TimedRun cap T T') (hT : T.Right) : T'.Right :=
  h.invariant (fun hwrite => hwrite.right) right_invalidateInterruptedTiming hT

theorem right_empty (now clock : ℕ) (tables : Outside) : (Timed.empty now clock tables).Right :=
  ⟨rfl, fun id entry w hentry => by simp [Timed.empty, Store.empty] at hentry⟩

/-! ### Durations that are null -/

/-- The invocation's duration is null. -/
def Timed.Untold (T : Timed) (id : ℕ) : Prop :=
  ∃ w, T.worked[id]? = some w ∧ w.timing.workDurationMs = none

theorem Timed.Untold.setRow {other clock : ℕ} {timing : Timing → Timing} (h : T.Untold id)
    (hkeep : ∀ timing', Timekeeping entry.row.status (update entry.row).status clock timing' (timing
      timing')) : (T.setRow other entry update clock timing).Untold id := by
  obtain ⟨w, hw, hnull⟩ := h
  by_cases heq : other = id
  · subst heq
    refine ⟨_, by rw [Timed.setRow, List.getElem?_modify_eq, hw]; rfl, ?_⟩
    rw [pass_timing]
    exact (hkeep w.timing).null hnull
  · exact ⟨w, by simp [Timed.setRow, heq, hw], hnull⟩

theorem TimedWrite.untold (h : TimedWrite cap act T clock T') (hT : T.Untold id) :
    T'.Untold id := by
  cases h with
  | method happlies hentry hnext => exact hT.setRow fun _ => Method.timekeeping hnext
  | lease hact hentry hclaimable => exact hT.setRow fun _ => leased_timekeeping hclaimable
  | elapse => exact hT.setRow fun _ => .settle Status.noConfusion
  | superseded | other => exact hT
  | insert =>
    obtain ⟨w, hw, hnull⟩ := hT
    have hlt : id < T.worked.length := (List.getElem?_eq_some_iff.mp hw).1
    exact ⟨w, by rw [List.getElem?_append_left hlt, hw], hnull⟩

theorem untold_invalidateInterruptedTiming (hT : T.Untold id) :
    T.invalidateInterruptedTiming.Untold id := by
  obtain ⟨w, hw, hnull⟩ := hT
  simp only [Timed.Untold, Timed.invalidateInterruptedTiming, List.getElem?_mapIdx, hw,
    Option.map_some, Option.some.injEq, exists_eq_left']
  split
  · rfl
  · exact hnull

theorem TimedRun.untold (h : TimedRun cap T T') (hT : T.Untold id) : T'.Untold id :=
  h.invariant (fun hwrite => hwrite.untold) untold_invalidateInterruptedTiming hT

/-! ### Work timing -/

/-- **The columns are right.** In every state of every run each invocation has its timing:
`work_started_at` is null unless the invocation is running, and the duration of one that is not is
null or what its completed intervals add up to, in whole milliseconds each. Once it is null it stays
so. -/
theorem work_timing {now clock : ℕ} {tables : Outside} {T : Timed}
    (hrun : TimedRun cap (Timed.empty now clock tables) T) :
    (∀ (id : ℕ) (entry : Entry), T.store.invocations[id]? = some entry →
      ∃ w : Worked, T.worked[id]? = some w ∧
      (w.timing.workStartedAt ≠ none → entry.row.status = .running) ∧
      (w.runningSince.isSome ↔ entry.row.status = .running) ∧
      (∀ x ∈ w.completed, x.1 ≤ x.2 ∧ x.2 ≤ T.clock) ∧
      (entry.row.status ≠ .running → ∀ duration, w.timing.workDurationMs = some duration →
        duration = (w.completed.map fun x => (x.2 - x.1) / 1000).sum)) ∧
    ∀ T', TimedRun cap T T' → ∀ (id : ℕ) (w : Worked), T.worked[id]? = some w →
      w.timing.workDurationMs = none →
      ∃ w' : Worked, T'.worked[id]? = some w' ∧ w'.timing.workDurationMs = none := by
  have hright := hrun.right (right_empty now clock tables)
  refine ⟨fun id entry hentry => ?_, fun T' hrun' id w hw hnull => hrun'.untold ⟨w, hw, hnull⟩⟩
  have hlt : id < T.worked.length := by
    rw [hright.length]
    exact (List.getElem?_eq_some_iff.mp hentry).1
  have hw : T.worked[id]? = some T.worked[id] := List.getElem?_eq_getElem hlt
  have hintact := hright.intact id entry _ hentry hw
  refine ⟨_, hw, fun hstarted => ?_, hintact.since, hintact.ordered, fun _ => hintact.duration⟩
  obtain ⟨t, ht⟩ := Option.ne_none_iff_exists'.mp hstarted
  exact hintact.since.mp (by rw [hintact.started t ht]; rfl)

/-! ### An example -/

def exampleEntry (row : Row) : Entry :=
  { admission := { exampleAdmission with clientId := some "c" }
    identity := ⟨"t", "b", .human, "o", none⟩
    row := row }

def exampleTimed (row : Row) (w : Worked) (clock : ℕ) : Timed :=
  { store := { Store.empty 0 exampleTables with invocations := [exampleEntry row] }
    worked := [w]
    clock := clock }

/-- A turn that runs for a little less than 1235 milliseconds. -/
theorem work_timing_finished :
    ∃ T, TimedRun 1 (Timed.empty 0 0 exampleTables) T ∧
      T.store.invocations.map (·.row.status) = [.succeeded] ∧
      T.worked = [⟨⟨some 1234, none⟩, none, [(5000, 1239999)]⟩] ∧
      ∃ w : Worked, T.worked[0]? = some w ∧
        1234 = (w.completed.map fun x => (x.2 - x.1) / 1000).sum := by
  let leased := (Row.new 0).leasedTo "w" 0
  let running := { leased with status := .running }
  let succeeded := { running.released with
    status := .succeeded, reservesThread := false, outcomeCode := some "done" }
  let begun : Worked := ⟨⟨some 0, some 5000⟩, some 5000, []⟩
  let ended : Worked := ⟨⟨some 1234, none⟩, none, [(5000, 1239999)]⟩
  have hadmit : TimedStep 1 (.admission exampleAdmission "c") (Timed.empty 0 0 exampleTables)
      (exampleTimed (Row.new 0) Worked.new 0) :=
    ⟨by decide +kernel, .single ⟨0, .insert rfl rfl⟩⟩
  have hclaim : TimedStep 1 (.claim "w" 0 true) (exampleTimed (Row.new 0) Worked.new 0)
      (exampleTimed leased Worked.new 0) :=
    ⟨by decide +kernel, .single ⟨0, @TimedWrite.lease 1 _ _ 0 "w" 0 true (exampleEntry (Row.new 0))
      rfl rfl (by decide) (Nat.le_refl 0)⟩⟩
  have hstart : TimedStep 1 (.start exampleLease none) (exampleTimed leased Worked.new 0)
      (exampleTimed running begun 5000) :=
    ⟨by decide +kernel, .single ⟨5000, @TimedWrite.method 1 _ _ 5000 0 (exampleEntry leased)
      (.start exampleLease) ⟨rfl, rfl⟩ rfl (by decide) (Nat.zero_le 5000)⟩⟩
  have hfinish : TimedStep 1 (.finish exampleLease .succeeded "done")
      (exampleTimed running begun 5000) (exampleTimed succeeded ended 1239999) :=
    ⟨by decide +kernel, .single ⟨1239999, @TimedWrite.method 1 _ _ 1239999 0 (exampleEntry running)
      (.finish exampleLease .succeeded "done") ⟨rfl, rfl⟩ rfl (by decide) (by decide)⟩⟩
  have hrun := (((TimedRun.refl.step hadmit).step hclaim).step hstart).step hfinish
  refine ⟨_, hrun, rfl, rfl, ?_⟩
  obtain ⟨w, hw, -, -, -, hsum⟩ := (work_timing hrun).1 0 _ rfl
  exact ⟨w, hw, hsum (by decide) 1234 (by obtain rfl := Option.some.inj hw; rfl)⟩

/-- The turn of `work_timing_finished`, admitted, leased, started and finished at four readings. -/
theorem exists_timedRun_finished : ∃ T,
    TimedRunAt 1 (Timed.empty 0 0 exampleTables)
      [(.admission exampleAdmission "c", 0), (.claim "w" 0 true, 0),
        (.start exampleLease none, 5000),
        (.finish exampleLease .succeeded "done", 1239999)] T ∧
    T.store.invocations.map (·.row.status) = [.succeeded] ∧
    TimedRun 1 (Timed.empty 0 0 exampleTables) T := by
  let succeeded := { { (Row.new 0).leasedTo "w" 0 with status := .running }.released with
    status := .succeeded, reservesThread := false, outcomeCode := some "done" }
  obtain ⟨T, hT, hstore, hrun⟩ := @exists_timedRun 1 0 0 exampleTables
    (exampleTimed succeeded Worked.new 0).store
    [(.admission exampleAdmission "c", 0), (.claim "w" 0 true, 0),
      (.start exampleLease none, 5000), (.finish exampleLease .succeeded "done", 1239999)]
    (by decide +kernel) (by decide)
  exact ⟨T, hT, by rw [hstore]; rfl, hrun⟩

end Repository

end Bud
