import Bud.Proxy.DaemonState

/-!
# Tasks on the rows of one request

Everything that ends a request starts a task that records the end in its rows. The tasks interleave
with one another and with what the handler itself records, so whether a row really ends depends on
what each task still has to do and on how far the row may have come by then.

A row is *covered* when it has ended or some task is sure to end it. Some tasks are not sure of it
by themselves: the rejection of an operation that is still `offered` comes to nothing once the
operation has been accepted. `Lands` allows for that: the row is covered, or it is still fresh and
about to be closed. Nothing but the handler, and tasks that cover it by themselves, opens a row.
-/

namespace Bud.Proxy

open Settling List

/-! ### Tasks -/

/-- The rows of a request, and the updates its tasks have yet to make. -/
structure Desk where
  rows : Rows
  tasks : List (List Update)

def Desk.start (d : Desk) (task : List Update) : Desk := { d with tasks := d.tasks ++ [task] }

/-- The handler makes an update of its own. -/
def Desk.update (d : Desk) (u : Update) : Desk := { d with rows := d.rows.update u }

/-- Task `k` makes its next update, or is done. -/
def Desk.runTask (d : Desk) (k : ℕ) : Option Desk :=
  match d.tasks[k]? with
  | none => none
  | some [] => some { d with tasks := d.tasks.eraseIdx k }
  | some (u :: us) =>
    some
      { rows := d.rows.update u
        tasks := d.tasks.set k us }

def Desk.markOperationUnknown (d : Desk) : Desk := { d with rows := d.rows.markOperationUnknown }

def Desk.markStreamUnknown (d : Desk) : Desk := { d with rows := d.rows.markStreamUnknown }

/-! ### Rows that are sure to end -/

/-- Which of the two rows. -/
inductive Row where
  | operation
  | stream

def Row.Ended : Row → Rows → Prop
  | .operation, rows => rows.operation.Ended
  | .stream, rows => rows.stream.Ended

/-- The row is still what it was inserted as. -/
def Row.Fresh : Row → Rows → Prop
  | .operation, rows => rows.operation = .offered
  | .stream, rows => rows.stream = .opening

/-- The update may take a fresh row further without ending it. -/
def Row.OpenedBy : Row → Update → Prop
  | .operation, .operation _ target => target = .accepted
  | .stream, .stream _ target => target = .opened
  | _, _ => False

instance : ∀ (r : Row) (u : Update), Decidable (r.OpenedBy u)
  | .operation, .operation _ target => inferInstanceAs (Decidable (target = .accepted))
  | .stream, .stream _ target => inferInstanceAs (Decidable (target = .opened))
  | .operation, .stream _ _ | .stream, .operation _ _ => inferInstanceAs (Decidable False)

/-- The rejection of an operation that is still offered. -/
def reject : Update := .operation [.offered] .rejected

def resetOpening : Update := .stream [.opening] .reset

/-- What ends a row that is fresh. -/
def Row.closer : Row → Update
  | .operation => reject
  | .stream => resetOpening

def Ends (r : Row) (task : List Update) (rows : Rows) : Prop :=
  Settles r.Ended (task.map Rows.update) rows

/-- The row has ended, or some task is sure to end it. -/
def Desk.Covered (r : Row) (d : Desk) : Prop :=
  r.Ended d.rows ∨ ∃ task ∈ d.tasks, Ends r task d.rows

def Opens (r : Row) (task : List Update) : Prop := ∃ u ∈ task, r.OpenedBy u

instance (r : Row) (task : List Update) : Decidable (Opens r task) :=
  inferInstanceAs (Decidable (∃ u ∈ task, r.OpenedBy u))

/-- Every update goes forward, and a task that opens a row is sure to end it. -/
structure Desk.Sound (d : Desk) : Prop where
  forward : ∀ task ∈ d.tasks, ∀ u ∈ task, u.Forward
  opening : ∀ r, ∀ task ∈ d.tasks, Opens r task → Ends r task d.rows

/-- The row has not been opened, unless a task is sure to end it. -/
def Desk.Unopened (r : Row) (d : Desk) : Prop := r.Fresh d.rows ∨ d.Covered r

/-- The row is covered, or still fresh and about to be closed. -/
def Desk.Lands (r : Row) (d : Desk) : Prop :=
  d.Covered r ∨ r.Fresh d.rows ∧ ∃ task ∈ d.tasks, r.closer ∈ task

variable {r : Row}

theorem Row.ended_mono (r : Row) (x y : Rows) (h : x ≤ y) (hx : r.Ended x) : r.Ended y := by
  cases r with
  | operation => exact operation_ended_iff.mpr ((operation_ended_iff.mp hx).trans h.1)
  | stream => exact stream_ended_iff.mpr ((stream_ended_iff.mp hx).trans h.2)

/-! ### Progress of the rows -/

variable {d d' : Desk} {rows : Rows} {task head : List Update} {k : ℕ} {tasks : List (List Update)}

theorem Desk.Covered.mono (hrows : d.rows ≤ d'.rows) (htasks : ∀ task ∈ d.tasks, task ∈ d'.tasks)
    (h : d.Covered r) : d'.Covered r := by
  rcases h with h | ⟨task, hmem, h⟩
  · exact .inl (r.ended_mono _ _ hrows h)
  · exact .inr ⟨task, htasks task hmem, Settles.mono r.ended_mono h hrows⟩

theorem Desk.Sound.mono (h : d.Sound) (hrows : d.rows ≤ d'.rows) (htasks : d'.tasks = d.tasks) :
    d'.Sound where
  forward := htasks ▸ h.forward
  opening r task hmem ho :=
    Settles.mono r.ended_mono (h.opening r task (htasks ▸ hmem) ho) hrows

/-- What an update that does not open it makes of a row that is fresh. -/
theorem fresh_update (h : r.Fresh rows) (hu : ¬ r.OpenedBy u) :
    r.Fresh (rows.update u) ∨ r.Ended (rows.update u) := by
  cases r with
  | operation =>
    cases u with
    | stream sources target =>
      left
      rw [Rows.update, Rows.apply]
      cases transitionStream rows.stream sources target <;> exact h
    | operation sources target =>
      rw [Rows.update, Rows.apply, transitionOperation]
      split
      · next rows' hok =>
        split at hok
        · cases hok
        · next hfind =>
          cases hok
          by_cases hmem : rows.operation ∈ sources
          · have hallowed : isAllowedOperationTransition .offered target = true := by
              have := find?_eq_none.mp hfind rows.operation hmem
              rw [show rows.operation = .offered from h] at this
              simpa using this
            rw [if_pos hmem]
            cases target
            case offered => exact .inl rfl
            case accepted => exact absurd rfl hu
            case running => exact absurd hallowed (by decide)
            all_goals exact .inr (operation_ended_iff.mpr (Nat.le_refl 3))
          · rw [if_neg hmem]
            exact .inl h
      · exact .inl h
  | stream =>
    cases u with
    | operation sources target =>
      left
      rw [Rows.update, Rows.apply]
      cases transitionOperation rows.operation sources target <;> exact h
    | stream sources target =>
      rw [Rows.update, Rows.apply, transitionStream]
      split
      · next rows' hok =>
        split at hok
        · cases hok
        · next hfind =>
          cases hok
          by_cases hmem : rows.stream ∈ sources
          · have hallowed : isAllowedStreamTransition .opening target = true := by
              have := find?_eq_none.mp hfind rows.stream hmem
              rw [show rows.stream = .opening from h] at this
              simpa using this
            rw [if_pos hmem]
            cases target
            case opening => exact .inl rfl
            case opened => exact absurd rfl hu
            case halfClosedLocal | halfClosedRemote | closed => exact absurd hallowed (by decide)
            all_goals exact .inr (stream_ended_iff.mpr (Nat.le_refl 3))
          · rw [if_neg hmem]
            exact .inl h
      · exact .inl h

theorem ended_closer (h : r.Fresh rows) : r.Ended (rows.update r.closer) := by
  rcases rows with ⟨operation, stream⟩
  cases r with
  | operation =>
    obtain rfl : operation = .offered := h
    exact .inl rfl
  | stream =>
    obtain rfl : stream = .opening := h
    exact stream_ended_iff.mpr (Nat.le_refl 3)

theorem fresh_markOperationUnknown (h : r.Fresh rows) :
    r.Fresh rows.markOperationUnknown ∨ r.Ended rows.markOperationUnknown := by
  rw [Rows.markOperationUnknown]
  split
  · cases r with
    | operation => exact .inr (operation_ended_iff.mpr (Nat.le_refl 3))
    | stream => exact .inl h
  · exact .inl h

theorem fresh_markStreamUnknown (h : r.Fresh rows) :
    r.Fresh rows.markStreamUnknown ∨ r.Ended rows.markStreamUnknown := by
  rw [Rows.markStreamUnknown]
  split
  · cases r with
    | operation => exact .inl h
    | stream => exact .inr (stream_ended_iff.mpr (Nat.le_refl 3))
  · exact .inl h

/-- Once the opening has been recorded, the operation is no longer offered. -/
theorem rank_accepted (rows : Rows) :
    1 ≤ (rows.update (.operation [.offered] .accepted)).operation.rank := by
  rcases rows with ⟨operation, stream⟩
  cases operation <;> exact Nat.le_of_ble_eq_true rfl

theorem rank_opened (rows : Rows) :
    1 ≤ (rows.update (.stream [.opening] .opened)).stream.rank := by
  rcases rows with ⟨operation, stream⟩
  cases stream <;> exact Nat.le_of_ble_eq_true rfl

/-! ### Starting a task -/

theorem Desk.Sound.start (h : d.Sound) (hf : ∀ u ∈ task, u.Forward)
    (ho : ∀ r, Opens r task → Ends r task d.rows) : (d.start task).Sound where
  forward t hmem := by
    rcases mem_append.mp hmem with hmem | hmem
    · exact h.forward t hmem
    · rw [mem_singleton.mp hmem]
      exact hf
  opening r t hmem := by
    rcases mem_append.mp hmem with hmem | hmem
    · exact h.opening r t hmem
    · rw [mem_singleton.mp hmem]
      exact ho r

theorem Desk.Covered.start (h : d.Covered r) (task : List Update) : (d.start task).Covered r := by
  rcases h with h | ⟨t, hmem, h⟩
  · exact .inl h
  · exact .inr ⟨t, mem_append_left _ hmem, h⟩

theorem covered_start (h : Ends r task d.rows) : (d.start task).Covered r :=
  .inr ⟨task, mem_append_right _ (mem_singleton_self _), h⟩

/-- What ends a fresh row lands if the row has not been opened. -/
theorem lands_start (h : d.Unopened r) (hclose : r.closer ∈ task) : (d.start task).Lands r := by
  rcases h with h | h
  · exact .inr ⟨h, task, mem_append_right _ (mem_singleton_self _), hclose⟩
  · exact .inl (h.start task)

/-! ### One update of one task -/

theorem runTask_cases (h : d.runTask k = some d') :
    (d.tasks[k]? = some [] ∧ d' = { d with tasks := d.tasks.eraseIdx k }) ∨
      ∃ u us, d.tasks[k]? = some (u :: us) ∧
        d' = { rows := d.rows.update u, tasks := d.tasks.set k us } := by
  rw [Desk.runTask] at h
  split at h
  · cases h
  · next hk =>
    cases h
    exact .inl ⟨hk, rfl⟩
  · next u us hk =>
    cases h
    exact .inr ⟨u, us, hk, rfl⟩

theorem mem_set_or_eq (hk : tasks[k]? = some head) (hmem : task ∈ tasks) (rest : List Update) :
    task = head ∨ task ∈ tasks.set k rest := by
  obtain ⟨j, hj⟩ := getElem?_of_mem hmem
  by_cases hjk : j = k
  · left
    rw [hjk, hk] at hj
    exact (Option.some.inj hj).symm
  · right
    refine mem_of_getElem? (i := j) ?_
    rw [getElem?_set_ne (Ne.symm hjk), hj]

theorem mem_eraseIdx_or_eq (hk : tasks[k]? = some head) (hmem : task ∈ tasks) :
    task = head ∨ task ∈ tasks.eraseIdx k := by
  obtain ⟨j, hj⟩ := getElem?_of_mem hmem
  by_cases hjk : j = k
  · left
    rw [hjk, hk] at hj
    exact (Option.some.inj hj).symm
  · exact .inr (mem_eraseIdx_iff_getElem?.mpr ⟨j, hjk, hj⟩)

theorem mem_set_self (hk : tasks[k]? = some head) (rest : List Update) : rest ∈ tasks.set k rest :=
  mem_set (List.getElem?_eq_some_iff.mp hk).1 rest

theorem le_runTask (hd : d.Sound) (h : d.runTask k = some d') : d.rows ≤ d'.rows := by
  obtain ⟨-, rfl⟩ | ⟨u, us, hk, rfl⟩ := runTask_cases h
  · exact le_rfl
  · exact le_update (hd.forward _ (mem_of_getElem? hk) u (mem_cons_self ..)) d.rows

theorem covered_runTask (hd : d.Sound) (h : d.runTask k = some d') (hc : d.Covered r) :
    d'.Covered r := by
  have hle := le_runTask hd h
  rcases hc with hc | ⟨task, hmem, hends⟩
  · exact .inl (r.ended_mono _ _ hle hc)
  obtain ⟨hk, rfl⟩ | ⟨u, us, hk, rfl⟩ := runTask_cases h
  · rcases mem_eraseIdx_or_eq hk hmem with rfl | hmem
    · exact .inl hends
    · exact .inr ⟨task, hmem, hends⟩
  · rcases mem_set_or_eq hk hmem us with rfl | hmem
    · exact .inr ⟨us, mem_set_self hk us, Settles.tail hends⟩
    · exact .inr ⟨task, hmem, Settles.mono r.ended_mono hends hle⟩

theorem sound_runTask (hd : d.Sound) (h : d.runTask k = some d') : d'.Sound := by
  have hle := le_runTask hd h
  obtain ⟨hk, rfl⟩ | ⟨u, us, hk, rfl⟩ := runTask_cases h
  · exact ⟨fun t ht => hd.forward t (mem_of_mem_eraseIdx ht),
      fun r t ht => hd.opening r t (mem_of_mem_eraseIdx ht)⟩
  · have hhead := mem_of_getElem? hk
    constructor
    · intro t ht
      rcases mem_or_eq_of_mem_set ht with ht | rfl
      · exact hd.forward t ht
      · exact fun v hv => hd.forward _ hhead v (mem_cons_of_mem _ hv)
    · intro r t ht ho
      rcases mem_or_eq_of_mem_set ht with ht | rfl
      · exact Settles.mono r.ended_mono (hd.opening r t ht ho) hle
      · obtain ⟨v, hv, ho⟩ := ho
        exact Settles.tail (hd.opening r _ hhead ⟨v, mem_cons_of_mem _ hv, ho⟩)

theorem unopened_runTask (hd : d.Sound) (h : d.runTask k = some d') (hu : d.Unopened r) :
    d'.Unopened r := by
  rcases hu with hu | hu
  · by_cases hcovered : d.Covered r
    · exact .inr (covered_runTask hd h hcovered)
    obtain ⟨hk, rfl⟩ | ⟨u, us, hk, rfl⟩ := runTask_cases h
    · exact .inl hu
    · -- the task does not open the row, or it would cover it
      have hnot : ¬ r.OpenedBy u := by
        intro ho
        have hmem := mem_of_getElem? hk
        exact hcovered (.inr ⟨_, hmem, hd.opening r _ hmem ⟨u, mem_cons_self .., ho⟩⟩)
      rcases fresh_update hu hnot with h' | h'
      · exact .inl h'
      · exact .inr (.inl h')
  · exact .inr (covered_runTask hd h hu)

theorem lands_runTask (hd : d.Sound) (h : d.runTask k = some d') (hl : d.Lands r) : d'.Lands r := by
  rcases hl with hl | ⟨hfresh, task, hmem, hclose⟩
  · exact .inl (covered_runTask hd h hl)
  rcases unopened_runTask hd h (.inl hfresh) with hfresh' | hcovered
  · obtain ⟨hk, rfl⟩ | ⟨u, us, hk, rfl⟩ := runTask_cases h
    · rcases mem_eraseIdx_or_eq hk hmem with rfl | hmem
      · exact absurd hclose not_mem_nil
      · exact .inr ⟨hfresh', task, hmem, hclose⟩
    · rcases mem_set_or_eq hk hmem us with rfl | hmem
      · rcases mem_cons.mp hclose with rfl | hclose
        · exact .inl (.inl (ended_closer hfresh))
        · exact .inr ⟨hfresh', us, mem_set_self hk us, hclose⟩
      · exact .inr ⟨hfresh', task, hmem, hclose⟩
  · exact .inl hcovered

/-! ### Steps beside the handler -/

/-- What a step leaves of the desk that is not the handler's own. -/
structure Desk.Follows (d d' : Desk) : Prop where
  sound : d'.Sound
  rows : d.rows ≤ d'.rows
  covered : ∀ r, d.Covered r → d'.Covered r
  unopened : ∀ r, d.Unopened r → d'.Unopened r
  lands : ∀ r, d.Lands r → d'.Lands r

theorem follows_refl (hd : d.Sound) : d.Follows d :=
  ⟨hd, le_rfl, fun _ => id, fun _ => id, fun _ => id⟩

theorem Desk.Follows.trans (h : d.Follows d') (h' : d'.Follows d'') : d.Follows d'' :=
  ⟨h'.sound, h.rows.trans h'.rows, fun r hc => h'.covered r (h.covered r hc),
    fun r hu => h'.unopened r (h.unopened r hu), fun r hl => h'.lands r (h.lands r hl)⟩

theorem follows_runTask (hd : d.Sound) (h : d.runTask k = some d') : d.Follows d' where
  sound := sound_runTask hd h
  rows := le_runTask hd h
  covered _ := covered_runTask hd h
  unopened _ := unopened_runTask hd h
  lands _ := lands_runTask hd h

/-- The rows have moved by themselves, and a row that was fresh still is, or has ended. -/
theorem follows_of_rows (hd : d.Sound) (hrows : d.rows ≤ d'.rows) (htasks : d'.tasks = d.tasks)
    (hfresh : ∀ r : Row, r.Fresh d.rows → r.Fresh d'.rows ∨ r.Ended d'.rows) : d.Follows d' := by
  have hcovered : ∀ r, d.Covered r → d'.Covered r :=
    fun r hc => hc.mono hrows fun _ ht => htasks ▸ ht
  refine ⟨hd.mono hrows htasks, hrows, hcovered, ?_, ?_⟩
  · rintro r (hu | hu)
    · rcases hfresh r hu with h | h
      · exact .inl h
      · exact .inr (.inl h)
    · exact .inr (hcovered r hu)
  · rintro r (hl | ⟨hl, htask⟩)
    · exact .inl (hcovered r hl)
    · rcases hfresh r hl with h | h
      · exact .inr ⟨h, htasks ▸ htask⟩
      · exact .inl (.inl h)

theorem follows_markOperationUnknown (hd : d.Sound) : d.Follows d.markOperationUnknown :=
  follows_of_rows hd (le_markOperationUnknown d.rows) rfl fun _ => fresh_markOperationUnknown

theorem follows_markStreamUnknown (hd : d.Sound) : d.Follows d.markStreamUnknown :=
  follows_of_rows hd (le_markStreamUnknown d.rows) rfl fun _ => fresh_markStreamUnknown

theorem follows_start (hd : d.Sound) (hf : ∀ u ∈ task, u.Forward)
    (ho : ∀ r, Opens r task → Ends r task d.rows) : d.Follows (d.start task) where
  sound := hd.start hf ho
  rows := le_rfl
  covered _ hc := hc.start task
  unopened _ hu := hu.imp_right fun hc => hc.start task
  lands r hl := by
    rcases hl with hl | ⟨hl, t, hmem, hclose⟩
    · exact .inl (hl.start task)
    · exact .inr ⟨hl, t, mem_append_left _ hmem, hclose⟩

/-! ### Tasks that are sure to end a row -/

theorem Ends.of_mem (hf : ∀ v ∈ task, v.Forward) (hmem : u ∈ task)
    (hsure : ∀ rows : Rows, r.Ended (rows.update u)) (rows : Rows) : Ends r task rows := by
  refine settles_of_mem r.ended_mono ?_ (mem_map_of_mem hmem) hsure
  intro f hfmem x
  obtain ⟨v, hv, rfl⟩ := mem_map.mp hfmem
  exact le_update (hf v hv) x

/-- An update that ends the row wherever the rows may have come by then. -/
theorem Ends.of_mem_of_le (hf : ∀ v ∈ task, v.Forward) (hmem : u ∈ task)
    (hsure : ∀ y : Rows, rows ≤ y → r.Ended (y.update u)) : Ends r task rows := by
  induction task generalizing rows with
  | nil => exact absurd hmem not_mem_nil
  | cons v task ih =>
    intro y hy
    have hrest : ∀ w ∈ task, w.Forward := fun w hw => hf w (mem_cons_of_mem _ hw)
    have hle := le_update (hf v (mem_cons_self ..)) y
    rcases mem_cons.mp hmem with rfl | hmem
    · refine settles_of_holds r.ended_mono ?_ (hsure y hy)
      intro f hfmem x
      obtain ⟨w, hw, rfl⟩ := mem_map.mp hfmem
      exact le_update (hrest w hw) x
    · exact ih hrest hmem fun z hz => hsure z (hy.trans (hle.trans hz))

theorem ends_reset (hf : ∀ u ∈ task, u.Forward) (hmem : .stream liveStreamStates .reset ∈ task)
    (rows : Rows) : Ends .stream task rows := by
  refine Ends.of_mem hf hmem ?_ rows
  rintro ⟨operation, stream⟩
  cases stream <;> exact stream_ended_iff.mpr (Nat.le_refl 3)

theorem ends_canceled (hf : ∀ u ∈ task, u.Forward)
    (hmem : .operation [.offered, .accepted, .running] .canceled ∈ task) (rows : Rows) :
    Ends .operation task rows := by
  refine Ends.of_mem hf hmem ?_ rows
  rintro ⟨operation, stream⟩
  cases operation <;> exact operation_ended_iff.mpr (Nat.le_refl 3)

theorem ends_failed (h : 1 ≤ rows.operation.rank) (hf : ∀ u ∈ task, u.Forward)
    (hmem : .operation [.accepted, .running] .failed ∈ task) : Ends .operation task rows := by
  refine Ends.of_mem_of_le hf hmem ?_
  rintro ⟨operation, stream⟩ hy
  have hrank : 1 ≤ operation.rank := h.trans hy.1
  cases operation
  case offered => exact absurd (show 1 ≤ 0 from hrank) (by decide)
  all_goals exact operation_ended_iff.mpr (Nat.le_refl 3)

theorem ends_closed (rows : Rows) :
    Ends .stream [.stream [.opening] .opened,
      .stream [.opened, .halfClosedLocal, .halfClosedRemote] .closed] rows := by
  intro y _ z hz
  have hrank : 1 ≤ z.stream.rank := (rank_opened y).trans hz.2
  rcases z with ⟨operation, stream⟩
  cases stream
  case opening => exact absurd (show 1 ≤ 0 from hrank) (by decide)
  all_goals exact stream_ended_iff.mpr (Nat.le_refl 3)

theorem rank_running (h : 1 ≤ rows.operation.rank) :
    2 ≤ (rows.update (.operation [.accepted] .running)).operation.rank := by
  rcases rows with ⟨operation, stream⟩
  cases operation
  case offered => exact absurd (show 1 ≤ 0 from h) (by decide)
  all_goals exact Nat.le_of_ble_eq_true rfl

theorem ends_succeeded (rows : Rows) :
    Ends .operation [.operation [.offered] .accepted, .operation [.accepted] .running,
      .operation [.running] .succeeded] rows := by
  intro x _ y hy z hz
  have hrank : 2 ≤ z.operation.rank := (rank_running ((rank_accepted x).trans hy.1)).trans hz.1
  rcases z with ⟨operation, stream⟩
  cases operation
  case offered => exact absurd (show 2 ≤ 0 from hrank) (by decide)
  case accepted => exact absurd (show 2 ≤ 1 from hrank) (by decide)
  all_goals exact operation_ended_iff.mpr (Nat.le_refl 3)

theorem keepsFinal_runTask (h : d.runTask k = some d') : d.rows.KeepsFinal d'.rows := by
  obtain ⟨-, rfl⟩ | ⟨u, us, -, rfl⟩ := runTask_cases h
  · exact Rows.KeepsFinal.refl d.rows
  · exact keepsFinal_update u d.rows

/-- The rows stay as they are, but for an update of the handler's own or of a task, or a mark. -/
def Desk.RowsGo (d d' : Desk) : Prop :=
  d'.rows = d.rows ∨ (∃ u, d'.rows = d.rows.update u) ∨ (∃ k, d.runTask k = some d') ∨
    d'.rows = d.rows.markOperationUnknown ∨ d'.rows = d.rows.markStreamUnknown

theorem Desk.RowsGo.keepsFinal (h : d.RowsGo d') : d.rows.KeepsFinal d'.rows := by
  obtain hrows | ⟨u, hrows⟩ | ⟨k, hrun⟩ | hrows | hrows := h
  · rw [hrows]
    exact Rows.KeepsFinal.refl _
  · rw [hrows]
    exact keepsFinal_update u _
  · exact keepsFinal_runTask hrun
  · rw [hrows]
    exact keepsFinal_markOperationUnknown _
  · rw [hrows]
    exact keepsFinal_markStreamUnknown _

end Bud.Proxy
