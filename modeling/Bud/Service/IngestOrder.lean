import Bud.Lib.Runs
import Bud.Service.IngestPhases

/-!
# The ingest queue runs handlers in arrival order

Whatever arrives for whichever sessions, and however long the awaited work of a handler takes or
whether it fails, the handlers of one session run one at a time, once each, in the order their
frames arrived. What a session's handlers emit is then in that order too, so an output never goes
out after the event of a frame that came later.

The other half is that nothing is stuck. The microtask queue always runs empty by itself, and once
it has, a session with frames left has the handler of the first of them running.
-/

namespace Bud.Ingest

open List Function

/-! ### Statements -/

def Entry.index : Entry → ℕ
  | .start index | .emit index _ | .finish index => index

def Entry.isEmit : Entry → Bool
  | .emit .. => true
  | .start _ | .finish _ => false

def Sys.lifecycle (s : Sys) (sessionId : String) : List Entry :=
  (s.log sessionId).filter fun entry => !entry.isEmit

/-- The handlers of the first `n` frames, one after the other. -/
def turns (n : ℕ) : List Entry := (List.range n).flatMap fun i => [.start i, .finish i]

/-- The events a frame's handler may emit. -/
def Frame.Emits : Frame → SseEvent → Prop
  | .status state, sse => sse = .status state
  | .grid, sse => sse = .grid
  | .output data byteOffset, sse => sse = .output data byteOffset (byteOffset + data.length)
  | .event name _ _, sse => sse = .event name ∨ sse = .status "closed"
  | .observeResult, _ | .sendResult, _ => False

structure InOrder (s : Sys) (sessionId : String) : Prop where
  /-- Handlers run one at a time, once each, in arrival order. -/
  turns : s.lifecycle sessionId <+: turns (s.frames sessionId).length
  /-- The entry is dropped only when every frame has been handled. -/
  dropped : s.sessionIngestQueues sessionId = none →
    s.lifecycle sessionId = Ingest.turns (s.frames sessionId).length
  /-- What is emitted comes from the handlers, and is emitted in arrival order. -/
  emits : ∀ index sse, .emit index sse ∈ s.log sessionId →
    ∃ frame, (s.frames sessionId)[index]? = some frame ∧ frame.Emits sse
  sorted : (s.log sessionId).Pairwise fun entry later => entry.index ≤ later.index

/-- Every frame has been handled, or the handler of the first that has not is running. -/
def Progressing (s : Sys) (sessionId : String) : Prop :=
  s.lifecycle sessionId = turns (s.frames sessionId).length ∨
    ∃ i, i < (s.frames sessionId).length ∧ (s.stage (sessionId, i)).isSome ∧
      s.lifecycle sessionId = turns i ++ [.start i]

/-! ### Handlers emit what their frame says -/

variable {reads : Reads} {frame : Frame} {sse : SseEvent}

theorem Frame.emits_owned (h : sse ∈ (frame.owned reads).emitted) : frame.Emits sse := by
  cases frame with
  | status state | observeResult | sendResult => exact absurd h not_mem_nil
  | grid => exact mem_singleton.mp h
  | output data byteOffset =>
    rw [Frame.owned] at h
    split at h
    all_goals exact absurd h not_mem_nil
  | event name cwd commandId =>
    rw [Frame.owned, switchEvent] at h
    split at h
    · exact absurd h not_mem_nil
    · split at h
      · exact absurd h not_mem_nil
      · split at h
        · exact absurd h not_mem_nil
        · exact Or.inl (mem_singleton.mp h)

theorem emits_retain (h : sse ∈ (retain reads data byteOffset retained).emitted) :
    (Frame.output data byteOffset).Emits sse := by
  rw [retain] at h
  split at h
  · exact absurd h not_mem_nil
  · exact mem_singleton.mp h

theorem Frame.emits_resume (h : sse ∈ (frame.resume reads stage reply).emitted) :
    frame.Emits sse := by
  fun_cases Frame.resume reads frame stage reply
  all_goals simp only [Frame.resume, *] at h
  all_goals first
    | exact absurd h not_mem_nil
    | exact Frame.emits_owned h
    | exact emits_retain h
    | exact mem_singleton.mp h
    | exact Or.inl (mem_singleton.mp h)
    | exact Or.inr (mem_singleton.mp h)

/-! ### One session's log -/

/-- How the log of a session follows from the phases of its frames: the frames before `k` have been
handled, the log is theirs, and frame `k` has at most been called. -/
structure Placed (log : List Entry) (frames : List Frame) (phase : ℕ → Phase) (k : ℕ) : Prop where
  before : ∀ i < k, ¬ (phase i).Unfinished
  current : (phase k).Unfinished
  after : ∀ i > k, phase i = .queued
  lifecycle : log.filter (fun entry => !entry.isEmit) =
    turns k ++ if (phase k).Running then [.start k] else []
  emits : ∀ index sse, .emit index sse ∈ log →
    ∃ frame, frames[index]? = some frame ∧ frame.Emits sse
  sorted : log.Pairwise fun entry later => entry.index ≤ later.index
  bound : ∀ entry ∈ log, entry.index ≤ k

theorem turns_succ (k : ℕ) : turns (k + 1) = turns k ++ [.start k, .finish k] := by
  rw [turns, turns, range_succ, flatMap_append, flatMap_singleton]

section

variable {log : List Entry} {frames : List Frame} {phase : ℕ → Phase} {i k : ℕ} {b : Phase}

theorem Placed.init : Placed [] [] (fun _ => .queued) 0 where
  before := fun i hi => absurd hi (Nat.not_lt_zero i)
  current := Or.inl rfl
  after := fun _ _ => rfl
  lifecycle := rfl
  emits := fun _ _ h => absurd h not_mem_nil
  sorted := Pairwise.nil
  bound := fun _ h => absurd h not_mem_nil

theorem Placed.eq_of_running (h : Placed log frames phase k) (hi : (phase i).Running) : i = k := by
  have hbefore := h.before i
  have hafter := h.after i
  grind

/-- The next handler to be called is the first that has not ended. -/
theorem Placed.eq_of_next (h : Placed log frames phase k) (hi : phase i = .queued)
    (hpred : ∀ j, i = j + 1 → (phase j).Over) : i = k := by
  have hbefore := h.before i
  have hcurrent := h.current
  obtain hlt | heq | hgt := Nat.lt_trichotomy i k
  · exact absurd (Or.inl hi) (hbefore hlt)
  · exact heq
  · -- the frame before it would be unfinished, and over
    obtain ⟨j, rfl⟩ := Nat.exists_eq_succ_of_ne_zero (Nat.ne_zero_of_lt hgt)
    have hover := hpred j rfl
    have hafter := h.after j
    grind

/-- A frame moves on without its handler being called or ending. -/
theorem Placed.update (h : Placed log frames phase k)
    (hunfinished : b.Unfinished ↔ (phase i).Unfinished)
    (hrunning : b.Running ↔ (phase i).Running) (hqueued : phase i ≠ .queued) :
    Placed log frames (update phase i b) k where
  before j hj := by
    have := h.before j hj
    grind
  current := by
    have := h.current
    grind
  after j hj := by
    have := h.after j hj
    grind
  lifecycle := by
    rw [h.lifecycle, update_apply]
    grind
  emits := h.emits
  sorted := h.sorted
  bound := h.bound

theorem Placed.sorted_append (h : Placed log frames phase k)
    (hindex : ∀ entry ∈ entries, entry.index = k) :
    (log ++ entries).Pairwise fun entry later => entry.index ≤ later.index := by
  refine pairwise_append.mpr ⟨h.sorted, ?_, fun entry he later hl => ?_⟩
  · refine pairwise_of_forall_mem_list fun entry he later hl => ?_
    rw [hindex entry he, hindex later hl]
  · rw [hindex later hl]
    exact h.bound entry he

theorem Placed.bound_append (h : Placed log frames phase k)
    (hindex : ∀ entry ∈ entries, entry.index = k) : ∀ entry ∈ log ++ entries, entry.index ≤ k := by
  intro entry he
  obtain he | he := mem_append.mp he
  · exact h.bound entry he
  · exact (hindex entry he).le

theorem Placed.start (h : Placed log frames phase k) (hi : phase i = .queued)
    (hpred : ∀ j, i = j + 1 → (phase j).Over) :
    Placed (log ++ [.start i]) frames (Function.update phase i .called) k := by
  obtain rfl := h.eq_of_next hi hpred
  have hindex : ∀ entry ∈ [Entry.start i], entry.index = i := by simp [Entry.index]
  refine ⟨fun j hj => ?_, ?_, fun j hj => ?_, ?_, fun index sse hmem => ?_,
    h.sorted_append hindex, h.bound_append hindex⟩
  · rw [update_of_ne hj.ne]
    exact h.before j hj
  · rw [update_self]
    exact Or.inr (Or.inl rfl)
  · rw [update_of_ne hj.ne']
    exact h.after j hj
  · have hnot : ¬ (phase i).Running := by simp [hi, Phase.Running]
    have hcalled : Phase.called.Running := Or.inl rfl
    rw [filter_append, h.lifecycle, if_neg hnot, update_self, if_pos hcalled, append_nil]
    rfl
  · exact h.emits index sse (by simpa using hmem)

theorem Placed.emit (h : Placed log frames phase k) (hi : (phase i).Running)
    (hframe : frames[i]? = some frame) {events : List SseEvent}
    (hevents : ∀ sse ∈ events, frame.Emits sse) :
    Placed (log ++ events.map (.emit i)) frames phase k := by
  obtain rfl := h.eq_of_running hi
  have hindex : ∀ entry ∈ events.map (Entry.emit i), entry.index = i := by simp [Entry.index]
  refine ⟨h.before, h.current, h.after, ?_, fun index sse hmem => ?_, h.sorted_append hindex,
    h.bound_append hindex⟩
  · have hnone : (events.map (Entry.emit i)).filter (fun entry => !entry.isEmit) = [] := by
      simp [Entry.isEmit]
    rw [filter_append, hnone, append_nil]
    exact h.lifecycle
  · obtain hmem | hmem := mem_append.mp hmem
    · exact h.emits index sse hmem
    · obtain ⟨sse', hsse, heq⟩ := mem_map.mp hmem
      cases heq
      exact ⟨frame, hframe, hevents sse hsse⟩

theorem Placed.finish (h : Placed log frames phase k) (hi : (phase i).Running)
    (hb : ¬ b.Unfinished) :
    Placed (log ++ [.finish i]) frames (Function.update phase i b) (k + 1) := by
  obtain rfl := h.eq_of_running hi
  have hindex : ∀ entry ∈ [Entry.finish i], entry.index = i := by simp [Entry.index]
  have hnext : phase (i + 1) = .queued := h.after (i + 1) (Nat.lt_succ_self i)
  refine ⟨fun j hj => ?_, ?_, fun j hj => ?_, ?_, fun index sse hmem => ?_,
    h.sorted_append hindex, fun entry he => (h.bound_append hindex entry he).trans (Nat.le_succ i)⟩
  · have := h.before j
    grind
  · rw [update_of_ne (Nat.succ_ne_self i), hnext]
    exact Or.inl rfl
  · have := h.after j
    grind
  · have hnot : ¬ Phase.queued.Running := by decide
    rw [filter_append, h.lifecycle, if_pos hi, update_of_ne (Nat.succ_ne_self i),
      hnext, if_neg hnot, append_nil, turns_succ, append_assoc]
    rfl
  · exact h.emits index sse (by simpa using hmem)

theorem Placed.enqueue (h : Placed log frames phase k) (frame : Frame) :
    Placed log (frames ++ [frame]) phase k where
  before := h.before
  current := h.current
  after := h.after
  lifecycle := h.lifecycle
  emits index sse hmem := by
    obtain ⟨frame', hframe, hemits⟩ := h.emits index sse hmem
    obtain ⟨hlt, -⟩ := List.getElem?_eq_some_iff.mp hframe
    exact ⟨frame', (getElem?_append_left hlt).trans hframe, hemits⟩
  sorted := h.sorted
  bound := h.bound

end

/-! ### The invariant -/

structure Invariant (s : Sys) (phase : Ticket → Phase) (taken : Option Job) : Prop where
  heap : HeapOf s.arrived phase taken s.heap
  around : Around s phase
  placed : ∀ c, ∃ k, Placed (s.log c) (s.frames c) (fun i => phase (c, i)) k

variable {s t : Sys} {phase : Ticket → Phase} {ticket : Ticket} {taken : Option Job} {job : Job}

theorem Invariant.init : Invariant init (fun _ => .queued) none where
  heap := by
    refine ⟨fun p => ?_, fun p => ?_, nodup_nil, fun job => ?_⟩
    · cases p <;> simp [Ingest.init, Settled, Phase.Unfinished, Phase.Over]
    · cases p <;> simp [Ingest.init, reactionsOf, Promises.Heap.empty, Sys.arrived]
    · cases job <;> simp [Ingest.init, Due, Promises.Heap.empty, Sys.arrived]
  around := by
    refine ⟨fun c => rfl, fun _ => ?_, fun _ h => absurd rfl h, fun _ _ h => absurd rfl h⟩
    simp [Ingest.init, Phase.Running]
  placed := fun _ => ⟨0, Placed.init⟩

theorem placed_update (h : ∀ c, ∃ k, Placed (s.log c) (s.frames c) (fun i => phase (c, i)) k)
    {b : Phase} (hframes : t.frames = s.frames) (hlog : ∀ c ≠ ticket.1, t.log c = s.log c)
    (hplaced : ∃ k, Placed (t.log ticket.1) (s.frames ticket.1)
      (update (fun i => phase (ticket.1, i)) ticket.2 b) k) (c : String) :
    ∃ k, Placed (t.log c) (t.frames c) (fun i => update phase ticket b (c, i)) k := by
  rw [hframes]
  by_cases hc : c = ticket.1
  · subst hc
    have heq : (fun i => update phase ticket b (ticket.1, i)) =
        update (fun i => phase (ticket.1, i)) ticket.2 b := by
      funext i
      simp only [update_apply, Prod.ext_iff, true_and]
    rw [heq]
    exact hplaced
  · have heq : (fun i => update phase ticket b (c, i)) = fun i => phase (c, i) := by
      funext i
      exact update_of_ne (fun heq => hc (congrArg Prod.fst heq)) _ _
    rw [heq, hlog c hc]
    exact h c

/-- From phase `a` to phase `b` with the handler neither called nor ended, and before `cleanup`. -/
def Phase.Inside (a b : Phase) : Prop :=
  a ≠ .queued ∧ (a ≠ .done ∧ b ≠ .done) ∧ (a.Over → b.Over) ∧ (b.Unfinished ↔ a.Unfinished) ∧
    (b.Running ↔ a.Running)

instance (a b : Phase) : Decidable (a.Inside b) := inferInstanceAs (Decidable (_ ∧ _))

/-- A frame moves on inside its turn, and only promises and jobs change. -/
theorem Invariant.moveOn (h : Invariant s phase taken) {heap : Promises.Heap Promise Job}
    {b : Phase} (hphase : phase ticket = a) (hinside : a.Inside b)
    (hheap : HeapOf s.arrived (update phase ticket b) none heap) :
    Invariant { s with heap := heap } (update phase ticket b) none := by
  subst hphase
  obtain ⟨hqueued, hdone, hover, hunfinished, hrunning⟩ := hinside
  refine ⟨hheap, ?_, ?_⟩
  · refine h.around.moveOn hqueued hdone hover rfl rfl fun t' => ?_
    split
    · next heq => rw [hrunning, heq, ← h.around.stage]
    · exact Iff.rfl
  · refine placed_update h.placed rfl (fun _ _ => rfl) ?_
    obtain ⟨k, hk⟩ := h.placed ticket.1
    exact ⟨k, hk.update hunfinished hrunning hqueued⟩

theorem Invariant.pop (h : Invariant s phase none) (hjobs : s.heap.jobs = job :: jobs) :
    Due s.arrived phase job ∧
      Invariant { s with heap := { s.heap with jobs := jobs } } phase (some job) := by
  obtain ⟨hdue, hheap⟩ := h.heap.pop hjobs
  exact ⟨hdue, hheap, ⟨h.around.queues, h.around.stage, h.around.arrived, h.around.chain⟩, h.placed⟩

theorem Invariant.work (h : Invariant s phase (some (.work ticket)))
    (hdue : Due s.arrived phase (.work ticket)) :
    Invariant (s.runJob (.work ticket)) (update phase ticket .called) none where
  heap := h.heap.work hdue
  around := by
    obtain ⟨hlt, hqueued, hpred⟩ := hdue
    refine h.around.move hlt hpred (by simp [hqueued]) (by simp [hqueued, Phase.Over]) rfl rfl
      fun t' => ?_
    simp only [Sys.runJob, update_apply]
    split
    · exact iff_of_true rfl (Or.inl rfl)
    · exact Iff.rfl
  placed := by
    obtain ⟨hlt, hqueued, hpred⟩ := hdue
    refine placed_update h.placed rfl (fun c hc => update_of_ne hc _ _) ?_
    obtain ⟨k, hk⟩ := h.placed ticket.1
    refine ⟨k, ?_⟩
    simp only [Sys.runJob, Sys.record, update_self]
    exact hk.start hqueued hpred

theorem Invariant.cleanup (h : Invariant s phase (some (.cleanup ticket)))
    (hphase : phase ticket = .settled) :
    Invariant (s.runJob (.cleanup ticket)) (update phase ticket .done) none := by
  have hrest : (s.runJob (.cleanup ticket)).heap = s.heap ∧
      (s.runJob (.cleanup ticket)).frames = s.frames ∧
        (s.runJob (.cleanup ticket)).log = s.log := by
    rw [Sys.runJob]
    split
    all_goals exact ⟨rfl, rfl, rfl⟩
  have harrived : (s.runJob (.cleanup ticket)).arrived = s.arrived := by
    funext c
    rw [Sys.arrived, hrest.2.1, Sys.arrived]
  refine ⟨?_, h.around.cleanup hphase, ?_⟩
  · rw [harrived, hrest.1]
    exact h.heap.cleanup hphase
  · refine placed_update h.placed hrest.2.1 (fun c _ => congrFun hrest.2.2 c) ?_
    obtain ⟨k, hk⟩ := h.placed ticket.1
    rw [hrest.2.2]
    exact ⟨k, hk.update (by simp [hphase, Phase.Unfinished]) (by simp [hphase, Phase.Running])
      (by simp [hphase])⟩

/-- **A job.** Each moves its frame on by one phase. -/
theorem Invariant.runJob (h : Invariant s phase (some job)) (hdue : Due s.arrived phase job) :
    ∃ phase', Invariant (s.runJob job) phase' none := by
  cases job with
  | work ticket => exact ⟨_, h.work hdue⟩
  | follow ticket =>
    obtain hphase | hphase := hdue
    · exact ⟨_, h.moveOn hphase (by decide) (h.heap.follow_called hphase)⟩
    · exact ⟨_, h.moveOn hphase (by decide) (h.heap.follow_early hphase)⟩
  | settleRun ticket =>
    have hphase : phase ticket = .returned := hdue
    have hlt := h.around.arrived ticket (by simp [hphase])
    exact ⟨_, h.moveOn hphase (by decide) (h.heap.settleRun hphase hlt)⟩
  | settleTail ticket =>
    have hphase : phase ticket = .ran := hdue
    have hlt := h.around.arrived ticket (by simp [hphase])
    have hnext := h.around.queued_succ (t := ticket) (by simp [hphase, Phase.Over])
    exact ⟨_, h.moveOn hphase (by decide) (h.heap.settleTail hphase hlt hnext)⟩
  | cleanup ticket => exact ⟨_, h.cleanup hdue⟩

theorem Invariant.emit (h : Invariant s phase none) (hrunning : (phase ticket).Running)
    (hframe : (s.frames ticket.1)[ticket.2]? = some frame) {resumed : Resumed}
    (hemits : ∀ sse ∈ resumed.emitted, frame.Emits sse) :
    Invariant (s.emit ticket resumed) phase none := by
  refine ⟨h.heap, ⟨h.around.queues, h.around.stage, h.around.arrived, h.around.chain⟩, fun c => ?_⟩
  obtain ⟨k, hk⟩ := h.placed c
  refine ⟨k, ?_⟩
  simp only [Sys.emit, Sys.record, update_apply]
  split
  · next hc =>
    subst hc
    exact hk.emit hrunning hframe hemits
  · exact hk

theorem Invariant.finish (h : Invariant s phase none) (hrunning : (phase ticket).Running)
    (hstatus : status ≠ .pending) : ∃ phase', Invariant (s.finish ticket status) phase' none := by
  have hfinish : ∀ b, b = .early ∨ b = .returned →
      HeapOf s.arrived (update phase ticket b) none (s.heap.settle (.handler ticket) status) →
      Invariant (s.finish ticket status) (update phase ticket b) none := by
    intro b hb hheap
    refine ⟨hheap, ?_, ?_⟩
    · refine h.around.moveOn (by grind) (by grind) (by grind) rfl rfl fun t' => ?_
      simp only [Sys.finish, Sys.record, update_apply]
      grind
    · refine placed_update h.placed rfl (fun c hc => update_of_ne hc _ _) ?_
      obtain ⟨k, hk⟩ := h.placed ticket.1
      refine ⟨k + 1, ?_⟩
      simp only [Sys.finish, Sys.record, Function.update_self]
      exact hk.finish hrunning (by grind)
  obtain hphase | hphase := hrunning
  · exact ⟨_, hfinish .early (Or.inl rfl) (h.heap.finish_called hphase hstatus)⟩
  · exact ⟨_, hfinish .returned (Or.inr rfl) (h.heap.finish_awaiting hphase hstatus)⟩

/-- **A handler goes on.** -/
theorem Invariant.resume (h : Invariant s phase none) (hrunning : (phase ticket).Running)
    (hframe : (s.frames ticket.1)[ticket.2]? = some frame)
    (hemits : ∀ sse ∈ resumed.emitted, frame.Emits sse) :
    ∃ phase', Invariant (s.resume ticket resumed) phase' none := by
  have hemit := h.emit hrunning hframe hemits
  rw [Sys.resume]
  split
  · next stage =>
    refine ⟨phase, hemit.heap, ⟨h.around.queues, fun t' => ?_, h.around.arrived, h.around.chain⟩,
      hemit.placed⟩
    simp only [update_apply]
    split
    · next heq => exact iff_of_true rfl (heq ▸ hrunning)
    · exact h.around.stage t'
  all_goals exact hemit.finish hrunning (by decide)

/-- **A frame arrives.** -/
theorem Invariant.enqueue (h : Invariant s phase none) (c : String) (frame : Frame) :
    Invariant (enqueueSessionIngest s c frame) phase none where
  heap := by
    rw [arrived_enqueue]
    exact h.heap.enqueue (h.around.queued_next c) (fun hprev => h.around.prev_of_not_settled hprev)
      (fun hprev _ hi => h.around.over_of_settled hprev hi)
  around := h.around.enqueue c frame
  placed c' := by
    obtain ⟨k, hk⟩ := h.placed c'
    refine ⟨k, ?_⟩
    simp only [enqueueSessionIngest, update_apply]
    split
    · next heq =>
      subst heq
      exact hk.enqueue frame
    · exact hk

/-- **One action.** -/
theorem Invariant.step (h : Invariant s phase none) (hstep : step s act = some t) :
    ∃ phase', Invariant t phase' none := by
  cases act with
  | enqueue c frame =>
    cases hstep
    exact ⟨phase, h.enqueue c frame⟩
  | tick =>
    rw [Ingest.step] at hstep
    split at hstep
    · cases hstep
    · next job jobs hjobs =>
      cases hstep
      obtain ⟨hdue, hpop⟩ := h.pop hjobs
      exact hpop.runJob hdue
  | resume ticket reply hasGridViewers cap =>
    rw [Ingest.step] at hstep
    split at hstep
    · next stage frame hstage hframe =>
      cases hstep
      have hrunning : (phase ticket).Running :=
        (h.around.stage ticket).mp (by rw [hstage]; rfl)
      exact h.resume hrunning hframe fun sse hsse => Frame.emits_resume hsse
    · cases hstep

/-! ### What the invariant says -/

theorem turns_prefix_turns (h : m ≤ n) : turns m <+: turns n := by
  induction n, h using Nat.le_induction with
  | base => exact prefix_rfl
  | succ n _ ih =>
    rw [turns_succ]
    exact ih.trans (prefix_append _ _)

section

variable {c : String} {k : ℕ}

theorem Invariant.lifecycle_eq (hk : Placed (s.log c) (s.frames c) (fun i => phase (c, i)) k) :
    s.lifecycle c = turns k ++ if (phase (c, k)).Running then [.start k] else [] := hk.lifecycle

theorem Invariant.le_arrived (h : Invariant s phase none)
    (hk : Placed (s.log c) (s.frames c) (fun i => phase (c, i)) k) : k ≤ s.arrived c := by
  obtain hzero | hpos := Nat.eq_zero_or_pos k
  · exact hzero ▸ Nat.zero_le _
  · obtain ⟨j, rfl⟩ := Nat.exists_eq_succ_of_ne_zero hpos.ne'
    exact h.around.arrived (c, j) fun hqueued => hk.before j (Nat.lt_succ_self j) (Or.inl hqueued)

/-- Once as many frames have been handled as have arrived, the log is complete. -/
theorem Invariant.complete (h : Invariant s phase none)
    (hk : Placed (s.log c) (s.frames c) (fun i => phase (c, i)) k) (heq : k = s.arrived c) :
    s.lifecycle c = turns (s.frames c).length := by
  subst heq
  rw [lifecycle_eq hk, h.around.queued_next, if_neg (by decide), append_nil, Sys.arrived]

/-- The entry is gone only when the last frame is done. -/
theorem Invariant.eq_arrived_of_dropped (h : Invariant s phase none)
    (hk : Placed (s.log c) (s.frames c) (fun i => phase (c, i)) k)
    (hnone : s.sessionIngestQueues c = none) : k = s.arrived c := by
  refine (h.le_arrived hk).antisymm (not_lt.mp fun hlt => ?_)
  rw [h.around.queues, lastOf] at hnone
  split at hnone
  · next hzero => exact absurd (hzero ▸ hlt) (Nat.not_lt_zero k)
  · next i hsucc =>
    have hdone : phase (c, i) = .done := by
      by_contra hne
      rw [if_neg hne] at hnone
      cases hnone
    have hcurrent := hk.current
    have hafter := hk.after i
    grind

end

theorem Invariant.inOrder (h : Invariant s phase none) (c : String) : InOrder s c := by
  obtain ⟨k, hk⟩ := h.placed c
  refine ⟨?_, fun hnone => h.complete hk (h.eq_arrived_of_dropped hk hnone), hk.emits, hk.sorted⟩
  rw [lifecycle_eq hk]
  split
  · next hrunning =>
    have hlt : k < (s.frames c).length :=
      h.around.arrived (c, k) fun hqueued => absurd (hqueued ▸ hrunning) (by decide)
    refine IsPrefix.trans ?_ (turns_prefix_turns hlt)
    rw [turns_succ]
    exact ⟨[.finish k], by rw [append_assoc]; rfl⟩
  · rw [append_nil]
    exact turns_prefix_turns (h.le_arrived hk)

/-- **Nothing is stuck.** With the microtask queue empty, a session whose frames have not all been
handled is in the middle of a handler. -/
theorem Invariant.progressing (h : Invariant s phase none) (hjobs : s.heap.jobs = []) (c : String) :
    Progressing s c := by
  have hnone : ∀ job, ¬ Due s.arrived phase job := by
    intro job hdue
    have := (h.heap.jobs job).mpr ⟨hdue, by simp⟩
    rw [hjobs] at this
    exact absurd this not_mem_nil
  obtain ⟨k, hk⟩ := h.placed c
  by_cases hrunning : (phase (c, k)).Running
  · have hlt : k < (s.frames c).length :=
      h.around.arrived (c, k) fun hqueued => absurd (hqueued ▸ hrunning) (by decide)
    refine Or.inr ⟨k, hlt, (h.around.stage _).mpr hrunning, ?_⟩
    rw [lifecycle_eq hk, if_pos hrunning]
  · refine Or.inl (h.complete hk ((h.le_arrived hk).antisymm (not_lt.mp fun hlt => ?_)))
    -- frame `k` is queued and the one before it is over, so its handler is about to be called
    have hqueued : phase (c, k) = .queued := by
      have hcurrent := hk.current
      grind
    refine hnone (.work (c, k)) ⟨hlt, hqueued, fun i (hi : k = i + 1) => ?_⟩
    have hbefore : ¬ (phase (c, i)).Unfinished := hk.before i (hi ▸ Nat.lt_succ_self i)
    have hfollow := hnone (.follow (c, i))
    have hrun := hnone (.settleRun (c, i))
    have htail := hnone (.settleTail (c, i))
    simp only [Due] at hfollow hrun htail
    cases hphase : phase (c, i) <;> simp_all [Phase.Unfinished, Phase.Over]

/-! ### The microtask queue runs empty -/

/-- How many jobs come of a job before a handler has to go on. -/
def weight (status : Promise → Promises.Status) : Job → ℕ
  | .work _ => 2
  | .follow ticket => if status (.handler ticket) = .pending then 1 else 6
  | .settleRun _ => 5
  | .settleTail _ => 4
  | .cleanup _ => 1

def Sys.work (s : Sys) : ℕ := (s.heap.jobs.map (weight s.heap.status)).sum

theorem weight_update (status : Promise → Promises.Status) (hp : ∀ ticket, p ≠ .handler ticket)
    (value : Promises.Status) : weight (update status p value) = weight status := by
  funext job
  cases job with
  | follow ticket => rw [weight, weight, update_of_ne (hp ticket).symm]
  | work | settleRun | settleTail | cleanup => rfl

theorem Invariant.work_runJob (h : Invariant s phase (some job)) (hdue : Due s.arrived phase job) :
    (s.runJob job).work < weight s.heap.status job + s.work := by
  cases job with
  | work ticket =>
    have hpending : s.heap.status (.handler ticket) = .pending :=
      h.heap.pending fun hsettled => hsettled (Or.inl hdue.2.1)
    simp [Sys.runJob, Sys.work, weight, hpending, Nat.add_comm]
  | follow ticket =>
    simp only [Sys.runJob, Sys.work, weight]
    split
    · next hpending =>
      rw [Promises.Heap.register_of_pending hpending]
      exact Nat.lt_one_add_iff.mpr le_rfl
    · next hsettled =>
      rw [Promises.Heap.register_of_settled hsettled]
      simp [weight, Nat.add_comm]
  | settleRun ticket =>
    have hphase : phase ticket = .returned := hdue
    have hpending : s.heap.status (.run ticket) = .pending :=
      h.heap.pending (by simp [Settled, hphase, Phase.Over])
    have hreact : s.heap.reactions (.run ticket) = [.settleTail ticket] := by
      rw [h.heap.reactions]
      simp [reactionsOf, hphase, Phase.Over, h.around.arrived ticket (by simp [hphase])]
    simp only [Sys.runJob, Sys.work, Promises.Heap.settle_of_pending hpending, hreact]
    rw [weight_update _ (by simp)]
    simp [weight, Nat.add_comm]
  | settleTail ticket =>
    have hphase : phase ticket = .ran := hdue
    have hpending : s.heap.status (.tail ticket) = .pending :=
      h.heap.pending (by simp [Settled, hphase, Phase.Over])
    have hreact : s.heap.reactions (.tail ticket) = .cleanup ticket ::
        if ticket.2 + 1 < s.arrived ticket.1 then [.work (ticket.1, ticket.2 + 1)] else [] := by
      rw [h.heap.reactions]
      simp [reactionsOf, hphase, Phase.Over, h.around.arrived ticket (by simp [hphase])]
    simp only [Sys.runJob, Sys.work, Promises.Heap.settle_of_pending hpending, hreact]
    rw [weight_update _ (by simp)]
    split
    all_goals
      simp [weight]
      omega
  | cleanup ticket =>
    have hheap : (s.runJob (.cleanup ticket)).heap = s.heap := by
      rw [Sys.runJob]
      split
      all_goals rfl
    rw [Sys.work, hheap, Sys.work, weight]
    exact Nat.lt_one_add_iff.mpr le_rfl

theorem frames_runJob (s : Sys) (job : Job) : (s.runJob job).frames = s.frames := by
  cases job with
  | cleanup ticket =>
    rw [Sys.runJob]
    split
    · rfl
    · rfl
  | work | follow | settleRun | settleTail => rfl

/-- **The microtask queue runs empty by itself.** -/
theorem Invariant.exists_drained (h : Invariant s phase none) :
    ∃ ticks t phase', (∀ act ∈ ticks, act = .tick) ∧ Runs.run Ingest.step ticks s = some t ∧
      Invariant t phase' none ∧ t.frames = s.frames ∧ t.heap.jobs = [] := by
  obtain ⟨ticks, t, hticks, hrun, ⟨⟨phase', ht⟩, hframes⟩, hgoal⟩ :=
    @Runs.exists_run_of_measure _ _ Ingest.step (· = .tick)
      (fun t => (∃ phase', Invariant t phase' none) ∧ t.frames = s.frames)
      (fun t => t.heap.jobs = []) Sys.work (fun u hu hne => by
        obtain ⟨⟨phase', hinv⟩, hframes⟩ := hu
        obtain ⟨job, jobs, hjobs⟩ := exists_cons_of_ne_nil hne
        obtain ⟨hdue, hpop⟩ := hinv.pop hjobs
        refine ⟨.tick, _, rfl, by rw [Ingest.step, hjobs], ⟨hpop.runJob hdue, ?_⟩, ?_⟩
        · rw [frames_runJob]
          exact hframes
        · refine (hpop.work_runJob hdue).trans_eq ?_
          rw [Sys.work, Sys.work, hjobs, map_cons, sum_cons]) s ⟨⟨phase, h⟩, rfl⟩
  exact ⟨ticks, t, phase', hticks, hrun, ht, hframes, hgoal⟩

/-! ### Every run -/

/-- **Per-session ingest order.** In every state of every run each session is handled in order, and
running the microtask queue empty, which always comes to an end, leaves no session with frames that
have not been handled and no handler running. -/
theorem ingest_inOrder {acts : List Act} {s : Sys} (hrun : Runs.run step acts init = some s) :
    (∀ c, InOrder s c) ∧
      ∃ ticks t, (∀ act ∈ ticks, act = .tick) ∧ Runs.run step ticks s = some t ∧
        t.frames = s.frames ∧ t.heap.jobs = [] ∧ ∀ c, InOrder t c ∧ Progressing t c := by
  obtain ⟨phase, h⟩ : ∃ phase, Invariant s phase none :=
    @Runs.invariant _ _ step (fun s => ∃ phase, Invariant s phase none)
      (fun _ _ _ ⟨_, h⟩ hstep => h.step hstep) acts init s hrun ⟨_, Invariant.init⟩
  obtain ⟨ticks, t, phase', hticks, hdrain, ht, hframes, hjobs⟩ := h.exists_drained
  exact ⟨h.inOrder, ticks, t, hticks, hdrain, hframes, hjobs,
    fun c => ⟨ht.inOrder c, ht.progressing hjobs c⟩⟩

/-- Session `a` has an output, whose chunk is slow to insert, and an event; the handler of a status
frame between them fails. Session `b` has a grid frame. -/
def slowOutput : List Act :=
  [.enqueue "a" (.output [104, 105] 0), .tick, .tick, .enqueue "a" (.status "ready"),
    .enqueue "b" .grid, .enqueue "a" (.event "settled" none none), .tick, .tick,
    .resume ("a", 0) (.resolved 1) false 100, .resume ("b", 0) (.resolved 1) false 100,
    .resume ("a", 0) (.resolved 1) false 100, .tick, .tick, .tick,
    .resume ("a", 0) (.resolved 1) false 100, .resume ("a", 0) (.resolved 0) false 100,
    .tick, .tick, .tick, .tick, .tick, .resume ("a", 1) .rejected false 100,
    .tick, .tick, .tick, .tick, .tick, .resume ("a", 2) (.resolved 1) false 100,
    .tick, .tick, .tick]

/-- The output goes out before the event, and the queue of `a` is gone. -/
theorem ingest_inOrder_slowOutput :
    ∃ s, Runs.run step slowOutput init = some s ∧
      s.log "a" = [.start 0, .emit 0 (.output [104, 105] 0 2), .finish 0, .start 1, .finish 1,
        .start 2, .emit 2 (.event "settled"), .finish 2] ∧
      s.sessionIngestQueues "a" = none ∧ InOrder s "a" := by
  obtain ⟨s, hs, hv⟩ := Option.map_eq_some_iff.mp
    (show (Runs.run step slowOutput init).map (fun s => (s.log "a", s.sessionIngestQueues "a")) =
      some ([.start 0, .emit 0 (.output [104, 105] 0 2), .finish 0, .start 1, .finish 1,
        .start 2, .emit 2 (.event "settled"), .finish 2], none) by decide)
  simp only [Prod.mk.injEq] at hv
  exact ⟨s, hs, hv.1, hv.2, (ingest_inOrder hs).1 "a"⟩

end Bud.Ingest
