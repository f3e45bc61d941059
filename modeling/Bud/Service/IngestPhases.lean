import Bud.Service.Ingest

/-!
# Where each frame of the ingest queue stands

A frame goes through eight phases, from its handler waiting in the queue to its `cleanup` having
run. Which promises are settled, which callbacks wait on them, which jobs are in the microtask queue
and what the map holds is all determined by how many frames each session has and which phase each is
in. So the promises of the queue can be forgotten: an action moves one frame on by one phase, or
adds one.

## What is load-bearing

`chain`: a frame whose handler has been called has every frame before it over. The handler of a new
frame waits on the `tail` of the frame before it; a `tail` that has settled, or has been taken out
of the map, belongs to a frame that is over. That the entry is taken out by its own `cleanup` only,
and only while it is the last, is what keeps a session from having two chains.
-/

namespace Bud.Ingest

open List Function

/-! ### Phases -/

inductive Phase where
  /-- `work` has not been called. -/
  | queued
  /-- The handler runs, and `run` has yet to follow its promise. -/
  | called
  /-- The handler ended before `run` followed its promise. -/
  | early
  /-- The handler runs, and `run` waits for it. -/
  | awaiting
  /-- The handler has ended, and `run` is about to settle. -/
  | returned
  /-- `run` has settled. -/
  | ran
  | settled
  /-- `cleanup` has run. -/
  | done
  deriving DecidableEq

namespace Phase

/-- The handler has not ended. -/
@[grind] def Unfinished (phase : Phase) : Prop :=
  phase = .queued ∨ phase = .called ∨ phase = .awaiting

@[grind] def Running (phase : Phase) : Prop := phase = .called ∨ phase = .awaiting

/-- `tail` has settled, and the next handler may be called. -/
@[grind] def Over (phase : Phase) : Prop := phase = .settled ∨ phase = .done

instance : DecidablePred Unfinished := fun _ => inferInstanceAs (Decidable (_ ∨ _))

instance : DecidablePred Running := fun _ => inferInstanceAs (Decidable (_ ∨ _))

instance : DecidablePred Over := fun _ => inferInstanceAs (Decidable (_ ∨ _))

end Phase

/-! ### The queue as the phases determine it -/

def Settled (phase : Ticket → Phase) : Promise → Prop
  | .resolved => True
  | .handler t => ¬ (phase t).Unfinished
  | .run t => phase t = .ran ∨ (phase t).Over
  | .tail t => (phase t).Over

def reactionsOf (arrived : String → ℕ) (phase : Ticket → Phase) : Promise → List Job
  | .resolved => []
  | .handler t => if phase t = .awaiting then [.settleRun t] else []
  | .run t =>
    if t.2 < arrived t.1 ∧ phase t ≠ .ran ∧ ¬ (phase t).Over then [.settleTail t] else []
  | .tail t =>
    if t.2 < arrived t.1 ∧ ¬ (phase t).Over then
      .cleanup t :: (if t.2 + 1 < arrived t.1 then [.work (t.1, t.2 + 1)] else [])
    else []

def Due (arrived : String → ℕ) (phase : Ticket → Phase) : Job → Prop
  | .work t => t.2 < arrived t.1 ∧ phase t = .queued ∧ ∀ i, t.2 = i + 1 → (phase (t.1, i)).Over
  | .follow t => phase t = .called ∨ phase t = .early
  | .settleRun t => phase t = .returned
  | .settleTail t => phase t = .ran
  | .cleanup t => phase t = .settled

/-- What the map holds for a session: its last frame, until that one is done. -/
def lastOf (arrived : String → ℕ) (phase : Ticket → Phase) (sessionId : String) : Option ℕ :=
  match arrived sessionId with
  | 0 => none
  | i + 1 => if phase (sessionId, i) = .done then none else some i

def Sys.arrived (s : Sys) (sessionId : String) : ℕ := (s.frames sessionId).length

/-- The promises and jobs are those of the phases, but for a job that has just been taken. -/
structure HeapOf (arrived : String → ℕ) (phase : Ticket → Phase) (taken : Option Job)
    (heap : Promises.Heap Promise Job) : Prop where
  status : ∀ p, heap.status p ≠ .pending ↔ Settled phase p
  reactions : ∀ p, heap.reactions p = reactionsOf arrived phase p
  nodup : heap.jobs.Nodup
  jobs : ∀ job, job ∈ heap.jobs ↔ Due arrived phase job ∧ some job ≠ taken

/-- The rest of the state is that of the phases, and handlers are called in order. -/
structure Around (s : Sys) (phase : Ticket → Phase) : Prop where
  queues : ∀ c, s.sessionIngestQueues c = lastOf s.arrived phase c
  stage : ∀ t, (s.stage t).isSome ↔ (phase t).Running
  arrived : ∀ t, phase t ≠ .queued → t.2 < s.arrived t.1
  chain : ∀ c i, phase (c, i + 1) ≠ .queued → (phase (c, i)).Over

variable {s : Sys} {arrived : String → ℕ} {phase : Ticket → Phase} {t : Ticket} {job : Job}
  {jobs : List Job} {heap : Promises.Heap Promise Job}

/-! ### Taking a job -/

theorem HeapOf.pop (h : HeapOf arrived phase none heap) (hjobs : heap.jobs = job :: jobs) :
    Due arrived phase job ∧ HeapOf arrived phase (some job) { heap with jobs := jobs } := by
  have hnodup := h.nodup
  have hmem := h.jobs
  rw [hjobs, nodup_cons] at hnodup
  rw [hjobs] at hmem
  refine ⟨((hmem job).mp mem_cons_self).1, h.status, h.reactions, hnodup.2, fun job' => ?_⟩
  have := hmem job'
  grind

theorem HeapOf.pending (h : HeapOf arrived phase taken heap) (hp : ¬ Settled phase p) :
    heap.status p = .pending := by
  by_contra hne
  exact hp ((h.status p).mp hne)

/-! ### Running a job -/

theorem HeapOf.work (h : HeapOf arrived phase (some (.work t)) heap)
    (hdue : Due arrived phase (.work t)) :
    HeapOf arrived (update phase t .called) none
      { heap with jobs := heap.jobs ++ [.follow t] } := by
  obtain ⟨hlt, hqueued, hpred⟩ := hdue
  have hst := h.status
  have hre := h.reactions
  have hmem := h.jobs
  refine ⟨fun p => ?_, fun p => ?_, ?_, fun job => ?_⟩
  · rw [hst]
    cases p <;> simp only [Settled, update_apply] <;> grind
  · rw [hre]
    cases p <;> simp only [reactionsOf, update_apply] <;> grind
  · have hnew := hmem (.follow t)
    simp only [Due] at hnew
    grind [h.nodup]
  · rw [mem_append, hmem]
    cases job <;> simp only [Due, update_apply] <;> grind

theorem HeapOf.follow_called (h : HeapOf arrived phase (some (.follow t)) heap)
    (hphase : phase t = .called) :
    HeapOf arrived (update phase t .awaiting) none (heap.register (.handler t) (.settleRun t)) := by
  have hst := h.status
  have hre := h.reactions
  have hmem := h.jobs
  rw [Promises.Heap.register_of_pending (h.pending (by simp [Settled, hphase, Phase.Unfinished]))]
  refine ⟨fun p => ?_, fun p => ?_, h.nodup, fun job => ?_⟩
  · rw [hst]
    cases p <;> simp only [Settled, update_apply] <;> grind
  · cases p <;> simp only [reactionsOf, update_apply, hre] <;> grind
  · rw [hmem]
    cases job <;> simp only [Due, update_apply] <;> grind

theorem HeapOf.follow_early (h : HeapOf arrived phase (some (.follow t)) heap)
    (hphase : phase t = .early) :
    HeapOf arrived (update phase t .returned) none (heap.register (.handler t) (.settleRun t)) := by
  have hst := h.status
  have hre := h.reactions
  have hmem := h.jobs
  rw [Promises.Heap.register_of_settled ((hst _).mpr (by simp [Settled, hphase, Phase.Unfinished]))]
  refine ⟨fun p => ?_, fun p => ?_, ?_, fun job => ?_⟩
  · rw [hst]
    cases p <;> simp only [Settled, update_apply] <;> grind
  · rw [hre]
    cases p <;> simp only [reactionsOf, update_apply] <;> grind
  · have hnew := hmem (.settleRun t)
    simp only [Due] at hnew
    grind [h.nodup]
  · rw [mem_append, hmem]
    cases job <;> simp only [Due, update_apply] <;> grind

theorem HeapOf.settleRun (h : HeapOf arrived phase (some (.settleRun t)) heap)
    (hphase : phase t = .returned) (hlt : t.2 < arrived t.1) :
    HeapOf arrived (update phase t .ran) none
      (heap.settle (.run t) (heap.status (.handler t))) := by
  have hst := h.status
  have hre := h.reactions
  have hmem := h.jobs
  have hreact : heap.reactions (.run t) = [.settleTail t] := by
    rw [hre]
    simp [reactionsOf, hphase, hlt, Phase.Over]
  rw [Promises.Heap.settle_of_pending (h.pending (by simp [Settled, hphase, Phase.Over])), hreact]
  refine ⟨fun p => ?_, fun p => ?_, ?_, fun job => ?_⟩
  · have := hst p
    have := hst (.handler t)
    cases p <;> simp only [Settled, update_apply] at * <;> grind
  · cases p <;> simp only [reactionsOf, update_apply, hre] <;> grind
  · have hnew := hmem (.settleTail t)
    simp only [Due] at hnew
    grind [h.nodup]
  · rw [mem_append, hmem]
    cases job <;> simp only [Due, update_apply] <;> grind

theorem HeapOf.settleTail (h : HeapOf arrived phase (some (.settleTail t)) heap)
    (hphase : phase t = .ran) (hlt : t.2 < arrived t.1)
    (hnext : phase (t.1, t.2 + 1) = .queued) :
    HeapOf arrived (update phase t .settled) none (heap.settle (.tail t) .fulfilled) := by
  have hst := h.status
  have hre := h.reactions
  have hmem := h.jobs
  have hreact : heap.reactions (.tail t) =
      .cleanup t :: (if t.2 + 1 < arrived t.1 then [.work (t.1, t.2 + 1)] else []) := by
    rw [hre]
    simp [reactionsOf, hphase, hlt, Phase.Over]
  rw [Promises.Heap.settle_of_pending (h.pending (by simp [Settled, hphase, Phase.Over])), hreact]
  refine ⟨fun p => ?_, fun p => ?_, ?_, fun job => ?_⟩
  · have := hst p
    cases p <;> simp only [Settled, update_apply] at * <;> grind
  · cases p <;> simp only [reactionsOf, update_apply, hre] <;> grind
  · have hclean := hmem (.cleanup t)
    have hwork := hmem (.work (t.1, t.2 + 1))
    simp only [Due] at hclean hwork
    have := hwork
    grind [h.nodup]
  · rw [mem_append, hmem]
    cases job <;> simp only [Due, update_apply] <;> grind

theorem HeapOf.cleanup (h : HeapOf arrived phase (some (.cleanup t)) heap)
    (hphase : phase t = .settled) : HeapOf arrived (update phase t .done) none heap := by
  have hst := h.status
  have hre := h.reactions
  have hmem := h.jobs
  refine ⟨fun p => ?_, fun p => ?_, h.nodup, fun job => ?_⟩
  · rw [hst]
    cases p <;> simp only [Settled, update_apply] <;> grind
  · rw [hre]
    cases p <;> simp only [reactionsOf, update_apply] <;> grind
  · rw [hmem]
    cases job <;> simp only [Due, update_apply] <;> grind

/-! ### The end of a handler -/

theorem HeapOf.finish_called (h : HeapOf arrived phase none heap) (hphase : phase t = .called)
    {status : Promises.Status} (hstatus : status ≠ .pending) :
    HeapOf arrived (update phase t .early) none (heap.settle (.handler t) status) := by
  have hst := h.status
  have hre := h.reactions
  have hmem := h.jobs
  have hreact : heap.reactions (.handler t) = [] := by
    rw [hre]
    simp [reactionsOf, hphase]
  rw [Promises.Heap.settle_of_pending
    (h.pending (by simp [Settled, hphase, Phase.Unfinished])), hreact, append_nil]
  refine ⟨fun p => ?_, fun p => ?_, h.nodup, fun job => ?_⟩
  · have := hst p
    cases p <;> simp only [Settled, update_apply] at * <;> grind
  · cases p <;> simp only [reactionsOf, update_apply, hre] <;> grind
  · rw [hmem]
    cases job <;> simp only [Due, update_apply] <;> grind

theorem HeapOf.finish_awaiting (h : HeapOf arrived phase none heap) (hphase : phase t = .awaiting)
    {status : Promises.Status} (hstatus : status ≠ .pending) :
    HeapOf arrived (update phase t .returned) none (heap.settle (.handler t) status) := by
  have hst := h.status
  have hre := h.reactions
  have hmem := h.jobs
  have hreact : heap.reactions (.handler t) = [.settleRun t] := by
    rw [hre]
    simp [reactionsOf, hphase]
  rw [Promises.Heap.settle_of_pending
    (h.pending (by simp [Settled, hphase, Phase.Unfinished])), hreact]
  refine ⟨fun p => ?_, fun p => ?_, ?_, fun job => ?_⟩
  · have := hst p
    cases p <;> simp only [Settled, update_apply] at * <;> grind
  · cases p <;> simp only [reactionsOf, update_apply, hre] <;> grind
  · have hnew := hmem (.settleRun t)
    simp only [Due] at hnew
    grind [h.nodup]
  · rw [mem_append, hmem]
    cases job <;> simp only [Due, update_apply] <;> grind

/-! ### A new frame -/

theorem HeapOf.enqueue (h : HeapOf arrived phase none heap) {prev : Promise}
    (hqueued : phase (c, arrived c) = .queued)
    (hpending : ¬ Settled phase prev → ∃ i, arrived c = i + 1 ∧ prev = .tail (c, i))
    (hsettled : Settled phase prev → ∀ i, arrived c = i + 1 → (phase (c, i)).Over) :
    HeapOf (update arrived c (arrived c + 1)) phase none
      (((heap.register prev (.work (c, arrived c))).register (.run (c, arrived c))
        (.settleTail (c, arrived c))).register (.tail (c, arrived c))
          (.cleanup (c, arrived c))) := by
  have hre := h.reactions
  have hmem := h.jobs
  have hrun : heap.status (.run (c, arrived c)) = .pending :=
    h.pending (by simp [Settled, hqueued, Phase.Over])
  have htail : heap.status (.tail (c, arrived c)) = .pending :=
    h.pending (by simp [Settled, hqueued, Phase.Over])
  rw [Promises.Heap.register_of_pending (p := Promise.tail _) (by simpa using htail),
    Promises.Heap.register_of_pending (p := Promise.run _) (by simpa using hrun)]
  by_cases hprev : Settled phase prev
  · rw [Promises.Heap.register_of_settled ((h.status prev).mpr hprev)]
    have hover := hsettled hprev
    refine ⟨h.status, fun p => ?_, ?_, fun job => ?_⟩
    · cases p <;> simp only [reactionsOf, update_apply, hre] <;> grind
    · have hnew := hmem (.work (c, arrived c))
      simp only [Due] at hnew
      grind [h.nodup]
    · rw [mem_append, hmem]
      cases job <;> simp only [Due, update_apply] <;> grind
  · rw [Promises.Heap.register_of_pending (h.pending hprev)]
    obtain ⟨i, hi, rfl⟩ := hpending hprev
    have hnot : ¬ (phase (c, i)).Over := hprev
    refine ⟨h.status, fun p => ?_, h.nodup, fun job => ?_⟩
    · cases p <;> simp only [reactionsOf, update_apply, hre] <;> grind
    · rw [hmem]
      cases job
      all_goals simp only [Due, update_apply]
      all_goals grind

/-! ### The rest of the state -/

theorem Around.queued_next (h : Around s phase) (c : String) :
    phase (c, s.arrived c) = .queued := by
  by_contra hne
  exact absurd (h.arrived _ hne) (lt_irrefl _)

/-- A frame whose handler was called has its successor waiting until it is over. -/
theorem Around.queued_succ (h : Around s phase) (hover : ¬ (phase t).Over) :
    phase (t.1, t.2 + 1) = .queued := by
  by_contra hne
  exact hover (h.chain t.1 t.2 hne)

/-- A frame moves on, up to its `tail` having settled. -/
theorem Around.move (h : Around s phase) {b : Phase} (hlt : t.2 < s.arrived t.1)
    (hpred : ∀ i, t.2 = i + 1 → (phase (t.1, i)).Over) (hdone : phase t ≠ .done ∧ b ≠ .done)
    (hover : (phase t).Over → b.Over) (hframes : s'.frames = s.frames)
    (hqueues : s'.sessionIngestQueues = s.sessionIngestQueues)
    (hstage : ∀ t', (s'.stage t').isSome ↔ if t' = t then b.Running else (s.stage t').isSome) :
    Around s' (update phase t b) := by
  have harrived : s'.arrived = s.arrived := by
    funext c
    rw [Sys.arrived, hframes, Sys.arrived]
  refine ⟨fun c => ?_, fun t' => ?_, fun t' => ?_, fun c i => ?_⟩
  · rw [hqueues, h.queues, harrived, lastOf, lastOf]
    grind
  · rw [hstage, h.stage]
    grind
  · have := h.arrived t'
    rw [harrived]
    grind
  · have := h.chain c i
    grind

/-- The same for a frame whose handler has been called. -/
theorem Around.moveOn (h : Around s phase) {b : Phase} (hqueued : phase t ≠ .queued)
    (hdone : phase t ≠ .done ∧ b ≠ .done) (hover : (phase t).Over → b.Over)
    (hframes : s'.frames = s.frames) (hqueues : s'.sessionIngestQueues = s.sessionIngestQueues)
    (hstage : ∀ t', (s'.stage t').isSome ↔ if t' = t then b.Running else (s.stage t').isSome) :
    Around s' (update phase t b) := by
  refine h.move (h.arrived t hqueued) (fun i hi => h.chain t.1 i ?_) hdone hover hframes hqueues
    hstage
  rwa [← hi]

theorem Around.cleanup (h : Around s phase) (hphase : phase t = .settled) :
    Around (s.runJob (.cleanup t)) (update phase t .done) := by
  have hqueues : ∀ c, (s.runJob (.cleanup t)).sessionIngestQueues c =
      if c = t.1 ∧ s.sessionIngestQueues c = some t.2 then none
      else s.sessionIngestQueues c := by
    intro c
    rw [Sys.runJob]
    split
    · next hlast =>
      simp only [update_apply]
      grind
    · grind
  have hrest : (s.runJob (.cleanup t)).stage = s.stage ∧
      (s.runJob (.cleanup t)).arrived = s.arrived := by
    rw [Sys.runJob]
    split
    all_goals exact ⟨rfl, rfl⟩
  have hlt : t.2 < s.arrived t.1 := h.arrived t (by simp [hphase])
  refine ⟨fun c => ?_, fun t' => ?_, fun t' => ?_, fun c i => ?_⟩
  · rw [hqueues, h.queues, hrest.2, lastOf, lastOf]
    grind
  · rw [hrest.1, h.stage]
    grind
  · have := h.arrived t'
    rw [hrest.2]
    grind
  · have := h.chain c i
    grind

theorem arrived_enqueue (s : Sys) (c : String) (frame : Frame) :
    (enqueueSessionIngest s c frame).arrived = update s.arrived c (s.arrived c + 1) := by
  funext c'
  simp only [Sys.arrived, enqueueSessionIngest, update_apply]
  split
  · rw [length_append, length_singleton]
  · rfl

theorem Around.enqueue (h : Around s phase) (c : String) (frame : Frame) :
    Around (enqueueSessionIngest s c frame) phase := by
  have hqueued := h.queued_next c
  refine ⟨fun c' => ?_, h.stage, fun t' => ?_, h.chain⟩
  · show update s.sessionIngestQueues c (some (s.arrived c)) c' = _
    have := h.queues c'
    rw [arrived_enqueue, lastOf, update_apply, update_apply]
    rw [lastOf] at this
    grind
  · have := h.arrived t'
    rw [arrived_enqueue, update_apply]
    grind

/-- A new frame's handler is registered on the frame before it, unless that one is over. -/
theorem Around.prev_of_not_settled (h : Around s phase) (hprev : ¬ Settled phase (s.prev c)) :
    ∃ i, s.arrived c = i + 1 ∧ s.prev c = .tail (c, i) := by
  rw [Sys.prev, h.queues, lastOf] at hprev ⊢
  split
  · next hzero => simp [hzero, Settled] at hprev
  · next i hsucc =>
    split
    · next hdone => simp [hsucc, hdone, Settled] at hprev
    · exact ⟨i, hsucc, rfl⟩

theorem Around.over_of_settled (h : Around s phase) (hprev : Settled phase (s.prev c))
    (hi : s.arrived c = i + 1) : (phase (c, i)).Over := by
  simp only [Sys.prev, h.queues, lastOf, hi] at hprev
  split at hprev
  · next hdone => exact Or.inr hdone
  · exact hprev

end Bud.Ingest
