import Bud.DataPlane.Router
import Bud.Lib.Runs
import Mathlib.Algebra.GroupWithZero.Nat
import Mathlib.Data.List.Perm.Basic

/-!
# The limit on concurrent file streams

`openFileEdgeStream` of `file-edge.ts` refuses a request when the Bud already has as many active
file streams as configured. It counts them first, then waits for five database calls, and only
then registers its own stream, so between a request's check and its registration any other
request can do the same.

The service is one thread: everything between two `await`s is one action here, and an interleaving
is a list of actions.

## Modelling notes

A tracker that is replaced in `dataPlaneSessions`, finalized or no longer active stops counting,
for good: `connected` is false from then on. What can happen to a registered file stream is that
its peer closes it (it stays in the table until the open result arrived) or that it ends, which
takes it out; a reset ends it, because `onReset` runs the edge's cleanup.

## What is load-bearing

The requests that have passed the check are invisible to the next check. The limit holds as long as
each request, when it passes the check, leaves room for those that passed before it.
-/

namespace Bud.DataPlane

namespace Capacity

open List Option

/-! ### Trackers -/

/-- `"file_read"`, the type of a file stream. -/
def fileReadStreamType : String := "file_read"

/-- The part of `DataPlaneSessionTracker` the limit reads. -/
structure Tracker where
  budId : String
  /-- In `dataPlaneSessions`, not finalized, and its carrier is up. -/
  connected : Bool
  initialCreditBytes : ℕ
  runtimeStreams : List (ℕ × RuntimeStream)

/-- Of type `streamType`, and neither reset nor closed at both ends. -/
def isActive (streamType : String) (stream : ℕ × RuntimeStream) : Bool :=
  decide (stream.2.streamType = streamType) &&
    !(stream.2.isReset || (stream.2.localClosed && stream.2.remoteClosed))

def Tracker.countActive (budId streamType : String) (tracker : Tracker) : ℕ :=
  if tracker.budId ≠ budId ∨ tracker.connected = false then 0
  else tracker.runtimeStreams.countP (isActive streamType)

def countActiveDataPlaneRuntimeStreamsForBud (trackers : List Tracker)
    (budId streamType : String) : ℕ :=
  (trackers.map (Tracker.countActive budId streamType)).sum

structure CapacityError where
  activeStreams : ℕ
  code : String
  message : String

def checkDataPlaneRuntimeStreamCapacity (trackers : List Tracker) (budId streamType : String)
    (maxConcurrentStreams : ℕ) : Except CapacityError ℕ :=
  let activeStreams := countActiveDataPlaneRuntimeStreamsForBud trackers budId streamType
  if activeStreams < maxConcurrentStreams then .ok activeStreams
  else
    .error
      { activeStreams := activeStreams
        code := "DATA_PLANE_STREAM_LIMIT_EXCEEDED"
        message := "Bud already has " ++ toString activeStreams ++ " active " ++ streamType ++
          " stream(s)" }

/-- An id that is in the table keeps its record. -/
def registerDataPlaneRuntimeStream (streamId : ℕ) (stream : RuntimeStream) (tracker : Tracker) :
    Tracker :=
  if tracker.runtimeStreams.any fun entry => entry.1 == streamId then tracker
  else { tracker with runtimeStreams := tracker.runtimeStreams ++ [(streamId, stream)] }

def registerFileStream (streamId : ℕ) (tracker : Tracker) : Tracker :=
  registerDataPlaneRuntimeStream streamId
    (RuntimeStream.new fileReadStreamType tracker.initialCreditBytes) tracker

def remoteClose (streamId : ℕ) (tracker : Tracker) : Tracker :=
  { tracker with runtimeStreams := tracker.runtimeStreams.map fun entry =>
      if entry.1 = streamId then (entry.1, { entry.2 with remoteClosed := true }) else entry }

/-- `runtimeStreams.delete(streamId)`, in the edge's cleanup. -/
def deleteStream (streamId : ℕ) (tracker : Tracker) : Tracker :=
  { tracker with runtimeStreams := tracker.runtimeStreams.filter fun entry => entry.1 ≠ streamId }

/-! ### Requests -/

/-- A request that has passed the check. -/
structure Request where
  tracker : ℕ
  budId : String
  streamId : ℕ
  /-- The database calls it has still to wait for. -/
  awaiting : ℕ

/-- `resolveThreadTerminalSessionId`, `createOperation`, `createStream`, the update of the file
session and `appendAuditEvent`. -/
def awaits : ℕ := 5

structure Sys where
  trackers : List Tracker
  requests : List Request
  /-- Stream ids are fresh. -/
  nextStreamId : ℕ
  /-- Requests answered with 429. -/
  refused : ℕ

def init : Sys := { trackers := [], requests := [], nextStreamId := 0, refused := 0 }

inductive Act where
  | attach (budId : String) (initialCreditBytes : ℕ)
  /-- Tracker `k` is replaced, finalized or loses its carrier. -/
  | detach (k : ℕ)
  /-- A file request selects tracker `k` and checks the capacity. -/
  | request (k : ℕ)
  /-- The database call request `r` waits for returns; after the last it registers its stream. -/
  | resume (r : ℕ)
  /-- The database call request `r` waits for fails, and the request with it. -/
  | fail (r : ℕ)
  | closed (k streamId : ℕ)
  | ended (k streamId : ℕ)
  /-- Another edge registers a stream of its own type. -/
  | other (k : ℕ) (streamType : String) (initialReceiveCreditBytes : ℕ)

/-- `openFileEdgeStream` up to its first `await`. -/
def openFileEdgeStream (maxConcurrentStreams : ℕ) (s : Sys) (k : ℕ) (tracker : Tracker) : Sys :=
  match checkDataPlaneRuntimeStreamCapacity s.trackers tracker.budId fileReadStreamType
      maxConcurrentStreams with
  | .error _ => { s with refused := s.refused + 1 }
  | .ok _ =>
    { s with
      requests := s.requests ++
        [{ tracker := k, budId := tracker.budId, streamId := s.nextStreamId, awaiting := awaits }]
      nextStreamId := s.nextStreamId + 1 }

/-- `openFileEdgeStream` after one of its `await`s. -/
def resume (s : Sys) (r : ℕ) (request : Request) : Sys :=
  if request.awaiting ≤ 1 then
    { s with
      requests := s.requests.eraseIdx r
      trackers := s.trackers.modify request.tracker (registerFileStream request.streamId) }
  else
    { s with requests := s.requests.set r { request with awaiting := request.awaiting - 1 } }

def step (maxConcurrentStreams : ℕ) (s : Sys) : Act → Option Sys
  | .attach budId initialCreditBytes =>
    some { s with
      trackers := s.trackers ++
        [{ budId := budId
           connected := true
           initialCreditBytes := initialCreditBytes
           runtimeStreams := [] }] }
  | .detach k =>
    some { s with
      trackers := s.trackers.modify k fun tracker => { tracker with connected := false } }
  | .request k =>
    match s.trackers[k]? with
    | some tracker =>
      if tracker.connected then some (openFileEdgeStream maxConcurrentStreams s k tracker) else none
    | none => none
  | .resume r => (s.requests[r]?).map (resume s r)
  | .fail r => (s.requests[r]?).map fun _ => { s with requests := s.requests.eraseIdx r }
  | .closed k streamId => some { s with trackers := s.trackers.modify k (remoteClose streamId) }
  | .ended k streamId => some { s with trackers := s.trackers.modify k (deleteStream streamId) }
  | .other k streamType initialReceiveCreditBytes =>
    if streamType = fileReadStreamType then none
    else
      some { s with
        trackers := s.trackers.modify k
          (registerDataPlaneRuntimeStream s.nextStreamId
            (RuntimeStream.new streamType initialReceiveCreditBytes))
        nextStreamId := s.nextStreamId + 1 }

/-! ### The condition -/

def active (s : Sys) (budId : String) : ℕ :=
  countActiveDataPlaneRuntimeStreamsForBud s.trackers budId fileReadStreamType

/-- The Bud's requests that have passed the check and have not registered. -/
def pending (s : Sys) (budId : String) : ℕ :=
  s.requests.countP fun request => decide (request.budId = budId)

/-- A request that finds the active streams below the limit also finds them below it together with
the requests that passed before it. -/
def LeavesRoom (maxConcurrentStreams : ℕ) (s : Sys) : Act → Prop
  | .request k => ∀ tracker ∈ s.trackers[k]?,
      active s tracker.budId < maxConcurrentStreams →
        active s tracker.budId + pending s tracker.budId < maxConcurrentStreams
  | _ => True

instance (maxConcurrentStreams : ℕ) (s : Sys) :
    ∀ act, Decidable (LeavesRoom maxConcurrentStreams s act)
  | .request k => inferInstanceAs (Decidable (∀ tracker ∈ s.trackers[k]?,
      active s tracker.budId < maxConcurrentStreams →
        active s tracker.budId + pending s tracker.budId < maxConcurrentStreams))
  | .attach .. | .detach _ | .resume _ | .fail _ | .closed .. | .ended .. | .other .. =>
    .isTrue trivial

/-! ### Counting -/

/-- Changing one tracker changes the count by no more than it changes that tracker's part. -/
theorem sum_modify_le {α : Type*} (g : α → ℕ) {f : α → α} :
    ∀ (l : List α) (k : ℕ), (∀ a ∈ l[k]?, g (f a) ≤ g a + d) →
      ((l.modify k f).map g).sum ≤ (l.map g).sum + d := by
  intro l
  induction l with
  | nil => intro k _; cases k <;> simp
  | cons a l ih =>
    rintro (_ | k) hf
    · have := hf a rfl
      simp only [modify_zero_cons, map_cons, sum_cons]
      omega
    · have := ih k (by simpa using hf)
      simp only [modify_succ_cons, map_cons, sum_cons]
      omega

theorem countActive_detach_le (budId streamType : String) (tracker : Tracker) :
    Tracker.countActive budId streamType { tracker with connected := false } ≤
      Tracker.countActive budId streamType tracker := by
  rw [Tracker.countActive, if_pos (.inr rfl)]
  exact Nat.zero_le _

theorem countActive_remoteClose_le (budId streamType : String) (streamId : ℕ) (tracker : Tracker) :
    Tracker.countActive budId streamType (remoteClose streamId tracker) ≤
      Tracker.countActive budId streamType tracker := by
  rw [Tracker.countActive, Tracker.countActive, remoteClose]
  split
  · exact Nat.zero_le _
  · rw [countP_map]
    refine countP_mono_left fun entry _ hactive => ?_
    rw [Function.comp_apply] at hactive
    split at hactive
    · simp only [isActive, RuntimeStream.isReset, Bool.and_true, Bool.and_eq_true,
        Bool.not_eq_true', Bool.or_eq_false_iff] at hactive ⊢
      exact ⟨hactive.1, hactive.2.1, by rw [hactive.2.2, Bool.false_and]⟩
    · exact hactive

theorem countActive_deleteStream_le (budId streamType : String) (streamId : ℕ) (tracker : Tracker) :
    Tracker.countActive budId streamType (deleteStream streamId tracker) ≤
      Tracker.countActive budId streamType tracker := by
  rw [Tracker.countActive, Tracker.countActive, deleteStream]
  split
  · exact Nat.zero_le _
  · exact filter_sublist.countP_le

/-- A registration adds at most its own stream, and only to its Bud's count of its type. -/
theorem countActive_register_le (budId streamType : String) (streamId : ℕ) (stream : RuntimeStream)
    (tracker : Tracker) :
    Tracker.countActive budId streamType (registerDataPlaneRuntimeStream streamId stream tracker) ≤
      Tracker.countActive budId streamType tracker +
        if tracker.budId = budId ∧ stream.streamType = streamType then 1 else 0 := by
  rw [registerDataPlaneRuntimeStream]
  split
  · exact Nat.le_add_right _ _
  · rw [Tracker.countActive, Tracker.countActive]
    split
    · exact Nat.zero_le _
    · next hcounts =>
      have hbud : tracker.budId = budId := by
        by_contra hne
        exact hcounts (.inl hne)
      rw [countP_append, countP_singleton]
      by_cases htype : stream.streamType = streamType
      · rw [if_pos (And.intro hbud htype)]
        split <;> omega
      · rw [if_neg (show ¬ isActive streamType (streamId, stream) = true by simp [isActive, htype])]
        exact Nat.le_add_right _ _

/-! ### The invariant -/

/-- The active streams and the requests that will register one keep within the limit, for every
Bud; each request's tracker belongs to its Bud. -/
structure Inv (maxConcurrentStreams : ℕ) (s : Sys) : Prop where
  limit : ∀ budId, active s budId + pending s budId ≤ maxConcurrentStreams
  budId_eq : ∀ request ∈ s.requests,
    (s.trackers[request.tracker]?).map Tracker.budId = some request.budId

theorem inv_init (maxConcurrentStreams : ℕ) : Inv maxConcurrentStreams init :=
  ⟨fun _ => Nat.zero_le _, fun _ h => absurd h not_mem_nil⟩

theorem budId_modify {trackers : List Tracker} (hf : ∀ tracker, (f tracker).budId = tracker.budId)
    (k i : ℕ) :
    ((trackers.modify k f)[i]?).map Tracker.budId = (trackers[i]?).map Tracker.budId := by
  rw [getElem?_modify]
  rcases trackers[i]? with _ | tracker
  · rfl
  · by_cases hki : k = i
    · simpa [hki] using hf tracker
    · simp [hki]

variable {maxConcurrentStreams : ℕ} {s : Sys} {request : Request}

/-- A change of one tracker that makes nothing active. -/
theorem Inv.modify {s' : Sys} (h : Inv maxConcurrentStreams s)
    (htrackers : s'.trackers = s.trackers.modify k f) (hrequests : s'.requests = s.requests)
    (hbud : ∀ tracker, (f tracker).budId = tracker.budId)
    (hf : ∀ tracker budId, Tracker.countActive budId fileReadStreamType (f tracker) ≤
      Tracker.countActive budId fileReadStreamType tracker) : Inv maxConcurrentStreams s' := by
  constructor
  · intro budId
    have hactive : active s' budId ≤ active s budId + 0 := by
      rw [active, htrackers]
      exact sum_modify_le _ _ _ fun tracker _ => hf tracker budId
    have hlimit := h.limit budId
    rw [pending] at hlimit ⊢
    rw [hrequests]
    omega
  · intro request hrequest
    rw [hrequests] at hrequest
    rw [htrackers, budId_modify hbud]
    exact h.budId_eq request hrequest

/-! ### The steps -/

theorem countP_eraseIdx {α : Type*} {p : α → Bool} {a : α} (l : List α) (i : ℕ)
    (h : l[i]? = some a) : (l.eraseIdx i).countP p + (if p a then 1 else 0) = l.countP p := by
  obtain ⟨hi, rfl⟩ := List.getElem?_eq_some_iff.mp h
  rw [← (getElem_cons_eraseIdx_perm hi).countP_eq, countP_cons]

theorem countP_set_of_eq {α : Type*} {p : α → Bool} {a : α} (l : List α) (i : ℕ)
    (hi : i < l.length) (h : p a = p l[i]) : (l.set i a).countP p = l.countP p := by
  rw [countP_set hi, h]
  split
  · next hp => exact Nat.sub_add_cancel (countP_pos_iff.mpr ⟨_, getElem_mem hi, hp⟩)
  · rfl

theorem pending_eraseIdx {r : ℕ} (hr : s.requests[r]? = some request) (budId : String) :
    (s.requests.eraseIdx r).countP (fun request => decide (request.budId = budId))
      + (if request.budId = budId then 1 else 0) = pending s budId := by
  rw [pending, ← countP_eraseIdx s.requests r hr]
  simp

theorem openFileEdgeStream_eq (maxConcurrentStreams : ℕ) (s : Sys) (k : ℕ) (tracker : Tracker) :
    openFileEdgeStream maxConcurrentStreams s k tracker =
      if active s tracker.budId < maxConcurrentStreams then
        { s with
          requests := s.requests ++ [⟨k, tracker.budId, s.nextStreamId, awaits⟩]
          nextStreamId := s.nextStreamId + 1 }
      else { s with refused := s.refused + 1 } := by
  by_cases hcheck : active s tracker.budId < maxConcurrentStreams
  · have hcheck' := hcheck
    rw [active] at hcheck'
    simp only [openFileEdgeStream, checkDataPlaneRuntimeStreamCapacity, if_pos hcheck',
      if_pos hcheck]
  · have hcheck' := hcheck
    rw [active] at hcheck'
    simp only [openFileEdgeStream, checkDataPlaneRuntimeStreamCapacity, if_neg hcheck',
      if_neg hcheck]

theorem Inv.openFileEdgeStream (h : Inv maxConcurrentStreams s)
    (htracker : s.trackers[k]? = some tracker)
    (hroom : active s tracker.budId < maxConcurrentStreams → active s tracker.budId + pending s
      tracker.budId < maxConcurrentStreams) : Inv maxConcurrentStreams
      (Capacity.openFileEdgeStream maxConcurrentStreams s k tracker) := by
  rw [openFileEdgeStream_eq]
  split
  · next hcheck =>
    constructor
    · intro budId
      have hlimit := h.limit budId
      have hroom := hroom hcheck
      show active s budId + (s.requests ++ [_]).countP _ ≤ _
      rw [countP_append, countP_singleton, ← pending]
      by_cases hbud : tracker.budId = budId
      · subst hbud
        rw [if_pos (decide_eq_true rfl)]
        omega
      · rw [if_neg (by simpa using hbud)]
        omega
    · intro request hrequest
      rcases mem_append.mp hrequest with hold | hnew
      · exact h.budId_eq request hold
      · rw [mem_singleton] at hnew
        subst hnew
        exact congrArg _ htracker
  · exact ⟨h.limit, h.budId_eq⟩

/-- A request that registers trades its place among the pending for an active stream. -/
theorem Inv.register {r : ℕ} (h : Inv maxConcurrentStreams s) (hr : s.requests[r]? = some request) :
    Inv maxConcurrentStreams
      { s with
        requests := s.requests.eraseIdx r
        trackers := s.trackers.modify request.tracker (registerFileStream request.streamId) } := by
  have hown := h.budId_eq request (mem_of_getElem? hr)
  constructor
  · intro budId
    have hlimit := h.limit budId
    have hpending := pending_eraseIdx hr budId
    have hactive : active
        { s with
          requests := s.requests.eraseIdx r
          trackers := s.trackers.modify request.tracker (registerFileStream request.streamId) }
        budId ≤ active s budId + if request.budId = budId then 1 else 0 := by
      refine sum_modify_le _ _ _ fun tracker htracker => ?_
      have hbud : tracker.budId = request.budId := by
        rw [mem_def.mp htracker] at hown
        exact some.inj hown
      refine Nat.le_trans (countActive_register_le _ _ _ _ _) (Nat.add_le_add_left ?_ _)
      rw [hbud]
      by_cases hbud' : request.budId = budId
      · rw [if_pos hbud']
        split <;> omega
      · rw [if_neg (fun h => hbud' h.1)]
        exact Nat.zero_le _
    show _ + (s.requests.eraseIdx r).countP _ ≤ _
    omega
  · intro request' hrequest'
    rw [budId_modify]
    · exact h.budId_eq request' (mem_of_mem_eraseIdx hrequest')
    · intro tracker
      rw [registerFileStream, registerDataPlaneRuntimeStream]
      split <;> rfl

theorem Inv.resume {r : ℕ} (h : Inv maxConcurrentStreams s) (hr : s.requests[r]? = some request) :
    Inv maxConcurrentStreams (Capacity.resume s r request) := by
  rw [Capacity.resume]
  split
  · exact h.register hr
  · -- one call fewer to wait for: the request stays what it is to the count
    obtain ⟨hlt, rfl⟩ := List.getElem?_eq_some_iff.mp hr
    constructor
    · intro budId
      have hlimit := h.limit budId
      show active s budId + (s.requests.set r _).countP _ ≤ _
      rw [countP_set_of_eq _ _ hlt (by rfl)]
      exact hlimit
    · intro request' hrequest'
      rcases mem_or_eq_of_mem_set hrequest' with hold | rfl
      · exact h.budId_eq request' hold
      · exact h.budId_eq s.requests[r] (getElem_mem hlt)

/-- **Every step that leaves room keeps the invariant.** -/
theorem Inv.step (h : Inv maxConcurrentStreams s) (hok : LeavesRoom maxConcurrentStreams s act)
    (hstep : Capacity.step maxConcurrentStreams s act = some s') : Inv maxConcurrentStreams s' := by
  cases act with
  | attach budId credit =>
    cases hstep
    constructor
    · intro budId'
      have hlimit := h.limit budId'
      show (List.map _ (s.trackers ++ [_])).sum + pending s budId' ≤ _
      rw [map_append, sum_append]
      rw [active, countActiveDataPlaneRuntimeStreamsForBud] at hlimit
      simpa [Tracker.countActive] using hlimit
    · intro request hrequest
      have hown := h.budId_eq request hrequest
      obtain ⟨tracker, htracker, hbud⟩ := map_eq_some_iff.mp hown
      obtain ⟨hlt, -⟩ := List.getElem?_eq_some_iff.mp htracker
      show ((s.trackers ++ [_])[request.tracker]?).map _ = _
      rw [getElem?_append_left hlt]
      exact hown
  | detach k =>
    cases hstep
    exact h.modify rfl rfl (fun _ => rfl) fun tracker budId => countActive_detach_le _ _ _
  | request k =>
    rw [Capacity.step] at hstep
    split at hstep
    · next tracker htracker =>
      obtain ⟨-, rfl⟩ := Runs.of_guard hstep
      exact h.openFileEdgeStream htracker (hok tracker htracker)
    · cases hstep
  | resume r =>
    obtain ⟨request, hr, rfl⟩ := map_eq_some_iff.mp hstep
    exact h.resume hr
  | fail r =>
    obtain ⟨request, hr, rfl⟩ := map_eq_some_iff.mp hstep
    constructor
    · intro budId
      have hlimit := h.limit budId
      have hpending := pending_eraseIdx hr budId
      show active s budId + (s.requests.eraseIdx r).countP _ ≤ _
      omega
    · intro request' hrequest'
      exact h.budId_eq request' (mem_of_mem_eraseIdx hrequest')
  | closed k streamId =>
    cases hstep
    exact h.modify rfl rfl (fun _ => rfl) fun tracker budId => countActive_remoteClose_le _ _ _ _
  | ended k streamId =>
    cases hstep
    exact h.modify rfl rfl (fun _ => rfl) fun tracker budId => countActive_deleteStream_le _ _ _ _
  | other k streamType credit =>
    rw [Capacity.step] at hstep
    obtain ⟨hother, rfl⟩ := Runs.of_guard_not hstep
    refine h.modify rfl rfl (fun tracker => ?_) fun tracker budId => ?_
    · rw [registerDataPlaneRuntimeStream]
      split <;> rfl
    · refine Nat.le_trans (countActive_register_le _ _ _ _ _) ?_
      rw [if_neg (fun h => hother h.2)]
      exact Nat.le_refl _

/-- **The limit, along runs that leave room.** In every run in which each request that passes the
capacity check leaves room for the requests that passed it before and have not registered yet, no
Bud ever has more active file streams than the maximum. -/
theorem active_le_of_leavesRoom {maxConcurrentStreams : ℕ} {acts : List Act} {s : Sys}
    (hok : Runs.Along (step maxConcurrentStreams) (LeavesRoom maxConcurrentStreams) acts init)
    (hrun : Runs.run (step maxConcurrentStreams) acts init = some s) (budId : String) :
    active s budId ≤ maxConcurrentStreams := by
  have hinv := Runs.invariant_along (fun _ _ _ h hok hs => Inv.step h hok hs) hok hrun
    (inv_init maxConcurrentStreams)
  have := hinv.limit budId
  omega

def allAwaits (r : ℕ) : List Act := List.replicate awaits (.resume r)

/-- Two requests one after the other with room for one: the second is refused. -/
theorem active_le_of_leavesRoom_sequential :
    ∃ s, Runs.run (step 1) ([.attach "bud" 8, .request 0] ++ allAwaits 0 ++ [.request 0]) init
        = some s ∧
      s.refused = 1 ∧ active s "bud" ≤ 1 := by
  obtain ⟨s, hs, hv⟩ := map_eq_some_iff.mp
    (show (Runs.run (step 1) ([.attach "bud" 8, .request 0] ++ allAwaits 0 ++ [.request 0])
      init).map Sys.refused = some 1 by decide)
  exact ⟨s, hs, hv, active_le_of_leavesRoom (by decide) hs "bud"⟩

/-- Two requests that both pass the check before either registers: two active streams where one is
allowed. -/
theorem active_exceeds_limit :
    ∃ s, Runs.run (step 1)
        ([.attach "bud" 8, .request 0, .request 0] ++ allAwaits 0 ++ allAwaits 0) init = some s ∧
      s.refused = 0 ∧ active s "bud" = 2 := by
  obtain ⟨s, hs, hv⟩ := map_eq_some_iff.mp (show (Runs.run (step 1)
      ([.attach "bud" 8, .request 0, .request 0] ++ allAwaits 0 ++ allAwaits 0) init).map
        (fun s => (s.refused, active s "bud")) = some (0, 2) by decide)
  rw [Prod.mk.injEq] at hv
  exact ⟨s, hs, hv.1, hv.2⟩

end Capacity

end Bud.DataPlane
