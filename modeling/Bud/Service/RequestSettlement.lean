import Bud.Lib.PendingCalls
import Bud.Service.RequestDispatcher

/-!
# Every terminal request is settled once

The requests of one kind are a table of pending calls: what a handler does to the maps and to the
promises is an event that gives verdicts to some of the pending requests (`Requests.calls`). A
request that was sent is then settled by the first result, timeout or rejection that is for it, and
by no other; until then it is pending with its timer set, and afterwards neither is left.

Request ids are taken not to repeat, which is what `ulid` is for, and the callback of a send not to
throw: the one there is assigns a number.
-/

namespace Bud.RequestDispatcher

open JsText TerminalSend Runs PendingCalls List Option Function Requests

/-! ### One kind of requests, as a table -/

namespace Requests

variable {K R : Type}

def session (r : Requests K R) (id : Id) : Id := ((r.states id).map DebugState.sessionId).getD []

def calls (r : Requests K R) : Calls Id Id (Settlement R) :=
  { pending := r.pending.map fun id => (id, r.session id)
    settled := r.settled }

/-- The timers that are set are those of the pending requests. -/
structure Good (r : Requests K R) : Prop where
  timers : r.timers = r.pending
  nodup : r.pending.Nodup
  states : ∀ id ∈ r.pending, (r.states id).isSome = true

/-- The pending requests are part of those before, and of new ones. -/
structure Moves (ops : List (Op Id Id (Settlement R))) (r r' : Requests K R) : Prop where
  good : r'.Good
  calls : r'.calls = r.calls.applyAll ops

theorem Moves.trans {ops : List (Op Id Id (Settlement R))} {r : Requests K R} (h : Moves ops r r')
    (h' : Moves ops' r' r'') : Moves (ops ++ ops') r r'' :=
  ⟨h'.good, by rw [h'.calls, h.calls, Calls.applyAll_append]⟩

theorem good_empty : (empty : Requests K R).Good := ⟨rfl, nodup_nil, nofun⟩

theorem moves_register (hgood : r.Good) (now : ℕ) (state : DebugState K)
    (hfresh : state.requestId ∉ r.pending) :
    Moves [.issue state.requestId state.sessionId] r (r.register now state) := by
  have hpending : (r.register now state).pending = r.pending ++ [state.requestId] := if_neg hfresh
  have hold : ∀ id ∈ r.pending, (r.register now state).states id = r.states id := fun id hid =>
    update_of_ne (fun heq => hfresh (by rw [← heq]; exact hid)) _ _
  have hnew : (r.register now state).states state.requestId = some state :=
    update_self _ _ _
  refine ⟨⟨?_, ?_, ?_⟩, ?_⟩
  · rw [hpending, ← hgood.timers]
    rfl
  · rw [hpending]
    refine nodup_append.mpr ⟨hgood.nodup, nodup_singleton _, ?_⟩
    rintro id hid id' hid' rfl
    exact hfresh (mem_singleton.mp hid' ▸ hid)
  · rw [hpending]
    intro id hid
    rcases mem_append.mp hid with hid | hid
    · rw [hold id hid]
      exact hgood.states id hid
    · rw [mem_singleton.mp hid, hnew]
      rfl
  · have hlast : (r.register now state).session state.requestId = state.sessionId := by
      rw [session, hnew]
      rfl
    have hentries : (r.register now state).pending.map
        (fun id => (id, (r.register now state).session id))
        = r.pending.map (fun id => (id, r.session id)) ++ [(state.requestId, state.sessionId)] := by
      rw [hpending, map_append, map_singleton, hlast]
      congr 1
      refine map_congr_left fun id hid => ?_
      rw [session, session, hold id hid]
    exact congrArg (fun entries => Calls.mk entries r.settled) hentries

/-- **What a verdict does to the maps**: whatever it settles is deleted, with its timer. -/
theorem moves_decide {r' : Requests K R} (hgood : r.Good) (f : Id → Id → Option (Settlement R))
    (hpending : r'.pending = r.pending.filter fun id => (f id (r.session id)).isNone)
    (htimers : r'.timers = r.timers.filter fun id => (f id (r.session id)).isNone)
    (hsettled : r'.settled = r.settled ++ r.pending.filterMap fun id => (f id (r.session id)).map
      fun o => (id, o))
    (hsession : ∀ id, (r'.states id).map DebugState.sessionId = (r.states id).map
      DebugState.sessionId) : Moves [.decide f] r r' := by
  refine ⟨⟨?_, ?_, ?_⟩, ?_⟩
  · rw [htimers, hpending, hgood.timers]
  · rw [hpending]
    exact hgood.nodup.filter _
  · intro id hid
    rw [hpending] at hid
    rw [← isSome_map, hsession, isSome_map]
    exact hgood.states id (mem_filter.mp hid).1
  · have hentries : r'.pending.map (fun id => (id, r'.session id))
        = (r.pending.map fun id => (id, r.session id)).filter fun call =>
          (f call.1 call.2).isNone := by
      rw [hpending, List.filter_map]
      refine List.map_congr_left fun id _ => ?_
      rw [session, session, hsession]
    have hverdicts : (r.pending.map fun id => (id, r.session id)).filterMap (fun call =>
        (f call.1 call.2).map fun o => (call.1, o))
          = r.pending.filterMap fun id => (f id (r.session id)).map fun o => (id, o) := by
      rw [filterMap_map]
      rfl
    show r'.calls = Calls.apply r.calls (.decide f)
    rw [calls, hentries, hsettled, ← hverdicts]
    rfl

variable {ids : List Id}

theorem filterMap_one (hnodup : ids.Nodup) {id : Id} (hid : id ∈ ids) (settlement : Settlement R) :
    (ids.filterMap fun key => (if key = id then some settlement else none).map fun o => (key, o))
      = [(id, settlement)] := by
  obtain ⟨before, after, rfl⟩ := append_of_mem hid
  obtain ⟨-, hafter, hapart⟩ := nodup_append.mp hnodup
  have hbefore : ∀ key ∈ before, key ≠ id := fun key hkey =>
    hapart key hkey id (mem_cons_self ..)
  have hlater : ∀ key ∈ after, key ≠ id := fun key hkey heq =>
    (nodup_cons.mp hafter).1 (heq ▸ hkey)
  rw [filterMap_append, filterMap_cons, if_pos rfl,
    filterMap_eq_nil_iff.mpr fun key hkey => by rw [if_neg (hbefore key hkey)]; rfl,
    filterMap_eq_nil_iff.mpr fun key hkey => by rw [if_neg (hlater key hkey)]; rfl]
  rfl

def only (id : Id) (settlement : Settlement R) : Id → Id → Option (Settlement R) :=
  fun key _ => if key = id then some settlement else none

theorem deleteKey_eq (id : Id) (settlement : Settlement R) (sessions : Id → Id) (keys : List Id) :
    deleteKey id keys = keys.filter fun key => (only id settlement key (sessions key)).isNone := by
  refine filter_congr fun key _ => ?_
  rw [only]
  by_cases hkey : key = id <;> simp [hkey]

theorem moves_none {r' : Requests K R} (hgood : r.Good)
    (hf : ∀ id ∈ r.pending, f id (r.session id) = none) (hpending : r'.pending = r.pending)
    (htimers : r'.timers = r.timers) (hsettled : r'.settled = r.settled)
    (hsession : ∀ id, (r'.states id).map DebugState.sessionId = (r.states id).map
      DebugState.sessionId) : Moves [.decide f] r r' := by
  have hall : r.pending.filter (fun id => (f id (r.session id)).isNone) = r.pending :=
    filter_eq_self.mpr fun id hid => by rw [hf id hid]; rfl
  refine moves_decide hgood f ?_ ?_ ?_ hsession
  · rw [hpending, hall]
  · rw [htimers, hgood.timers, hall]
  · rw [hsettled, filterMap_eq_nil_iff.mpr fun id hid => by rw [hf id hid]; rfl,
      append_nil]

/-- A changed state object is still one of the same session. -/
theorem map_sessionId_update {states : Id → Option (DebugState K)} {id : Id}
    {state state' : DebugState K} (hstate : states id = some state)
    (hsession : state'.sessionId = state.sessionId) (key : Id) :
    (update states id (some state') key).map DebugState.sessionId
      = (states key).map DebugState.sessionId := by
  by_cases hkey : key = id
  · subst hkey
    rw [update_self, hstate, map_some, map_some, hsession]
  · rw [update_of_ne hkey]

theorem moves_receive (hgood : r.Good) (id : Id) (settlement : Settlement R) :
    Moves [.decide (only id settlement)] r (r.receive id settlement) := by
  by_cases hid : id ∈ r.pending
  · rw [receive, if_pos hid]
    refine moves_decide hgood _ (deleteKey_eq id settlement r.session _)
      (deleteKey_eq id settlement r.session _) ?_ fun _ => rfl
    show r.settled ++ [(id, settlement)] = _
    rw [← filterMap_one hgood.nodup hid settlement]
    rfl
  · -- a late or an orphaned result
    have hother : ∀ key ∈ r.pending, only id settlement key (r.session key) = none :=
      fun key hkey => if_neg fun heq : key = id => hid (heq ▸ hkey)
    rw [receive, if_neg hid]
    split_ifs <;> exact moves_none hgood hother rfl rfl rfl fun _ => rfl

theorem moves_expire {r : Requests K R} (hgood : r.Good) (env : Env) (id : Id)
    (error : List UInt16) (htimer : id ∈ r.timers) :
    Moves [.decide (only id (.error error))] r (r.expire env id error) := by
  have hid : id ∈ r.pending := by
    rw [← hgood.timers]
    exact htimer
  obtain ⟨state, hstate⟩ := isSome_iff_exists.mp (hgood.states id hid)
  rw [expire]
  simp only [hstate, if_pos hid]
  refine moves_decide hgood _ (deleteKey_eq id (.error error) r.session _)
    (deleteKey_eq id (.error error) r.session _) ?_ fun key => ?_
  · show r.settled ++ [(id, .error error)] = _
    rw [← filterMap_one hgood.nodup hid (.error error)]
    rfl
  · exact @map_sessionId_update K r.states id state { state with
      timedOutAt := some env.now
      latestOffset := env.lastOffset state.sessionId } hstate rfl key

/-! ### Rejecting a session -/

/-- The verdict of a rejection. -/
def rejecting (sessionId : Id) (error : List UInt16) (exceptRequestId : Option Id) :
    Id → Id → Option (Settlement R) := fun id session =>
  if some id ≠ exceptRequestId ∧ session = sessionId then some (.error error) else none

/-- What the loop makes of the ids it has come to. -/
structure Rejected (f : Id → Id → Option (Settlement R)) (ids : List Id) (r r' : Requests K R) :
    Prop where
  pending : r'.pending = r.pending.filter fun id =>
    decide (id ∉ ids) || (f id (r.session id)).isNone
  timers : r'.timers = r.timers.filter fun id => decide (id ∉ ids) || (f id (r.session id)).isNone
  settled : r'.settled = r.settled ++
    ids.filterMap fun id => (f id (r.session id)).map fun o => (id, o)
  session : ∀ id, (r'.states id).map DebugState.sessionId = (r.states id).map DebugState.sessionId

theorem rejectOne_cases {r : Requests K R} {id : Id} (hstate : (r.states id).isSome = true)
    (n : ℕ) :
    (rejecting sessionId error exceptRequestId id (r.session id) = (none : Option (Settlement R)) ∧
      (rejectOne env sessionId error exceptRequestId (r, n) id).1 = r) ∨
    rejecting sessionId error exceptRequestId id (r.session id)
        = (some (.error error) : Option (Settlement R)) ∧
      ∃ state state', r.states id = some state ∧ state'.sessionId = state.sessionId ∧
        (rejectOne env sessionId error exceptRequestId (r, n) id).1
          = (r.settle id (.error error)).setState id state' := by
  obtain ⟨state, hstate⟩ := isSome_iff_exists.mp hstate
  have hsession : r.session id = state.sessionId := by
    rw [session, hstate]
    rfl
  rw [rejecting, hsession, rejectOne]
  simp only [hstate]
  by_cases hexcept : some id = exceptRequestId
  · left
    rw [if_neg (fun h => h.1 hexcept), if_pos hexcept]
    exact ⟨rfl, rfl⟩
  · by_cases hsame : state.sessionId = sessionId
    · right
      rw [if_pos ⟨hexcept, hsame⟩, if_neg hexcept, if_neg (not_not.mpr hsame)]
      exact ⟨rfl, state, { state with latestOffset := env.lastOffset state.sessionId }, rfl, rfl,
        rfl⟩
    · left
      rw [if_neg (fun h => hsame h.2), if_neg hexcept, if_pos hsame]
      exact ⟨rfl, rfl⟩

theorem rejected_foldl (env : Env) (sessionId : Id) (error : List UInt16)
    (exceptRequestId : Option Id) {r : Requests K R} (hnodup : ids.Nodup)
    (hstates : ∀ id ∈ ids, (r.states id).isSome = true) (n : ℕ) :
    Rejected (rejecting sessionId error exceptRequestId) ids r
      (ids.foldl (rejectOne env sessionId error exceptRequestId) (r, n)).1 := by
  induction ids generalizing r n with
  | nil => exact ⟨by simp, by simp, by simp, fun _ => rfl⟩
  | cons id ids ih =>
    obtain ⟨hid, hnodup⟩ := nodup_cons.mp hnodup
    rw [foldl_cons]
    rcases rejectOne_cases (hstates id (mem_cons_self ..)) n with
      ⟨hnone, hsame⟩ | ⟨hsome, state, state', hstate, hsession, hsettled⟩
    · -- skipped
      generalize rejectOne env sessionId error exceptRequestId (r, n) id = step at hsame ⊢
      obtain ⟨r₁, n₁⟩ := step
      obtain rfl : r₁ = r := hsame
      have hrest := ih hnodup (fun key hkey => hstates key (mem_cons_of_mem _ hkey)) n₁
      have hkeep : ∀ key, (decide (key ∉ ids)
            || (rejecting sessionId error exceptRequestId key (r₁.session key) :
              Option (Settlement R)).isNone)
          = (decide (key ∉ id :: ids)
            || (rejecting sessionId error exceptRequestId key (r₁.session key) :
              Option (Settlement R)).isNone) := fun key => by
        by_cases hkey : key = id
        · subst hkey
          rw [hnone]
          simp
        · simp [hkey]
      refine ⟨?_, ?_, ?_, hrest.session⟩
      · rw [hrest.pending]
        exact filter_congr fun key _ => hkeep key
      · rw [hrest.timers]
        exact filter_congr fun key _ => hkeep key
      · rw [hrest.settled, filterMap_cons, hnone]
        rfl
    · -- rejected
      generalize rejectOne env sessionId error exceptRequestId (r, n) id = step at hsettled ⊢
      obtain ⟨r₁, n₁⟩ := step
      have hstep : ∀ key, (r₁.states key).map DebugState.sessionId
          = (r.states key).map DebugState.sessionId := fun key => by
        rw [show r₁ = _ from hsettled]
        exact map_sessionId_update hstate hsession key
      have hsessions : r₁.session = r.session := funext fun key => by
        rw [session, session, hstep]
      have hrest := @ih r₁ hnodup (fun key hkey => by
        rw [← isSome_map, hstep, isSome_map]
        exact hstates key (mem_cons_of_mem _ hkey)) n₁
      have hkeep : ∀ key, (decide (key ≠ id) && (decide (key ∉ ids)
            || (rejecting sessionId error exceptRequestId key (r.session key) :
              Option (Settlement R)).isNone))
          = (decide (key ∉ id :: ids)
            || (rejecting sessionId error exceptRequestId key (r.session key) :
              Option (Settlement R)).isNone) := fun key => by
        by_cases hkey : key = id
        · subst hkey
          rw [hsome]
          simp
        · simp [hkey]
      have hdeleted : ∀ keys : List Id, (deleteKey id keys).filter (fun key => decide (key ∉ ids)
            || (rejecting sessionId error exceptRequestId key (r.session key) :
              Option (Settlement R)).isNone)
          = keys.filter fun key => decide (key ∉ id :: ids)
            || (rejecting sessionId error exceptRequestId key (r.session key) :
              Option (Settlement R)).isNone := fun keys => by
        rw [deleteKey, List.filter_filter]
        refine List.filter_congr fun key _ => ?_
        rw [Bool.and_comm]
        exact hkeep key
      refine ⟨?_, ?_, ?_, fun key => (hrest.session key).trans (hstep key)⟩
      · rw [hrest.pending, hsessions, show r₁ = _ from hsettled]
        exact hdeleted r.pending
      · rw [hrest.timers, hsessions, show r₁ = _ from hsettled]
        exact hdeleted r.timers
      · rw [hrest.settled, hsessions, filterMap_cons, hsome, show r₁ = _ from hsettled]
        exact append_assoc _ _ _

theorem moves_rejectSession {r : Requests K R} (hgood : r.Good) (env : Env) (sessionId : Id)
    (error : List UInt16) (exceptRequestId : Option Id) :
    Moves [.decide (rejecting sessionId error exceptRequestId)] r
      (r.rejectSession env sessionId error exceptRequestId).1 := by
  have hrejected := rejected_foldl env sessionId error exceptRequestId hgood.nodup hgood.states 0
  have hall : r.pending.filter (fun id => decide (id ∉ r.pending)
        || (rejecting sessionId error exceptRequestId id (r.session id) :
          Option (Settlement R)).isNone)
      = r.pending.filter fun id => (rejecting sessionId error exceptRequestId id (r.session id) :
          Option (Settlement R)).isNone :=
    filter_congr fun id hid => by simp [hid]
  refine moves_decide hgood _ (hrejected.pending.trans hall) ?_ hrejected.settled hrejected.session
  refine hrejected.timers.trans ?_
  rw [hgood.timers]
  exact hall

theorem moves_noteOutput (hgood : r.Good) (sessionId : Id) (endOffset : ℕ) :
    Moves [] r (r.noteOutput sessionId endOffset) := by
  have hsession : ∀ id, ((r.noteOutput sessionId endOffset).states id).map DebugState.sessionId
      = (r.states id).map DebugState.sessionId := fun id => by
    rw [noteOutput, Option.map_map]
    refine congrArg (fun f => (r.states id).map f) (funext fun state => ?_)
    rw [comp_apply]
    split_ifs <;> rfl
  refine ⟨⟨hgood.timers, hgood.nodup, fun id hid => ?_⟩, ?_⟩
  · rw [← isSome_map, hsession, isSome_map]
    exact hgood.states id hid
  · have hentries : (r.noteOutput sessionId endOffset).calls = r.calls := by
      rw [calls, calls]
      refine congrArg (fun entries => Calls.mk entries r.settled) ?_
      refine map_congr_left fun id _ => ?_
      rw [session, session, hsession]
    exact hentries

end Requests

/-! ### The dispatcher -/

section

variable {O : Type} {caseMap : CaseMap} {decodeBase64 : List UInt16 → List UInt16}

def ObserveCall.dispatched (call : ObserveCall) : Bool := call.found.isSome && call.sent

/-- The send was valid, and was sent. -/
def SendCall.dispatched (caseMap : CaseMap) (call : SendCall) : Bool :=
  call.found.isSome && call.sent &&
    (TerminalSend.sendInteraction caseMap call.sessionId call.requestId call.interaction).isOk

/-- The error a send rejects the other requests of its session with, if it does. -/
def SendCall.rejects (caseMap : CaseMap) (call : SendCall) : Option (List UInt16) :=
  if call.dispatched caseMap then truthy call.rejectPendingRequestsWith else none

/-- What an action rejects: requests of these sessions, with this error, but for one id. -/
def rejectionVerdict {R : Type} (caseMap : CaseMap) (id session : Id) :
    Act O → Option (Settlement R)
  | .rejectSession sessionId error _ => if session = sessionId then some (.error error) else none
  | .rejectSessions sessionIds error _ => if session ∈ sessionIds then some (.error error) else none
  | .send call =>
    if id ≠ call.requestId.units ∧ session = call.sessionId.units then
      (call.rejects caseMap).map .error
    else none
  | _ => none

/-- **What an action means for a pending observe** of the given id and session. -/
def observeVerdict (caseMap : CaseMap) (decodeBase64 : List UInt16 → List UInt16)
    (id session : Id) : Act O → Option (Settlement (ObserveResult O))
  | .observeResult payload =>
    if id = payload.requestId then some (payload.settlement decodeBase64) else none
  | .observeTimeout requestId _ =>
    if id = requestId then some (.error (lit "observe_timeout")) else none
  | a => rejectionVerdict caseMap id session a

/-- **What an action means for a pending send** of the given id and session. -/
def sendVerdict (caseMap : CaseMap) (id session : Id) : Act O → Option (Settlement (SendResult O))
  | .sendResult payload => if id = payload.requestId then some payload.settlement else none
  | .sendTimeout requestId _ =>
    if id = requestId then some (.error (lit "send_timeout")) else none
  | a => rejectionVerdict caseMap id session a

/-- **How a request stands** once it is settled by the given verdict, or waits for one: `resolve` or
`reject` was called with it and with nothing else, and the request is pending, with its timer set,
exactly if there is none. -/
structure SettledBy {K R : Type} (r : Requests K R) (id : Id) (verdict : Option (Settlement R)) :
    Prop where
  settled : (r.settled.filter fun call => decide (call.1 = id)).map Prod.snd = verdict.toList
  pending : id ∈ r.pending ↔ verdict = none
  timer : id ∈ r.timers ↔ verdict = none

def Act.requestId? : Act O → Option Id
  | .observe call => some call.requestId.units
  | .send call => some call.requestId.units
  | _ => none

/-- The callback of a send does not throw. -/
def Act.Returns : Act O → Prop
  | .send call => ∀ rejected, call.onPendingRequestsRejected rejected = .ok ()
  | _ => True

/-! ### Actions as events of the two tables -/

/-- What an action rejects, as events. -/
def rejectionOps {R : Type} (caseMap : CaseMap) : Act O → List (Op Id Id (Settlement R))
  | .rejectSession sessionId error _ => [.decide (Requests.rejecting sessionId error none)]
  | .rejectSessions sessionIds error _ =>
    sessionIds.map fun sessionId => .decide (Requests.rejecting sessionId error none)
  | .send call =>
    ((call.rejects caseMap).map fun error =>
      .decide (Requests.rejecting call.sessionId.units error (some call.requestId.units))).toList
  | _ => []

def observeOps (caseMap : CaseMap) (decodeBase64 : List UInt16 → List UInt16) :
    Act O → List (Op Id Id (Settlement (ObserveResult O)))
  | .observe call =>
    if call.dispatched then [.issue call.requestId.units call.sessionId.units] else []
  | .observeResult payload =>
    [.decide (Requests.only payload.requestId (payload.settlement decodeBase64))]
  | .observeTimeout requestId _ =>
    [.decide (Requests.only requestId (.error (lit "observe_timeout")))]
  | a => rejectionOps caseMap a

def sendOps (caseMap : CaseMap) : Act O → List (Op Id Id (Settlement (SendResult O)))
  | .send call =>
    (if call.dispatched caseMap then [.issue call.requestId.units call.sessionId.units] else [])
      ++ rejectionOps caseMap (.send call : Act O)
  | .sendResult payload => [.decide (Requests.only payload.requestId payload.settlement)]
  | .sendTimeout requestId _ => [.decide (Requests.only requestId (.error (lit "send_timeout")))]
  | a => rejectionOps caseMap a

variable {R : Type} {d : Dispatcher O}

theorem findSome?_rejectionOps (caseMap : CaseMap) (id session : Id) (a : Act O) :
    (rejectionOps caseMap a : List (Op Id Id (Settlement R))).findSome? (Op.verdict id session)
      = rejectionVerdict caseMap id session a := by
  cases a with
  | rejectSession sessionId error env =>
    simp [rejectionOps, rejectionVerdict, Op.verdict, rejecting]
  | rejectSessions sessionIds error env =>
    rw [rejectionOps, rejectionVerdict]
    induction sessionIds with
    | nil => rfl
    | cons sessionId sessionIds ih =>
      rw [map_cons, findSome?_cons, ih]
      by_cases hsession : session = sessionId <;> simp [Op.verdict, rejecting, hsession]
  | send call =>
    rw [rejectionOps, rejectionVerdict]
    cases call.rejects caseMap with
    | none => simp
    | some error => simp [Op.verdict, rejecting]
  | _ => rfl

theorem findSome?_observeOps (id session : Id) (a : Act O) :
    (observeOps caseMap decodeBase64 a).findSome? (Op.verdict id session)
      = observeVerdict caseMap decodeBase64 id session a := by
  cases a with
  | observe call =>
    rw [observeOps]
    split_ifs <;> rfl
  | observeResult payload | observeTimeout requestId env =>
    simp [observeOps, observeVerdict, Op.verdict, only]
  | output sessionId endOffset => rfl
  | _ => simp only [observeOps, observeVerdict, findSome?_rejectionOps]

theorem findSome?_sendOps (id session : Id) (a : Act O) :
    (sendOps caseMap a).findSome? (Op.verdict id session) = sendVerdict caseMap id session a := by
  cases a with
  | send call =>
    rw [sendOps, findSome?_append, findSome?_rejectionOps]
    split_ifs <;> rfl
  | sendResult payload | sendTimeout requestId env => simp [sendOps, sendVerdict, Op.verdict, only]
  | output sessionId endOffset => rfl
  | _ => simp only [sendOps, sendVerdict, findSome?_rejectionOps]

/-- The events of an action issue no other id than the action's. -/
theorem issued_rejectionOps (caseMap : CaseMap) (a : Act O) :
    (rejectionOps caseMap a : List (Op Id Id (Settlement R))).filterMap Op.issued = [] := by
  cases a with
  | rejectSessions sessionIds error env =>
    rw [rejectionOps, filterMap_map]
    exact filterMap_eq_nil_iff.mpr fun _ _ => rfl
  | send call =>
    rw [rejectionOps]
    cases call.rejects caseMap <;> rfl
  | _ => rfl

theorem issued_observeOps (a : Act O) :
    ((observeOps caseMap decodeBase64 a).filterMap Op.issued).Sublist a.requestId?.toList := by
  cases a with
  | observe call =>
    rw [observeOps]
    split_ifs
    · exact Sublist.refl _
    · exact nil_sublist _
  | send call =>
    show ((rejectionOps caseMap (.send call : Act O)).filterMap Op.issued).Sublist _
    rw [issued_rejectionOps]
    exact nil_sublist _
  | rejectSessions sessionIds error env =>
    show ((rejectionOps caseMap (.rejectSessions sessionIds error env : Act O)).filterMap
      Op.issued).Sublist _
    rw [issued_rejectionOps]
    exact nil_sublist _
  | _ => exact nil_sublist _

theorem issued_sendOps (a : Act O) :
    ((sendOps caseMap a).filterMap Op.issued).Sublist a.requestId?.toList := by
  cases a with
  | send call =>
    rw [sendOps, filterMap_append, issued_rejectionOps, append_nil]
    split_ifs
    · exact Sublist.refl _
    · exact nil_sublist _
  | rejectSessions sessionIds error env =>
    show ((rejectionOps caseMap (.rejectSessions sessionIds error env : Act O)).filterMap
      Op.issued).Sublist _
    rw [issued_rejectionOps]
    exact nil_sublist _
  | _ => exact nil_sublist _

variable {ops : Act O → List (Op Id Id (Settlement R))} {K : Type} {acts : List (Act O)}

/-- So the ids that a run issues are among those of its actions, in order. -/
theorem issued_flatMap (hops : ∀ a, ((ops a).filterMap Op.issued).Sublist a.requestId?.toList)
    (acts : List (Act O)) :
    ((acts.flatMap ops).filterMap Op.issued).Sublist (acts.filterMap Act.requestId?) := by
  induction acts with
  | nil => exact Sublist.refl _
  | cons a acts ih =>
    rw [flatMap_cons, filterMap_append, filterMap_cons]
    have hone := (hops a).append ih
    cases hid : a.requestId? with
    | none | some id =>
      rw [hid] at hone
      exact hone

theorem findSome?_flatMap (ops : Act O → List (Op Id Id (Settlement R))) (id session : Id)
    (acts : List (Act O)) : (acts.flatMap ops).findSome? (Op.verdict id session)
      = acts.findSome? fun a => (ops a).findSome? (Op.verdict id session) := by
  induction acts with
  | nil => rfl
  | cons a acts ih =>
    rw [flatMap_cons, findSome?_append, ih, findSome?_cons]
    cases (ops a).findSome? (Op.verdict id session) <;> rfl

/-! ### Steps -/

theorem Requests.Good.refl (hgood : r.Good) : Requests.Moves [] r r :=
  ⟨hgood, rfl⟩

/-- A rejection of one session, on both maps. -/
theorem moves_reject (hobserves : d.observes.Good) (hsends : d.sends.Good) (env : Env)
    (sessionId : Id) (error : List UInt16) (exceptRequestId : Option Id) :
    Requests.Moves [.decide (rejecting sessionId error exceptRequestId)] d.observes
        (rejectPendingRequestsForSession d env sessionId error exceptRequestId).1.observes ∧
      Requests.Moves [.decide (rejecting sessionId error exceptRequestId)] d.sends
        (rejectPendingRequestsForSession d env sessionId error exceptRequestId).1.sends :=
  ⟨moves_rejectSession hobserves env sessionId error exceptRequestId,
    moves_rejectSession hsends env sessionId error exceptRequestId⟩

theorem moves_rejectSessions (hobserves : d.observes.Good) (hsends : d.sends.Good) (env : Env)
    (sessionIds : List Id) (error : List UInt16) :
    Requests.Moves (sessionIds.map fun sessionId => .decide
        (rejecting sessionId error none)) d.observes
        (rejectPendingRequestsForSessions d env sessionIds error).1.observes ∧
      Requests.Moves (sessionIds.map fun sessionId => .decide
        (rejecting sessionId error none)) d.sends
        (rejectPendingRequestsForSessions d env sessionIds error).1.sends := by
  rw [rejectPendingRequestsForSessions]
  generalize 0 = n
  induction sessionIds generalizing d n with
  | nil => exact ⟨hobserves.refl, hsends.refl⟩
  | cons sessionId sessionIds ih =>
    obtain ⟨hfirst, hfirst'⟩ := moves_reject hobserves hsends env sessionId error none
    obtain ⟨hrest, hrest'⟩ := ih hfirst.good hfirst'.good
      (n + (rejectPendingRequestsForSession d env sessionId error none).2)
    exact ⟨hfirst.trans hrest, hfirst'.trans hrest'⟩

theorem moves_observe (hobserves : d.observes.Good) (call : ObserveCall)
    (hfresh : call.requestId.units ∉ d.observes.pending) :
    Requests.Moves (observeOps caseMap decodeBase64 (.observe call)) d.observes
        ((observeTerminal d call).toOption.getD d).observes ∧
      ((observeTerminal d call).toOption.getD d).sends = d.sends := by
  rw [observeOps, ObserveCall.dispatched, observeTerminal]
  cases call.found with
  | none => exact ⟨hobserves.refl, rfl⟩
  | some budId =>
    cases call.sent with
    | false => exact ⟨hobserves.refl, rfl⟩
    | true => exact ⟨moves_register hobserves _ (.new _ _ call.requestId.units _ _) hfresh,
        rfl⟩

/-- What a send does: nothing if it throws, and otherwise it is registered before it rejects. -/
theorem sendInteraction_cases (d : Dispatcher O) (call : SendCall)
    (hreturns : ∀ rejected, call.onPendingRequestsRejected rejected = .ok ()) :
    call.dispatched caseMap = false ∧ (sendInteraction caseMap d call).toOption.getD d = d ∨
      call.dispatched caseMap = true ∧
        ∃ (frames : List (Id × Frame)) (state : DebugState SendDetails),
        state.requestId = call.requestId.units ∧ state.sessionId = call.sessionId.units ∧
          (sendInteraction caseMap d call).toOption.getD d
            = (truthy call.rejectPendingRequestsWith).elim
              { d with frames := frames, sends := d.sends.register call.env.now state }
              fun error => (rejectPendingRequestsForSession
                { d with frames := frames, sends := d.sends.register call.env.now state } call.env
                call.sessionId.units error (some call.requestId.units)).1 := by
  rw [SendCall.dispatched, sendInteraction]
  cases call.found with
  | none => exact Or.inl ⟨rfl, rfl⟩
  | some budId =>
    cases TerminalSend.sendInteraction caseMap call.sessionId call.requestId call.interaction with
    | error error => exact Or.inl ⟨Bool.and_false _, rfl⟩
    | ok payload =>
      cases call.sent with
      | false => exact Or.inl ⟨rfl, rfl⟩
      | true =>
        refine Or.inr ⟨rfl, d.frames ++ [(budId, .send payload)],
          DebugState.new call.env call.sessionId.units call.requestId.units
          (resolveTerminalSendTimeout call.interaction.await call.timeoutMs)
          { await := call.interaction.await
            hasText := call.interaction.text.isSome
            submit := decide (call.interaction.submit = some true)
            hasKey := (call.interaction.normalizedKey caseMap).isSome }, rfl, rfl, ?_⟩
        simp only [Bool.not_true, Bool.false_eq_true, if_false]
        cases truthy call.rejectPendingRequestsWith with
        | none => rfl
        | some error =>
          simp only [hreturns]
          rfl

theorem moves_send (hobserves : d.observes.Good) (hsends : d.sends.Good) (call : SendCall)
    (hfresh : call.requestId.units ∉ d.sends.pending)
    (hreturns : ∀ rejected, call.onPendingRequestsRejected rejected = .ok ()) :
    Requests.Moves (rejectionOps caseMap (.send call : Act O)) d.observes
        ((sendInteraction caseMap d call).toOption.getD d).observes ∧
      Requests.Moves (sendOps caseMap (.send call)) d.sends
        ((sendInteraction caseMap d call).toOption.getD d).sends := by
  rcases @sendInteraction_cases O caseMap d call hreturns with
    ⟨hthrows, hsame⟩ | ⟨hdispatched, frames, state, hid, hsession, hresult⟩
  · have hnone : ∀ R : Type, (rejectionOps caseMap (.send call : Act O) :
        List (Op Id Id (Settlement R))) = [] := fun R => by
      simp [rejectionOps, SendCall.rejects, hthrows]
    rw [hsame, sendOps, hnone, hnone, hthrows]
    exact ⟨hobserves.refl, hsends.refl⟩
  · rw [← hid] at hfresh
    have hregister := moves_register hsends call.env.now state hfresh
    rw [hresult, sendOps, rejectionOps, rejectionOps, SendCall.rejects, if_pos hdispatched,
      if_pos hdispatched, ← hid, ← hsession]
    cases truthy call.rejectPendingRequestsWith with
    | none => exact ⟨hobserves.refl, hregister⟩
    | some error =>
      -- the others of the session are rejected once the request is registered
      obtain ⟨hreject, hreject'⟩ := @moves_reject O
        { d with frames := frames, sends := d.sends.register call.env.now state } hobserves
        hregister.good call.env state.sessionId error (some state.requestId)
      exact ⟨hreject, hregister.trans hreject'⟩

theorem moves_step (hobserves : d.observes.Good) (hsends : d.sends.Good)
    (hfresh : ∀ id, a.requestId? = some id → id ∉ d.observes.pending ∧ id ∉ d.sends.pending)
    (hreturns : a.Returns) (h : step caseMap decodeBase64 d a = some d') :
    Requests.Moves (observeOps caseMap decodeBase64 a) d.observes d'.observes ∧
      Requests.Moves (sendOps caseMap a) d.sends d'.sends := by
  cases a with
  | observe call =>
    obtain rfl := some.inj h
    obtain ⟨hmoves, hsame⟩ := @moves_observe O caseMap decodeBase64 d hobserves call
      (hfresh _ rfl).1
    rw [hsame]
    exact ⟨hmoves, hsends.refl⟩
  | send call =>
    obtain rfl := some.inj h
    exact moves_send hobserves hsends call (hfresh _ rfl).2 hreturns
  | observeResult payload =>
    obtain rfl := some.inj h
    exact ⟨moves_receive hobserves _ _, hsends.refl⟩
  | sendResult payload =>
    obtain rfl := some.inj h
    exact ⟨hobserves.refl, moves_receive hsends _ _⟩
  | observeTimeout requestId env =>
    rw [step] at h
    split_ifs at h with htimer
    obtain rfl := some.inj h
    exact ⟨moves_expire hobserves env requestId _ htimer, hsends.refl⟩
  | sendTimeout requestId env =>
    rw [step] at h
    split_ifs at h with htimer
    obtain rfl := some.inj h
    exact ⟨hobserves.refl, moves_expire hsends env requestId _ htimer⟩
  | rejectSession sessionId error env =>
    obtain rfl := some.inj h
    exact moves_reject hobserves hsends env sessionId error none
  | rejectSessions sessionIds error env =>
    obtain rfl := some.inj h
    exact moves_rejectSessions hobserves hsends env sessionIds error
  | output sessionId endOffset =>
    obtain rfl := some.inj h
    exact ⟨moves_noteOutput hobserves sessionId endOffset,
      moves_noteOutput hsends sessionId endOffset⟩

/-! ### Runs -/

/-- The events of the run so far. -/
structure Inv (caseMap : CaseMap) (decodeBase64 : List UInt16 → List UInt16) (acts : List (Act O))
    (d : Dispatcher O) : Prop where
  observes : Requests.Moves (acts.flatMap (observeOps caseMap decodeBase64)) .empty d.observes
  sends : Requests.Moves (acts.flatMap (sendOps caseMap)) .empty d.sends

theorem notMem_pending (hops : ∀ a, ((ops a).filterMap Op.issued).Sublist a.requestId?.toList)
    (hmoves : Requests.Moves (acts.flatMap ops) .empty r) {id : Id}
    (hid : id ∉ acts.filterMap Act.requestId?) : id ∉ r.pending := by
  have hissued : ∀ op ∈ acts.flatMap ops, op.issued ≠ some id := fun op hop heq =>
    hid ((issued_flatMap hops acts).subset (mem_filterMap.mpr ⟨op, hop, heq⟩))
  have habsent := (@absent_applyAll _ _ _ _ id _ Calls.empty rfl rfl hissued).1
  intro hmem
  have hkey : id ∈ r.calls.pending.map Prod.fst := by
    rw [calls, List.map_map]
    exact mem_map.mpr ⟨id, hmem, rfl⟩
  rw [hmoves.calls] at hkey
  exact under_ne_nil_iff.mpr hkey habsent

theorem inv_run (hrun : run (step caseMap decodeBase64) acts init = some d)
    (hids : (acts.filterMap Act.requestId?).Nodup) (hreturns : ∀ a ∈ acts, a.Returns) :
    Inv caseMap decodeBase64 acts d := by
  have hinv := @invariant_history _ _ (step caseMap decodeBase64) (Act O) (fun a => [a])
    (fun acts d => (acts.filterMap Act.requestId?).Nodup → (∀ a ∈ acts, a.Returns) →
      Inv caseMap decodeBase64 acts d) ?_ acts [] init d hrun ?_
  · rw [nil_append, flatMap_singleton'] at hinv
    exact hinv hids hreturns
  · intro past d a d' hinv hstep hids hreturns
    rw [filterMap_append] at hids
    obtain ⟨hpast, -, hapart⟩ := nodup_append.mp hids
    obtain ⟨hobserves, hsends⟩ := hinv hpast fun b hb => hreturns b (mem_append_left _ hb)
    obtain ⟨hmoves, hmoves'⟩ := moves_step hobserves.good hsends.good (fun id hid => by
      have hnew : id ∉ past.filterMap Act.requestId? := fun hold =>
        hapart id hold id (mem_filterMap.mpr ⟨a, mem_singleton.mpr rfl, hid⟩) rfl
      exact ⟨notMem_pending issued_observeOps hobserves hnew,
        notMem_pending issued_sendOps hsends hnew⟩)
      (hreturns a (mem_append_right _ (mem_singleton.mpr rfl))) hstep
    refine ⟨?_, ?_⟩
    · rw [flatMap_append, flatMap_singleton]
      exact hobserves.trans hmoves
    · rw [flatMap_append, flatMap_singleton]
      exact hsends.trans hmoves'
  · exact fun _ _ => ⟨good_empty.refl, good_empty.refl⟩

/-- A request of one kind, from the events that came before it and after it. -/
theorem settledBy_of_moves {after : List (Op Id Id (Settlement R))} {id session : Id}
    (hmoves : Requests.Moves (before ++ .issue id session :: after) .empty r)
    (hnodup : ((before ++ .issue id session :: after).filterMap Op.issued).Nodup) :
    SettledBy r id (after.findSome? (Op.verdict id session)) := by
  have hstands := settled_by_first hnodup
  have hcalls : r.calls = Calls.empty.applyAll (before ++ .issue id session :: after) :=
    hmoves.calls
  rw [← hcalls] at hstands
  have hpending : id ∈ r.pending ↔ after.findSome? (Op.verdict id session) = none := by
    rw [← hstands.mem_pending_iff, calls, List.map_map]
    have hkeys : (Prod.fst ∘ fun key : Id => (key, r.session key)) = fun key => key := rfl
    rw [hkeys, List.map_id']
  refine ⟨hstands.settled, hpending, ?_⟩
  rw [hmoves.good.timers]
  exact hpending

/-- **Every request is settled once.** In every run in which ids do not repeat and no callback
throws, an observe or a send that was sent is settled by the first action after it that has a
verdict for it: its own result, its timeout, or a rejection of its session. It is settled by nothing
else, and is pending with its timer set until then and no longer. -/
theorem requests_settle_once {acts : List (Act O)} {d : Dispatcher O}
    (hrun : run (step caseMap decodeBase64) acts init = some d)
    (hids : (acts.filterMap Act.requestId?).Nodup) (hreturns : ∀ a ∈ acts, a.Returns) :
    (∀ before call after, acts = before ++ .observe call :: after → call.dispatched = true →
      SettledBy d.observes call.requestId.units (after.findSome?
        (observeVerdict caseMap decodeBase64 call.requestId.units call.sessionId.units))) ∧
    ∀ before call after, acts = before ++ .send call :: after → call.dispatched caseMap = true →
      SettledBy d.sends call.requestId.units (after.findSome?
        (sendVerdict caseMap call.requestId.units call.sessionId.units)) := by
  obtain ⟨hobserves, hsends⟩ := inv_run hrun hids hreturns
  constructor
  · rintro before call after rfl hdispatched
    have hnodup := (issued_flatMap (@issued_observeOps O caseMap decodeBase64) _).nodup hids
    rw [flatMap_append, flatMap_cons, observeOps, if_pos hdispatched,
      singleton_append] at hobserves hnodup
    have hsettled := settledBy_of_moves hobserves hnodup
    rw [findSome?_flatMap] at hsettled
    simp only [findSome?_observeOps] at hsettled
    exact hsettled
  · rintro before call after rfl hdispatched
    have hnodup := (issued_flatMap (@issued_sendOps O caseMap) _).nodup hids
    rw [flatMap_append, flatMap_cons, sendOps, if_pos hdispatched, append_assoc,
      singleton_append] at hsends hnodup
    have hsettled := settledBy_of_moves hsends hnodup
    -- a send does not reject itself
    have hself : (rejectionOps caseMap (.send call : Act O) :
        List (Op Id Id (Settlement (SendResult O)))).findSome?
          (Op.verdict call.requestId.units call.sessionId.units) = none := by
      rw [findSome?_rejectionOps, rejectionVerdict, if_neg fun h => h.1 rfl]
    rw [findSome?_append, hself, none_or, findSome?_flatMap] at hsettled
    simp only [findSome?_sendOps] at hsettled
    exact hsettled

end

/-! ### A concrete run -/

/-- The id or name with the given letters. -/
def letters (units : List UInt16) (hne : units ≠ []) (hlength : units.length < 2 ^ 53)
    (hwell : WellFormed units) : Ident :=
  { units := units, length_lt := hlength, ne_nil := hne, wellFormed := hwell }

instance (units : List UInt16) : Decidable (WellFormed units) :=
  inferInstanceAs (Decidable (∀ c ∈ scalars units, c ≠ none))

def quiet : Env := { now := 1000, lastOffset := fun _ => 0 }

def screenCall : ObserveCall :=
  { sessionId := letters (lit "s") (by decide) (by decide) (by decide)
    options := { lines := none, view := none, await := none, quietMs := none }
    requestedTimeoutMs := none
    found := some (lit "b")
    requestId := letters (lit "obs_1") (by decide) (by decide) (by decide)
    sent := true
    env := quiet }

/-- A key that interrupts what is pending. -/
def interruptCall : SendCall :=
  { sessionId := letters (lit "s") (by decide) (by decide) (by decide)
    interaction :=
      { text := none
        submit := none
        key := some { units := lit "ctrl+c", length_lt := by decide }
        await := none }
    timeoutMs := none
    rejectPendingRequestsWith := some (lit "interrupted")
    onPendingRequestsRejected := fun _ => .ok ()
    found := some (lit "b")
    requestId := letters (lit "send_1") (by decide) (by decide) (by decide)
    sent := true
    env := quiet }

def interruptResult (error : Option (List UInt16)) : SendResultPayload Unit :=
  { requestId := lit "send_1"
    dispatched := true
    outcome := none
    resolvedAwait := none
    gatedMs := none
    programReady := none
    error := error }

/-- An observe is interrupted; the result of the interrupt comes twice. -/
def interrupted : List (Act Unit) :=
  [.observe screenCall, .send interruptCall, .sendResult (interruptResult none),
    .sendResult (interruptResult (some (lit "late")))]

theorem requests_settle_once_interrupted :
    ∃ d, run (step .ascii id) interrupted init = some d ∧
      SettledBy d.observes (lit "obs_1") (some (.error (lit "interrupted"))) ∧
      SettledBy d.sends (lit "send_1") (some (interruptResult none).settlement) := by
  have hids : (interrupted.filterMap Act.requestId?).Nodup := by decide
  have hreturns : ∀ a ∈ interrupted, a.Returns := by
    intro a ha
    simp only [interrupted, mem_cons, not_mem_nil, or_false] at ha
    rcases ha with rfl | rfl | rfl | rfl
    · exact trivial
    · exact fun _ => rfl
    · exact trivial
    · exact trivial
  obtain ⟨d, hrun⟩ : ∃ d, run (step .ascii id) interrupted init = some d := ⟨_, rfl⟩
  obtain ⟨hobserves, hsends⟩ := requests_settle_once hrun hids hreturns
  exact ⟨d, hrun, hobserves [] screenCall _ rfl (by decide), hsends [_] interruptCall _ rfl
    (by decide)⟩

end Bud.RequestDispatcher
