import Bud.DataPlane.Router
import Bud.Lib.Runs

/-!
# Is a reset final?

When the service sends a `stream_reset` it tells the daemon that the stream is over. The daemon may
have frames under way, so the service must also behave as if it were over: hand nothing more to
the consumer, and tell the consumer.

`handleStreamClose` does both, in the right order: it records the reason, calls `onReset`, and then
sends the frame. The error branches of `handleStreamData` only send it. The stream's record is
left as it was, so a frame that was refused can be followed by one that is accepted.

The edges miss it in their own ways: the audit event of `resetFromServiceLimit` lets a stream end
well before the reset is sent, and a reset after `cleanup` tells nobody.

## What is load-bearing

A stream whose consumer was told is out of the table, and a stream that has been reset has a
consumer that was told or an edge between sending the reset and its own `handleReset`. That is the
invariant, and it survives every step that does not take one of the error branches; inside the
edge's window it needs that no data of the stream is dispatched and that the consumer does not
complete in another way.
-/

namespace Bud.DataPlane

namespace Router

open List Option Function

/-! ### What a reset promises -/

@[simp] def Obs.Resets (streamId : String) : Obs → Prop
  | .resetSent id _ _ => id = streamId
  | _ => False

/-- The consumer of stream `streamId` is handed data. -/
@[simp] def Obs.Delivers (streamId : String) : Obs → Prop
  | .onData id _ _ => id = streamId
  | _ => False

/-- The consumer of stream `streamId` is told that it ended. -/
@[simp] def Obs.Tells (streamId : String) : Obs → Prop
  | .onReset id _ => id = streamId
  | _ => False

def Sent (s : Sys) (streamId : String) : Prop := ∃ o ∈ s.trace, o.Resets streamId

def Told (s : Sys) (streamId : String) : Prop := ∃ o ∈ s.trace, o.Tells streamId

instance (streamId : String) : DecidablePred (Obs.Tells streamId)
  | .onReset id _ => inferInstanceAs (Decidable (id = streamId))
  | .resetSent .. | .unknownReset .. | .creditSent .. | .closeSent .. | .onData .. | .onClose .. =>
    .isFalse id

instance (s : Sys) (streamId : String) : Decidable (Told s streamId) :=
  inferInstanceAs (Decidable (∃ o ∈ s.trace, o.Tells streamId))

/-- The edge has sent a reset, and its call of `handleReset` will tell the consumer. -/
def Telling (s : Sys) (streamId : String) : Prop :=
  ∃ entry, s.streams streamId = some entry ∧ 0 < entry.resetting ∧ entry.completed = false

/-- **Reset finality.** No data is delivered after a reset of the same stream, and the consumer of
every stream that was reset has been told, or is about to be by the call that sent the reset. -/
def Finality (s : Sys) : Prop :=
  s.trace.Pairwise (fun o o' => ∀ streamId, o.Resets streamId → ¬ o'.Delivers streamId) ∧
    ∀ streamId, Sent s streamId → Told s streamId ∨ Telling s streamId

/-! ### Steps that stay off the error branches -/

/-- The frame passes every check of `handleStreamData`, and finds the stream open. -/
structure Accepted (limits : Limits) (entry : Entry) (streamType : String) (offset : ℕ)
    (bytes : List UInt8) : Prop where
  streamType_eq : entry.stream.streamType = streamType
  length_le : bytes.length ≤ limits.maxChunkBytes
  not_isReset : entry.stream.isReset = false
  not_remoteClosed : entry.stream.remoteClosed = false
  offset_eq : offset = entry.stream.receiveOffset
  credit_le : bytes.length ≤ entry.stream.receiveCreditBytes
  not_resetting : entry.resetting = 0

instance (limits : Limits) (entry : Entry) (streamType : String) (offset : ℕ)
    (bytes : List UInt8) : Decidable (Accepted limits entry streamType offset bytes) :=
  decidable_of_iff
    (entry.stream.streamType = streamType ∧ bytes.length ≤ limits.maxChunkBytes ∧
      entry.stream.isReset = false ∧ entry.stream.remoteClosed = false ∧
      offset = entry.stream.receiveOffset ∧ bytes.length ≤ entry.stream.receiveCreditBytes ∧
      entry.resetting = 0)
    ⟨fun ⟨h₁, h₂, h₃, h₄, h₅, h₆, h₇⟩ => ⟨h₁, h₂, h₃, h₄, h₅, h₆, h₇⟩,
      fun ⟨h₁, h₂, h₃, h₄, h₅, h₆, h₇⟩ => ⟨h₁, h₂, h₃, h₄, h₅, h₆, h₇⟩⟩

/-- A `stream_data` frame of a registered stream is accepted; a consumer whose edge is resetting its
stream does not complete in another way first; a service limit's reset is sent while the consumer
is not complete. A consumer throws, and a stream is reset without telling it, only after it was
told that the stream ended. -/
def Clean (limits : Limits) (s : Sys) : Act → Prop
  | .streamData streamId streamType offset bytes _ =>
    ∀ entry ∈ s.streams streamId, entry.registered = true →
      Accepted limits entry streamType offset bytes
  | .cleanup streamId completes =>
    completes = true → ∀ entry ∈ s.streams streamId, entry.resetting = 0
  | .resetRemote streamId _ _ =>
    Told s streamId ∨ ∀ entry ∈ s.streams streamId, entry.completed = false
  | .consumerFails streamId _ | .cleanupAndReset streamId _ _
  | .resetLocalLlmStream streamId _ _ => Told s streamId
  | _ => True

instance (limits : Limits) (s : Sys) : ∀ act, Decidable (Clean limits s act)
  | .streamData .. => inferInstanceAs (Decidable (∀ entry ∈ _, _ = _ → Accepted limits entry _ _ _))
  | .cleanup .. => inferInstanceAs (Decidable (_ = _ → ∀ entry ∈ _, Entry.resetting entry = 0))
  | .resetRemote streamId _ _ =>
    inferInstanceAs (Decidable (Told s streamId ∨ ∀ entry ∈ _, Entry.completed entry = false))
  | .consumerFails streamId _ | .cleanupAndReset streamId _ _
  | .resetLocalLlmStream streamId _ _ => inferInstanceAs (Decidable (Told s streamId))
  | .register .. | .streamCredit .. | .streamReset .. | .streamClose .. | .consumed ..
  | .clientClosed .. | .serviceLimit .. | .handleReset .. | .transportLost .. | .clear =>
    .isTrue trivial

/-! ### The invariant -/

/-- Finality, and a stream whose consumer was told is out of the table. -/
structure Inv (s : Sys) : Prop where
  finality : Finality s
  gone : ∀ streamId, Told s streamId →
    ∃ entry, s.streams streamId = some entry ∧ entry.registered = false

theorem inv_init : Inv init :=
  ⟨⟨Pairwise.nil, fun _ ⟨_, ho, _⟩ => absurd ho not_mem_nil⟩,
    fun _ ⟨_, ho, _⟩ => absurd ho not_mem_nil⟩

variable {s' : Sys} {streamId reason : String} {entry : Entry} {obs : List Obs}

theorem Sent.of_append (htrace : s'.trace = s.trace ++ obs) (hobs : ∀ o ∈ obs, ¬ o.Resets streamId)
    (h : Sent s' streamId) : Sent s streamId := by
  obtain ⟨o, ho, hresets⟩ := h
  rw [htrace, mem_append] at ho
  rcases ho with ho | ho
  · exact ⟨o, ho, hresets⟩
  · exact absurd hresets (hobs o ho)

theorem Told.of_append (htrace : s'.trace = s.trace ++ obs) (hobs : ∀ o ∈ obs, ¬ o.Tells streamId)
    (h : Told s' streamId) : Told s streamId := by
  obtain ⟨o, ho, htells⟩ := h
  rw [htrace, mem_append] at ho
  rcases ho with ho | ho
  · exact ⟨o, ho, htells⟩
  · exact absurd htells (hobs o ho)

theorem Told.append {s : Sys} (htrace : s'.trace = s.trace ++ obs) (h : Told s streamId) :
    Told s' streamId := by
  obtain ⟨o, ho, htells⟩ := h
  exact ⟨o, by rw [htrace]; exact mem_append_left _ ho, htells⟩

def Obs.Of (streamId : String) (o : Obs) : Prop :=
  ∀ id, o.Resets id ∨ o.Delivers id ∨ o.Tells id → id = streamId

/-- A step on one stream keeps the invariant if it delivers nothing to a stream that was reset,
leaves the stream ended if it was reset or is now, and out of the table if its consumer was told
or is now. -/
theorem Inv.update (h : Inv s) (hstreams : s'.streams = update s.streams streamId (some entry))
    (htrace : s'.trace = s.trace ++ obs) (hown : ∀ o ∈ obs, o.Of streamId)
    (hobs : obs.Pairwise fun o o' => ∀ id, o.Resets id → ¬ o'.Delivers id)
    (hdeliver : ∀ o ∈ obs, o.Delivers streamId → ¬ Sent s streamId)
    (hended : Sent s' streamId → Told s' streamId ∨ 0 < entry.resetting ∧ entry.completed = false)
    (hgone : Told s' streamId → entry.registered = false) : Inv s' := by
  refine ⟨⟨?_, fun id hsent => ?_⟩, fun id htold => ?_⟩
  · rw [htrace, pairwise_append]
    refine ⟨h.finality.1, hobs, fun o ho o' ho' id hresets hdelivers => ?_⟩
    obtain rfl := hown o' ho' id (.inr (.inl hdelivers))
    exact hdeliver o' ho' hdelivers ⟨o, ho, hresets⟩
  · by_cases hid : id = streamId
    · subst hid
      exact (hended hsent).imp_right fun hopen => ⟨entry, by rw [hstreams, update_self], hopen⟩
    · -- the other streams keep their entries, and what was said about them stays in the trace
      have hsent' := Sent.of_append htrace (fun o ho hr => hid (hown o ho id (.inl hr))) hsent
      rcases h.finality.2 id hsent' with htold | ⟨e, he, hopen⟩
      · exact .inl (htold.append htrace)
      · exact .inr ⟨e, by rw [hstreams, update_of_ne hid, he], hopen⟩
  · by_cases hid : id = streamId
    · subst hid
      exact ⟨entry, by rw [hstreams, update_self], hgone htold⟩
    · obtain ⟨e, he, hreg⟩ :=
        h.gone id (Told.of_append htrace (fun o ho ht => hid (hown o ho id (.inr (.inr ht)))) htold)
      exact ⟨e, by rw [hstreams, update_of_ne hid, he], hreg⟩

/-- The observation neither resets a stream nor delivers to one nor tells its consumer. -/
def Obs.Quiet (o : Obs) : Prop := ∀ id, ¬ o.Resets id ∧ ¬ o.Delivers id ∧ ¬ o.Tells id

theorem Obs.Quiet.of {o : Obs} (h : o.Quiet) (streamId : String) : o.Of streamId :=
  fun id hid => (hid.elim (h id).1 fun hid => hid.elim (h id).2.1 (h id).2.2).elim

/-- A step that neither resets nor delivers nor tells, and leaves what the invariant says of the
entry. -/
theorem Inv.keep {s : Sys} {old : Entry} (h : Inv s) (hold : s.streams streamId = some old)
    (hstreams : s'.streams = Function.update s.streams streamId (some entry))
    (htrace : s'.trace = s.trace ++ obs) (hquiet : ∀ o ∈ obs, o.Quiet)
    (hflags : 0 < old.resetting ∧ old.completed = false → 0 < entry.resetting ∧
      entry.completed = false) (hreg : old.registered = false → entry.registered = false) :
    Inv s' := by
  refine h.update hstreams htrace (fun o ho => (hquiet o ho).of streamId) ?_ ?_ ?_ ?_
  · exact pairwise_of_forall_mem_list fun o ho o' ho' id hr => absurd hr (hquiet o ho id).1
  · exact fun o ho hd => absurd hd (hquiet o ho streamId).2.1
  · intro hsent
    have hsent' := Sent.of_append htrace (fun o ho => (hquiet o ho streamId).1) hsent
    rcases h.finality.2 streamId hsent' with htold | ⟨e, he, hopen⟩
    · exact .inl (htold.append htrace)
    · obtain rfl : old = e := some.inj (hold.symm.trans he)
      exact .inr (hflags hopen)
  · intro htold
    obtain ⟨e, he, hgone⟩ :=
      h.gone streamId (Told.of_append htrace (fun o ho => (hquiet o ho streamId).2.2) htold)
    obtain rfl : old = e := some.inj (hold.symm.trans he)
    exact hreg hgone

/-- A step that leaves the consumer told and the stream out of the table. -/
theorem Inv.tell (h : Inv s)
    (hstreams : s'.streams = Function.update s.streams streamId (some entry))
    (htrace : s'.trace = s.trace ++ obs) (hown : ∀ o ∈ obs, o.Of streamId)
    (hquiet : ∀ o ∈ obs, ∀ id, ¬ o.Delivers id) (htold : Told s' streamId)
    (hreg : entry.registered = false) : Inv s' := by
  refine h.update hstreams htrace hown ?_ ?_ (fun _ => .inl htold) fun _ => hreg
  · exact pairwise_of_forall_mem_list fun o _ o' ho' id _ => hquiet o' ho' id
  · exact fun o ho hd => absurd hd (hquiet o ho streamId)

theorem Told.of_mem {s : Sys} {o : Obs} (htrace : s'.trace = s.trace ++ obs) (ho : o ∈ obs)
    (htells : o.Tells streamId) : Told s' streamId :=
  ⟨o, by rw [htrace]; exact mem_append_right _ ho, htells⟩

/-! ### Every clean step keeps it -/

theorem onFrame_eq_some (h : onFrame s streamId unknown handler = some s') : s' = unknown ∨
      ∃ entry, s.streams streamId = some entry ∧ entry.registered = true ∧ s' = handler entry := by
  rw [onFrame] at h
  split at h
  · exact .inl (some.inj h).symm
  · next entry hentry =>
    split at h
    · cases h
    · split at h
      · next hreg => exact .inr ⟨entry, hentry, hreg, (some.inj h).symm⟩
      · exact .inl (some.inj h).symm

theorem Inv.emit (h : Inv s) (ho : Obs.Quiet o) : Inv (s.emit [o]) := by
  have htrace : (s.emit [o]).trace = s.trace ++ [o] := rfl
  refine ⟨⟨?_, fun id hsent => ?_⟩, fun id htold => ?_⟩
  · rw [htrace, pairwise_append]
    refine ⟨h.finality.1, pairwise_singleton _ _, ?_⟩
    intro o₁ _ o₂ ho₂ id _
    rw [mem_singleton.mp ho₂]
    exact (ho id).2.1
  · have hsent' := Sent.of_append htrace (fun o' ho' => mem_singleton.mp ho' ▸ (ho id).1) hsent
    exact (h.finality.2 id hsent').imp_left fun htold => htold.append htrace
  · exact h.gone id (Told.of_append htrace (fun o' ho' => mem_singleton.mp ho' ▸ (ho id).2.2) htold)

variable {limits : Limits} {error : StreamError}

/-- An accepted frame goes to a consumer that was not told its stream ended. -/
theorem Inv.handleStreamData (h : Inv s) (hentry : s.streams streamId = some entry)
    (hreg : entry.registered = true) (hacc : Accepted limits entry streamType offset bytes) :
    Inv (Router.handleStreamData limits s streamId entry streamType offset bytes endStream) := by
  have hnottold : ¬ Told s streamId := by
    intro htold
    obtain ⟨e, he, hunreg⟩ := h.gone streamId htold
    obtain rfl : entry = e := some.inj (hentry.symm.trans he)
    exact absurd (hreg.symm.trans hunreg) (by decide)
  have hnotsent : ¬ Sent s streamId := by
    intro hsent
    rcases h.finality.2 streamId hsent with htold | ⟨e, he, hresetting, -⟩
    · exact hnottold htold
    · obtain rfl : entry = e := some.inj (hentry.symm.trans he)
      exact absurd hacc.not_resetting (Nat.ne_of_gt hresetting)
  have hrecord : ∃ stream, recordDataPlaneInboundChunk entry.stream offset bytes.length
      = .ok stream := by
    rw [recordDataPlaneInboundChunk, hacc.not_isReset, hacc.not_remoteClosed]
    exact ⟨_, by rw [if_neg (by decide), if_neg (by decide), if_neg (not_not.mpr hacc.offset_eq),
      if_neg (Nat.not_lt.mpr hacc.credit_le)]⟩
  obtain ⟨stream, hrecord⟩ := hrecord
  simp only [Router.handleStreamData, if_neg (not_not.mpr hacc.streamType_eq),
    if_neg (Nat.not_lt.mpr hacc.length_le), hrecord]
  refine h.update rfl rfl ?_ (pairwise_singleton _ _) (fun _ _ _ => hnotsent) ?_ ?_
  · simp [Obs.Of]
  · exact fun hsent => absurd (Sent.of_append rfl (by simp) hsent) hnotsent
  · exact fun htold => absurd (Told.of_append rfl (by simp) htold) hnottold

/-- Calling `onReset` ends the stream, whatever was sent before it. -/
theorem Inv.callOnReset (h : Inv s) : Inv (Router.callOnReset s streamId reason entry) := by
  refine h.tell rfl rfl ?_ ?_ (.of_mem rfl (mem_singleton_self _) (Eq.refl streamId)) rfl
  · simp [Obs.Of]
  · simp

/-- Sending a reset and calling `onReset`, in either order, ends the stream. -/
theorem Inv.resetAndTell (h : Inv s)
    (hstreams : s'.streams = Function.update s.streams streamId (some entry.complete))
    (htrace : s'.trace = s.trace ++ [.onReset streamId reason, .resetSent streamId reason' error] ∨
      s'.trace = s.trace ++ [.resetSent streamId reason' error, .onReset streamId reason]) :
    Inv s' := by
  rcases htrace with htrace | htrace
  · exact h.tell hstreams htrace (by simp [Obs.Of]) (by simp)
      (.of_mem htrace mem_cons_self (Eq.refl streamId)) rfl
  · exact h.tell hstreams htrace (by simp [Obs.Of]) (by simp)
      (.of_mem htrace (mem_cons_of_mem _ mem_cons_self) (Eq.refl streamId)) rfl

/-- The edge's own reset opens the window in which it is about to tell the consumer. -/
theorem Inv.resetRemote (h : Inv s) (hold : s.streams streamId = some old)
    (hstreams : s'.streams = Function.update s.streams streamId (some entry))
    (htrace : s'.trace = s.trace ++ [.resetSent streamId reason error])
    (hopen : Told s streamId ∨ 0 < entry.resetting ∧ entry.completed = false)
    (hreg : old.registered = false → entry.registered = false) : Inv s' := by
  refine h.update hstreams htrace (by simp [Obs.Of]) (pairwise_singleton _ _) (by simp) ?_ ?_
  · exact fun _ => hopen.imp_left fun htold => htold.append htrace
  · intro htold
    obtain ⟨e, he, hgone⟩ := h.gone streamId (Told.of_append htrace (by simp) htold)
    obtain rfl : old = e := some.inj (hold.symm.trans he)
    exact hreg hgone

theorem Inv.clear (h : Inv s) :
    Inv { s with streams := fun streamId =>
      (s.streams streamId).map fun entry => { entry with registered := false } } := by
  refine ⟨⟨h.finality.1, fun id hsent => ?_⟩, fun id htold => ?_⟩
  · refine (h.finality.2 id hsent).imp_right ?_
    rintro ⟨e, he, hopen⟩
    exact ⟨{ e with registered := false }, by simp only [he, map_some], hopen⟩
  · obtain ⟨e, he, -⟩ := h.gone id htold
    exact ⟨{ e with registered := false }, by simp only [he, map_some], rfl⟩

/-- **Every clean step keeps the invariant.** -/
theorem Inv.step (h : Inv s) (hok : Clean limits s act)
    (hstep : Router.step limits s act = some s') : Inv s' := by
  cases act with
  | register streamId streamType credit =>
    rw [Router.step] at hstep
    split at hstep
    · cases hstep
    · next hnone =>
      cases hstep
      -- an id that was never registered was never reset, and nobody was told that it ended
      have htold : ¬ Told s streamId := by
        intro htold
        obtain ⟨e, he, -⟩ := h.gone streamId htold
        exact absurd (hnone.symm.trans he) (by simp)
      refine h.update rfl (append_nil _).symm (by simp) Pairwise.nil (by simp) ?_ ?_
      · intro hsent
        rcases h.finality.2 streamId hsent with htold' | ⟨e, he, -⟩
        · exact absurd htold' htold
        · exact absurd (hnone.symm.trans he) (by simp)
      · exact fun htold' => absurd htold' htold
  | streamData streamId streamType offset bytes endStream =>
    rcases onFrame_eq_some hstep with rfl | ⟨entry, hentry, hreg, rfl⟩
    · exact h.emit (by simp [Obs.Quiet])
    · exact h.handleStreamData hentry hreg (hok entry hentry hreg)
  | streamCredit streamId receiveOffset creditBytes =>
    rcases onFrame_eq_some hstep with rfl | ⟨entry, hentry, -, rfl⟩
    · exact h
    · exact h.keep hentry rfl (append_nil _).symm (by simp) id id
  | streamReset streamId reason =>
    rcases onFrame_eq_some hstep with rfl | ⟨entry, -, -, rfl⟩
    · exact h
    · exact h.callOnReset
  | streamClose streamId finalOffset =>
    rcases onFrame_eq_some hstep with rfl | ⟨entry, hentry, -, rfl⟩
    · exact h
    · rw [handleStreamClose]
      split
      · exact h.resetAndTell rfl (.inl (append_assoc _ _ _))
      · exact h.keep hentry rfl rfl (by simp [Obs.Quiet]) id id
  | consumed streamId =>
    obtain ⟨entry, hentry, hsome⟩ := bind_eq_some_iff.mp hstep
    obtain ⟨⟨byteLength, endStream⟩, -, rfl⟩ := map_eq_some_iff.mp hsome
    simp only [Router.consumed]
    split <;> exact h.keep hentry rfl rfl (by simp [Obs.Quiet]) id id
  | consumerFails streamId message =>
    obtain ⟨entry, hentry, hsome⟩ := bind_eq_some_iff.mp hstep
    obtain ⟨-, -, rfl⟩ := map_eq_some_iff.mp hsome
    exact h.resetRemote hentry rfl rfl (.inl hok) id
  | cleanup streamId completes =>
    obtain ⟨entry, hentry, hsome⟩ := bind_eq_some_iff.mp hstep
    obtain ⟨-, hsome⟩ := Option.ite_none_left_eq_some.mp hsome
    split at hsome
    · next hcompletes =>
      cases hsome
      refine h.keep hentry rfl (append_nil _).symm (by simp) ?_ fun _ => rfl
      rintro ⟨hresetting, -⟩
      exact absurd (hok hcompletes entry hentry) (Nat.ne_of_gt hresetting)
    · cases hsome
      exact h.keep hentry rfl (append_nil _).symm (by simp) id fun _ => rfl
  | clientClosed streamId =>
    obtain ⟨entry, hentry, hsome⟩ := bind_eq_some_iff.mp hstep
    obtain ⟨-, rfl⟩ := Runs.of_guard hsome
    exact h.resetAndTell rfl (.inr (append_assoc _ _ _))
  | serviceLimit streamId =>
    obtain ⟨entry, hentry, hsome⟩ := bind_eq_some_iff.mp hstep
    obtain ⟨-, rfl⟩ := Runs.of_guard_not hsome
    exact h.keep hentry rfl (append_nil _).symm (by simp) id id
  | resetRemote streamId reason error =>
    obtain ⟨entry, hentry, hsome⟩ := bind_eq_some_iff.mp hstep
    obtain ⟨-, rfl⟩ := Runs.of_guard hsome
    refine h.resetRemote hentry rfl rfl ?_ id
    exact Or.imp_right (fun hopen => ⟨Nat.succ_pos _, hopen entry hentry⟩) hok
  | handleReset streamId reason =>
    obtain ⟨entry, hentry, hsome⟩ := bind_eq_some_iff.mp hstep
    obtain ⟨-, hsome⟩ := Option.ite_none_right_eq_some.mp hsome
    dsimp only at hsome
    split at hsome
    · next hcompleted =>
      cases hsome
      refine h.keep hentry rfl (append_nil _).symm (by simp) ?_ id
      rintro ⟨-, hopen⟩
      exact absurd (hopen.symm.trans hcompleted) (by decide)
    · cases hsome
      exact h.callOnReset
  | cleanupAndReset streamId reason error =>
    obtain ⟨entry, hentry, hsome⟩ := bind_eq_some_iff.mp hstep
    cases hsome
    exact h.resetRemote hentry rfl rfl (.inl hok) fun _ => rfl
  | resetLocalLlmStream streamId reason error =>
    -- a registered stream whose consumer was told does not exist
    obtain ⟨entry, hentry, hsome⟩ := bind_eq_some_iff.mp hstep
    obtain ⟨hreg, -⟩ := Runs.of_guard hsome
    obtain ⟨e, he, hgone⟩ := h.gone streamId hok
    obtain rfl : entry = e := some.inj (hentry.symm.trans he)
    exact absurd (hreg.symm.trans hgone) (by decide)
  | transportLost streamId =>
    obtain ⟨entry, hentry, hsome⟩ := bind_eq_some_iff.mp hstep
    obtain ⟨-, rfl⟩ := Runs.of_guard hsome
    exact h.callOnReset
  | clear =>
    cases hstep
    exact h.clear

/-- **Reset finality, along clean runs.** In every run of the router in which every data frame of
a registered stream passes the checks of `handleStreamData`, no consumer completes while its edge
is resetting it, none is complete when a service limit's reset is sent, and none throws or is
passed over by a reset before it was told that its stream ended, nothing is delivered after a reset
and every consumer whose stream was reset is told. -/
theorem finality_of_clean {limits : Limits} {acts : List Act} {s : Sys}
    (hok : Runs.Along (step limits) (Clean limits) acts init)
    (hrun : Runs.run (step limits) acts init = some s) : Finality s :=
  (Runs.invariant_along (fun _ _ _ h hok hs => Inv.step h hok hs) hok hrun inv_init).finality

/-- A stream of which one chunk is consumed and whose close names a wrong offset. -/
def badClose : List Act :=
  [.register "st" "file_read" 8, .streamData "st" "file_read" 0 [1, 2] false, .consumed "st",
    .streamClose "st" 9, .streamData "st" "file_read" 2 [3] false]

/-- The wrong close resets the stream: the consumer is told, and the next chunk is not delivered. -/
theorem finality_of_clean_badClose :
    ∃ s, Runs.run (step ⟨4, 8⟩) badClose init = some s ∧ Sent s "st" ∧ Finality s := by
  obtain ⟨s, hs, hv⟩ := map_eq_some_iff.mp
    (show (Runs.run (step ⟨4, 8⟩) badClose init).map (fun s => s.trace[3]?)
      = some (some (.resetSent "st" "protocol_error"
        ⟨"FINAL_OFFSET_MISMATCH", "expected final_offset 2, got 9"⟩)) by decide)
  exact ⟨s, hs, ⟨_, mem_of_getElem? hv, rfl⟩, finality_of_clean (by decide) hs⟩

/-- A chunk over the size limit, and the chunk that should have come in its place. -/
def oversized : List Act :=
  [.register "st" "file_read" 8, .streamData "st" "file_read" 0 [1, 2, 3, 4, 5] false,
    .streamData "st" "file_read" 0 [1, 2] false]

/-- The first chunk makes the service reset the stream, the second is delivered all the same, and
the consumer is never told. -/
theorem not_finality_oversized :
    ∃ s, Runs.run (step ⟨4, 8⟩) oversized init = some s ∧
      s.trace = [.resetSent "st" "protocol_error"
          ⟨"CHUNK_TOO_LARGE", "stream_data chunk exceeds data-plane max chunk size"⟩,
        .onData "st" 0 [1, 2]] ∧
      ¬ Told s "st" ∧ ¬ Finality s := by
  obtain ⟨s, hs, hv⟩ := map_eq_some_iff.mp
    (show (Runs.run (step ⟨4, 8⟩) oversized init).map Sys.trace
      = some [.resetSent "st" "protocol_error"
          ⟨"CHUNK_TOO_LARGE", "stream_data chunk exceeds data-plane max chunk size"⟩,
        .onData "st" 0 [1, 2]] by decide)
  refine ⟨s, hs, hv, ?_, ?_⟩
  · rintro ⟨o, ho, htells⟩
    rw [hv] at ho
    simp only [mem_cons, not_mem_nil, or_false] at ho
    rcases ho with rfl | rfl
    all_goals exact htells
  · rintro ⟨hpairwise, -⟩
    rw [hv, pairwise_cons] at hpairwise
    exact hpairwise.1 _ (mem_singleton.mpr rfl) "st" rfl rfl

end Router

end Bud.DataPlane
