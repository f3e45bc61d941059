import Bud.Stem.Holder
import Bud.Stem.RingRefinement

/-!
# What a subscriber sees

A subscription is a replay of the ring followed by live pushes, and the two are produced by
different threads. The module's question is whether they join up: over every interleaving of the
pump, the reaper and the handlers, does a subscriber receive the PTY's stream from one offset on,
without a gap or an overlap, and the exit exactly once?

The invariant is about what the handler *owes*: what it has written, still has to write, and what
waits in its channel. `owed` is at all times the `Truncated` notice, if one is due, followed by
frames that carry the stream up to its current end. It is the subscription's critical section that
makes it true at the start: the bytes read, the channel registered and the exit status taken all
belong to the same state.
-/

namespace Bud.Holder

open Slice Bud.Ipc Bud.Ring List Option Subscriber

/-! ### Frames that carry a stream -/

/-- The outputs in `frames` are the bytes of `P` from `a` to `b`, one non-empty range after the
other; besides them there are only exit notices. -/
def Carries (P : List UInt8) : ℕ → List HolderMsg → ℕ → Prop
  | a, [], b => a = b
  | a, .output offset bytes :: frames, b =>
    offset = a ∧ bytes ≠ [] ∧ bytes = slice P a (a + bytes.length) ∧
      Carries P (a + bytes.length) frames b
  | a, .childExited _ _ :: frames, b => Carries P a frames b
  | _, _ :: _, _ => False

/-- The exit notices among `frames`. -/
def exits : List HolderMsg → List ChildExit
  | [] => []
  | .childExited exitCode signal :: frames => ⟨exitCode, signal⟩ :: exits frames
  | _ :: frames => exits frames

theorem exits_append (fs gs : List HolderMsg) : exits (fs ++ gs) = exits fs ++ exits gs := by
  induction fs with
  | nil => rfl
  | cons f fs ih => cases f <;> simp [exits, ih]

variable {P : List UInt8} {fs lead : List HolderMsg} {a k cap : ℕ} {sh sh' : Shared} {act : Act}

variable {gs : List HolderMsg} {b c fromOffset start : ℕ} {f : Subscriber → Option Subscriber}
  {sub : Subscriber} {acts : List Act}

theorem Carries.append (h : Carries P a fs b) (h' : Carries P b gs c) :
    Carries P a (fs ++ gs) c := by
  induction fs generalizing a with
  | nil =>
    cases h
    exact h'
  | cons f fs ih =>
    cases f with
    | output offset bytes => exact ⟨h.1, h.2.1, h.2.2.1, ih h.2.2.2⟩
    | childExited _ _ => exact ih h
    | _ => exact h.elim

theorem Carries.split (h : Carries P a (fs ++ gs) c) :
    ∃ b, Carries P a fs b ∧ Carries P b gs c := by
  induction fs generalizing a with
  | nil => exact ⟨a, rfl, h⟩
  | cons f fs ih =>
    cases f with
    | output offset bytes =>
      obtain ⟨b, hfs, hgs⟩ := ih h.2.2.2
      exact ⟨b, ⟨h.1, h.2.1, h.2.2.1, hfs⟩, hgs⟩
    | childExited _ _ => exact ih h
    | _ => exact h.elim

/-- Where the frames lead is determined by the frames. -/
theorem Carries.unique (h : Carries P a fs b) (h' : Carries P a fs c) : b = c := by
  induction fs generalizing a with
  | nil => exact h.symm.trans h'
  | cons f fs ih =>
    cases f with
    | output offset bytes => exact ih h.2.2.2 h'.2.2.2
    | childExited _ _ => exact ih h h'
    | _ => exact h.elim

theorem Carries.mono (h : Carries P a fs b) (Q : List UInt8) : Carries (P ++ Q) a fs b := by
  induction fs generalizing a with
  | nil => exact h
  | cons f fs ih =>
    cases f with
    | output offset bytes =>
      obtain ⟨hoff, hne, hbytes, hrest⟩ := h
      refine ⟨hoff, hne, ?_, ih hrest⟩
      have hlen := congrArg length hbytes
      have hpos := length_pos_iff.mpr hne
      rw [length_slice] at hlen
      rw [slice_append_of_le _ _ (by omega)]
      exact hbytes
    | childExited _ _ => exact ih h
    | _ => exact h.elim

theorem carries_outputFrames : ∀ (chunks : List (List UInt8)) (a : ℕ),
    (∀ c ∈ chunks, c ≠ []) → chunks.flatten = slice P a (a + chunks.flatten.length) →
    Carries P a (outputFrames a chunks) (a + chunks.flatten.length) := by
  intro chunks
  induction chunks with
  | nil => intro a _ _; rfl
  | cons c cs ih =>
    intro a hne h
    rw [flatten_cons, length_append] at h ⊢
    have hc : c = slice P a (a + c.length) := by
      have := congrArg (take c.length) h
      rwa [take_left, take_slice, show min (a + (c.length + cs.flatten.length)) (a + c.length)
        = a + c.length by omega] at this
    have hcs : cs.flatten = slice P (a + c.length) (a + c.length + cs.flatten.length) := by
      have := congrArg (drop c.length) h
      rwa [drop_left, drop_slice, ← Nat.add_assoc] at this
    refine ⟨rfl, hne c mem_cons_self, hc, ?_⟩
    rw [← Nat.add_assoc]
    exact ih (a + c.length) (fun d hd => hne d (mem_cons_of_mem _ hd)) hcs

theorem carries_writeOutputChunks (h : bytes = slice P a (a + bytes.length)) :
    Carries P a (writeOutputChunks a bytes) (a + bytes.length) := by
  have hflat : (Chunks.chunks outputChunk bytes).flatten = bytes :=
    Chunks.flatten_chunks (by decide) bytes
  have := carries_outputFrames (P := P) (Chunks.chunks outputChunk bytes) a
    (fun c hc => length_pos_iff.mp (Chunks.mem_chunks (by decide) hc).1) (by rwa [hflat])
  rwa [hflat] at this

theorem exits_outputFrames (a : ℕ) (chunks : List (List UInt8)) :
    exits (outputFrames a chunks) = [] := by
  induction chunks generalizing a with
  | nil => rfl
  | cons c cs ih => exact ih _

@[simp] theorem exits_writeOutputChunks (a : ℕ) (bytes : List UInt8) :
    exits (writeOutputChunks a bytes) = [] :=
  exits_outputFrames _ _

/-! ### One subscriber -/

namespace Subscriber

/-- Everything the handler has written or will write without another event being sent. -/
def owed (sub : Subscriber) : List HolderMsg :=
  sub.sent ++ sub.todo ++ sub.rx.flatMap SubEvent.frames

/-- Nothing is left to write or to receive. -/
def Drained (sub : Subscriber) : Prop := sub.todo = [] ∧ sub.rx = []

/-- The subscriber's stream starts with `lead` and then carries `P` from `start`. A live handler
owes everything up to the end of `P`, and the exit if there was one; a handler that returned has
written some of it. -/
def Inv (lead : List HolderMsg) (start : ℕ) (P : List UInt8) (exit : Option ChildExit)
    (sub : Subscriber) : Prop :=
  ∃ rest stop, Carries P start rest stop ∧ exits rest <+: exit.toList ∧
    sub.sent <+: lead ++ rest ∧
    (sub.alive = true → sub.owed = lead ++ rest ∧ stop = P.length ∧ exits rest = exit.toList)

variable {lead : List HolderMsg} {start : ℕ} {P : List UInt8} {exit : Option ChildExit}
  {sub sub' : Subscriber}

theorem owed_send (event : SubEvent) (h : sub.alive = true) :
    (sub.send event).owed = sub.owed ++ event.frames := by
  simp [send, h, owed]

theorem sent_prefix_owed (sub : Subscriber) : sub.sent <+: sub.owed :=
  ⟨sub.todo ++ sub.rx.flatMap SubEvent.frames, by simp [owed]⟩

/-- **The pump's push.** The stream has grown by `bytes`, and so has what is owed. -/
theorem Inv.send_output (h : Inv lead start P exit sub) (bytes : List UInt8) :
    Inv lead start (P ++ bytes) exit (sub.send (.output P.length bytes)) := by
  obtain ⟨rest, stop, hcarry, hexit, hsent, halive⟩ := h
  cases hs : sub.alive with
  | false =>
    refine ⟨rest, stop, hcarry.mono bytes, hexit, ?_, ?_⟩
    · simpa [send, hs] using hsent
    · simp [send, hs]
  | true =>
    obtain ⟨howed, rfl, hexits⟩ := halive hs
    have hnew : Carries (P ++ bytes) P.length (SubEvent.output P.length bytes).frames
        (P.length + bytes.length) :=
      carries_writeOutputChunks (slice_append_length P bytes).symm
    refine ⟨rest ++ (SubEvent.output P.length bytes).frames, _, (hcarry.mono bytes).append hnew,
      ?_, ?_, fun _ => ⟨?_, ?_, ?_⟩⟩
    · simpa [exits_append, SubEvent.frames] using hexit
    · have : (sub.send (.output P.length bytes)).sent = sub.sent := by simp [send, hs]
      rw [this, ← append_assoc]
      exact hsent.trans (prefix_append _ _)
    · rw [owed_send _ hs, howed, append_assoc]
    · rw [length_append]
    · simpa [exits_append, SubEvent.frames] using hexits

/-- **The reaper's push.** -/
theorem Inv.send_exited (h : Inv lead start P none sub) (e : ChildExit) :
    Inv lead start P (some e) (sub.send (.exited e)) := by
  obtain ⟨rest, stop, hcarry, hexit, hsent, halive⟩ := h
  have hnil : exits rest = [] := by simpa using hexit
  cases hs : sub.alive with
  | false =>
    refine ⟨rest, stop, hcarry, by simp [hnil], ?_, ?_⟩
    · simpa [send, hs] using hsent
    · simp [send, hs]
  | true =>
    obtain ⟨howed, rfl, -⟩ := halive hs
    have hexits : exits (rest ++ [childExited e]) = [e] := by
      rw [exits_append, hnil]; rfl
    refine ⟨rest ++ [childExited e], P.length, hcarry.append rfl, by simp [hexits], ?_,
      fun _ => ⟨?_, rfl, by simp [hexits]⟩⟩
    · have : (sub.send (.exited e)).sent = sub.sent := by simp [send, hs]
      rw [this, ← append_assoc]
      exact hsent.trans (prefix_append _ _)
    · rw [owed_send _ hs, howed, append_assoc]
      rfl

/-- A handler that only moves frames along keeps what it owes. -/
theorem Inv.of_owed_eq (h : Inv lead start P exit sub) (halive : sub.alive = true)
    (howed : sub'.owed = sub.owed) : Inv lead start P exit sub' := by
  obtain ⟨rest, stop, hcarry, hexit, -, hlive⟩ := h
  obtain ⟨hrest, hstop, hexits⟩ := hlive halive
  refine ⟨rest, stop, hcarry, hexit, ?_, fun _ => ⟨howed.trans hrest, hstop, hexits⟩⟩
  rw [← hrest, ← howed]
  exact sub'.sent_prefix_owed

theorem writeFrame_eq_some (h : sub.writeFrame = some sub') :
    sub.alive = true ∧ sub'.alive = true ∧ sub'.owed = sub.owed := by
  unfold writeFrame at h
  split at h
  · next frame todo halive htodo =>
    cases h
    exact ⟨halive, halive, by simp [owed, htodo]⟩
  · cases h

theorem recv_eq_some (h : sub.recv = some sub') :
    sub.alive = true ∧ sub'.alive = true ∧ sub'.owed = sub.owed := by
  unfold recv at h
  split at h
  · next event rx halive htodo hrx =>
    cases h
    exact ⟨halive, halive, by simp [owed, htodo, hrx]⟩
  · cases h

theorem Inv.writeFrame (h : Inv lead start P exit sub) (hs : sub.writeFrame = some sub') :
    Inv lead start P exit sub' :=
  h.of_owed_eq (writeFrame_eq_some hs).1 (writeFrame_eq_some hs).2.2

theorem Inv.recv (h : Inv lead start P exit sub) (hs : sub.recv = some sub') :
    Inv lead start P exit sub' :=
  h.of_owed_eq (recv_eq_some hs).1 (recv_eq_some hs).2.2

theorem Inv.disconnect (h : Inv lead start P exit sub) (hs : sub.disconnect = some sub') :
    Inv lead start P exit sub' := by
  obtain ⟨rest, stop, hcarry, hexit, hsent, -⟩ := h
  cases hs
  exact ⟨rest, stop, hcarry, hexit, hsent, fun h => absurd h Bool.false_ne_true⟩

end Subscriber

/-! ### What a step can do -/

theorem modify_eq_some (h : modify sh j f = some sh') :
    ∃ sub sub', sh.subscribers[j]? = some sub ∧ f sub = some sub' ∧
      sh' = { sh with subscribers := sh.subscribers.set j sub' } := by
  obtain ⟨sub, hsub, hf⟩ := bind_eq_some_iff.mp h
  obtain ⟨sub', hsub', heq⟩ := map_eq_some_iff.mp hf
  exact ⟨sub, sub', hsub, hsub', heq.symm⟩

theorem subscribe_eq_some (h : subscribe sh fromOffset = some sh') :
    ∃ sub, sh' = { sh with subscribers := sh.subscribers ++ [sub] } := by
  obtain ⟨replay, -, heq⟩ := map_eq_some_iff.mp h
  exact ⟨_, heq.symm⟩

theorem sent_prefix_of_step (h : step sh act = some sh') (hk : sh.subscribers[k]? = some sub) :
    ∃ sub', sh'.subscribers[k]? = some sub' ∧ sub.sent <+: sub'.sent := by
  have hsend : ∀ event, ∃ sub', (sh.subscribers.map (send event))[k]? = some sub' ∧
      sub.sent <+: sub'.sent := by
    intro event
    refine ⟨sub.send event, by rw [getElem?_map, hk]; rfl, ?_⟩
    rw [send]
    split_ifs <;> exact prefix_rfl
  have hmodify : ∀ {j : ℕ} {f : Subscriber → Option Subscriber},
      (∀ s s', f s = some s' → s.sent <+: s'.sent) → modify sh j f = some sh' →
      ∃ sub', sh'.subscribers[k]? = some sub' ∧ sub.sent <+: sub'.sent := by
    intro j f hf hm
    obtain ⟨s, s', hs, hs', rfl⟩ := modify_eq_some hm
    by_cases hjk : j = k
    · subst hjk
      obtain rfl : s = sub := some.inj (hs.symm.trans hk)
      exact ⟨s', getElem?_set_self (List.getElem?_eq_some_iff.mp hk).1, hf s s' hs'⟩
    · exact ⟨sub, by rw [getElem?_set_ne hjk]; exact hk, prefix_rfl⟩
  cases act with
  | ptyRead bytes =>
    rw [step] at h
    split at h
    · obtain ⟨ring, -, rfl⟩ := map_eq_some_iff.mp h
      exact hsend _
    · cases h
  | ptyEof =>
    obtain ⟨-, rfl⟩ := Runs.of_guard h
    exact ⟨sub, hk, prefix_rfl⟩
  | reap exit =>
    obtain ⟨-, rfl⟩ := Runs.of_guard h
    exact hsend _
  | resize cols rows =>
    cases h
    exact ⟨sub, hk, prefix_rfl⟩
  | subscribe fromOffset =>
    obtain ⟨new, rfl⟩ := subscribe_eq_some h
    refine ⟨sub, ?_, prefix_rfl⟩
    rw [getElem?_append_left (List.getElem?_eq_some_iff.mp hk).1]
    exact hk
  | writeFrame j =>
    refine hmodify ?_ h
    intro s s' hs
    rw [writeFrame] at hs
    split at hs
    · cases hs
      exact prefix_append _ _
    · cases hs
  | recv j =>
    refine hmodify ?_ h
    intro s s' hs
    rw [recv] at hs
    split at hs
    · cases hs
      exact prefix_rfl
    · cases hs
  | disconnect j =>
    refine hmodify ?_ h
    intro s s' hs
    cases hs
    exact prefix_rfl

/-! ### The ring -/

theorem step_ring (h : step sh act = some sh') :
    (∃ bytes, act = .ptyRead bytes ∧ sh.ring.append bytes = some sh'.ring) ∨
      (act.output = [] ∧ sh'.ring = sh.ring) := by
  cases act with
  | ptyRead bytes =>
    rw [step] at h
    split at h
    · obtain ⟨ring, happend, rfl⟩ := map_eq_some_iff.mp h
      exact .inl ⟨bytes, rfl, happend⟩
    · cases h
  | ptyEof | reap _ =>
    obtain ⟨-, rfl⟩ := Runs.of_guard h
    exact .inr ⟨rfl, rfl⟩
  | resize cols rows =>
    cases h
    exact .inr ⟨rfl, rfl⟩
  | subscribe fromOffset =>
    obtain ⟨new, rfl⟩ := subscribe_eq_some h
    exact .inr ⟨rfl, rfl⟩
  | writeFrame j | recv j | disconnect j =>
    obtain ⟨-, -, -, -, rfl⟩ := modify_eq_some h
    exact .inr ⟨rfl, rfl⟩

theorem refines_step (h : Refines sh.ring ⟨cap, P⟩) (hstep : step sh act = some sh') :
    Refines sh'.ring ⟨cap, P ++ act.output⟩ := by
  obtain ⟨bytes, rfl, happend⟩ | ⟨hout, hring⟩ := step_ring hstep
  · obtain ⟨ring, happend', href⟩ := h.append bytes
    rw [some.inj (happend.symm.trans happend')]
    exact href
  · rw [hout, hring, append_nil]
    exact h

/-- The ring stores the PTY's stream in every reachable state. -/
theorem refines_run (h : Runs.run step acts (init cap cols rows childPid) = some sh) :
    Refines sh.ring ⟨cap, produced acts⟩ := by
  have hstep : ∀ P sh act sh', Refines sh.ring ⟨cap, P⟩ → step sh act = some sh' →
      Refines sh'.ring ⟨cap, P ++ act.output⟩ := fun _ _ _ _ hi hs => refines_step hi hs
  exact Runs.invariant_history hstep h (refines_open_nil cap)

/-! ### The shared state -/

/-- The ring stores the PTY's stream, and subscriber `k` has its part of it. -/
structure Inv (cap k : ℕ) (lead : List HolderMsg) (start : ℕ) (P : List UInt8) (sh : Shared) :
    Prop where
  ring : Refines sh.ring ⟨cap, P⟩
  sub : ∃ sub, sh.subscribers[k]? = some sub ∧ sub.Inv lead start P sh.exit

theorem Inv.modify (h : Inv cap k lead start P sh) (hstep : modify sh j f = some sh')
    (hf : ∀ sub sub', sub.Inv lead start P sh.exit → f sub = some sub' → sub'.Inv lead start P
      sh.exit) : Inv cap k lead start P sh' := by
  obtain ⟨sub, sub', hsub, hsub', rfl⟩ := modify_eq_some hstep
  obtain ⟨subk, hk, hinv⟩ := h.sub
  refine ⟨h.ring, ?_⟩
  by_cases hjk : j = k
  · subst hjk
    obtain rfl : sub = subk := some.inj (hsub.symm.trans hk)
    refine ⟨sub', ?_, hf sub sub' hinv hsub'⟩
    exact getElem?_set_self (List.getElem?_eq_some_iff.mp hk).1
  · exact ⟨subk, by rw [getElem?_set_ne hjk]; exact hk, hinv⟩

/-- What the critical section of a subscription does, in terms of the stream. -/
theorem subscribe_of_refines {A : Retained} (h : Refines sh.ring A) (fromOffset : ℕ) :
    subscribe sh fromOffset = some { sh with subscribers := sh.subscribers ++
      [{ rx := []
         todo := replayFrames
           { start := max (min fromOffset A.next) A.oldest
             bytes := slice A.stream (max (min fromOffset A.next) A.oldest) A.next
             truncatedFrom :=
              if fromOffset < A.oldest then some (min fromOffset A.next) else none } sh.exit
         sent := []
         alive := true }] } := by
  have hle := A.oldest_le_next
  have htrunc : A.Truncated (min fromOffset A.next) A.next ↔ fromOffset < A.oldest := by
    rw [Retained.Truncated]
    omega
  rw [subscribe, h.nextOffset_eq, h.readRange, map_some, Retained.read,
    show min (max (min fromOffset A.next) A.oldest) A.next
      = max (min fromOffset A.next) A.oldest by omega, min_self]
  simp only [htrunc]

theorem inv_subscribe (href : Refines sh.ring ⟨cap, P⟩) (h : subscribe sh fromOffset = some sh') :
    Inv cap sh.subscribers.length
      (if fromOffset < P.length - min cap P.length then
        [.truncated (max (min fromOffset P.length) (P.length - min cap P.length))] else [])
      (max (min fromOffset P.length) (P.length - min cap P.length)) P sh' := by
  rw [subscribe_of_refines href] at h
  cases h
  refine ⟨href, _, getElem?_concat_length, ?_⟩
  simp only [Retained.next, Retained.oldest]
  set start := max (min fromOffset P.length) (P.length - min cap P.length) with hstart
  have hout : Carries P start (writeOutputChunks start (slice P start P.length)) P.length := by
    have hlen : start + (slice P start P.length).length = P.length := by
      rw [length_slice]; omega
    have hbytes : slice P start P.length
        = slice P start (start + (slice P start P.length).length) := by rw [hlen]
    have := carries_writeOutputChunks hbytes
    rwa [hlen] at this
  have htail : Carries P P.length (sh.exit.toList.map childExited) P.length := by
    cases sh.exit <;> rfl
  have hexits : exits (writeOutputChunks start (slice P start P.length) ++
      sh.exit.toList.map childExited) = sh.exit.toList := by
    rw [exits_append, exits_writeOutputChunks]
    cases sh.exit <;> rfl
  refine ⟨_, P.length, hout.append htail, by simp [hexits], nil_prefix,
    fun _ => ⟨?_, rfl, hexits⟩⟩
  by_cases hlt : fromOffset < P.length - min cap P.length <;>
    simp [owed, replayFrames, hlt]

/-- **The invariant is kept by every action of every thread.** -/
theorem Inv.step (h : Inv cap k lead start P sh) (hstep : step sh act = some sh') :
    Inv cap k lead start (P ++ act.output) sh' := by
  obtain ⟨sub, hk, hsub⟩ := h.sub
  refine ⟨refines_step h.ring hstep, ?_⟩
  cases act with
  | ptyRead bytes =>
    rw [Holder.step] at hstep
    split at hstep
    · obtain ⟨ring, -, rfl⟩ := map_eq_some_iff.mp hstep
      refine ⟨_, by rw [getElem?_map, hk]; rfl, ?_⟩
      rw [h.ring.nextOffset_eq]
      exact hsub.send_output bytes
    · cases hstep
  | ptyEof =>
    rw [Holder.step] at hstep
    obtain ⟨-, rfl⟩ := Runs.of_guard hstep
    simpa only [Act.output, append_nil] using h.sub
  | reap exit =>
    rw [Holder.step] at hstep
    obtain ⟨hnone, rfl⟩ := Runs.of_guard hstep
    simp only [Act.output, append_nil]
    rw [hnone] at hsub
    exact ⟨_, by rw [getElem?_map, hk]; rfl, hsub.send_exited exit⟩
  | resize cols rows =>
    cases hstep
    simpa only [Act.output, append_nil] using h.sub
  | subscribe fromOffset =>
    obtain ⟨new, rfl⟩ := subscribe_eq_some hstep
    simp only [Act.output, append_nil]
    refine ⟨sub, ?_, hsub⟩
    rw [getElem?_append_left (List.getElem?_eq_some_iff.mp hk).1]
    exact hk
  | writeFrame j =>
    simp only [Act.output, append_nil]
    exact (h.modify hstep fun _ _ hi hs => hi.writeFrame hs).sub
  | recv j =>
    simp only [Act.output, append_nil]
    exact (h.modify hstep fun _ _ hi hs => hi.recv hs).sub
  | disconnect j =>
    simp only [Act.output, append_nil]
    exact (h.modify hstep fun _ _ hi hs => hi.disconnect hs).sub

theorem Inv.run (h : Inv cap k lead start P sh) (hrun : Runs.run Holder.step acts sh = some sh') :
    Inv cap k lead start (P ++ produced acts) sh' :=
  Runs.invariant_history (fun _ _ _ _ hi hs => hi.step hs) hrun h

/-! ### Delivery -/

/-- The frames still to be written and the events still to be received. -/
def Subscriber.pending (sub : Subscriber) : ℕ :=
  (sub.todo ++ sub.rx.flatMap SubEvent.frames).length + sub.rx.length

/-- A live handler that is not drained can take a step of its own. -/
theorem exists_step (halive : sub.alive = true) (h : ¬ sub.Drained) :
    ∃ sub', (sub.writeFrame = some sub' ∨ sub.recv = some sub') ∧ sub'.pending < sub.pending := by
  cases htodo : sub.todo with
  | cons frame todo =>
    refine ⟨{ sub with todo := todo, sent := sub.sent ++ [frame] }, .inl ?_, ?_⟩
    · simp [writeFrame, halive, htodo]
    · simp [pending, htodo]
  | nil =>
    cases hrx : sub.rx with
    | nil => exact absurd ⟨htodo, hrx⟩ h
    | cons event rx =>
      refine ⟨{ sub with rx := rx, todo := event.frames }, .inr ?_, ?_⟩
      · simp [recv, halive, htodo, hrx]
      · simp [pending, htodo, hrx]

def Owes (k : ℕ) (frames : List HolderMsg) (sh : Shared) : Prop :=
  ∃ sub, sh.subscribers[k]? = some sub ∧ sub.alive = true ∧ sub.owed = frames

/-- Handler `k` alone, from a state it is alive in, writes out everything it owes. -/
theorem exists_drained (h : Owes k frames sh) :
    ∃ acts sh' sub, (∀ a ∈ acts, a = .writeFrame k ∨ a = .recv k) ∧
      Runs.run step acts sh = some sh' ∧ sh'.subscribers[k]? = some sub ∧ sub.Drained ∧
      sub.sent = frames := by
  have hprogress : ∀ sh, Owes k frames sh → ¬ (∀ sub ∈ sh.subscribers[k]?, sub.Drained) →
      ∃ a sh', (a = .writeFrame k ∨ a = .recv k) ∧ step sh a = some sh' ∧ Owes k frames sh' ∧
        (sh'.subscribers[k]?).elim 0 pending
          < (sh.subscribers[k]?).elim 0 pending := by
    rintro sh ⟨sub, hk, halive, howed⟩ hd
    have hd' : ¬ sub.Drained := by
      intro hsub
      refine hd fun sub' hsub' => ?_
      rw [hk] at hsub'
      exact some.inj hsub' ▸ hsub
    obtain ⟨sub₁, hstep, hlt⟩ := exists_step halive hd'
    have hk₁ : (sh.subscribers.set k sub₁)[k]? = some sub₁ :=
      getElem?_set_self (List.getElem?_eq_some_iff.mp hk).1
    have hless : ((sh.subscribers.set k sub₁)[k]?).elim 0 pending
        < (sh.subscribers[k]?).elim 0 pending := by
      rw [hk₁, hk]
      exact hlt
    rcases hstep with hs | hs
    · obtain ⟨-, halive₁, howed₁⟩ := writeFrame_eq_some hs
      exact ⟨.writeFrame k, { sh with subscribers := sh.subscribers.set k sub₁ }, .inl rfl,
        by simp [step, modify, hk, hs],
        ⟨sub₁, hk₁, halive₁, howed₁.trans howed⟩, hless⟩
    · obtain ⟨-, halive₁, howed₁⟩ := recv_eq_some hs
      exact ⟨.recv k, { sh with subscribers := sh.subscribers.set k sub₁ }, .inr rfl,
        by simp [step, modify, hk, hs],
        ⟨sub₁, hk₁, halive₁, howed₁.trans howed⟩, hless⟩
  obtain ⟨acts, sh', hacts, hrun, ⟨sub, hk, -, howed⟩, hd⟩ :=
    Runs.exists_run_of_measure _ hprogress h
  have hdrained := hd sub hk
  refine ⟨acts, sh', sub, hacts, hrun, hk, hdrained, ?_⟩
  rw [← howed]
  simp [owed, hdrained.1, hdrained.2]

/-! ### The whole run -/

/-- **A subscriber's stream.** Take any run of the holder up to a subscription at `fromOffset`,
and any continuation of it. With `P` everything the PTY produced, the new subscriber's stream is a
`Truncated` notice if `fromOffset` predates what the ring retained at that moment, and then frames
that carry `P` from `max (min fromOffset next) oldest` on, with at most the one exit that was
recorded. What was written is at all times a beginning of such a stream; a handler with nothing
left to do has written it up to the end of `P` and with the exit if there was one; and a live
handler can get there by steps of its own. -/
theorem subscription_stream (cap cols rows fromOffset : ℕ) (childPid : ℤ) (pre post : List Act)
    {sh₀ sh : Shared} (hpre : Runs.run step pre (init cap cols rows childPid) = some sh₀)
    (hpost : Runs.run step (.subscribe fromOffset :: post) sh₀ = some sh) :
    let P := produced pre ++ produced post
    let next := (produced pre).length
    let oldest := next - min cap next
    let start := max (min fromOffset next) oldest
    let lead := if fromOffset < oldest then [HolderMsg.truncated start] else []
    ∃ sub, sh.subscribers[sh₀.subscribers.length]? = some sub ∧
      (∃ rest stop, Carries P start rest stop ∧ exits rest <+: sh.exit.toList ∧
        sub.sent <+: lead ++ rest) ∧
      (sub.alive = true → sub.Drained →
        ∃ rest, sub.sent = lead ++ rest ∧ Carries P start rest P.length ∧
          exits rest = sh.exit.toList) ∧
      (sub.alive = true → ∃ acts sh' sub',
        (∀ a ∈ acts, a = .writeFrame sh₀.subscribers.length ∨ a = .recv sh₀.subscribers.length) ∧
        Runs.run step acts sh = some sh' ∧
        sh'.subscribers[sh₀.subscribers.length]? = some sub' ∧ sub'.Drained ∧
        ∃ rest, sub'.sent = lead ++ rest ∧ Carries P start rest P.length ∧
          exits rest = sh.exit.toList) := by
  intro P next oldest start lead
  obtain ⟨sh₁, hsub, hrun⟩ := Runs.run_cons_eq_some.mp hpost
  have hinv : Inv cap sh₀.subscribers.length lead start P sh :=
    (inv_subscribe (refines_run hpre) hsub).run hrun
  obtain ⟨sub, hk, rest, stop, hcarry, hexit, hsent, halive⟩ := hinv.sub
  refine ⟨sub, hk, ⟨rest, stop, hcarry, hexit, hsent⟩, ?_, ?_⟩
  · intro ha hd
    obtain ⟨howed, rfl, hexits⟩ := halive ha
    refine ⟨rest, ?_, hcarry, hexits⟩
    rw [← howed]
    simp [owed, hd.1, hd.2]
  · intro ha
    obtain ⟨howed, rfl, hexits⟩ := halive ha
    obtain ⟨acts, sh', sub', hacts, hrun', hk', hd', hsent'⟩ := exists_drained ⟨sub, hk, ha, howed⟩
    exact ⟨acts, sh', sub', hacts, hrun', hk', hd', rest, hsent', hcarry, hexits⟩

set_option maxRecDepth 2048 in
/-- Six bytes through a ring of four, a subscription from offset 1, and the exit. -/
theorem subscription_stream_four :
    ∃ sh₀ sh sub rest,
      Runs.run step [.ptyRead [1, 2, 3], .ptyRead [4, 5, 6]] (init 4 80 24 7) = some sh₀ ∧
      Runs.run step [.subscribe 1, .writeFrame 0, .writeFrame 0, .reap ⟨some 0, none⟩, .recv 0,
        .writeFrame 0] sh₀ = some sh ∧
      sh.subscribers[0]? = some sub ∧ sub.sent = .truncated 2 :: rest ∧
      Carries [1, 2, 3, 4, 5, 6] 2 rest 6 ∧ exits rest = [⟨some 0, none⟩] := by
  obtain ⟨sub, hk, -, hdrained, -⟩ := subscription_stream 4 80 24 1 7
    [.ptyRead [1, 2, 3], .ptyRead [4, 5, 6]]
    [.writeFrame 0, .writeFrame 0, .reap ⟨some 0, none⟩, .recv 0, .writeFrame 0] rfl rfl
  cases hk
  obtain ⟨rest, hsent, hcarry, hexits⟩ := hdrained rfl ⟨rfl, rfl⟩
  exact ⟨_, _, _, rest, rfl, rfl, rfl, hsent, hcarry, hexits⟩

/-- **The ring outlives its holder.** Whatever the subscribers did, the file that a run leaves is
opened as the ring it was, and reads as what is retained of what the PTY produced. -/
theorem reopened_after_run (cap cols rows : ℕ) (childPid : ℤ) (acts : List Act) {sh : Shared}
    (hrun : Runs.run step acts (init cap cols rows childPid) = some sh)
    (hcap : headerLen + cap < 2 ^ 64) (hlength : (produced acts).length < 2 ^ 64) :
    RingFile.open sh.ring.file cap = sh.ring ∧
      ∀ start stop, ∃ read, (RingFile.open sh.ring.file cap).readRange start stop = some read ∧
        read.bytes = slice (produced acts)
          (max start ((produced acts).length - min cap (produced acts).length))
          (min stop (produced acts).length) := by
  have href := refines_run hrun
  have hopen := href.reopen (Nat.lt_of_add_left_lt hcap) hlength
  rw [href.cap_eq] at hopen
  exact ⟨hopen, fun start stop => ⟨_, hopen ▸ href.readRange start stop, rfl⟩⟩

theorem reopened_after_run_four : ∃ sh,
    Runs.run step [.subscribe 0, .ptyRead [1, 2, 3], .recv 0, .ptyRead [4, 5, 6]]
      (init 4 80 24 7) = some sh ∧ RingFile.open sh.ring.file 4 = sh.ring :=
  ⟨_, rfl, (reopened_after_run 4 80 24 7
    [.subscribe 0, .ptyRead [1, 2, 3], .recv 0, .ptyRead [4, 5, 6]] rfl (by decide)
    (by decide)).1⟩

/-- A subscription past the end of the stream starts at the end, not at the offset asked for: the
next byte the PTY produces is pushed at offset 0 to a subscriber from offset 5. -/
theorem subscribe_past_end :
    ∃ sh sub, Runs.run step [.subscribe 5, .ptyRead [1], .recv 0, .writeFrame 0] (init 4 80 24 7)
        = some sh ∧
      sh.subscribers[0]? = some sub ∧ sub.sent = [.output 0 [1]] ∧
      ¬ ∃ lead rest stop, sub.sent = lead ++ rest ∧
        (lead = [] ∨ ∃ oldest, lead = [.truncated oldest]) ∧
        Carries [1] (max 5 0) rest stop := by
  refine ⟨_, _, rfl, rfl, rfl, ?_⟩
  rintro ⟨lead, rest, stop, hsent, rfl | ⟨oldest, rfl⟩, hcarry⟩
  · rw [nil_append] at hsent
    subst hsent
    exact absurd hcarry.1 (by decide)
  · cases hsent

end Bud.Holder
