import Bud.DataPlane.Flow
import Bud.Lib.Runs
import Bud.Lib.Segments

/-!
# Credit is conserved

At every moment the initial credit of a stream is accounted for: the daemon holds part of it, part
is bytes under way to the service, part is bytes the service has and has not granted again, and part
is credit under way to the daemon. The service's receive window is the same account seen from its
end, so a chunk that arrives always fits the window.

The data is accounted for in the same way: what the consumer was given, followed by what is under
way, is what the daemon sent, and the offsets continue where the consumer's bytes end.
-/

namespace Bud.DataPlane

open Segments List Option DataPlane Sys Sender

/-! ### The account -/

def Up.byteLength : Up → ℕ
  | .data _ bytes _ => bytes.length
  | _ => 0

def Down.creditBytes : Down → ℕ
  | .credit _ creditBytes => creditBytes
  | _ => 0

def Event.creditBytes : Event → ℕ
  | .credit creditBytes => creditBytes
  | .reset => 0

namespace Sys

def inFlight (s : Sys) : ℕ := (s.toService.map Up.byteLength).sum

/-- Bytes the service has received and not granted again. -/
def ungranted (s : Sys) : ℕ := s.consuming.elim 0 (fun chunk => chunk.1.length) + s.failed

/-- Credit under way to the daemon, or waiting for its task. -/
def creditInFlight (s : Sys) : ℕ :=
  (s.toDaemon.map Down.creditBytes).sum + (s.sender.events.map Event.creditBytes).sum

end Sys

def dataFrame (seg : ℕ × List UInt8) : Up := .data seg.1 seg.2 false

/-- What is under way to the service: segments that continue the consumer's bytes up to what the
daemon sent, and possibly the daemon's last frame. -/
structure Wire (tracker : Tracker) (s : Sys) (segs : List (ℕ × List UInt8)) (tail : List Up) :
    Prop where
  frames : s.toService = segs.map dataFrame ++ tail
  contiguous : Contiguous s.delivered.length segs
  bytes : s.delivered ++ Segments.bytes segs = s.sent
  size : ∀ seg ∈ segs, seg.2.length ≤ tracker.maxChunkBytes
  tail : tail = [] ∨
    s.sender.phase = .ended ∧ (tail = [.close s.sent.length] ∨ ∃ reason, tail = [.reset reason])

structure Inv (tracker : Tracker) (s : Sys) : Prop where
  total : s.sender.availableCredit + s.inFlight + s.ungranted + s.creditInFlight + s.late
    = tracker.initialCreditBytes
  window : s.stream.receiveCreditBytes + s.ungranted = tracker.initialCreditBytes
  late : s.sender.registered = true → s.late = 0
  /-- No credit is lost before the local response. -/
  opening : s.sender.phase = .opening → s.sender.availableCredit = tracker.initialCreditBytes
  offset : s.sender.offset = s.sent.length
  receiveOffset : s.stream.receiveOffset = s.delivered.length
  wire : ∃ segs tail, Wire tracker s segs tail
  segments : ∀ segments, s.sender.phase = .sending segments →
    ∀ segment ∈ segments, segment.length ≤ chunkBytes tracker
  consuming : ∀ chunk, s.consuming = some chunk → chunk.2 = false
  finished : (s.stream.remoteClosed = true ∨ s.stream.resetReason.isSome = true) →
    s.toService = [] ∧ s.sender.phase = .ended
  closedAt : ∀ n, s.closedAt = some n →
    n = s.sent.length ∧ s.toService = [] ∧ s.sender.phase = .ended
  resets : ∀ code ∈ s.resets, code = .streamConsumerFailed
  /-- As long as no consumer has failed, there is nothing but credit under way to the daemon. -/
  conforming : s.resets = [] → s.failed = 0 ∧
    (∀ frame ∈ s.toDaemon, ∃ receiveOffset creditBytes, frame = .credit receiveOffset creditBytes) ∧
    (∀ event ∈ s.sender.events, ∃ creditBytes, event = .credit creditBytes) ∧
    (s.sender.phase ≠ .ended → s.sender.registered = true)

theorem chunkBytes_le (tracker : Tracker) : chunkBytes tracker ≤ tracker.maxChunkBytes := by
  have := tracker.maxChunkBytes_pos
  rw [chunkBytes]
  omega

variable {segment : List UInt8}

theorem length_le_of_mem_chunks {tracker : Tracker} {bytes : List UInt8}
    (h : segment ∈ Chunks.chunks (chunkBytes tracker) bytes) :
    segment.length ≤ chunkBytes tracker := by
  have hpos : 0 < chunkBytes tracker := by rw [chunkBytes]; omega
  exact (Chunks.mem_chunks hpos h).2

theorem inv_init (tracker : Tracker) (kind : Kind) : Inv tracker (init tracker kind) where
  total := rfl
  window := rfl
  late := fun _ => rfl
  opening := fun _ => rfl
  offset := rfl
  receiveOffset := rfl
  wire := ⟨[], [], rfl, trivial, rfl, fun _ h => absurd h not_mem_nil, .inl rfl⟩
  segments := fun _ h => by cases h
  consuming := fun _ h => by cases h
  finished := fun h => by rcases h with h | h <;> cases h
  closedAt := fun _ h => by cases h
  resets := fun _ h => absurd h not_mem_nil
  conforming := fun _ => ⟨rfl, fun _ h => absurd h not_mem_nil,
    fun _ h => absurd h not_mem_nil, fun _ => rfl⟩

/-! ### The daemon's steps -/

def Sender.pending (sender : Sender) : ℕ := (sender.events.map Event.creditBytes).sum

/-- What the task may do to its own state between two frames: it keeps its offset, and credit goes
nowhere but from the channel to the account. -/
structure Sender.Moves (tracker : Tracker) (sender sender' : Sender) : Prop where
  active : sender.phase ≠ .ended
  offset : sender'.offset = sender.offset
  credit : sender'.availableCredit + sender'.pending = sender.availableCredit + sender.pending
  registered : sender'.registered = true → sender.registered = true
  opening : sender'.phase = .opening →
    sender.phase = .opening ∧ sender'.availableCredit = sender.availableCredit
  segments : ∀ segments, sender'.phase = .sending segments →
    sender.phase = .sending segments ∨ ∀ segment ∈ segments, segment.length ≤ chunkBytes tracker
  conforming : (∀ event ∈ sender.events, ∃ creditBytes, event = .credit creditBytes) →
    sender.registered = true →
    (∀ event ∈ sender'.events, ∃ creditBytes, event = .credit creditBytes) ∧
      (sender'.phase ≠ .ended → sender'.registered = true)

namespace Inv

variable {tracker : Tracker} {s s' : Sys}

theorem moves (h : Inv tracker s) {sender : Sender} (hm : s.sender.Moves tracker sender) :
    Inv tracker { s with sender := sender } := by
  obtain ⟨segs, tail, hw⟩ := h.wire
  refine ⟨?_, h.window, fun hr => h.late (hm.registered hr), ?_, hm.offset.trans h.offset,
    h.receiveOffset, ⟨segs, tail, hw.frames, hw.contiguous, hw.bytes, hw.size, ?_⟩, ?_,
    h.consuming, fun hf => absurd (h.finished hf).2 hm.active,
    fun n hn => absurd (h.closedAt n hn).2.2 hm.active, h.resets, ?_⟩
  · have htotal := h.total
    have hcredit := hm.credit
    simp only [inFlight, ungranted, creditInFlight, pending] at htotal hcredit ⊢
    omega
  · intro hp
    obtain ⟨hp', hcredit⟩ := hm.opening hp
    rw [← h.opening hp']
    exact hcredit
  · exact .inl (hw.tail.resolve_right fun ht => hm.active ht.1)
  · intro segments hp
    rcases hm.segments segments hp with hp' | hsize
    · exact h.segments segments hp'
    · exact hsize
  · intro hr
    obtain ⟨hfailed, hdown, hevents, hreg⟩ := h.conforming hr
    obtain ⟨hevents', hreg'⟩ := hm.conforming hevents (hreg hm.active)
    exact ⟨hfailed, hdown, hevents', hreg'⟩

end Inv

theorem moves_enter {tracker : Tracker} {sender : Sender} (phase : Phase)
    (hended : sender.phase ≠ .ended) (hopening : phase ≠ .opening)
    (hsegments : ∀ segments, phase = .sending segments →
      sender.phase = .sending segments ∨
        ∀ segment ∈ segments, segment.length ≤ chunkBytes tracker) :
    sender.Moves tracker (sender.enter phase) where
  active := hended
  offset := rfl
  credit := rfl
  registered := fun hr => (Bool.and_eq_true_iff.mp hr).1
  opening := fun hp => absurd hp hopening
  segments := hsegments
  conforming := fun hevents hreg => by
    refine ⟨hevents, fun hp => ?_⟩
    have hp' : phase ≠ .ended := hp
    simp [enter, hreg, hp']

namespace Inv

variable {tracker : Tracker} {s s' : Sys}

/-- **Taking an event** moves credit from the channel to the daemon. The sum stays within a `u64`,
so the saturating addition adds; before the local response there is no credit to discard. -/
theorem takeEvent (h : Inv tracker s) (hstep : takeEvent s = some s') :
    Inv tracker s' := by
  rw [DataPlane.takeEvent] at hstep
  split at hstep
  · cases hstep
  · next event events hevents =>
    obtain ⟨hreads, rfl⟩ := Runs.of_guard hstep
    refine h.moves ?_
    have hended : s.sender.phase ≠ .ended := by
      intro hp
      rw [Sender.Reads, hp] at hreads
      exact hreads
    have hmem : ∀ e ∈ events, e ∈ s.sender.events := fun e he =>
      hevents ▸ mem_cons_of_mem _ he
    have hpending : s.sender.pending = event.creditBytes + (events.map Event.creditBytes).sum := by
      rw [pending, hevents, map_cons, sum_cons]
    cases event with
    | reset =>
      refine ⟨hended, rfl, ?_, fun hr => (Bool.and_eq_true_iff.mp hr).1, (fun hp => by cases hp),
        (fun _ hp => by cases hp), fun hcredit _ => ?_⟩
      · rw [hpending]
        show _ = _ + (0 + _)
        rw [Nat.zero_add]
        rfl
      · obtain ⟨creditBytes, hc⟩ := hcredit .reset (hevents ▸ mem_cons_self)
        cases hc
    | credit creditBytes =>
      have htotal := h.total
      have hlt := tracker.initialCreditBytes_lt
      have hle : s.sender.availableCredit + s.sender.pending ≤ tracker.initialCreditBytes := by
        rw [creditInFlight, ← pending] at htotal
        omega
      rw [hpending, Event.creditBytes] at hle
      rw [handle]
      split
      · next hopening =>
        -- all of the credit is in the account
        have hfull := h.opening hopening
        refine ⟨hended, rfl, ?_, id, fun hp => ⟨hp, rfl⟩, fun _ hp => .inl hp,
          fun hcredit hreg => ⟨fun e he => hcredit e (hmem e he), fun _ => hreg⟩⟩
        rw [hpending]
        show s.sender.availableCredit + (events.map Event.creditBytes).sum
          = s.sender.availableCredit + (creditBytes + (events.map Event.creditBytes).sum)
        omega
      · refine ⟨hended, rfl, ?_, id, ?_, fun _ hp => .inl hp,
          fun hcredit hreg => ⟨fun e he => hcredit e (hmem e he), fun _ => hreg⟩⟩
        · rw [hpending]
          show min (s.sender.availableCredit + creditBytes) u64Max
              + (events.map Event.creditBytes).sum
            = s.sender.availableCredit + (creditBytes + (events.map Event.creditBytes).sum)
          rw [u64Max]
          omega
        · next hopening => exact fun hp => absurd hp hopening

theorem finish (h : Inv tracker s) {frame : Up} (hended : s.sender.phase ≠ .ended)
    (hframe : frame = .close s.sender.offset ∨ ∃ reason, frame = .reset reason) :
    Inv tracker
      { s with sender := s.sender.enter .ended, toService := s.toService ++ [frame] } := by
  have he := h.moves (moves_enter .ended hended (fun h => by cases h) fun _ h => by cases h)
  obtain ⟨segs, tail, hw⟩ := h.wire
  have htail : tail = [] := hw.tail.resolve_right fun ht => hended ht.1
  have hbytes : frame.byteLength = 0 := by
    rcases hframe with rfl | ⟨reason, rfl⟩ <;> rfl
  refine ⟨?_, he.window, he.late, he.opening, he.offset, he.receiveOffset,
    ⟨segs, [frame], ?_, hw.contiguous, hw.bytes, hw.size, .inr ⟨rfl, ?_⟩⟩, he.segments,
    he.consuming, ?_, ?_, he.resets, he.conforming⟩
  · have htotal := h.total
    simp only [inFlight, ungranted, creditInFlight, enter, map_append,
      sum_append, map_singleton, sum_singleton, hbytes] at htotal ⊢
    exact htotal
  · rw [hw.frames, htail, append_nil]
  · rw [← h.offset]
    rcases hframe with rfl | ⟨reason, rfl⟩
    · exact .inl rfl
    · exact .inr ⟨reason, rfl⟩
  · intro hf
    exact absurd (h.finished hf).2 hended
  · intro n hn
    exact absurd (h.closedAt n hn).2.2 hended

/-- **Sending a segment** moves its bytes from the daemon's credit to the wire. -/
theorem send (h : Inv tracker s) (hstep : DataPlane.send s = some s') : Inv tracker s' := by
  rw [DataPlane.send] at hstep
  split at hstep
  · next segment segments hphase =>
    obtain ⟨hcredit, rfl⟩ := Runs.of_guard hstep
    have hended : s.sender.phase ≠ .ended := by rw [hphase]; intro h; cases h
    obtain ⟨segs, tail, hw⟩ := h.wire
    have htail : tail = [] := hw.tail.resolve_right fun ht => hended ht.1
    have hsize : segment.length ≤ tracker.maxChunkBytes :=
      Nat.le_trans (h.segments _ hphase segment mem_cons_self) (chunkBytes_le tracker)
    have hoffset : s.sender.offset = s.delivered.length + (Segments.bytes segs).length := by
      rw [h.offset, ← hw.bytes, length_append]
    refine ⟨?_, h.window, ?_, (fun hp => by cases hp), ?_, h.receiveOffset,
      ⟨segs ++ [(s.sender.offset, segment)], [], ?_, ?_, ?_, ?_, .inl rfl⟩, ?_, h.consuming,
      ?_, ?_, h.resets, ?_⟩
    · have htotal := h.total
      simp only [inFlight, ungranted, creditInFlight, enter, map_append,
        sum_append, map_singleton, sum_singleton, Up.byteLength] at htotal ⊢
      omega
    · intro hr
      exact h.late (Bool.and_eq_true_iff.mp hr).1
    · show s.sender.offset + segment.length = (s.sent ++ segment).length
      rw [length_append, h.offset]
    · show s.toService ++ _ = _
      rw [hw.frames, htail, append_nil, append_nil, map_append]
      rfl
    · rw [hoffset]
      exact contiguous_concat hw.contiguous segment
    · rw [bytes_concat, ← append_assoc, hw.bytes]
    · exact forall_mem_append.mpr ⟨hw.size, forall_mem_singleton.mpr hsize⟩
    · intro segments' hp
      cases hp
      exact fun seg hseg => h.segments _ hphase seg (mem_cons_of_mem _ hseg)
    · intro hf
      exact absurd (h.finished hf).2 hended
    · intro n hn
      exact absurd (h.closedAt n hn).2.2 hended
    · intro hr
      obtain ⟨hfailed, hdown, hevents, hreg⟩ := h.conforming hr
      exact ⟨hfailed, hdown, hevents, fun _ => by rw [enter, hreg hended]; rfl⟩
  · cases hstep

/-- Credit that moves towards the task, and is kept there or dropped. -/
theorem routed (h : Inv tracker s) (events : List Event) (toDaemon : List Down)
    (registered : Bool) (late : ℕ)
    (hcredit : (toDaemon.map Down.creditBytes).sum + (events.map Event.creditBytes).sum + late
      = s.creditInFlight + s.late)
    (hlate : registered = true → late = 0)
    (hconf : s.resets = [] →
      (∀ frame ∈ toDaemon, ∃ receiveOffset creditBytes, frame = .credit receiveOffset creditBytes) ∧
      (∀ event ∈ events, ∃ creditBytes, event = .credit creditBytes) ∧
      (s.sender.phase ≠ .ended → registered = true)) :
    Inv tracker
      { s with
        sender := { s.sender with registered := registered, events := events }
        toDaemon := toDaemon
        late := late } := by
  obtain ⟨segs, tail, hw⟩ := h.wire
  refine { h with total := ?_, late := hlate, wire := ⟨segs, tail, hw.frames, hw.contiguous,
      hw.bytes, hw.size, hw.tail⟩, conforming := fun hr => ⟨(h.conforming hr).1, hconf hr⟩ }
  have htotal := h.total
  simp only [inFlight, ungranted, creditInFlight] at htotal hcredit ⊢
  omega

/-- **Routing a frame** moves credit from the carrier to the task's channel, or nowhere if the
stream is no longer registered. -/
theorem routeDown (h : Inv tracker s) (hstep : routeDown s = some s') :
    Inv tracker s' := by
  rw [DataPlane.routeDown] at hstep
  split at hstep
  · cases hstep
  · next frame toDaemon hdown =>
    have hcredit : s.creditInFlight = frame.creditBytes + (toDaemon.map Down.creditBytes).sum
        + (s.sender.events.map Event.creditBytes).sum := by
      rw [creditInFlight, hdown, map_cons, sum_cons]
    have hframe : s.resets = [] →
        ∃ receiveOffset creditBytes, frame = .credit receiveOffset creditBytes :=
      fun hr => (h.conforming hr).2.1 frame (hdown ▸ mem_cons_self)
    have hrest : s.resets = [] → ∀ f ∈ toDaemon,
        ∃ receiveOffset creditBytes, f = .credit receiveOffset creditBytes :=
      fun hr f hf => (h.conforming hr).2.1 f (hdown ▸ mem_cons_of_mem _ hf)
    have hevents : s.resets = [] → ∀ e ∈ s.sender.events, ∃ creditBytes, e = .credit creditBytes :=
      fun hr => (h.conforming hr).2.2.1
    have hreg := fun hr => (h.conforming hr).2.2.2
    obtain rfl := some.inj hstep
    split
    · next receiveOffset creditBytes hregistered =>
      refine h.routed (s.sender.events ++ [.credit creditBytes]) toDaemon _ s.late ?_ h.late
        fun hr => ⟨hrest hr, fun e he => ?_, hreg hr⟩
      · simp only [hcredit, map_append, sum_append, map_singleton,
          sum_singleton, Down.creditBytes, Event.creditBytes]
        omega
      · rcases mem_append.mp he with he | he
        · exact hevents hr e he
        · exact ⟨creditBytes, mem_singleton.mp he⟩
    · next receiveOffset creditBytes hregistered =>
      refine h.routed s.sender.events toDaemon _ (s.late + creditBytes) ?_ (fun hr => ?_)
        fun hr => ⟨hrest hr, hevents hr, hreg hr⟩
      · simp only [hcredit, Down.creditBytes]
        omega
      · rw [hregistered] at hr
        cases hr
    · next code hregistered =>
      refine h.routed (s.sender.events ++ [.reset]) toDaemon false s.late ?_ (fun hr => by cases hr)
        fun hr => ?_
      · simp only [hcredit, map_append, sum_append, map_singleton,
          sum_singleton, Down.creditBytes, Event.creditBytes]
        omega
      · obtain ⟨receiveOffset, creditBytes, hc⟩ := hframe hr
        cases hc
    all_goals
      refine h.routed s.sender.events toDaemon _ s.late ?_ h.late
        fun hr => ⟨hrest hr, hevents hr, hreg hr⟩
      simp only [hcredit, Down.creditBytes]
      omega

/-! ### The service's steps -/

/-- **The service never has to refuse a frame.** What it takes is a chunk that continues the
consumer's bytes and fits the window, or the daemon's last frame, with the right final offset. -/
theorem takeUp_cases (h : Inv tracker s) (hstep : takeUp tracker s = some s') :
    s.consuming = none ∧
    ((∃ bytes segs tail, Wire tracker s ((s.delivered.length, bytes) :: segs) tail ∧
        bytes.length ≤ s.stream.receiveCreditBytes ∧
        s' = { s with
          toService := segs.map dataFrame ++ tail
          stream :=
            { s.stream with
              receiveOffset := s.stream.receiveOffset + bytes.length
              receiveCreditBytes := s.stream.receiveCreditBytes - bytes.length }
          consuming := some (bytes, false)
          delivered := s.delivered ++ bytes }) ∨
      (s.sender.phase = .ended ∧ s.toService.map Up.byteLength = [0] ∧ s.delivered = s.sent ∧
        ((s' = { s with
            toService := []
            stream := { s.stream with remoteClosed := true }
            closedAt := some s.sent.length }) ∨
          ∃ reason, s' = { s with
            toService := []
            stream := { s.stream with resetReason := some reason } }))) := by
  rw [takeUp] at hstep
  split at hstep
  · next frame toService hcons hup =>
    refine ⟨hcons, ?_⟩
    have hopen : ¬(s.stream.remoteClosed = true ∨ s.stream.resetReason.isSome = true) := by
      intro hf
      rw [(h.finished hf).1] at hup
      cases hup
    obtain ⟨segs, tail, hw⟩ := h.wire
    have hframes := hw.frames
    cases segs with
    | cons seg segs =>
      left
      obtain ⟨offset, bytes⟩ := seg
      obtain ⟨rfl, hcontig⟩ := contiguous_cons_iff.mp hw.contiguous
      rw [hup, map_cons, cons_append] at hframes
      obtain ⟨rfl, rfl⟩ := cons.inj hframes
      have hsize := hw.size _ mem_cons_self
      have hfits : bytes.length ≤ s.stream.receiveCreditBytes := by
        have htotal := h.total
        have hwindow := h.window
        simp only [inFlight, hup, map_cons, sum_cons, dataFrame, Up.byteLength] at htotal
        omega
      refine ⟨bytes, segs, tail, hw, hfits, ?_⟩
      rw [not_or] at hopen
      cases hstep
      simp only [dataFrame, handleStreamData, if_neg (Nat.not_lt.mpr hsize), recordInboundChunk,
        if_neg hopen.1, if_neg hopen.2, h.receiveOffset, ne_eq, not_true_eq_false, if_false,
        if_neg (Nat.not_lt.mpr hfits)]
    | nil =>
      right
      rw [map_nil, nil_append] at hframes
      have hall : s.delivered = s.sent := by rw [← hw.bytes, bytes_nil, append_nil]
      have hoffset : s.stream.receiveOffset = s.sent.length := by rw [h.receiveOffset, hall]
      rcases hw.tail with htail | ⟨hended, htail | ⟨reason, htail⟩⟩
      · rw [hframes, htail] at hup
        cases hup
      · rw [hframes, htail] at hup
        cases hup
        refine ⟨hended, by rw [hframes, htail]; rfl, hall, .inl ?_⟩
        cases hstep
        simp only [handleStreamClose, hoffset, ne_eq, not_true_eq_false, if_false]
      · rw [hframes, htail] at hup
        cases hup
        cases hstep
        exact ⟨hended, by rw [hframes, htail]; rfl, hall, .inr ⟨reason, rfl⟩⟩
  · cases hstep

/-- **Taking a frame** moves a chunk from the wire to the consumer. -/
theorem takeUp (h : Inv tracker s) (hstep : takeUp tracker s = some s') :
    Inv tracker s' := by
  have htotal := h.total
  have hwindow := h.window
  obtain ⟨hcons, ⟨bytes, segs, tail, hw, hfits, rfl⟩ | ⟨hended, hzero, hall, hs'⟩⟩ :=
    h.takeUp_cases hstep
  · obtain ⟨-, hcontig⟩ := contiguous_cons_iff.mp hw.contiguous
    have hup := hw.frames
    rw [map_cons, cons_append] at hup
    have hfin : ∀ {P : Prop}, s.toService = [] ∧ P → False := by
      intro P hnil
      rw [hup] at hnil
      cases hnil.1
    refine ⟨?_, ?_, h.late, h.opening, h.offset, ?_, ⟨segs, tail, rfl, ?_, ?_, ?_, hw.tail⟩,
      h.segments, ?_, fun hf => (hfin (h.finished hf)).elim, ?_, h.resets, h.conforming⟩
    · simp only [inFlight, ungranted, creditInFlight, hup, hcons, map_cons,
        sum_cons, elim_none, elim_some, dataFrame, Up.byteLength] at htotal ⊢
      omega
    · simp only [ungranted, hcons, elim_none, elim_some] at hwindow ⊢
      omega
    · show s.stream.receiveOffset + bytes.length = (s.delivered ++ bytes).length
      rw [length_append, h.receiveOffset]
    · rw [length_append]
      exact hcontig
    · rw [append_assoc, ← bytes_cons s.delivered.length]
      exact hw.bytes
    · exact fun seg hseg => hw.size seg (mem_cons_of_mem _ hseg)
    · intro chunk hc
      cases hc
      rfl
    · intro n hn
      obtain ⟨-, hnil, hp⟩ := h.closedAt n hn
      exact (hfin ⟨hnil, hp⟩).elim
  · have hinFlight : s.inFlight = 0 := by rw [inFlight, hzero]; rfl
    have hwire : Wire tracker { s with toService := [] } [] [] :=
      ⟨rfl, trivial, by rw [bytes_nil, append_nil]; exact hall,
        fun _ hseg => absurd hseg not_mem_nil, .inl rfl⟩
    have hbalance : s.sender.availableCredit + 0 + s.ungranted + s.creditInFlight + s.late
        = tracker.initialCreditBytes := by
      rw [← hinFlight]
      exact htotal
    rcases hs' with rfl | ⟨reason, rfl⟩
    · refine ⟨hbalance, hwindow, h.late, h.opening, h.offset, h.receiveOffset,
        ⟨[], [], hwire.frames, hwire.contiguous, hwire.bytes, hwire.size, hwire.tail⟩, h.segments,
        h.consuming, fun _ => ⟨rfl, hended⟩, ?_, h.resets, h.conforming⟩
      intro n hn
      cases hn
      exact ⟨rfl, rfl, hended⟩
    · refine ⟨hbalance, hwindow, h.late, h.opening, h.offset, h.receiveOffset,
        ⟨[], [], hwire.frames, hwire.contiguous, hwire.bytes, hwire.size, hwire.tail⟩, h.segments,
        h.consuming, fun _ => ⟨rfl, hended⟩, ?_, h.resets, h.conforming⟩
      intro n hn
      exact ⟨(h.closedAt n hn).1, rfl, hended⟩

/-- **The consumer returns**: its chunk becomes window and credit again. -/
theorem consumed (h : Inv tracker s) (hstep : consumed s = some s') :
    Inv tracker s' := by
  obtain ⟨⟨bytes, endStream⟩, hcons, rfl⟩ := map_eq_some_iff.mp hstep
  obtain rfl : endStream = false := h.consuming _ hcons
  obtain ⟨segs, tail, hw⟩ := h.wire
  have htotal := h.total
  have hwindow := h.window
  refine { h with total := ?_, window := ?_, wire := ⟨segs, tail, hw.frames, hw.contiguous,
      hw.bytes, hw.size, hw.tail⟩, consuming := (fun _ hc => by cases hc), conforming := ?_ }
  · simp only [inFlight, ungranted, creditInFlight, hcons, Bool.false_eq_true, if_false,
      map_append, sum_append, map_singleton, sum_singleton, Down.creditBytes,
      elim_none, elim_some] at htotal ⊢
    omega
  · simp only [ungranted, hcons, Bool.false_eq_true, if_false, grantReceiveCredit,
      elim_none, elim_some] at hwindow ⊢
    omega
  · intro hr
    obtain ⟨hfailed, hdown, hevents, hreg⟩ := h.conforming hr
    refine ⟨hfailed, fun frame hf => ?_, hevents, hreg⟩
    rcases mem_append.mp hf with hf | hf
    · exact hdown frame hf
    · exact ⟨_, _, mem_singleton.mp hf⟩

theorem consumerFails (h : Inv tracker s) (hstep : consumerFails s = some s') :
    Inv tracker s' := by
  obtain ⟨⟨bytes, endStream⟩, hcons, rfl⟩ := map_eq_some_iff.mp hstep
  obtain ⟨segs, tail, hw⟩ := h.wire
  have htotal := h.total
  have hwindow := h.window
  refine { h with total := ?_, window := ?_, wire := ⟨segs, tail, hw.frames, hw.contiguous,
      hw.bytes, hw.size, hw.tail⟩, consuming := (fun _ hc => by cases hc), resets := ?_, conforming
      := ?_ }
  · simp only [inFlight, ungranted, creditInFlight, sendReset, hcons, map_append,
      sum_append, map_singleton, sum_singleton, Down.creditBytes,
      elim_none, elim_some] at htotal ⊢
    omega
  · simp only [ungranted, sendReset, hcons, elim_none, elim_some] at hwindow ⊢
    omega
  · intro code hc
    rcases mem_append.mp hc with hc | hc
    · exact h.resets code hc
    · exact mem_singleton.mp hc
  · intro hr
    exact absurd hr (append_ne_nil_of_right_ne_nil _ (cons_ne_nil _ _))

/-! ### Any step, any run -/

/-- **One step** of either side. -/
theorem step (h : Inv tracker s) {act : Act} (hstep : step tracker s act = some s') :
    Inv tracker s' := by
  have hactive : ∀ {phase : Phase}, s.sender.phase = phase → phase ≠ .ended →
      s.sender.phase ≠ .ended := fun hp hne => hp ▸ hne
  cases act with
  | body bytes | chunk bytes =>
    rw [DataPlane.step] at hstep
    split at hstep
    · next hphase =>
      cases hstep
      refine h.moves (moves_enter _ (hactive hphase (by simp)) (by simp) ?_)
      intro segments hp
      cases hp
      exact .inr fun segment hseg => length_le_of_mem_chunks hseg
    · cases hstep
  | response | rejected =>
    rw [DataPlane.step] at hstep
    split at hstep
    · next hphase =>
      cases hstep
      exact h.moves (moves_enter _ (hactive hphase (by simp)) (by simp)
        fun _ hp => by cases hp)
    · cases hstep
  | head | eof =>
    rw [DataPlane.step] at hstep
    split at hstep
    · next hphase =>
      cases hstep
      exact h.finish (hactive hphase (by simp)) (.inl rfl)
    · cases hstep
  | readFailed =>
    rw [DataPlane.step] at hstep
    split at hstep
    · next hphase =>
      cases hstep
      exact h.finish (hactive hphase (by simp)) (.inr ⟨_, rfl⟩)
    · cases hstep
  | chunkSent =>
    rw [DataPlane.step] at hstep
    split at hstep
    · next hphase =>
      cases hstep
      exact h.finish (hactive hphase (by simp)) (.inl rfl)
    · next hphase =>
      cases hstep
      exact h.moves (moves_enter _ (hactive hphase (by simp)) (by simp)
        fun _ hp => by cases hp)
    · cases hstep
  | send => exact h.send hstep
  | takeEvent => exact h.takeEvent hstep
  | routeDown => exact h.routeDown hstep
  | takeUp => exact h.takeUp hstep
  | consumed => exact h.consumed hstep
  | consumerFails => exact h.consumerFails hstep

theorem run {kind : Kind} {s : Sys}
    (h : Runs.run (DataPlane.step tracker) acts (init tracker kind) = some s) : Inv tracker s :=
  Runs.invariant (fun _ _ _ hi hs => hi.step hs) h (inv_init tracker kind)

/-- With nothing under way in either direction and nobody having failed, the credit is home. -/
theorem availableCredit_of_quiescent (h : Inv tracker s) (hresets : s.resets = [])
    (hactive : s.sender.phase ≠ .ended) (hup : s.toService = []) (hcons : s.consuming = none)
    (hdown : s.toDaemon = []) (hevents : s.sender.events = []) :
    s.sender.availableCredit = tracker.initialCreditBytes := by
  obtain ⟨hfailed, -, -, hreg⟩ := h.conforming hresets
  have hlate := h.late (hreg hactive)
  have htotal := h.total
  simp only [inFlight, ungranted, creditInFlight, hup, hcons, hdown, hevents, hfailed,
    hlate, map_nil, sum_nil, elim_none] at htotal
  omega

end Inv

/-! ### No deadlock -/

/-- The steps that bring credit back: nothing here depends on the local side. -/
def Act.Returns : Act → Prop
  | .takeUp | .consumed | .routeDown | .takeEvent => True
  | _ => False

/-- How many such steps are left at most. -/
def Sys.pending (s : Sys) : ℕ :=
  4 * s.toService.length + s.consuming.elim 0 (fun _ => 3) + 2 * s.toDaemon.length +
    s.sender.events.length

namespace Inv

variable {tracker : Tracker} {s : Sys}

/-- A task that waits for credit for a segment no larger than the initial credit is not stuck:
something that is under way can be moved on. -/
theorem exists_returns (h : Inv tracker s) (hresets : s.resets = []) {segments : List (List UInt8)}
    (hphase : s.sender.phase = .sending (segment :: segments))
    (hlt : s.sender.availableCredit < segment.length)
    (hle : segment.length ≤ tracker.initialCreditBytes) :
    ∃ act s', act.Returns ∧ DataPlane.step tracker s act = some s' ∧ s'.pending < s.pending ∧
      s'.resets = [] ∧ s'.sender.phase = s.sender.phase := by
  have hactive : s.sender.phase ≠ .ended := by rw [hphase]; simp
  obtain ⟨-, hdown, hevents, hreg⟩ := h.conforming hresets
  cases hcons : s.consuming with
  | some chunk =>
    obtain ⟨bytes, endStream⟩ := chunk
    obtain rfl : endStream = false := h.consuming _ hcons
    have hstep : DataPlane.step tracker s .consumed = some
        { s with
          stream := grantReceiveCredit s.stream bytes.length
          consuming := none
          toDaemon := s.toDaemon ++ [.credit s.stream.receiveOffset bytes.length] } := by
      rw [DataPlane.step, DataPlane.consumed, hcons]
      rfl
    refine ⟨.consumed, _, trivial, hstep, ?_, hresets, rfl⟩
    simp only [Sys.pending, hcons, elim_none, elim_some, length_append, length_singleton]
    omega
  | none =>
    cases hup : s.toService with
    | cons frame toService =>
      obtain ⟨s', hs'⟩ : ∃ s', DataPlane.takeUp tracker s = some s' := by
        rw [DataPlane.takeUp, hcons, hup]
        exact ⟨_, rfl⟩
      obtain ⟨-, ⟨bytes, segs, tail, hw, -, rfl⟩ | ⟨hended, -⟩⟩ := h.takeUp_cases hs'
      · refine ⟨.takeUp, _, trivial, hs', ?_, hresets, rfl⟩
        have hlen := congrArg length hw.frames
        simp only [map_cons, cons_append, length_cons] at hlen
        simp only [Sys.pending, hcons, elim_none, elim_some]
        omega
      · exact absurd hended hactive
    | nil =>
      cases hd : s.toDaemon with
      | cons frame toDaemon =>
        obtain ⟨receiveOffset, creditBytes, rfl⟩ := hdown frame (hd ▸ mem_cons_self)
        have hstep : DataPlane.step tracker s .routeDown = some
            { s with
              sender := { s.sender with events := s.sender.events ++ [.credit creditBytes] }
              toDaemon := toDaemon } := by
          simp only [DataPlane.step, DataPlane.routeDown, hd, hreg hactive]
        refine ⟨.routeDown, _, trivial, hstep, ?_, hresets, rfl⟩
        simp only [Sys.pending, hd, length_append, length_cons, length_nil]
        omega
      | nil =>
        cases he : s.sender.events with
        | cons event events =>
          obtain ⟨creditBytes, rfl⟩ := hevents event (he ▸ mem_cons_self)
          have hreads : s.sender.Reads := by
            rw [Sender.Reads, hphase]
            exact .inr hlt
          have hstep : DataPlane.step tracker s .takeEvent = some { s with
                  sender := Sender.addCredit { s.sender with events := events } creditBytes } := by
            simp [DataPlane.step, DataPlane.takeEvent, he, hreads, Sender.handle, hphase]
          refine ⟨.takeEvent, _, trivial, hstep, ?_, hresets, rfl⟩
          simp only [Sys.pending, he, Sender.addCredit, length_cons]
          omega
        | nil =>
          have := h.availableCredit_of_quiescent hresets hactive hup hcons hd he
          omega

/-- **No deadlock.** The steps that bring credit back lead to a state in which the segment is
sent. -/
theorem exists_send (h : Inv tracker s) (hresets : s.resets = []) {segments : List (List UInt8)}
    (hphase : s.sender.phase = .sending (segment :: segments))
    (hle : segment.length ≤ tracker.initialCreditBytes) : ∃ acts s', (∀ act ∈ acts, act.Returns) ∧
      Runs.run (DataPlane.step tracker) acts s = some s' ∧
      (DataPlane.step tracker s' .send).isSome = true := by
  let Waiting : Sys → Prop := fun t =>
    Inv tracker t ∧ t.resets = [] ∧ t.sender.phase = .sending (segment :: segments)
  have hprogress : ∀ t, Waiting t → ¬ segment.length ≤ t.sender.availableCredit →
      ∃ act t', act.Returns ∧ DataPlane.step tracker t act = some t' ∧ Waiting t' ∧
        t'.pending < t.pending := by
    rintro t ⟨hinv, ht, hwaits⟩ hshort
    obtain ⟨act, t', hact, hstep, hpending, ht', hphase'⟩ :=
      hinv.exists_returns ht hwaits (Nat.not_le.mp hshort) hle
    exact ⟨act, t', hact, hstep, ⟨hinv.step hstep, ht', hphase'.trans hwaits⟩, hpending⟩
  obtain ⟨acts, s', hacts, hrun, ⟨-, -, hphase'⟩, hcredit⟩ :=
    Runs.exists_run_of_measure Sys.pending hprogress ⟨h, hresets, hphase⟩
  exact ⟨acts, s', hacts, hrun, by simp [DataPlane.step, DataPlane.send, hphase', hcredit]⟩

end Inv

/-- **Flow control.** In every run of a stream of either kind:
the initial credit is the daemon's credit, the bytes under way, the bytes not granted again and the
credit under way, where credit is only ever lost once the daemon's stream is unregistered; the
service resets the stream for nothing but a failed consumer; the consumer is given a beginning of
what the daemon sent, and all of it if the stream was closed, at the offset the daemon declared.
As long as no consumer has failed, a task with nothing under way has its full credit, and one that
waits for credit gets it, if the initial credit covers a chunk. -/
theorem flow_control (tracker : Tracker) (kind : Kind) (acts : List Act) {s : Sys}
    (hrun : Runs.run (step tracker) acts (init tracker kind) = some s) :
    s.sender.availableCredit + s.inFlight + s.ungranted + s.creditInFlight + s.late
        = tracker.initialCreditBytes ∧
      (s.sender.registered = true → s.late = 0) ∧
      (∀ code ∈ s.resets, code = .streamConsumerFailed) ∧
      s.delivered <+: s.sent ∧
      (∀ finalOffset, s.closedAt = some finalOffset →
        finalOffset = s.sent.length ∧ s.delivered = s.sent) ∧
      (s.resets = [] → s.sender.phase ≠ .ended → s.sender.registered = true ∧
        (s.toService = [] → s.consuming = none → s.toDaemon = [] → s.sender.events = [] →
          s.sender.availableCredit = tracker.initialCreditBytes)) ∧
      (s.resets = [] → chunkBytes tracker ≤ tracker.initialCreditBytes →
        ∀ segment segments, s.sender.phase = .sending (segment :: segments) →
          ∃ acts' s', (∀ act ∈ acts', act.Returns) ∧ Runs.run (step tracker) acts' s = some s' ∧
            (step tracker s' .send).isSome = true) := by
  have h := Inv.run hrun
  obtain ⟨segs, tail, hw⟩ := h.wire
  refine ⟨h.total, h.late, h.resets, ⟨_, hw.bytes⟩, ?_, ?_, ?_⟩
  · intro finalOffset hclosed
    obtain ⟨hoffset, hup, -⟩ := h.closedAt finalOffset hclosed
    have hsegs : segs = [] := by
      have := hw.frames
      rw [hup, nil_eq, append_eq_nil_iff, map_eq_nil_iff] at this
      exact this.1
    refine ⟨hoffset, ?_⟩
    rw [← hw.bytes, hsegs, bytes_nil, append_nil]
  · intro hresets hactive
    exact ⟨(h.conforming hresets).2.2.2 hactive, h.availableCredit_of_quiescent hresets hactive⟩
  · intro hresets hchunk segment segments hphase
    have hle := h.segments _ hphase segment mem_cons_self
    exact h.exists_send hresets hphase (Nat.le_trans hle hchunk)

/-- A window of three bytes and chunks of two. -/
def threeByteWindow : Tracker :=
  { maxChunkBytes := 2
    initialCreditBytes := 3
    maxChunkBytes_pos := Nat.two_pos
    initialCreditBytes_lt := by decide }

/-- Five bytes through a window of three: the second chunk has to wait for credit. -/
theorem flow_control_three :
    ∃ s, Runs.run (step threeByteWindow)
        [.body [1, 2, 3, 4, 5], .send, .takeUp, .consumed, .routeDown, .takeEvent, .send, .takeUp,
          .consumed, .routeDown, .send, .chunkSent, .takeUp, .consumed, .takeUp]
        (init threeByteWindow .file) = some s ∧
      s.closedAt = some 5 ∧ s.delivered = [1, 2, 3, 4, 5] ∧ s.resets = [] := by
  obtain ⟨-, -, -, -, hclosed, -, -⟩ := flow_control threeByteWindow .file
    [.body [1, 2, 3, 4, 5], .send, .takeUp, .consumed, .routeDown, .takeEvent, .send, .takeUp,
      .consumed, .routeDown, .send, .chunkSent, .takeUp, .consumed, .takeUp] rfl
  exact ⟨_, rfl, rfl, (hclosed 5 rfl).2.trans rfl, rfl⟩

end Bud.DataPlane
