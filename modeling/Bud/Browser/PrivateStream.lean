import Bud.Browser.StreamCanvas
import Bud.Browser.StreamCredits

/-!
# A private stream

What a private stream guarantees in every run: the bounds on what is outstanding, one
acknowledgement for a frame, the order in which the viewer gets frames and resets, an authorisation
for each, and room for what the daemon sends.

A frame that is retired while the daemon's socket is not open any more is not acknowledged: the
relay learns of the socket's end by its `close` event only, and until then it does not send. So a
frame is sure to be outstanding or acknowledged as long as the socket is open.
-/

namespace Bud.Browser

open List

/-! ### Acknowledgements -/

def DaemonOpen : Act → Prop
  | .reset _ sockets | .frame _ sockets | .feedback _ sockets | .resetAuthorized _ sockets
  | .frameAuthorized _ sockets => sockets.daemonOpen = true
  | .wake | .tick _ | .dispose => True

instance : DecidablePred DaemonOpen
  | .reset _ _ | .frame _ _ | .feedback _ _ | .resetAuthorized _ _ | .frameAuthorized _ _ =>
    inferInstanceAs (Decidable (_ = true))
  | .wake | .tick _ | .dispose => inferInstanceAs (Decidable True)

def Told (s : Relay) : Prop := ∀ r ∈ s.retired, r.sent = true

theorem retired_closeWithFailure (s : Relay) : s.closeWithFailure.retired = s.retired := by
  rw [Relay.closeWithFailure]
  split <;> rfl

theorem retired_applyResets (s : Relay) : s.applyResets.retired = s.retired := by
  rw [Relay.applyResets]
  split
  · split <;> rfl
  · rfl

theorem retired_drainLoop (s : Relay) : s.drainLoop.retired = s.retired := by
  rw [Relay.drainLoop]
  split
  · split <;> rfl
  · rfl

variable {s : Relay} {sockets : Sockets}

theorem Told.retire (h : Told s) (hshut : s.closed = true → s.outstanding = [])
    (hopen : sockets.daemonOpen = true) {sequence : ℕ}
    (hs : s.retire sockets sequence generation disposition = some s') : Told s' := by
  obtain ⟨hmem, rfl⟩ := retire_eq_some hs
  intro r hr
  rcases mem_append.mp hr with hr | hr
  · exact h r hr
  · rw [mem_singleton.mp hr]
    cases hclosed : s.closed with
    | true =>
      rw [hshut hclosed] at hmem
      cases hmem
    | false => exact hopen

theorem Told.discardPending (h : Told s) (hshut : s.closed = true → s.outstanding = [])
    (hopen : sockets.daemonOpen = true) (hs : s.discardPending sockets = some s') : Told s' := by
  rw [Relay.discardPending] at hs
  split at hs
  · exact Option.some.inj hs ▸ h
  · obtain ⟨t, ht, rfl⟩ := Option.map_eq_some_iff.mp hs
    have htold : Told t := h.retire hshut hopen ht
    exact htold

theorem Told.closeWithFailure (h : Told s) : Told s.closeWithFailure := by
  rw [Told, retired_closeWithFailure]
  exact h

theorem Told.discard (h : Told s) (hshut : s.closed = true → s.outstanding = [])
    (hopen : sockets.daemonOpen = true) (frame : Frame) : Told (s.discard sockets frame) := by
  rw [Relay.discard]
  split
  · next t ht =>
    rw [Told, retired_drainLoop]
    exact h.retire hshut hopen ht
  · exact Told.closeWithFailure h

theorem Told.reset (h : Told s) (hshut : s.closed = true → s.outstanding = [])
    (hopen : sockets.daemonOpen = true) (raw : ResetPacket) : Told (s.reset raw sockets).1 := by
  rw [Relay.reset]
  split
  · exact h
  · split
    · exact h
    · split
      · exact h
      · split
        · exact h
        · split
          · exact h
          · dsimp only
            split
            · exact h
            · next t ht =>
              have htold : Told t := by
                refine Told.discardPending ?_ ?_ hopen ht
                · exact h
                · exact hshut
              split
              · exact htold
              · rw [Told, retired_applyResets]
                exact htold

theorem Told.frame (h : Told s) (hopen : sockets.daemonOpen = true) (raw : StreamPacket) :
    Told (s.frame raw sockets).1 := by
  rw [Relay.frame]
  split
  · exact h
  · split
    · exact h
    · next hsequence =>
      have hclosed : s.closed = false := by
        simp only [Bool.or_eq_true, not_or, Bool.not_eq_true] at hsequence
        exact hsequence.1.1
      split
      · exact h
      · dsimp only
        split
        · exact h
        · next t ht =>
          have htold : Told t := by
            refine Told.discardPending ?_ ?_ hopen ht
            · exact h
            · exact fun hc => absurd (hclosed.symm.trans hc) Bool.false_ne_true
          split
          · rw [Told, retired_drainLoop]
            exact htold
          · exact htold

theorem Told.frameAuthorized (h : Told s) (hshut : s.closed = true → s.outstanding = [])
    (hopen : sockets.daemonOpen = true) (frame : Frame) (check : ℕ) (result : Authorization) :
    Told (s.frameAuthorized frame check result sockets) := by
  have hclose : Told (Relay.closeWithFailure { s with
      ended := s.ended ++ [(check, result)]
      drain := .idle }) := Told.closeWithFailure h
  have hdiscard : Told (Relay.discard { s with ended := s.ended ++ [(check, result)] } sockets
      frame) := Told.discard (s := { s with ended := s.ended ++ [(check, result)] }) h hshut hopen
    frame
  rw [Relay.frameAuthorized]
  dsimp only
  split
  · exact hclose
  · split
    · exact h
    · split
      · exact hclose
      · split
        · exact hdiscard
        · split
          · exact hclose
          · split
            · exact hclose
            · split
              · exact hdiscard
              · rw [Told, retired_drainLoop]
                exact h

theorem Told.resetAuthorized (h : Told s) (reset : Reset) (check : ℕ) (result : Authorization)
    (sockets : Sockets) : Told (s.resetAuthorized reset check result sockets) := by
  have hend : Told ((Relay.closeWithFailure { s with
      ended := s.ended ++ [(check, result)] }).endResets .fulfilled) :=
    Told.closeWithFailure h
  cases result with
  | failed => exact h
  | denied => exact hend
  | allowed =>
    rw [Relay.resetAuthorized]
    dsimp only
    split
    · exact hend
    · split
      · rw [Told, retired_applyResets]
        exact h
      · split
        · exact hend
        · rw [Told, retired_applyResets]
          exact h

theorem told_step (h : Told s) (hinv : RelayInv s) (hopen : DaemonOpen a)
    (hs : step s a = some s') : Told s' := by
  have hshut : s.closed = true → s.outstanding = [] := fun hclosed => (hinv.shut hclosed).1
  cases a with
  | reset raw sockets =>
    cases hs
    exact h.reset hshut hopen raw
  | frame raw sockets =>
    cases hs
    exact h.frame hopen raw
  | feedback raw sockets =>
    cases hs
    cases raw with
    | none => exact h
    | some value =>
      rw [Relay.feedback]
      split
      · exact h
      · split
        · exact h
        · split
          · exact h
          · next t ht => exact h.retire hshut hopen ht
  | resetAuthorized result sockets =>
    obtain ⟨⟨reset, check⟩, hr, rfl⟩ := Option.map_eq_some_iff.mp hs
    exact h.resetAuthorized reset check result sockets
  | wake =>
    rw [step, Relay.wake] at hs
    split at hs
    · split at hs <;> cases hs <;> exact h
    · cases hs
      exact Told.closeWithFailure h
    · cases hs
  | frameAuthorized result sockets =>
    rw [step] at hs
    split at hs
    · next frame check hd =>
      cases hs
      exact h.frameAuthorized hshut hopen frame check result
    · cases hs
  | tick now =>
    cases hs
    rw [Relay.tick]
    split
    · exact h.closeWithFailure
    · exact h
  | dispose =>
    cases hs
    exact h

/-! ### Runs -/

/-- The relay's own part, with what holds as long as the daemon's socket is open. -/
theorem accounted_of_told (h : RelayInv s) (ht : Told s) (hopen : s.closed = false) :
    ∀ frame ∈ s.accepted, frame.sequence ∈ s.outstanding.map Outstanding.sequence ∨
      frame.sequence ∈ s.acks.map FrameAck.frameSequence := by
  intro frame hf
  rcases mem_append.mp (h.accounted hopen frame hf) with hr | ho
  · obtain ⟨r, hr, hseq⟩ := mem_map.mp hr
    refine .inr (mem_map.mpr ⟨r.ack, ?_, hseq⟩)
    exact mem_map_of_mem (mem_filter.mpr ⟨hr, ht r hr⟩)
  · exact .inl ho

theorem fed_split {after : List Sent} (h : Fed generation sent)
    (hsent : sent = before ++ .frame frame check :: after) :
    lastGeneration generation before = some frame.generation := by
  rw [hsent] at h
  exact (fed_append.mp h).2.1

theorem nodup_acks (h : RelayInv s) : (s.acks.map FrameAck.frameSequence).Nodup := by
  have hsub : (s.acks.map FrameAck.frameSequence).Sublist
      (s.retired.map fun r => r.ack.frameSequence) := by
    rw [Relay.acks, map_map]
    exact filter_sublist.map _
  exact (nodup_append.mp h.once).1.sublist hsub

/-- **The private stream.** In every run at most three frames and 2 MiB are outstanding; a frame is
acknowledged at most once; a frame sent to the viewer has the generation of the last reset sent, and
a greater sequence than the frames before; and each message was sent on an authorisation that began
after it had arrived. As long as the daemon's socket is open, an accepted frame is outstanding or
acknowledged until the relay closes. If the generations of the resets are distinct, a canvas that is
fed with what the relay sends accepts each message. And the relay has room for each frame of a
sender that keeps to its credits. -/
theorem private_stream_relay :
    (∀ acts s, Runs.run step acts init = some s →
      (s.outstanding.length ≤ 3 ∧
        (s.outstanding.map Outstanding.bytes).sum ≤ 2 * 1024 * 1024) ∧
        (s.acks.map FrameAck.frameSequence).Nodup ∧
          (∀ before frame check after, s.viewer = before ++ .frame frame check :: after →
            lastGeneration none before = some frame.generation) ∧
            (s.forwarded.map Frame.sequence).Pairwise (· < ·) ∧
              ∀ m ∈ s.viewer, m.arrived ≤ m.check ∧ (m.check, .allowed) ∈ s.ended) ∧
      (∀ acts s, Runs.Along step (fun _ a => DaemonOpen a) acts init →
        Runs.run step acts init = some s → s.closed = false → ∀ frame ∈ s.accepted,
          frame.sequence ∈ s.outstanding.map Outstanding.sequence ∨
            frame.sequence ∈ s.acks.map FrameAck.frameSequence) ∧
        (∀ acts s, Runs.Along step Distinct acts init → Runs.run step acts init = some s →
          ∀ shown c m, Runs.run Canvas.step shown Canvas.init = some c →
            shown.filterMap Canvas.Act.message? ++ [m] <+: s.viewer →
              ∃ c', c.step (.message m) = some c') ∧
          ∀ acts s, Runs.run Stream.step acts Stream.init = some s →
            ∀ raw rest sockets, s.toRelay = .frame raw :: rest →
              (s.relay.frame raw sockets).2 ≠ some "stream_credit" := by
  have hinv : ∀ {acts s}, Runs.run step acts init = some s → RelayInv s := fun hrun =>
    Runs.invariant (fun _ _ _ hi hs => relayInv_step hi hs) hrun relayInv_init
  refine ⟨fun acts s hrun => ?_, fun acts s hok hrun => ?_, fun acts s hok hrun => ?_,
    fun acts s hrun => ?_⟩
  · have h := hinv hrun
    refine ⟨⟨h.size, h.bytes⟩, nodup_acks h, fun before frame check after => fed_split h.fed, ?_,
      h.checked⟩
    exact pairwise_map.mpr (h.ordered.sublist (sublist_append_left _ _))
  · have htold := (@Runs.invariant_along _ _ step (fun s => RelayInv s ∧ Told s) _
      (fun _ _ _ hi hok hs => ⟨relayInv_step hi.1 hs, told_step hi.2 hi.1 hok hs⟩) acts init s hok
      hrun ⟨relayInv_init, nofun⟩).2
    exact accounted_of_told (hinv hrun) htold
  · have hresets : ResetInv s := Runs.invariant_along
      (fun _ _ _ hi hok hs => resetInv_step hi hok hs) hok hrun ⟨nodup_nil, nofun⟩
    exact fun shown c m => canvas_accepts (deliverable_viewer (hinv hrun) hresets)
  · have hcredit : CreditInv s :=
      Runs.invariant (fun _ _ _ hi hs => creditInv_step hi hs) hrun creditInv_init
    exact fun raw rest sockets hto => no_credit_error hcredit hto sockets

instance (s : Relay) : DecidablePred (Distinct s)
  | .reset raw _ => inferInstanceAs (Decidable (∀ value ∈ raw.value,
      value.mediaGeneration ∉ s.resets))
  | .frame _ _ | .feedback _ _ | .resetAuthorized _ _ | .wake | .frameAuthorized _ _ | .tick _
  | .dispose => inferInstanceAs (Decidable True)

def bothOpen : Sockets := ⟨1000, true, true, 0⟩

/-- A reset to the generation `g1`, without targets. -/
def g1 : ResetValue := ⟨1, [0x67, 0x31], []⟩

def smallPacket : StreamPacket :=
  { length := 209
    magic := true
    headerLength := 200
    header := some
      { mediaGeneration := g1.mediaGeneration
        frameSequence := 1
        targetId := [0x74]
        documentId := [0x64]
        frameToken := [0x66]
        viewportId := none
        width := 440
        height := 816
        bitmapWidth := 220
        bitmapHeight := 408
        imageBytes := 1
        sourceAgeMs := 0 } }

def oneFrame : List Act :=
  [.reset ⟨80, some g1⟩ bothOpen, .resetAuthorized .allowed bothOpen, .frame smallPacket bothOpen,
    .wake, .frameAuthorized .allowed bothOpen]

/-- What the viewer gets of it. -/
def sentReset : Sent := .reset ⟨g1, g1.mediaGeneration, 0⟩ 0

def sentFrame : Sent := .frame ⟨smallPacket, 1, g1.mediaGeneration, 1⟩ 1

/-- The daemon captures an image once its reset has arrived. -/
def oneCapture : List Stream.Act :=
  smallPacket.header.toList.flatMap fun header =>
    [.restart 80 g1, .arrive bothOpen, .relay (.resetAuthorized .allowed bothOpen),
      .capture header 200 1 true]

theorem private_stream_relay_oneFrame :
    (∃ s, Runs.run step oneFrame init = some s ∧ s.outstanding.length ≤ 3 ∧
      (∀ frame ∈ s.accepted, frame.sequence ∈ s.outstanding.map Outstanding.sequence ∨
        frame.sequence ∈ s.acks.map FrameAck.frameSequence)) ∧
      (∃ c c', Runs.run Canvas.step [.message sentReset, .fence] Canvas.init = some c ∧
        c.step (.message sentFrame) = some c') ∧
        ∃ s, Runs.run Stream.step oneCapture Stream.init = some s ∧
          (s.relay.frame smallPacket bothOpen).2 ≠ some "stream_credit" := by
  obtain ⟨hrelay, hopen, hcanvas, hcredit⟩ := private_stream_relay
  obtain ⟨s, hs, hclosed, hviewer⟩ := @Runs.exists_end _ _ step
    (fun s => s.closed = false ∧ s.viewer = [sentReset, sentFrame]) _ oneFrame init
    (by decide)
  obtain ⟨c, hc, -⟩ := @Runs.exists_end _ _ Canvas.step (fun _ => True) _
    [.message sentReset, .fence] Canvas.init (by decide)
  obtain ⟨t, ht, hto⟩ := @Runs.exists_end _ _ Stream.step
    (fun t => t.toRelay = [.frame smallPacket]) _ oneCapture Stream.init (by decide)
  obtain ⟨c', hc'⟩ := hcanvas oneFrame s (by decide) hs [.message sentReset, .fence] c
    sentFrame hc (by rw [hviewer]; exact prefix_refl _)
  exact ⟨⟨s, hs, (hrelay oneFrame s hs).1.1, hopen oneFrame s (by decide) hs hclosed⟩,
    ⟨c, c', hc, hc'⟩, t, ht, hcredit oneCapture t ht smallPacket [] bothOpen hto⟩

/-- **The sender's credits cover what the relay holds.** In every run of the two, there are at most
three, of 2 MiB, and the frames outstanding and those under way are among them, in their order. -/
theorem credits_cover {acts : List Stream.Act} {s : Stream}
    (hrun : Runs.run Stream.step acts Stream.init = some s) :
    s.sender.credits.length ≤ 3 ∧
      (s.sender.credits.map Credit.bytes).sum ≤ 2 * 1024 * 1024 ∧
        (s.relay.outstanding.map Outstanding.entry ++ s.underWay).Sublist
          (s.sender.credits.map Credit.entry) :=
  have h := Runs.invariant (fun _ _ _ hi hs => creditInv_step hi hs) hrun creditInv_init
  ⟨h.count, h.bytes, h.entries⟩

theorem credits_cover_oneCapture :
    ∃ s, Runs.run Stream.step oneCapture Stream.init = some s ∧ s.sender.credits.length ≤ 3 := by
  obtain ⟨s, hs, -⟩ := @Runs.exists_end _ _ Stream.step (fun _ => True) _ oneCapture Stream.init
    (by decide)
  exact ⟨s, hs, (credits_cover hs).1⟩

/-- The daemon's socket is closing when the viewer's feedback comes. -/
def lostAck : List Act :=
  oneFrame ++ [.feedback (some ⟨g1.mediaGeneration, 1, .presented⟩) ⟨1050, false, true, 0⟩]

/-- **A frame that is neither outstanding nor acknowledged.** The relay has not closed. -/
theorem private_stream_relay_lost :
    ∃ s, Runs.run step lostAck init = some s ∧ s.closed = false ∧ ∃ frame ∈ s.accepted,
      frame.sequence ∉ s.outstanding.map Outstanding.sequence ∧
        frame.sequence ∉ s.acks.map FrameAck.frameSequence :=
  Runs.exists_end (by decide)

end Bud.Browser
