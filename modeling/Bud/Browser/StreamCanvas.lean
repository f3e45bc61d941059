import Bud.Browser.RelayInvariant

/-!
# The viewer's end of the stream

`StreamCanvas` of the web client's `stream-canvas.ts`, fed with the messages that the relay has sent
to the viewer, in their order. It refuses a reset to the generation it has, and a frame of another
generation or one that does not come after the frames before. Decoding, fencing and the end of the
page come in between at any time.

## Modelling notes

The header of a packet is UTF-8, as the daemon writes it: both ends read the same. The loop of
`drain` waits for a bitmap with a packet in hand, which is `decoding`. What is drawn is left out.
-/

namespace Bud.Browser

open List

/-! ### The canvas -/

/-- The client's `parseStreamPacket`. -/
def StreamPacket.parse (raw : StreamPacket) : Except String StreamHeader :=
  if raw.length < 9 || raw.length > 1024 * 1024 + 4104 then .error "stream_bounds"
  else if !raw.magic then .error "stream_magic"
  else if raw.headerLength < 2 || raw.headerLength > 4096 || 8 + raw.headerLength ≥ raw.length then
    .error "stream_header_bounds"
  else
    match raw.header with
    | none => .error "stream_json"
    | some header =>
      if !([header.mediaGeneration, header.targetId, header.documentId, header.frameToken].all isId)
          || !(header.viewportId.all isId)
          || header.frameSequence > maxSafeInteger || header.frameSequence = 0
          || !([header.width, header.height].all fun value => 0 < value && value ≤ 8192)
          || !([header.bitmapWidth, header.bitmapHeight].all fun value =>
            0 < value && value ≤ 2560)
          || header.bitmapWidth * header.bitmapHeight > 4000000
          || header.sourceAgeMs < 0 || header.sourceAgeMs > 150
          || header.imageBytes ≠ raw.length - 8 - raw.headerLength
          || header.imageBytes > 1024 * 1024 then .error "stream_header"
      else .ok header

structure Canvas where
  generation : Text
  sequence : ℕ
  targets : List StreamTarget
  pending : Option StreamHeader
  decoding : Option StreamHeader
  closed : Bool
  fenced : Bool
  acks : List FrameAck

def Canvas.init : Canvas :=
  { generation := []
    sequence := 0
    targets := []
    pending := none
    decoding := none
    closed := false
    fenced := false
    acks := [] }

def Canvas.ack (c : Canvas) (packet : StreamHeader) (disposition : Disposition) : Canvas :=
  if c.closed then c
  else { c with acks := c.acks ++ [⟨packet.mediaGeneration, packet.frameSequence, disposition⟩] }

def Canvas.discardPending (c : Canvas) : Canvas :=
  match c.pending with
  | some packet => { c.ack packet .discarded with pending := none }
  | none => c

/-- `drain` from the head of its loop. -/
def Canvas.drainLoop (c : Canvas) : Canvas :=
  match c.pending with
  | some packet =>
    if c.closed then { c with decoding := none }
    else
      { c with
        pending := none
        decoding := some packet }
  | none => { c with decoding := none }

def Canvas.reset (c : Canvas) (value : ResetValue) : Except String Canvas :=
  if value.mediaVersion ≠ 1 || !isId value.mediaGeneration ||
      value.mediaGeneration = c.generation || value.targets.length > 16 ||
      !(value.targets.all fun target => isId target.targetId && target.origin.length ≤ 2048) then
    .error "stream_reset"
  else
    .ok (Canvas.discardPending
      { c with
        generation := value.mediaGeneration
        fenced := false
        targets := value.targets })

def Canvas.receive (c : Canvas) (raw : StreamPacket) : Except String Canvas :=
  if c.closed then .ok c
  else
    match raw.parse with
    | .error error => .error error
    | .ok packet =>
      if packet.mediaGeneration ≠ c.generation || packet.frameSequence ≤ c.sequence then
        .error "stream_sequence"
      else
        let c := { c with sequence := packet.frameSequence }
        if c.fenced then .ok (c.ack packet .discarded)
        else
          let c := { c.discardPending with pending := some packet }
          .ok (if c.decoding = none then c.drainLoop else c)

def Canvas.dispose (c : Canvas) : Canvas :=
  { c with
    closed := true
    pending := none }

def Canvas.fence (c : Canvas) : Canvas := Canvas.discardPending { c with fenced := true }

/-- `drain` from its await on; `none` is a bitmap that could not be made. -/
def Canvas.decoded (c : Canvas) (packet : StreamHeader) (bitmap : Option (ℕ × ℕ)) : Canvas :=
  match bitmap with
  | none => Canvas.dispose { c with decoding := none }
  | some (width, height) =>
    if c.closed then { c with decoding := none }
    else if c.fenced || packet.mediaGeneration ≠ c.generation then
      (c.ack packet .discarded).drainLoop
    else if width ≠ packet.bitmapWidth || height ≠ packet.bitmapHeight then
      Canvas.dispose { c with decoding := none }
    else (c.ack packet .presented).drainLoop

inductive Canvas.Act where
  | message (m : Sent)
  | decoded (bitmap : Option (ℕ × ℕ))
  | fence
  | dispose

def Canvas.Act.message? : Canvas.Act → Option Sent
  | .message m => some m
  | .decoded _ | .fence | .dispose => none

/-- One step; `none` is an action that cannot happen, or one that throws. -/
def Canvas.step (c : Canvas) : Canvas.Act → Option Canvas
  | .message (.reset reset _) => (c.reset reset.value).toOption
  | .message (.frame frame _) => (c.receive frame.raw).toOption
  | .decoded bitmap => c.decoding.map fun packet => c.decoded packet bitmap
  | .fence => some c.fence
  | .dispose => some c.dispose

/-! ### What a canvas accepts -/

theorem Reset.Parsed.generation_ne_nil {reset : Reset} (h : reset.Parsed) :
    reset.generation ≠ [] := by
  obtain ⟨hvalid, hgeneration⟩ := h
  intro hnil
  rw [ResetValue.valid, hgeneration, hnil] at hvalid
  simp [isId] at hvalid

/-- The client reads what the relay has read. -/
theorem parse_of_parseStreamPacket (h : parseStreamPacket raw = .ok header) :
    raw.parse = .ok header := by
  obtain ⟨⟨hmin, hmax, hmagic⟩, ⟨hlow, hhigh, hinside⟩, hheader, hvalid, hbytes, harea⟩ :=
    parseStreamPacket_eq_ok.mp h
  simp only [streamHeader, Bool.and_eq_true, decide_eq_true_eq] at hvalid
  have hbounds : (raw.length < 9 || raw.length > 1024 * 1024 + 4104) = false := by
    rw [Bool.or_eq_false_iff]
    exact ⟨decide_eq_false (by omega), decide_eq_false (by omega)⟩
  have hlength : (raw.headerLength < 2 || raw.headerLength > 4096 ||
      8 + raw.headerLength ≥ raw.length) = false := by
    rw [Bool.or_eq_false_iff, Bool.or_eq_false_iff]
    exact ⟨⟨decide_eq_false (by omega), decide_eq_false (by omega)⟩, decide_eq_false (by omega)⟩
  rw [StreamPacket.parse, hbounds, hmagic, hlength, hheader, Bool.not_true]
  dsimp only
  rw [if_neg Bool.false_ne_true, if_neg Bool.false_ne_true, if_neg Bool.false_ne_true, if_neg]
  have hsequence : header.frameSequence ≠ 0 := by omega
  simp [hvalid, harea, ← hbytes, hsequence, not_lt]

/-- A canvas of this generation that has seen this sequence accepts the messages. -/
def Deliverable (generation : Text) (sequence : ℕ) : List Sent → Prop
  | [] => True
  | .reset reset _ :: sent =>
    reset.Parsed ∧ reset.generation ≠ generation ∧ Deliverable reset.generation sequence sent
  | .frame frame _ :: sent =>
    frame.Parsed ∧ frame.generation = generation ∧ sequence < frame.sequence ∧
      Deliverable generation frame.sequence sent

variable {sent : List Sent} {c : Canvas}

theorem Deliverable.mono {sequence sequence' : ℕ} (h : Deliverable generation sequence sent)
    (hle : sequence' ≤ sequence) :
    Deliverable generation sequence' sent := by
  induction sent generalizing generation sequence with
  | nil => trivial
  | cons m sent ih =>
    cases m with
    | reset reset check => exact ⟨h.1, h.2.1, ih h.2.2 hle⟩
    | frame frame check => exact ⟨h.1, h.2.1, Nat.lt_of_le_of_lt hle h.2.2.1, h.2.2.2⟩

def Canvas.Same (c c' : Canvas) : Prop := c'.generation = c.generation ∧ c'.sequence = c.sequence

theorem same_ack (c : Canvas) (packet : StreamHeader) (disposition : Disposition) :
    c.Same (c.ack packet disposition) := by
  rw [Canvas.ack]
  split <;> exact ⟨rfl, rfl⟩

theorem same_discardPending (c : Canvas) : c.Same c.discardPending := by
  rw [Canvas.discardPending]
  split
  · exact same_ack c ..
  · exact ⟨rfl, rfl⟩

theorem same_drainLoop (c : Canvas) : c.Same c.drainLoop := by
  rw [Canvas.drainLoop]
  split
  · split <;> exact ⟨rfl, rfl⟩
  · exact ⟨rfl, rfl⟩

theorem Canvas.Same.trans (h : c.Same c') (h' : c'.Same c'') : c.Same c'' :=
  ⟨h'.1.trans h.1, h'.2.trans h.2⟩

theorem same_decoded (c : Canvas) (packet : StreamHeader) (bitmap : Option (ℕ × ℕ)) :
    c.Same (c.decoded packet bitmap) := by
  cases bitmap with
  | none => exact ⟨rfl, rfl⟩
  | some size =>
    rw [Canvas.decoded]
    split
    · exact ⟨rfl, rfl⟩
    · split
      · exact (same_ack c ..).trans (same_drainLoop _)
      · split
        · exact ⟨rfl, rfl⟩
        · exact (same_ack c ..).trans (same_drainLoop _)

theorem reset_accepts {reset : Reset} (hparsed : reset.Parsed)
    (hne : reset.generation ≠ c.generation) :
    ∃ c', c.reset reset.value = .ok c' ∧ c'.generation = reset.generation ∧
      c'.sequence = c.sequence := by
  obtain ⟨hvalid, hgeneration⟩ := hparsed
  simp only [ResetValue.valid, Bool.and_eq_true, decide_eq_true_eq] at hvalid
  obtain ⟨⟨⟨hversion, hid⟩, htargets⟩, hlength⟩ := hvalid
  rw [Canvas.reset, if_neg]
  · obtain ⟨hgen, hseq⟩ := same_discardPending
      { c with
        generation := reset.value.mediaGeneration
        fenced := false
        targets := reset.value.targets }
    exact ⟨_, rfl, hgen.trans hgeneration, hseq⟩
  · rw [hgeneration]
    simp [hversion, ← hgeneration, hid, htargets, hlength, not_lt]
    exact hgeneration ▸ hne

/-- A frame of the canvas's generation that comes after the ones before is accepted. -/
theorem receive_accepts {frame : Frame} (hparsed : frame.Parsed)
    (hgen : frame.generation = c.generation) (hseq : c.sequence < frame.sequence) :
    ∃ c', c.receive frame.raw = .ok c' ∧ c'.generation = c.generation ∧
      c'.sequence ≤ frame.sequence := by
  obtain ⟨header, hparse, hheaderGen, hheaderSeq⟩ := hparsed
  rw [Canvas.receive]
  split
  · exact ⟨c, rfl, rfl, Nat.le_of_lt hseq⟩
  · rw [parse_of_parseStreamPacket hparse]
    dsimp only
    rw [if_neg (by simp [hheaderGen, hgen, hheaderSeq, hseq])]
    split
    · obtain ⟨hg, hs⟩ := same_ack { c with sequence := header.frameSequence } header .discarded
      exact ⟨_, rfl, hg, (hs.trans hheaderSeq).le⟩
    · obtain ⟨hg, hs⟩ := same_discardPending { c with sequence := header.frameSequence }
      generalize Canvas.discardPending { c with sequence := header.frameSequence } = d at hg hs ⊢
      split
      · obtain ⟨hg', hs'⟩ := same_drainLoop { d with pending := some header }
        exact ⟨_, rfl, hg'.trans hg, (hs'.trans (hs.trans hheaderSeq)).le⟩
      · exact ⟨_, rfl, hg, (hs.trans hheaderSeq).le⟩

theorem message_accepts {m : Sent} (h : Deliverable c.generation c.sequence (m :: sent)) :
    ∃ c', c.step (.message m) = some c' ∧ Deliverable c'.generation c'.sequence sent := by
  cases m with
  | reset reset check =>
    obtain ⟨hparsed, hne, hd⟩ := h
    obtain ⟨c', hc', hgen, hseq⟩ := reset_accepts hparsed hne
    refine ⟨c', by rw [Canvas.step, hc']; rfl, ?_⟩
    rw [hgen, hseq]
    exact hd
  | frame frame check =>
    obtain ⟨hparsed, hgen, hlt, hd⟩ := h
    obtain ⟨c', hc', hgen', hseq⟩ := receive_accepts hparsed hgen hlt
    refine ⟨c', by rw [Canvas.step, hc']; rfl, ?_⟩
    rw [hgen']
    exact hd.mono hseq

/-- What else happens to the canvas changes nothing about it. -/
theorem same_step (ha : a.message? = none) (hs : c.step a = some c') : c.Same c' := by
  cases a with
  | message m => cases ha
  | decoded bitmap =>
    obtain ⟨packet, -, rfl⟩ := Option.map_eq_some_iff.mp hs
    exact same_decoded c packet bitmap
  | fence =>
    cases hs
    exact same_discardPending { c with fenced := true }
  | dispose =>
    cases hs
    exact ⟨rfl, rfl⟩

theorem deliverable_run
    (h : Deliverable c.generation c.sequence (acts.filterMap Canvas.Act.message? ++ sent))
    (hrun : Runs.run Canvas.step acts c = some c') :
    Deliverable c'.generation c'.sequence sent := by
  induction acts generalizing c with
  | nil =>
    cases hrun
    exact h
  | cons a acts ih =>
    obtain ⟨d, hs, hrun⟩ := Runs.run_cons_eq_some.mp hrun
    cases ha : a.message? with
    | none =>
      rw [filterMap_cons_none ha] at h
      obtain ⟨hg, hq⟩ := same_step ha hs
      exact ih (by rw [hg, hq]; exact h) hrun
    | some m =>
      rw [filterMap_cons_some ha] at h
      obtain ⟨d', hs', hd⟩ := message_accepts h
      cases a with
      | message m' =>
        cases ha
        obtain rfl : d' = d := Option.some.inj (hs'.symm.trans hs)
        exact ih hd hrun
      | _ => cases ha

/-- **The canvas accepts.** The next message is accepted in whatever state the canvas is by then. -/
theorem canvas_accepts (h : Deliverable [] 0 sent)
    (hrun : Runs.run Canvas.step acts Canvas.init = some c)
    (hm : acts.filterMap Canvas.Act.message? ++ [m] <+: sent) :
    ∃ c', c.step (.message m) = some c' := by
  obtain ⟨rest, rfl⟩ := hm
  rw [append_assoc] at h
  obtain ⟨c', hs, -⟩ := message_accepts (deliverable_run h hrun)
  exact ⟨c', hs⟩

/-! ### What the relay has sent -/

/-- Every message of the relay is accepted in its turn. -/
theorem deliverable_of_fed {generation : Option Text} {sequence : ℕ} (hfed : Fed generation sent)
    (hframes : ∀ f ∈ sent.filterMap Sent.frame?, f.Parsed ∧ sequence < f.sequence)
    (hordered : (sent.filterMap Sent.frame?).Pairwise fun f g => f.sequence < g.sequence)
    (hresets : ∀ r ∈ sent.filterMap Sent.reset?, r.Parsed ∧ some r.generation ≠ generation)
    (hdistinct : ((sent.filterMap Sent.reset?).map Reset.generation).Nodup) :
    Deliverable (generation.getD []) sequence sent := by
  induction sent generalizing generation sequence with
  | nil => trivial
  | cons m sent ih =>
    cases m with
    | reset reset check =>
      obtain ⟨hparsed, hne⟩ := hresets reset (mem_cons_self ..)
      obtain ⟨hnew, hnodup⟩ := nodup_cons.mp hdistinct
      refine ⟨hparsed, ?_, ih hfed hframes hordered (fun r hr => ?_) hnodup⟩
      · cases generation with
        | none => exact hparsed.generation_ne_nil
        | some generation => exact fun heq => hne (congrArg some heq)
      · refine ⟨(hresets r (mem_cons_of_mem _ hr)).1, fun heq => hnew ?_⟩
        rw [← Option.some.inj heq]
        exact mem_map_of_mem hr
    | frame frame check =>
      obtain ⟨rfl, hfed⟩ := hfed
      obtain ⟨hparsed, hlt⟩ := hframes frame (mem_cons_self ..)
      obtain ⟨hafter, hordered⟩ := pairwise_cons.mp hordered
      refine ⟨hparsed, rfl, hlt, ih hfed (fun f hf => ?_) hordered hresets hdistinct⟩
      exact ⟨(hframes f (mem_cons_of_mem _ hf)).1, hafter f hf⟩

/-- The resets come with new generations. -/
def Distinct (s : Relay) : Act → Prop
  | .reset raw _ => ∀ value ∈ raw.value, value.mediaGeneration ∉ s.resets
  | _ => True

/-- The resets sent, and those to be sent, have generations of their own. -/
def ResetInv (s : Relay) : Prop :=
  (s.resetsAhead.map Reset.generation).Nodup ∧ ∀ r ∈ s.resetsAhead, r.generation ∈ s.resets

theorem ResetInv.keep {s s' : Relay} (h : ResetInv s) (hs : Keeps s s') : ResetInv s' :=
  ⟨h.1.sublist (hs.1.map _), fun r hr => hs.2.1 ▸ h.2 r (hs.1.subset hr)⟩

theorem resetInv_step (h : ResetInv s) (hok : Distinct s a) (hs : step s a = some s') :
    ResetInv s' := by
  cases a with
  | reset raw sockets =>
    cases hs
    rcases reset_spec s raw sockets with heq | ⟨value, hvalue, pendingReset, hp, hkeeps⟩
    · rw [heq]
      exact h
    · refine ResetInv.keep ?_ hkeeps
      have hnew := hok value hvalue
      rcases hp with rfl | ⟨reset, rfl, hgen⟩
      · exact ⟨h.1, fun r hr => mem_append_left _ (h.2 r hr)⟩
      · -- the reset takes the place of one that is not in hand yet
        have hsub : (s.viewer.filterMap Sent.reset? ++
            s.resetting.toList.map Prod.fst).Sublist s.resetsAhead := by
          rw [Relay.resetsAhead, ← append_assoc]
          exact sublist_append_left _ _
        rw [ResetInv, Relay.resetsAhead, ← append_assoc]
        constructor
        · rw [map_append]
          refine nodup_append.mpr ⟨h.1.sublist (hsub.map _), nodup_singleton _, ?_⟩
          rintro g hg g' hg' rfl
          obtain ⟨r, hr, hrg⟩ := mem_map.mp hg
          have hg' : g = reset.generation := mem_singleton.mp hg'
          rw [← hgen, ← hg', ← hrg] at hnew
          exact hnew (h.2 r (hsub.subset hr))
        · intro r hr
          rcases mem_append.mp hr with hr | hr
          · exact mem_append_left _ (h.2 r (hsub.subset hr))
          · rw [mem_singleton.mp hr, hgen]
            exact mem_append_right _ (mem_singleton_self _)
  | frame raw sockets =>
    cases hs
    rcases frame_spec s raw sockets with heq | ⟨header, -, -, hkeeps⟩
    · rw [heq]
      exact h
    · exact ResetInv.keep (s := { s with
        sequence := header.frameSequence
        outstanding := s.outstanding ++
          [⟨header.frameSequence, header.mediaGeneration, raw.length, sockets.now, false⟩] })
        h hkeeps
  | _ => exact h.keep (keeps_step rfl hs)

theorem deliverable_viewer (h : RelayInv s) (hr : ResetInv s) : Deliverable [] 0 s.viewer := by
  have hframes : ∀ f ∈ s.viewer.filterMap Sent.frame?, f.Parsed := fun f hf =>
    (h.queued f (mem_append_left _ hf)).2
  refine deliverable_of_fed h.fed (fun f hf => ⟨hframes f hf, ?_⟩)
    (h.ordered.sublist (sublist_append_left _ _)) (fun r hr => ⟨h.resets r hr, nofun⟩)
    (hr.1.sublist ((sublist_append_left _ _).map _))
  obtain ⟨header, hparse, -, hseq⟩ := hframes f hf
  have hvalid := (parseStreamPacket_eq_ok.mp hparse).2.2.2.1
  simp only [streamHeader, Bool.and_eq_true, decide_eq_true_eq] at hvalid
  omega

end Bud.Browser
