import Bud.Browser.RelayInvariant

/-!
# The daemon's credits

The sender of `stream_media.rs` with the relay, and the channels between them. The sender keeps a
credit for each frame until it reads its acknowledgement, and captures a frame only while it has at
most two credits and the frame, with the longest header there may be, fits into the bytes left.

The relay counts the frames that have arrived and have not been retired. These, with the frames that
are still under way, are among the sender's credits, in the same order: a credit is taken back on an
acknowledgement, which the relay sends when it retires the frame.

## Modelling notes

Each channel keeps its order. The acknowledgements under way are those that the relay has sent and
the sender has not read. The sender's clocks are left out, so it may capture at any time; `ended` is
an error of its loop.
-/

namespace Bud.Browser

open List

structure Credit where
  generation : Text
  sequence : ℕ
  bytes : ℕ

def Credit.entry (credit : Credit) : ℕ × ℕ := (credit.sequence, credit.bytes)

inductive DaemonMessage where
  | reset (raw : ResetPacket)
  | frame (raw : StreamPacket)
  deriving DecidableEq

/-- What the credit rule counts. -/
def DaemonMessage.entry? : DaemonMessage → Option (ℕ × ℕ)
  | .frame raw => raw.header.map fun header => (header.frameSequence, raw.length)
  | .reset _ => none

/-- The state of `run`. -/
structure Sender where
  generation : Text
  sequence : ℕ
  credits : List Credit
  ended : Bool

structure Stream where
  sender : Sender
  toRelay : List DaemonMessage
  relay : Relay
  /-- The number of acknowledgements the sender has read. -/
  read : ℕ

def Stream.init : Stream := ⟨⟨[], 0, [], false⟩, [], Browser.init, 0⟩

def Relay.acks (s : Relay) : List FrameAck := (s.retired.filter Retired.sent).map Retired.ack

/-- The sender captures an image, and sends it if the source is still live. -/
def Stream.capture (s : Stream) (header : StreamHeader) (headerLength image : ℕ) (live : Bool) :
    Option Stream :=
  if s.sender.ended || s.sender.credits.length ≥ 3 ||
      (s.sender.credits.map Credit.bytes).sum + image + 4104 > 2 * 1024 * 1024 then none
  else
    let sequence := s.sender.sequence + 1
    let raw : StreamPacket :=
      { length := 8 + headerLength + image
        magic := true
        headerLength := headerLength
        header := some { header with
          mediaGeneration := s.sender.generation
          frameSequence := sequence
          imageBytes := image } }
    if headerLength > 4096 then
      some { s with sender := { s.sender with
        sequence := sequence
        ended := true } }
    else if !live then some { s with sender := { s.sender with sequence := sequence } }
    else some
      { s with
        sender := { s.sender with
          sequence := sequence
          credits := s.sender.credits ++ [⟨s.sender.generation, sequence, raw.length⟩] }
        toRelay := s.toRelay ++ [.frame raw] }

def Sender.acknowledge (s : Sender) (ack : FrameAck) : Sender :=
  match s.credits.findIdx? fun credit =>
      credit.generation = ack.mediaGeneration && credit.sequence = ack.frameSequence with
  | some index => { s with credits := s.credits.eraseIdx index }
  | none => { s with ended := true }

inductive Stream.Act where
  | restart (byteLength : ℕ) (value : ResetValue)
  | capture (header : StreamHeader) (headerLength image : ℕ) (live : Bool)
  /-- The sender reads the next acknowledgement. -/
  | acknowledge
  | arrive (sockets : Sockets)
  | relay (a : Browser.Act)

/-- One step; `none` is an action that cannot happen. -/
def Stream.step (s : Stream) : Stream.Act → Option Stream
  | .restart byteLength value =>
    if s.sender.ended then none
    else some
      { s with
        sender := { s.sender with generation := value.mediaGeneration }
        toRelay := s.toRelay ++ [.reset ⟨byteLength, some value⟩] }
  | .capture header headerLength image live => s.capture header headerLength image live
  | .acknowledge =>
    if s.sender.ended then none
    else s.relay.acks[s.read]?.map fun ack =>
      { s with
        sender := s.sender.acknowledge ack
        read := s.read + 1 }
  | .arrive sockets =>
    match s.toRelay with
    | [] => none
    | .reset raw :: rest =>
      some { s with
        toRelay := rest
        relay := (s.relay.reset raw sockets).1 }
    | .frame raw :: rest =>
      some { s with
        toRelay := rest
        relay := (s.relay.frame raw sockets).1 }
  | .relay a =>
    if a.arrives then none else (Browser.step s.relay a).map fun relay => { s with relay := relay }

/-! ### The invariant -/

def Stream.underWay (s : Stream) : List (ℕ × ℕ) := s.toRelay.filterMap DaemonMessage.entry?

structure CreditInv (s : Stream) : Prop where
  relay : RelayInv s.relay
  count : s.sender.credits.length ≤ 3
  bytes : (s.sender.credits.map Credit.bytes).sum ≤ 2 * 1024 * 1024
  entries : (s.relay.outstanding.map Outstanding.entry ++ s.underWay).Sublist
    (s.sender.credits.map Credit.entry)
  order : (s.relay.sequence :: s.underWay.map Prod.fst).Pairwise (· < ·)
  sent : ∀ n ∈ s.relay.sequence :: s.underWay.map Prod.fst, n ≤ s.sender.sequence

theorem creditInv_init : CreditInv Stream.init where
  relay := relayInv_init
  count := Nat.zero_le _
  bytes := Nat.zero_le _
  entries := Sublist.refl _
  order := pairwise_singleton _ _
  sent := fun _ hn => Nat.le_of_eq (mem_singleton.mp hn)

theorem sublist_eraseIdx {α : Type*} {l l' : List α} (h : l.Sublist l') {x : α}
    (hx : l'[i]? = some x) (hn : x ∉ l) : l.Sublist (l'.eraseIdx i) := by
  induction h generalizing i with
  | slnil => exact nil_sublist _
  | cons a h ih =>
    cases i with
    | zero => exact h
    | succ i => exact .cons a (ih hx hn)
  | cons_cons a h ih =>
    cases i with
    | zero =>
      rw [getElem?_cons_zero] at hx
      exact absurd (Option.some.inj hx ▸ mem_cons_self ..) hn
    | succ i => exact .cons_cons a (ih hx fun hm => hn (mem_cons_of_mem _ hm))

variable {s : Stream} {rest : List DaemonMessage} {raw : StreamPacket}

/-- The relay takes in or lets go of frames, but none that is not among the credits. -/
theorem CreditInv.keep (h : CreditInv s) {relay : Relay} (hrelay : RelayInv relay)
    (hsequence : relay.sequence = s.relay.sequence)
    (hentries : (relay.outstanding.map Outstanding.entry).Sublist (s.relay.outstanding.map
      Outstanding.entry)) (hrest : (rest.filterMap DaemonMessage.entry?).Sublist s.underWay) :
    CreditInv { s with
      toRelay := rest
      relay := relay } := by
  have hsub : (relay.sequence :: (rest.filterMap DaemonMessage.entry?).map Prod.fst).Sublist
      (s.relay.sequence :: s.underWay.map Prod.fst) := by
    rw [hsequence]
    exact (hrest.map _).cons_cons _
  exact ⟨hrelay, h.count, h.bytes, (hentries.append hrest).trans h.entries, h.order.sublist hsub,
    fun n hn => h.sent n (hsub.subset hn)⟩

theorem CreditInv.capture (h : CreditInv s)
    (hs : s.capture header headerLength image live = some s') : CreditInv s' := by
  rw [Stream.capture] at hs
  obtain ⟨hcredit, hs⟩ := Option.ite_none_left_eq_some.mp hs
  simp only [Bool.or_eq_true, decide_eq_true_eq, not_or, not_le, not_lt] at hcredit
  obtain ⟨⟨-, hcount⟩, hbytes⟩ := hcredit
  have hsent : ∀ n ∈ s.relay.sequence :: s.underWay.map Prod.fst, n ≤ s.sender.sequence + 1 :=
    fun n hn => Nat.le_succ_of_le (h.sent n hn)
  dsimp only at hs
  split at hs
  · cases hs
    exact { h with sent := hsent }
  · next hlength =>
    split at hs
    · cases hs
      exact { h with sent := hsent }
    · cases hs
      have hunder : (s.toRelay ++ [DaemonMessage.frame ⟨8 + headerLength + image, true,
          headerLength, some { header with
            mediaGeneration := s.sender.generation
            frameSequence := s.sender.sequence + 1
            imageBytes := image }⟩]).filterMap DaemonMessage.entry? =
            s.underWay ++ [(s.sender.sequence + 1, 8 + headerLength + image)] := by
        rw [filterMap_append]
        rfl
      refine ⟨h.relay, ?_, ?_, ?_, ?_, ?_⟩
      · rw [length_append]
        exact hcount
      · rw [map_append, sum_append]
        show _ + (8 + headerLength + image + 0) ≤ _
        omega
      · rw [Stream.underWay, hunder, map_append, ← append_assoc]
        exact h.entries.append (.refl _)
      · rw [Stream.underWay, hunder, map_append, ← cons_append]
        refine pairwise_append.mpr ⟨h.order, pairwise_singleton _ _, ?_⟩
        intro n hn m hm
        rw [mem_singleton.mp hm]
        exact Nat.lt_succ_of_le (h.sent n hn)
      · rw [Stream.underWay, hunder, map_append, ← cons_append]
        intro n hn
        rcases mem_append.mp hn with hn | hn
        · exact hsent n hn
        · exact Nat.le_of_eq (mem_singleton.mp hn)

/-- A frame whose acknowledgement has been sent is not outstanding any more, nor under way. -/
theorem CreditInv.acknowledged (h : CreditInv s) {ack : FrameAck} (hack : ack ∈ s.relay.acks) :
    ∀ e ∈ s.relay.outstanding.map Outstanding.entry ++ s.underWay, e.1 ≠ ack.frameSequence := by
  obtain ⟨r, hr, rfl⟩ := mem_map.mp hack
  have hretired : r.ack.frameSequence ∈ s.relay.retired.map fun r => r.ack.frameSequence :=
    mem_map_of_mem (mem_filter.mp hr).1
  intro e he heq
  rcases mem_append.mp he with he | he
  · obtain ⟨item, hitem, rfl⟩ := mem_map.mp he
    exact (nodup_append.mp h.relay.once).2.2 _ hretired _ (mem_map_of_mem hitem) heq.symm
  · have hlt := (pairwise_cons.mp h.order).1 _ (mem_map_of_mem he)
    rw [heq] at hlt
    exact absurd (h.relay.known _ (mem_append_left _ hretired)) (Nat.not_le.mpr hlt)

theorem CreditInv.acknowledge (h : CreditInv s) {ack : FrameAck} (hack : ack ∈ s.relay.acks)
    (read : ℕ) : CreditInv { s with
      sender := s.sender.acknowledge ack
      read := read } := by
  rw [Sender.acknowledge]
  split
  · next index hindex =>
    obtain ⟨hlt, hcredit, -⟩ := findIdx?_eq_some_iff_getElem.mp hindex
    have hget : (s.sender.credits.map Credit.entry)[index]? =
        some s.sender.credits[index].entry := by
      rw [getElem?_map, getElem?_eq_getElem hlt]
      rfl
    have herase : ((s.sender.credits.eraseIdx index).map Credit.entry) =
        (s.sender.credits.map Credit.entry).eraseIdx index := (eraseIdx_map ..).symm
    have hsub := eraseIdx_sublist s.sender.credits index
    simp only [Bool.and_eq_true, decide_eq_true_eq] at hcredit
    refine ⟨h.relay, hsub.length_le.trans h.count,
      ((hsub.map _).sum_le_sum fun _ _ => Nat.zero_le _).trans h.bytes, ?_, h.order, h.sent⟩
    rw [herase]
    refine sublist_eraseIdx h.entries hget fun hm => ?_
    exact h.acknowledged hack _ hm hcredit.2
  · exact { h with }

theorem CreditInv.arriveReset (h : CreditInv s) {raw : ResetPacket}
    (hto : s.toRelay = .reset raw :: rest) (sockets : Sockets) : CreditInv { s with
      toRelay := rest
      relay := (s.relay.reset raw sockets).1 } := by
  have hunder : s.underWay = rest.filterMap DaemonMessage.entry? := by
    rw [Stream.underWay, hto]
    rfl
  have hrest : (rest.filterMap DaemonMessage.entry?).Sublist s.underWay := hunder ▸ .refl _
  have hrelay := h.relay.reset raw sockets
  rcases reset_spec s.relay raw sockets with heq | ⟨_, -, _, -, hkeeps⟩
  · refine h.keep hrelay ?_ ?_ hrest <;> rw [heq]
  · exact h.keep hrelay hkeeps.2.2.2 hkeeps.2.2.1 hrest

theorem CreditInv.arriveFrame (h : CreditInv s) (hto : s.toRelay = .frame raw :: rest)
    (sockets : Sockets) : CreditInv { s with
      toRelay := rest
      relay := (s.relay.frame raw sockets).1 } := by
  have hrelay := h.relay.frame raw sockets
  rcases frame_spec s.relay raw sockets with heq | ⟨header, hparse, -, hkeeps⟩
  · have hrest : (rest.filterMap DaemonMessage.entry?).Sublist s.underWay := by
      rw [Stream.underWay, hto]
      exact (sublist_cons_self _ _).filterMap _
    refine h.keep hrelay ?_ ?_ hrest <;> rw [heq]
  · have hunder : s.underWay =
        (header.frameSequence, raw.length) :: rest.filterMap DaemonMessage.entry? := by
      rw [Stream.underWay, hto, filterMap_cons_some]
      rw [DaemonMessage.entry?, (parseStreamPacket_eq_ok.mp hparse).2.2.1]
      rfl
    have horder := h.order
    have hsent := h.sent
    have hentries := h.entries
    rw [hunder] at horder hsent hentries
    obtain ⟨-, -, hsub, hsequence⟩ := hkeeps
    have hsequence : (s.relay.frame raw sockets).1.sequence = header.frameSequence := hsequence
    refine ⟨hrelay, h.count, h.bytes, ?_, ?_, ?_⟩
    · refine Sublist.trans (hsub.append (.refl _)) ?_
      rw [map_append, append_assoc]
      exact hentries
    · show List.Pairwise _ ((s.relay.frame raw sockets).1.sequence :: _)
      rw [hsequence]
      exact (pairwise_cons.mp horder).2
    · show ∀ n ∈ (s.relay.frame raw sockets).1.sequence :: _, _
      rw [hsequence]
      exact fun n hn => hsent n (mem_cons_of_mem _ hn)

/-- **The credits cover what the relay counts.** Every step keeps it so. -/
theorem creditInv_step (h : CreditInv s) (hs : s.step a = some s') : CreditInv s' := by
  cases a with
  | restart byteLength value =>
    rw [Stream.step] at hs
    split at hs <;> cases hs
    have hunder : (s.toRelay ++ [DaemonMessage.reset ⟨byteLength, some value⟩]).filterMap
        DaemonMessage.entry? = s.underWay := by
      rw [filterMap_append]
      exact append_nil _
    have hkeep := h.keep h.relay rfl (.refl _)
      ((congrArg (Sublist · s.underWay) hunder).mpr (.refl _))
    exact { hkeep with }
  | capture header headerLength image live => exact h.capture hs
  | acknowledge =>
    rw [Stream.step] at hs
    obtain ⟨-, hs⟩ := Option.ite_none_left_eq_some.mp hs
    obtain ⟨ack, hack, rfl⟩ := Option.map_eq_some_iff.mp hs
    exact h.acknowledge (mem_of_getElem? hack) _
  | arrive sockets =>
    rw [Stream.step] at hs
    split at hs
    · cases hs
    · next hto =>
      cases hs
      exact h.arriveReset hto sockets
    · next hto =>
      cases hs
      exact h.arriveFrame hto sockets
  | relay a =>
    rw [Stream.step] at hs
    obtain ⟨ha, hs⟩ := Option.ite_none_left_eq_some.mp hs
    obtain ⟨relay, hrelay, rfl⟩ := Option.map_eq_some_iff.mp hs
    have hkeeps := keeps_step (by simpa using ha) hrelay
    exact h.keep (relayInv_step h.relay hrelay) hkeeps.2.2.2 hkeeps.2.2.1 (.refl _)

/-! ### The relay's answer -/

theorem parseStreamPacket_error (h : parseStreamPacket raw = .error error) :
    error ≠ "stream_credit" := by
  rw [parseStreamPacket] at h
  split at h
  · exact Except.error.inj h ▸ by decide
  · split at h
    · exact Except.error.inj h ▸ by decide
    · split at h
      · exact Except.error.inj h ▸ by decide
      · split at h
        · exact Except.error.inj h ▸ by decide
        · split at h
          · exact Except.error.inj h ▸ by decide
          · cases h

/-- **Room for the next frame.** -/
theorem no_credit_error (h : CreditInv s) (hto : s.toRelay = .frame raw :: rest)
    (sockets : Sockets) : (s.relay.frame raw sockets).2 ≠ some "stream_credit" := by
  rw [Relay.frame]
  split
  · next error herror => exact fun heq => parseStreamPacket_error herror (Option.some.inj heq)
  · next header hparse =>
    split
    · show some "stream_sequence" ≠ some "stream_credit"
      decide
    · split
      · next hcredit =>
        have hunder : s.underWay =
            (header.frameSequence, raw.length) :: rest.filterMap DaemonMessage.entry? := by
          rw [Stream.underWay, hto, filterMap_cons_some]
          rw [DaemonMessage.entry?, (parseStreamPacket_eq_ok.mp hparse).2.2.1]
          rfl
        have hentries := h.entries
        rw [hunder] at hentries
        have hlength := hentries.length_le.trans (Nat.le_of_eq (length_map ..))
        have hbytes := (hentries.map Prod.snd).sum_le_sum fun _ _ => Nat.zero_le _
        rw [length_append, length_map, length_cons] at hlength
        rw [map_append, map_map, map_map, map_cons, sum_append, sum_cons] at hbytes
        have hcount := h.count
        have hsum := h.bytes
        simp only [Bool.or_eq_true, decide_eq_true_eq] at hcredit
        change (s.relay.outstanding.map Outstanding.bytes).sum + (raw.length + _) ≤
          (s.sender.credits.map Credit.bytes).sum at hbytes
        omega
      · dsimp only
        split
        · show some "stream_invalid_ack" ≠ some "stream_credit"
          decide
        · rintro ⟨⟩

end Bud.Browser
