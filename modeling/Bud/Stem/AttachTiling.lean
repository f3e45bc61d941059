import Bud.Stem.Attach
import Bud.Stem.HolderStream
import Bud.Stem.PlainTerm

/-!
# Does an attachment account for every byte?

The `Output` and `OutputGap` events of an attachment should tile the stream from the resume offset
on: outputs in order, without overlap, carrying the stream's bytes, and every offset between two of
them inside a gap announced between them. `Tiled` is that, as a check that reads the events once.

The live part keeps it: a subscription's frames carry the stream from one offset on
(`HolderStream`), preceded by a `Truncated` notice if that offset is past the replay's end, and the
notice becomes a gap. The replay part keeps it as long as every reply continues where the cursor
is. A reply that starts past the cursor, because the ring evicted bytes since the last request,
carries `truncated_from`; the loop does not look at it, and the bytes in between go missing without
a gap. `ReplayKept` is the condition on a request that this does not happen above the resume offset.
-/

namespace Bud.Attach

open Slice Bud.Ipc Bud.Ring Semantic Modes Emulator Grid Vte Session List Option

/-! ### Tiling -/

/-- The check's state: where outputs may start, the first offset not accounted for by an output,
and the gaps announced since the last output. -/
structure Tile where
  floor : ℕ
  pos : ℕ
  gaps : List (ℕ × ℕ)

namespace Tile

def Covered (t : Tile) (o : ℕ) : Prop := ∃ gap ∈ t.gaps, gap.1 ≤ o ∧ o < gap.2

/-- An output may come next: it starts at or after the last one's end, carries the stream's bytes,
and what it skips is covered. -/
def Ok (P : List UInt8) (t : Tile) : Event → Prop
  | .output offset bytes =>
    t.floor ≤ offset ∧ bytes = slice P offset (offset + bytes.length) ∧
      ∀ o, t.pos ≤ o → o < offset → t.Covered o
  | _ => True

def next (t : Tile) : Event → Tile
  | .output offset bytes =>
    { floor := offset + bytes.length, pos := offset + bytes.length, gaps := [] }
  | .outputGap fromOffset resumeOffset => { t with gaps := t.gaps ++ [(fromOffset, resumeOffset)] }
  | _ => t

/-- Every offset below `c` that has to be accounted for is. -/
def Reaches (t : Tile) (c : ℕ) : Prop := t.floor ≤ c ∧ ∀ o, t.pos ≤ o → o < c → t.Covered o

end Tile

/-- The events, read from the check's state `t` on. -/
def Tiled (P : List UInt8) : Tile → List Event → Prop
  | _, [] => True
  | t, e :: es => t.Ok P e ∧ Tiled P (t.next e) es

def after (t : Tile) (es : List Event) : Tile := es.foldl Tile.next t

variable {P : List UInt8} {t : Tile} {es : List Event}

theorem tiled_append : Tiled P t (es ++ fs) ↔ Tiled P t es ∧ Tiled P (after t es) fs := by
  induction es generalizing t with
  | nil => simp [Tiled, after]
  | cons e es ih =>
    rw [cons_append, Tiled, Tiled, ih, and_assoc]
    rfl

theorem after_append (t : Tile) (es fs : List Event) :
    after t (es ++ fs) = after (after t es) fs :=
  foldl_append

theorem Tiled.mono (h : Tiled P t es) (Q : List UInt8) : Tiled (P ++ Q) t es := by
  induction es generalizing t with
  | nil => trivial
  | cons e es ih =>
    refine ⟨?_, ih h.2⟩
    cases e with
    | output offset bytes =>
      obtain ⟨hfloor, hbytes, hcov⟩ := h.1
      refine ⟨hfloor, ?_, hcov⟩
      by_cases hnil : bytes = []
      · subst hnil
        simp [slice]
      · have hlen := congrArg length hbytes
        have hpos := length_pos_iff.mpr hnil
        rw [length_slice] at hlen
        rw [slice_append_of_le _ _ (by omega)]
        exact hbytes
    | _ => trivial

/-- The events the check looks at. -/
def isTile : Event → Bool
  | .output _ _ | .outputGap _ _ => true
  | _ => false

theorem tiled_of_not_isTile (h : ∀ e ∈ es, isTile e = false) (t : Tile) :
    Tiled P t es ∧ after t es = t := by
  induction es with
  | nil => exact ⟨trivial, rfl⟩
  | cons e es ih =>
    obtain ⟨htail, hafter⟩ := ih fun e' he' => h e' (mem_cons_of_mem _ he')
    have he := h e mem_cons_self
    have hnext : t.next e = t := by cases e <;> first | rfl | cases he
    have hok : t.Ok P e := by cases e <;> first | exact trivial | cases he
    refine ⟨⟨hok, by rwa [hnext]⟩, ?_⟩
    rw [after, foldl_cons, hnext]
    exact hafter

theorem Tile.Reaches.output (h : t.Reaches c) (hfloor : t.floor ≤ offset)
    (hcov : offset ≤ max c t.pos) (hbytes : bytes = slice P offset (offset + bytes.length)) :
    t.Ok P (.output offset bytes) ∧
      (t.next (.output offset bytes)).Reaches (offset + bytes.length) := by
  refine ⟨⟨hfloor, hbytes, fun o hpos hlt => h.2 o hpos (by omega)⟩, Nat.le_refl _, ?_⟩
  intro o hpos hlt
  exact absurd (show offset + bytes.length ≤ o from hpos) (by omega)

/-! ### What a chunk emits -/

section

variable {V T : Type} [Parser V] [Terminal T]

omit [Parser V] in
theorem not_isTile_onMarker {inner : Session.Inner V T} :
    ∀ e ∈ (inner.onMarker emitFrom emitModeChanges ev).2, isTile e = false := by
  intro e he
  simp only [Session.Inner.onMarker, mem_append] at he
  rcases he with he | he
  · obtain ⟨mode, integration, rfl⟩ := mem_modeEvents he
    rfl
  · split_ifs at he
    · rw [mem_toList, Session.Inner.markerEvent] at he
      cases hk : ev.kind <;> rw [hk] at he <;> cases he <;> rfl
    · cases he

omit [Parser V] in
theorem not_isTile_onMarkers {evs : List ScanEvent} :
    ∀ {inner : Session.Inner V T}, ∀ e ∈ (inner.onMarkers emitFrom emitModeChanges evs).2,
      isTile e = false := by
  induction evs with
  | nil =>
    intro inner e he
    cases he
  | cons ev evs ih =>
    intro inner e he
    rw [Session.Inner.onMarkers, mem_append] at he
    rcases he with he | he
    · exact not_isTile_onMarker e he
    · exact ih e he

/-- A chunk that continues the stream keeps the check going, whether or not part of it is above
`emitFrom`. -/
theorem tiled_processChunk (inner : Session.Inner V T) (emitModeChanges trackGrid : Bool)
    (h : t.Reaches c) (hfloor : t.floor ≤ offset) (hpos : emitFrom ≤ t.pos)
    (hcov : offset ≤ max c t.pos) (hbytes : bytes = slice P offset (offset + bytes.length)) :
    Tiled P t (processChunk inner offset bytes emitFrom emitModeChanges trackGrid).2.1 ∧
      (after t (processChunk inner offset bytes emitFrom emitModeChanges trackGrid).2.1).Reaches
        (offset + bytes.length) ∧
      emitFrom ≤
        (after t (processChunk inner offset bytes emitFrom emitModeChanges trackGrid).2.1).pos := by
  have hmarkers : ∀ e ∈ ((inner.feedChunk offset bytes trackGrid).1.onMarkers emitFrom
      emitModeChanges (scan inner.scanner offset bytes).2).2, isTile e = false :=
    not_isTile_onMarkers
  have hout : (processChunk inner offset bytes emitFrom emitModeChanges trackGrid).2.1
      = chunkOutput offset bytes emitFrom ++ ((inner.feedChunk offset bytes trackGrid).1.onMarkers
        emitFrom emitModeChanges (scan inner.scanner offset bytes).2).2 := rfl
  rw [hout, tiled_append, after_append, (tiled_of_not_isTile (P := P) hmarkers _).2, chunkOutput]
  have hneutral := fun t => (tiled_of_not_isTile (P := P) hmarkers t).1
  by_cases hemit : emitFrom < offset + bytes.length
  · simp only [if_pos hemit]
    set skip := emitFrom - offset with hskip
    have hdrop : bytes.drop skip
        = slice P (offset + skip) (offset + skip + (bytes.drop skip).length) := by
      have := congrArg (drop skip) hbytes
      rw [drop_slice] at this
      rw [length_drop, show offset + skip + (bytes.length - skip) = offset + bytes.length by
        omega]
      exact this
    obtain ⟨hok, hreach⟩ := h.output (show t.floor ≤ offset + skip by omega) (by omega) hdrop
    refine ⟨⟨⟨hok, trivial⟩, hneutral _⟩, ?_, ?_⟩
    · have hend : offset + skip + (bytes.drop skip).length = offset + bytes.length := by
        rw [length_drop]; omega
      rw [hend] at hreach
      exact hreach
    · show emitFrom ≤ offset + skip + (bytes.drop skip).length
      rw [length_drop]
      omega
  · rw [if_neg hemit]
    refine ⟨⟨trivial, hneutral _⟩, ⟨?_, ?_⟩, hpos⟩
    · show t.floor ≤ _
      omega
    · intro o ho hlt
      exact absurd (show t.pos ≤ o from ho) (by omega)

/-! ### The invariant -/

/-- The check's state before the first event. -/
def Config.tile (cfg : Config) : Tile := { floor := 0, pos := cfg.resumeFrom, gaps := [] }

/-- What the live loop has received: either nothing yet, or the notice if there was one and then
frames that carry the stream up to `m`, which is what the events reach. -/
def Received (P : List UInt8) (t : Tile) (lead : List HolderMsg) (start replayEnd liveCursor : ℕ)
    (received : List HolderMsg) : Prop :=
  (received = [] ∧ t.Reaches replayEnd ∧ liveCursor = replayEnd) ∨
    ∃ rest m, received = lead ++ rest ∧ Holder.Carries P start rest m ∧ t.Reaches m ∧
      liveCursor ≤ m

/-- Phase by phase, how far the events collected or sent so far reach. -/
def PhaseInv (cfg : Config) (cap : ℕ) (P : List UInt8) (s : Sys V T) : Prop :=
  match s.phase with
  | .connecting => s.emitted = []
  | .replaying ringOldest ringNext cursor events _ =>
    let t := after cfg.tile (replayGap cfg ringOldest ++ events)
    s.emitted = [] ∧ cursor ≤ P.length ∧ ringNext ≤ P.length ∧
      Tiled P cfg.tile (replayGap cfg ringOldest ++ events) ∧ t.Reaches cursor ∧
      cfg.resumeFrom ≤ t.pos
  | .replayed _ replayEnd =>
    replayEnd ≤ P.length ∧ Tiled P cfg.tile s.emitted ∧
      (after cfg.tile s.emitted).Reaches replayEnd
  | .live k seen replayEnd liveCursor _ =>
    Tiled P cfg.tile s.emitted ∧ ∃ lead start, Holder.Inv cap k lead start P s.holder ∧
      (lead = [] ∧ start = replayEnd ∨ lead = [.truncated start] ∧ replayEnd ≤ start) ∧
      ∃ sub, s.holder.subscribers[k]? = some sub ∧ seen ≤ sub.sent.length ∧
        Received P (after cfg.tile s.emitted) lead start replayEnd liveCursor (sub.sent.take seen)
  | .ended => Tiled P cfg.tile s.emitted

/-- The ring stores the stream, and the phase's invariant holds. -/
structure Inv (cfg : Config) (cap : ℕ) (P : List UInt8) (s : Sys V T) : Prop where
  ring : Refines s.holder.ring ⟨cap, P⟩
  phase : PhaseInv cfg cap P s

/-- The next request of the replay loop finds the ring's oldest byte at or below the cursor or the
resume offset, or finds nothing left to read. -/
def Phase.Kept (oldest resumeFrom : ℕ) : Phase → Prop
  | .replaying _ ringNext cursor _ _ => oldest ≤ max cursor resumeFrom ∨ ringNext ≤ oldest
  | _ => True

/-- The condition on a step: a request of the replay loop is made while the ring still has what it
asks for. -/
def ReplayKept (cfg : Config) (s : Sys V T) : Act → Prop
  | .ringRead => s.phase.Kept s.holder.ring.oldestOffset cfg.resumeFrom
  | _ => True

instance (oldest resumeFrom : ℕ) : (phase : Phase) → Decidable (phase.Kept oldest resumeFrom)
  | .replaying _ ringNext cursor _ _ =>
    inferInstanceAs (Decidable (oldest ≤ max cursor resumeFrom ∨ ringNext ≤ oldest))
  | .connecting | .replayed _ _ | .live _ _ _ _ _ | .ended => .isTrue trivial

instance (cfg : Config) (s : Sys V T) : (act : Act) → Decidable (ReplayKept cfg s act)
  | .ringRead => inferInstanceAs (Decidable (s.phase.Kept _ _))
  | .holder _ | .stat | .finishReplay | .subscribe | .recv | .armSettle | .quiet | .close =>
    .isTrue trivial

variable {liveCursor cap : ℕ} {cfg : Config} {s s' : Sys V T}

theorem Received.mono (h : Received P t lead start replayEnd liveCursor received) (Q : List UInt8) :
    Received (P ++ Q) t lead start replayEnd liveCursor received := by
  rcases h with h | ⟨rest, m, heq, hcarry, hreach, hcur⟩
  · exact .inl h
  · exact .inr ⟨rest, m, heq, hcarry.mono Q, hreach, hcur⟩

omit [Parser V] [Terminal T] in
/-- **The holder's steps.** The stream may grow and the ring may evict; nothing the attachment has
emitted is affected. -/
theorem Inv.holder (h : Inv cfg cap P s) (hstep : Holder.step s.holder act = some sh) :
    Inv cfg cap (P ++ act.output) { s with holder := sh } := by
  refine ⟨Holder.refines_step h.ring hstep, ?_⟩
  have hp := h.phase
  have hlen : P.length ≤ (P ++ act.output).length := by rw [length_append]; omega
  simp only [PhaseInv] at hp ⊢
  cases hphase : s.phase with
  | connecting =>
    rw [hphase] at hp
    exact hp
  | replaying ringOldest ringNext cursor events stopped =>
    rw [hphase] at hp
    obtain ⟨hemit, hcur, hnext, htiled, hreach, hpos⟩ := hp
    exact ⟨hemit, by omega, by omega, htiled.mono _, hreach, hpos⟩
  | replayed ringOldest replayEnd =>
    rw [hphase] at hp
    obtain ⟨hend, htiled, hreach⟩ := hp
    exact ⟨by omega, htiled.mono _, hreach⟩
  | live k seen replayEnd liveCursor deadline =>
    rw [hphase] at hp
    obtain ⟨htiled, lead, start, hinv, hlead, sub, hk, hseen, hrecv⟩ := hp
    obtain ⟨sub', hk', hpre⟩ := Holder.sent_prefix_of_step hstep hk
    refine ⟨htiled.mono _, lead, start, hinv.step hstep, hlead, sub', hk', ?_, ?_⟩
    · exact hseen.trans hpre.length_le
    · obtain ⟨tail, htail⟩ := hpre
      rw [← htail, take_append_of_le_length hseen]
      exact hrecv.mono _
  | ended =>
    rw [hphase] at hp
    exact hp.mono _

/-! ### The replay -/

theorem reaches_replayGap (cfg : Config) (P : List UInt8) (ringOldest : ℕ) :
    Tiled P cfg.tile (replayGap cfg ringOldest) ∧
      (after cfg.tile (replayGap cfg ringOldest)).Reaches ringOldest ∧
      (after cfg.tile (replayGap cfg ringOldest)).pos = cfg.resumeFrom := by
  rw [replayGap]
  split_ifs with hlt
  · refine ⟨⟨trivial, trivial⟩, ⟨Nat.zero_le _, ?_⟩, rfl⟩
    intro o ho hlt'
    exact ⟨(cfg.resumeFrom, ringOldest), by simp [after, Tile.next, Config.tile], ho, hlt'⟩
  · refine ⟨trivial, ⟨Nat.zero_le _, ?_⟩, rfl⟩
    intro o ho hlt'
    exact absurd (show cfg.resumeFrom ≤ o from ho) (by omega)

theorem Inv.stat (h : Inv cfg cap P s) (hstep : step cfg s .stat = some s') : Inv cfg cap P s' := by
  rw [step] at hstep
  cases hphase : s.phase with
  | connecting =>
    rw [hphase] at hstep
    cases hstep
    have hp := h.phase
    rw [PhaseInv, hphase] at hp
    obtain ⟨htiled, hreach, hpos⟩ := reaches_replayGap cfg P s.holder.ring.oldestOffset
    refine ⟨h.ring, ?_⟩
    simp only [PhaseInv, Holder.stat, append_nil]
    have hle := Retained.oldest_le_next ⟨cap, P⟩
    have hnext : s.holder.ring.nextOffset = P.length := h.ring.nextOffset_eq
    have hold := h.ring.oldestOffset_eq
    refine ⟨hp, ?_, hnext.le, htiled, hreach, hpos.ge⟩
    rw [hold]
    exact hle
  | _ =>
    rw [hphase] at hstep
    cases hstep

theorem ringReadReply_of_refines {A : Retained} (h : Refines sh.ring A) (cursor stop : ℕ) :
    ∃ reply, Holder.ringReadReply sh cursor stop = some reply ∧
      (reply.bytes ≠ [] → reply.start = max cursor A.oldest ∧ A.oldest < stop ∧
        reply.start + reply.bytes.length ≤ A.next ∧
        reply.bytes = slice A.stream reply.start (reply.start + reply.bytes.length)) := by
  rw [Holder.ringReadReply, h.oldestOffset_eq, h.readRange]
  refine ⟨_, rfl, fun hne => ?_⟩
  simp only [Retained.read] at hne ⊢
  have hlt := (slice_ne_nil_iff _ _ _).mp hne
  have hstart : min (max cursor A.oldest) A.next = max cursor A.oldest := by omega
  rw [hstart]
  refine ⟨rfl, by omega, ?_, (slice_add_length _ _ _).symm⟩
  rw [length_slice, Retained.next]
  omega

/-- **A request of the replay loop** whose reply continues at the cursor, or below the resume
offset, keeps the events tiling the stream. -/
theorem Inv.ringRead (h : Inv cfg cap P s) (hok : ReplayKept cfg s .ringRead)
    (hstep : step cfg s .ringRead = some s') : Inv cfg cap P s' := by
  rw [step] at hstep
  split at hstep
  · next ringOldest ringNext cursor events hphase =>
    obtain ⟨hlt, hstep⟩ := ite_none_right_eq_some.mp hstep
    have hp := h.phase
    simp only [PhaseInv, hphase] at hp
    obtain ⟨hemit, hcur, hnext, htiled, hreach, hpos⟩ := hp
    rw [ReplayKept, hphase, Phase.Kept, h.ring.oldestOffset_eq] at hok
    obtain ⟨reply, hreply, hbytes⟩ := ringReadReply_of_refines h.ring cursor ringNext
    rw [Attach.ringRead, hreply, map_some] at hstep
    cases hstep
    by_cases hnil : reply.bytes = []
    · rw [if_pos hnil]
      refine ⟨h.ring, ?_⟩
      simp only [PhaseInv]
      exact ⟨hemit, hcur, hnext, htiled, hreach, hpos⟩
    · rw [if_neg hnil]
      obtain ⟨hstart, hold, hend, hslice⟩ := hbytes hnil
      refine ⟨h.ring, ?_⟩
      simp only [PhaseInv]
      have hchunk := tiled_processChunk s.inner false false hreach
        (by have := hreach.1; omega) hpos (by omega) hslice
      have hassoc : ∀ out : List Event, replayGap cfg ringOldest ++ (events ++ out)
          = (replayGap cfg ringOldest ++ events) ++ out := fun out => by
        rw [append_assoc]
      rw [hassoc, tiled_append, after_append _ (replayGap cfg ringOldest ++ events)]
      exact ⟨hemit, hend, hnext, ⟨htiled, hchunk.1⟩, hchunk.2.1, hchunk.2.2⟩
  · cases hstep

theorem Inv.finishReplay (h : Inv cfg cap P s) (hstep : step cfg s .finishReplay = some s') :
    Inv cfg cap P s' := by
  rw [step] at hstep
  split at hstep
  · next ringOldest ringNext cursor events stopped hphase =>
    obtain ⟨-, rfl⟩ := Runs.of_guard hstep
    have hp := h.phase
    simp only [PhaseInv, hphase] at hp
    obtain ⟨hemit, hcur, -, htiled, hreach, -⟩ := hp
    have hmode : ∀ e ∈ [Event.modeChanged s.inner.modes.mode s.inner.modes.integration],
        isTile e = false := by
      intro e he
      rw [mem_singleton.mp he]
      rfl
    refine ⟨h.ring, ?_⟩
    simp only [PhaseInv, hemit, nil_append, tiled_append, after_append,
      (tiled_of_not_isTile (P := P) hmode _).2]
    rw [tiled_append] at htiled
    rw [after_append] at hreach
    exact ⟨hcur, ⟨⟨htiled.1, (tiled_of_not_isTile hmode _).1⟩, htiled.2⟩, hreach⟩
  · cases hstep

/-! ### The live loop -/

theorem Inv.subscribe (h : Inv cfg cap P s) (hstep : step cfg s .subscribe = some s') :
    Inv cfg cap P s' := by
  rw [step] at hstep
  split at hstep
  · next ringOldest replayEnd hphase =>
    obtain ⟨sh, hsub, rfl⟩ := map_eq_some_iff.mp hstep
    have hp := h.phase
    simp only [PhaseInv, hphase] at hp
    obtain ⟨hend, htiled, hreach⟩ := hp
    have hring := Holder.refines_step h.ring hsub
    simp only [Holder.Act.output, append_nil] at hring
    have hinv := Holder.inv_subscribe h.ring hsub
    obtain ⟨sub, hk, -⟩ := hinv.sub
    refine ⟨hring, ?_⟩
    simp only [PhaseInv]
    refine ⟨htiled, _, _, hinv, ?_, sub, hk, Nat.zero_le _, .inl ⟨rfl, hreach, rfl⟩⟩
    split_ifs with hlt
    · exact .inr ⟨rfl, by omega⟩
    · exact .inl ⟨rfl, by omega⟩
  · cases hstep

/-- The next frame of a subscription is the notice, if there is one and nothing was received yet,
or it continues the stream where the events have reached. -/
theorem Received.next (h : Received P t lead start replayEnd liveCursor received)
    (hlead : lead = [] ∧ start = replayEnd ∨ lead = [.truncated start] ∧ replayEnd ≤ start)
    (hcarry : Holder.Carries P start rest stop) (hpre : received ++ [frame] <+: lead ++ rest) :
    (received = [] ∧ lead = [.truncated start] ∧ frame = .truncated start ∧
      t.Reaches replayEnd ∧ liveCursor ≤ start) ∨
    ∃ rest₀ m m', received = lead ++ rest₀ ∧ Holder.Carries P start rest₀ m ∧ t.Reaches m ∧
      liveCursor ≤ m ∧ Holder.Carries P m [frame] m' := by
  have hcont : ∀ rest₀ m, received = lead ++ rest₀ → Holder.Carries P start rest₀ m →
      ∃ m', Holder.Carries P m [frame] m' := by
    intro rest₀ m heq hrest₀
    rw [heq, append_assoc] at hpre
    obtain ⟨tail, htail⟩ := (prefix_append_right_inj lead).mp hpre
    rw [← htail, append_assoc] at hcarry
    obtain ⟨m₀, hm₀, hafter⟩ := hcarry.split
    obtain ⟨m', hframe, -⟩ := hafter.split
    rw [hm₀.unique hrest₀] at hframe
    exact ⟨m', hframe⟩
  rcases h with ⟨hnil, hreach, hcur⟩ | ⟨rest₀, m, heq, hrest₀, hreach, hcur⟩
  · rcases hlead with ⟨rfl, rfl⟩ | ⟨rfl, hle⟩
    · obtain ⟨m', hframe⟩ := hcont [] start (by simpa using hnil) rfl
      exact .inr ⟨[], start, m', by simpa using hnil, rfl, hreach, hcur.le, hframe⟩
    · left
      subst hnil
      obtain ⟨tail, htail⟩ := hpre
      rw [nil_append, singleton_append, singleton_append] at htail
      exact ⟨rfl, rfl, (cons.inj htail).1, hreach, by omega⟩
  · obtain ⟨m', hframe⟩ := hcont rest₀ m heq hrest₀
    exact .inr ⟨rest₀, m, m', heq, hrest₀, hreach, hcur, hframe⟩

/-- **A frame that continues the stream**: an output is clipped against nothing and becomes an
output event, an exit notice leaves the tiling alone. -/
theorem tiled_handlePush (s : Sys V T) (k seen replayEnd : ℕ) (deadline : Bool)
    (hframe : Holder.Carries P m [frame] m') (hreach : t.Reaches m) (hcur : liveCursor ≤ m) :
    ∃ inner out cursor deadline',
      handlePush s k seen replayEnd liveCursor deadline frame =
        { s with
          inner := inner
          phase := .live k (seen + 1) replayEnd cursor deadline'
          emitted := s.emitted ++ out } ∧
      Tiled P t out ∧ (after t out).Reaches m' ∧ cursor ≤ m' := by
  cases frame with
  | output offset bytes =>
    obtain ⟨rfl, hne, hbytes, rfl⟩ := hframe
    have hpos := length_pos_iff.mpr hne
    have hclip : clipBeforeCursor liveCursor offset bytes.length = some (offset, 0) := by
      rw [clipBeforeCursor, if_neg (by omega), show liveCursor - offset = 0 by omega]
      rfl
    have hchunk := tiled_processChunk s.inner true true hreach hreach.1 (Nat.zero_le _)
      (Nat.le_max_left _ _) hbytes
    refine ⟨_, _, _, _, by simp only [handlePush, hclip, drop_zero]; rfl, hchunk.1,
      hchunk.2.1, Nat.le_refl _⟩
  | childExited exitCode signal =>
    cases hframe
    exact ⟨_, _, _, _, rfl, ⟨trivial, trivial⟩, hreach, hcur⟩
  | _ => exact hframe.elim

theorem Inv.recv (h : Inv cfg cap P s) (hstep : step cfg s .recv = some s') : Inv cfg cap P s' := by
  rw [step] at hstep
  split at hstep
  · next k seen replayEnd liveCursor deadline hphase =>
    obtain ⟨frame, hframe, rfl⟩ := map_eq_some_iff.mp hstep
    have hp := h.phase
    simp only [PhaseInv, hphase] at hp
    obtain ⟨htiled, lead, start, hinv, hlead, sub, hk, -, hrecv⟩ := hp
    rw [hk, bind_some] at hframe
    obtain ⟨hlt, hget⟩ := List.getElem?_eq_some_iff.mp hframe
    have htake : sub.sent.take (seen + 1) = sub.sent.take seen ++ [frame] := by
      rw [take_add_one, hframe]
      rfl
    obtain ⟨sub', hk', rest, stop, hcarry, -, hpre, -⟩ := hinv.sub
    obtain rfl : sub = sub' := some.inj (hk.symm.trans hk')
    have hnext := hrecv.next hlead hcarry (htake ▸ ( take_prefix _ _).trans hpre)
    rcases hnext with ⟨hnil, rfl, rfl, hreach, hcur⟩ | ⟨rest₀, m, m', heq, hrest₀, hreach, hcur,
      hcont⟩
    · -- the notice: a gap from the replay's end to where the frames will start
      refine ⟨h.ring, ?_⟩
      simp only [PhaseInv, handlePush, tiled_append, after_append]
      refine ⟨⟨htiled, trivial, trivial⟩, _, start, hinv, hlead, sub, hk, hlt,
        .inr ⟨[], start, by rw [htake, hnil]; rfl, rfl, ⟨?_, ?_⟩, hcur⟩⟩
      · have := hreach.1
        rcases hlead with ⟨hnil, -⟩ | ⟨-, hle⟩
        · cases hnil
        · exact this.trans hle
      · intro o hpos hlt'
        by_cases ho : o < replayEnd
        · obtain ⟨gap, hgap, hin⟩ := hreach.2 o hpos ho
          exact ⟨gap, mem_append_left _ hgap, hin⟩
        · exact ⟨(replayEnd, start), mem_append_right _ mem_cons_self, by omega, hlt'⟩
    · obtain ⟨inner, out, cursor, deadline', hpush, htiled', hreach', hcur'⟩ :=
        tiled_handlePush s k seen replayEnd deadline hcont hreach hcur
      rw [hpush]
      refine ⟨h.ring, ?_⟩
      simp only [PhaseInv, tiled_append, after_append]
      refine ⟨⟨htiled, htiled'⟩, lead, start, hinv, hlead, sub, hk, hlt,
        .inr ⟨rest₀ ++ [frame], m', ?_, hrest₀.append hcont, hreach', hcur'⟩⟩
      rw [htake, heq, append_assoc]
  · cases hstep

omit [Parser V] in
theorem not_isTile_quietPoint (cfg : Config) (inner : Session.Inner V T) :
    ∀ e ∈ (quietPoint cfg inner).2, isTile e = false := by
  intro e he
  rw [quietPoint] at he
  split_ifs at he
  · simp only [mem_append] at he
    rcases he with he | he
    · obtain ⟨mode, integration, rfl⟩ := mem_modeEvents he
      rfl
    · split_ifs at he
      · rw [mem_singleton.mp he]
        rfl
      · cases he
  · cases he

theorem Inv.armSettle (h : Inv cfg cap P s) (hstep : Attach.step cfg s .armSettle = some s') :
    Inv cfg cap P s' := by
  rw [Attach.step] at hstep
  split at hstep
  · next k seen replayEnd liveCursor deadline hphase =>
    cases hstep
    have hp := h.phase
    simp only [PhaseInv, hphase] at hp
    exact ⟨h.ring, hp⟩
  · cases hstep

theorem Inv.quiet (h : Inv cfg cap P s) (hstep : Attach.step cfg s .quiet = some s') :
    Inv cfg cap P s' := by
  rw [Attach.step] at hstep
  split at hstep
  · next k seen replayEnd liveCursor hphase =>
    have hs' : s' =
        { s with
          inner := (quietPoint cfg s.inner).1
          phase := .live k seen replayEnd liveCursor false
          emitted := s.emitted ++ (quietPoint cfg s.inner).2 } := (some.inj hstep).symm
    rw [hs']
    have hp := h.phase
    simp only [PhaseInv, hphase] at hp
    obtain ⟨htiled, lead, start, hinv, hlead, sub, hk, hseen, hrecv⟩ := hp
    obtain ⟨htiled', hafter⟩ := tiled_of_not_isTile (P := P) (not_isTile_quietPoint cfg s.inner)
      (after cfg.tile s.emitted)
    refine ⟨h.ring, ?_⟩
    simp only [PhaseInv, tiled_append, after_append, hafter]
    exact ⟨⟨htiled, htiled'⟩, lead, start, hinv, hlead, sub, hk, hseen, hrecv⟩
  · cases hstep

omit [Parser V] [Terminal T] in
/-- In every phase, what was sent to the consumer tiles the stream. -/
theorem Inv.tiled (h : Inv cfg cap P s) : Tiled P cfg.tile s.emitted := by
  have hp := h.phase
  rw [PhaseInv] at hp
  split at hp
  · rw [hp]
    trivial
  · rw [hp.1]
    trivial
  · exact hp.2.1
  · exact hp.1
  · exact hp

theorem Inv.close (h : Inv cfg cap P s) (hstep : Attach.step cfg s .close = some s') :
    Inv cfg cap P s' := by
  rw [Attach.step] at hstep
  split at hstep
  · cases hstep
  · cases hstep
    exact ⟨h.ring, h.tiled⟩

/-- **One step.** Every action keeps the invariant, a request of the replay loop under
`ReplayKept`. -/
theorem Inv.step (h : Inv cfg cap P s) (hok : ReplayKept cfg s act)
    (hstep : Attach.step cfg s act = some s') : Inv cfg cap (P ++ act.output) s' := by
  cases act with
  | holder act =>
    obtain ⟨sh, hsh, rfl⟩ := map_eq_some_iff.mp hstep
    exact h.holder hsh
  | stat => exact (append_nil P).symm ▸ h.stat hstep
  | ringRead => exact (append_nil P).symm ▸ h.ringRead hok hstep
  | finishReplay => exact (append_nil P).symm ▸ h.finishReplay hstep
  | subscribe => exact (append_nil P).symm ▸ h.subscribe hstep
  | recv => exact (append_nil P).symm ▸ h.recv hstep
  | armSettle => exact (append_nil P).symm ▸ h.armSettle hstep
  | quiet => exact (append_nil P).symm ▸ h.quiet hstep
  | close => exact (append_nil P).symm ▸ h.close hstep

/-! ### The whole run -/

/-- **The events of an attachment tile the stream** from the resume offset on, in every run in
which no reply of the replay loop starts past both the cursor and the resume offset. -/
theorem tiled_of_replayKept (cfg : Config) (cap cols rows : ℕ) (childPid : ℤ) (acts : List Act)
    {s : Sys V T}
    (hok : Runs.Along (step cfg) (ReplayKept cfg) acts
      (init (Holder.init cap cols rows childPid) : Sys V T))
    (hrun : Runs.run (step cfg) acts (init (Holder.init cap cols rows childPid)) = some s) :
    Tiled (produced acts) cfg.tile s.emitted := by
  have hinit : Inv cfg cap [] (init (Holder.init cap cols rows childPid) : Sys V T) :=
    ⟨refines_open_nil cap, rfl⟩
  have hinv : Inv cfg cap ([] ++ acts.flatMap Act.output) s :=
    Runs.invariant_history_along (fun P s a s' h hok hs => h.step hok hs) hok hrun hinit
  exact hinv.tiled

end

/-- Resume at 0, nothing is a REPL. -/
def fromZero : Config :=
  { resumeFrom := 0, scrollbackLines := 0, quietMs := 100, isRepl := fun _ => none }

set_option maxRecDepth 8192 in
/-- An attachment to a ring of four that has already lost two of six bytes: a gap, then the four
bytes the ring kept, then a live one. -/
theorem tiled_of_replayKept_four :
    ∃ s : Sys EscState PlainTerm,
      Runs.run (step fromZero)
          [.holder (.ptyRead [65, 66, 67, 68]), .holder (.ptyRead [69, 70]), .stat, .ringRead,
            .finishReplay, .subscribe, .holder (.ptyRead [71]), .holder (.recv 0),
            .holder (.writeFrame 0), .recv]
          (init (Holder.init 4 2 2 7)) = some s ∧
        s.emitted = [.outputGap 0 2, .modeChanged .unknown .none, .output 2 [67, 68, 69, 70],
          .output 6 [71]] ∧
        Tiled [65, 66, 67, 68, 69, 70, 71] fromZero.tile s.emitted := by
  refine ⟨_, rfl, rfl, tiled_of_replayKept fromZero 4 2 2 7
    [.holder (.ptyRead [65, 66, 67, 68]), .holder (.ptyRead [69, 70]), .stat, .ringRead,
      .finishReplay, .subscribe, .holder (.ptyRead [71]), .holder (.recv 0),
      .holder (.writeFrame 0), .recv] (by decide) rfl⟩

set_option maxRecDepth 8192 in
/-- The ring evicts two bytes between `Stat` and the only request of the replay: they are in no
output and in no gap. -/
theorem not_tiled_evicted_in_replay :
    ∃ s : Sys EscState PlainTerm,
      Runs.run (step fromZero)
          [.holder (.ptyRead [65, 66, 67, 68]), .stat, .holder (.ptyRead [69, 70]), .ringRead,
            .finishReplay] (init (Holder.init 4 2 2 7)) = some s ∧
        s.emitted = [.modeChanged .unknown .none, .output 2 [67, 68]] ∧
        ¬ Tiled [65, 66, 67, 68, 69, 70] fromZero.tile s.emitted := by
  refine ⟨_, rfl, rfl, ?_⟩
  rintro ⟨-, ⟨-, -, hcov⟩, -⟩
  obtain ⟨gap, hgap, -⟩ := hcov 0 (Nat.le_refl 0) (by decide)
  cases hgap

end Bud.Attach
