import Bud.Stem.Attach
import Bud.Stem.HolderStream
import Bud.Stem.RingFaults
import Mathlib.Data.List.Chain

/-!
# The pump when the ring's writes fail

`pty_pump` takes the offset of a chunk from the ring, appends the chunk, logs an error if that
fails, and pushes the chunk to every subscriber either way. The ring's counters advance only once
the chunk's data is in the file, so an append that fails in its data leaves `nextOffset` where it
was and the next chunk is pushed at the same offset.

Two components downstream `clip_before_cursor` reads offsets as identity: a push that ends at or
below the cursor has been parsed already. A reused offset is dropped there, with fresh bytes.

The holder's actions are those of `Holder.step`. An action carries the number of bytes that reach
the ring file if it is a read of the PTY (`RingFile.appendUpTo`); the other actions do not write.
-/

namespace Bud.Holder

open Bud.Ipc Bud.Ring List

/-! ### The holder -/

/-- The holder together with the live frames it has broadcast, in order. -/
structure Pumped where
  shared : Shared
  broadcast : List HolderMsg

/-- One action, and the bytes that reach the ring file if it is a read of the PTY. -/
def stepUpTo (s : Pumped) : Act × ℕ → Option Pumped
  | (.ptyRead bytes, budget) =>
    if s.shared.pumping = true ∧ bytes ≠ [] ∧ bytes.length ≤ pumpBuf then
      let offset := s.shared.ring.nextOffset
      -- an error is only logged
      let ring := (s.shared.ring.appendUpTo bytes budget).1
      some
        { shared := { s.shared with
            ring := ring
            subscribers := s.shared.subscribers.map (.send (.output offset bytes)) }
          broadcast := s.broadcast ++ (SubEvent.output offset bytes).frames }
    else none
  | (act, _) => (step s.shared act).map fun shared => { s with shared := shared }

/-- The reads of the PTY among the actions. -/
def reads : List (Act × ℕ) → List (List UInt8 × ℕ)
  | [] => []
  | (.ptyRead bytes, budget) :: acts => (bytes, budget) :: reads acts
  | _ :: acts => reads acts

/-- The chunk's data is in the file: if the append fails, it fails in the header. -/
def Covered (cap : ℕ) (read : List UInt8 × ℕ) : Prop := min read.1.length cap ≤ read.2

instance (cap : ℕ) (read : List UInt8 × ℕ) : Decidable (Covered cap read) :=
  inferInstanceAs (Decidable (_ ≤ _))

/-- What is pushed for `reads` when the next offset is `next`. -/
def pushes (cap : ℕ) : ℕ → List (List UInt8 × ℕ) → List (ℕ × List UInt8)
  | _, [] => []
  | next, read :: reads =>
    (next, read.1) :: pushes cap (if Covered cap read then next + read.1.length else next) reads

def frame (push : ℕ × List UInt8) : HolderMsg := .output push.1 push.2

/-! ### The session -/

/-- The bytes the live loop parses out of `frames` from `cursor` on: each push is clipped against
the cursor, and the cursor moves to the end of what was left of it. -/
def applied : ℕ → List HolderMsg → List UInt8
  | _, [] => []
  | cursor, .output offset bytes :: frames =>
    match Attach.clipBeforeCursor cursor offset bytes.length with
    | none => applied cursor frames
    | some (offset, skip) =>
      bytes.drop skip ++ applied (offset + (bytes.drop skip).length) frames
  | cursor, _ :: frames => applied cursor frames

/-- The bytes a frame carries. -/
def payload : HolderMsg → List UInt8
  | .output _ bytes => bytes
  | _ => []

/-! ### Contiguous, disjoint and lossless broadcasts -/

/-- The second frame starts where the first ends. -/
def Follows : HolderMsg → HolderMsg → Prop
  | .output offset bytes, .output offset' _ => offset' = offset + bytes.length
  | _, _ => False

/-- The ranges of the two frames have no byte in common. -/
def Apart : HolderMsg → HolderMsg → Prop
  | .output offset bytes, .output offset' bytes' =>
    offset + bytes.length ≤ offset' ∨ offset' + bytes'.length ≤ offset
  | _, _ => False

/-- A session that receives the broadcast from some frame on, with its cursor no further than that
frame, parses every byte of it. -/
def Lossless (broadcast : List HolderMsg) : Prop :=
  ∀ past offset bytes frames, broadcast = past ++ .output offset bytes :: frames →
    ∀ cursor ≤ offset,
      applied cursor (.output offset bytes :: frames)
        = (HolderMsg.output offset bytes :: frames).flatMap payload

/-! ### A run broadcasts its pushes -/

theorem frames_output (hne : bytes ≠ []) (hle : bytes.length ≤ pumpBuf) :
    (SubEvent.output offset bytes).frames = [.output offset bytes] := by
  have hchunk : pumpBuf ≤ outputChunk := by decide
  rw [SubEvent.frames, writeOutputChunks, Chunks.chunks_of_length_le hne (by omega)]
  rfl

/-- The ring's file is a header and a full data region, whatever they hold. -/
def RingSized (cap : ℕ) (s : Pumped) : Prop :=
  s.shared.ring.cap = cap ∧ s.shared.ring.file.length = headerLen + cap

variable {cap : ℕ}

/-- A read of the PTY is pushed at the ring's offset, which moves only if the data is written. -/
theorem stepUpTo_ptyRead (hs : RingSized cap s)
    (h : stepUpTo s (.ptyRead bytes, budget) = some s') : RingSized cap s' ∧ bytes ≠ [] ∧
      s'.broadcast = s.broadcast ++ [frame (s.shared.ring.nextOffset, bytes)] ∧
      s'.shared.ring.nextOffset =
        if Covered cap (bytes, budget) then s.shared.ring.nextOffset + bytes.length
        else s.shared.ring.nextOffset := by
  obtain ⟨hcap, hlen⟩ := hs
  obtain ⟨hcap', hlen', hnext'⟩ := appendUpTo_frame (hcap ▸ hlen) bytes budget
  obtain ⟨hguard, rfl⟩ := Runs.of_guard h
  refine ⟨⟨hcap'.trans hcap, hlen'.trans (by rw [hcap])⟩, hguard.2.1, ?_, ?_⟩
  · rw [frames_output hguard.2.1 hguard.2.2, frame]
  · rw [← hcap]
    exact hnext'

theorem stepUpTo_other (hact : ∀ bytes, act ≠ .ptyRead bytes) (hs : RingSized cap s)
    (h : stepUpTo s (act, budget) = some s') : RingSized cap s' ∧ s'.broadcast = s.broadcast ∧
      s'.shared.ring.nextOffset = s.shared.ring.nextOffset := by
  have hstep : (step s.shared act).map (fun shared => { s with shared := shared }) = some s' := by
    rw [← h]
    cases act with
    | ptyRead bytes => exact absurd rfl (hact bytes)
    | _ => rfl
  obtain ⟨shared, hshared, rfl⟩ := Option.map_eq_some_iff.mp hstep
  rcases step_ring hshared with ⟨bytes, rfl, -⟩ | ⟨-, hring⟩
  · exact absurd rfl (hact bytes)
  · refine ⟨?_, rfl, by rw [hring]⟩
    rw [RingSized, hring]
    exact hs

/-- **A run broadcasts its pushes.** -/
theorem broadcast_run : ∀ (acts : List (Act × ℕ)) {s s' : Pumped}, RingSized cap s →
    Runs.run stepUpTo acts s = some s' →
    s'.broadcast = s.broadcast ++ (pushes cap s.shared.ring.nextOffset (reads acts)).map frame ∧
      ∀ read ∈ reads acts, read.1 ≠ [] := by
  intro acts
  induction acts with
  | nil =>
    intro s s' _ h
    cases h
    simp [reads, pushes]
  | cons act acts ih =>
    intro s s' hs h
    obtain ⟨t, ht, hrun⟩ := Runs.run_cons_eq_some.mp h
    obtain ⟨act, budget⟩ := act
    by_cases hread : ∃ bytes, act = .ptyRead bytes
    · obtain ⟨bytes, rfl⟩ := hread
      obtain ⟨hsized, hne, hbroad, hnext⟩ := stepUpTo_ptyRead hs ht
      obtain ⟨hrest, hreads⟩ := ih hsized hrun
      refine ⟨?_, forall_mem_cons.mpr ⟨hne, hreads⟩⟩
      rw [hrest, hbroad, hnext, reads, pushes, map_cons, append_assoc, singleton_append]
    · have hact : ∀ bytes, act ≠ .ptyRead bytes := fun bytes h => hread ⟨bytes, h⟩
      obtain ⟨hsized, hbroad, hnext⟩ := stepUpTo_other hact hs ht
      have hreads : reads ((act, budget) :: acts) = reads acts := by
        cases act with
        | ptyRead bytes => exact absurd rfl (hact bytes)
        | _ => rfl
      rw [hreads, ← hbroad, ← hnext]
      exact ih hsized hrun

/-! ### Pushes that follow each other -/

theorem isChain_pushes_iff : ∀ (reads : List (List UInt8 × ℕ)) (next : ℕ),
    (∀ read ∈ reads, read.1 ≠ []) →
    (((pushes cap next reads).map frame).IsChain Follows ↔
      ∀ read ∈ reads.dropLast, Covered cap read) := by
  intro reads
  induction reads with
  | nil => simp [pushes]
  | cons read reads ih =>
    intro next hne
    obtain ⟨hread, hreads⟩ := forall_mem_cons.mp hne
    rcases reads with _ | ⟨read', reads⟩
    · simp [pushes]
    · have hpos := length_pos_iff.mpr hread
      have hfollows : Follows (frame (next, read.1))
          (frame (if Covered cap read then next + read.1.length else next, read'.1)) ↔
          Covered cap read := by
        by_cases hc : Covered cap read
        · simp [Follows, frame, hc]
        · rw [if_neg hc]
          simp only [Follows, frame, hc, iff_false]
          omega
      rw [pushes, pushes, map_cons, map_cons, isChain_cons_cons, hfollows,
        dropLast_cons_cons, forall_mem_cons]
      refine and_congr_right fun _ => ?_
      exact ih _ hreads

theorem pairwise_apart_of_isChain {ps : List (ℕ × List UInt8)}
    (h : (ps.map frame).IsChain Follows) : (ps.map frame).Pairwise Apart := by
  rw [isChain_map] at h
  rw [pairwise_map]
  have htrans : IsTrans (ℕ × List UInt8) fun p q => p.1 + p.2.length ≤ q.1 :=
    ⟨fun p q r hpq hqr => by omega⟩
  have hle : ps.IsChain fun p q => p.1 + p.2.length ≤ q.1 :=
    h.imp fun p q hpq => Nat.le_of_eq hpq.symm
  exact (isChain_iff_pairwise.mp hle).imp fun hpq => Or.inl hpq

/-- A session that starts at or before the first of them parses them whole. -/
theorem applied_of_isChain : ∀ (ps : List (ℕ × List UInt8)) {cursor : ℕ},
    (ps.map frame).IsChain Follows → (∀ p ∈ ps, p.2 ≠ []) → (∀ p ∈ ps.head?, cursor ≤ p.1) →
    applied cursor (ps.map frame) = (ps.map frame).flatMap payload := by
  intro ps
  induction ps with
  | nil => intro cursor _ _ _; rfl
  | cons p ps ih =>
    intro cursor h hne hcursor
    obtain ⟨offset, bytes⟩ := p
    obtain ⟨hbytes, hrest⟩ := forall_mem_cons.mp hne
    have hpos : 0 < bytes.length := length_pos_iff.mpr hbytes
    have hle : cursor ≤ offset := hcursor (offset, bytes) rfl
    have hclip : Attach.clipBeforeCursor cursor offset bytes.length = some (offset, 0) := by
      rw [Attach.clipBeforeCursor, if_neg (by omega), show cursor - offset = 0 by omega]
      rfl
    have htail : (ps.map frame).IsChain Follows := h.tail
    have hhead : ∀ p ∈ ps.head?, offset + bytes.length ≤ p.1 := by
      rcases ps with _ | ⟨q, ps⟩
      · simp
      · rintro p ⟨⟩
        exact Nat.le_of_eq (isChain_cons_cons.mp h).1.symm
    rw [map_cons, flatMap_cons, ← ih htail hrest hhead, frame, applied, hclip]
    rfl

theorem ne_nil_of_mem_pushes : ∀ (reads : List (List UInt8 × ℕ)) {next : ℕ},
    (∀ read ∈ reads, read.1 ≠ []) → ∀ p ∈ pushes cap next reads, p.2 ≠ [] := by
  intro reads
  induction reads with
  | nil => simp [pushes]
  | cons read reads ih =>
    intro next hne
    obtain ⟨hread, hreads⟩ := forall_mem_cons.mp hne
    exact forall_mem_cons.mpr ⟨hread, ih hreads⟩

theorem lossless_of_isChain {ps : List (ℕ × List UInt8)} (h : (ps.map frame).IsChain Follows)
    (hne : ∀ p ∈ ps, p.2 ≠ []) : Lossless (ps.map frame) := by
  intro past offset bytes frames heq cursor hcursor
  obtain ⟨ps₁, ps₂, rfl, -, hps₂⟩ := map_eq_append_iff.mp heq
  rw [map_append] at h
  rw [← hps₂]
  refine applied_of_isChain ps₂ h.right_of_append (fun p hp => hne p (mem_append_right _ hp)) ?_
  obtain ⟨p, ps, rfl, hp, -⟩ := map_eq_cons_iff.mp hps₂
  rintro q ⟨⟩
  cases hp
  exact hcursor

/-- **When live offsets are not reused.** For every run of the holder in which each read of the PTY
writes as many bytes to the ring file as its budget allows: the frames broadcast follow each
other, have disjoint ranges and lose nothing to a session's clipping, if and only if every append
but the last got as far as the header. -/
theorem broadcast_contiguous_iff {cap cols rows : ℕ} {childPid : ℤ} {acts : List (Act × ℕ)}
    {s : Pumped}
    (h : Runs.run stepUpTo acts { shared := init cap cols rows childPid, broadcast := [] }
      = some s) :
    (s.broadcast.IsChain Follows ∧ s.broadcast.Pairwise Apart ∧ Lossless s.broadcast) ↔
      ∀ read ∈ (reads acts).dropLast, Covered cap read := by
  have hopen := refines_open_nil cap
  have hsized : RingSized cap { shared := init cap cols rows childPid, broadcast := [] } :=
    ⟨hopen.cap_eq, hopen.length_file.trans (congrArg _ hopen.cap_eq)⟩
  obtain ⟨hbroad, hne⟩ := broadcast_run acts hsized h
  rw [nil_append] at hbroad
  rw [hbroad, ← isChain_pushes_iff (reads acts) _ hne]
  constructor
  · rintro ⟨hchain, -, -⟩
    exact hchain
  · intro hchain
    exact ⟨hchain, pairwise_apart_of_isChain hchain,
      lossless_of_isChain hchain (ne_nil_of_mem_pushes _ hne)⟩

/-- Two reads into a ring of four whose first header rewrite fails: the second push follows. -/
theorem broadcast_contiguous_headerFails :
    ∃ s, Runs.run stepUpTo [(.ptyRead [1, 2], 5), (.ptyRead [3, 4], 99)]
        { shared := init 4 80 24 7, broadcast := [] } = some s ∧
      s.broadcast = [.output 0 [1, 2], .output 2 [3, 4]] ∧ Lossless s.broadcast := by
  obtain ⟨s, hs, hv⟩ := Option.map_eq_some_iff.mp
    (show (Runs.run stepUpTo [(.ptyRead [1, 2], 5), (.ptyRead [3, 4], 99)]
        { shared := init 4 80 24 7, broadcast := [] }).map Pumped.broadcast
        = some [.output 0 [1, 2], .output 2 [3, 4]] by decide)
  exact ⟨s, hs, hv, ((broadcast_contiguous_iff hs).mpr (by decide)).2.2⟩

/-- Two reads into a ring of four whose first append fails at its first byte: both are pushed at
offset `0`, and a session that parsed the first drops the second. -/
theorem broadcast_reuses_offset :
    ∃ s, Runs.run stepUpTo [(.ptyRead [1, 2], 0), (.ptyRead [3, 4], 99)]
        { shared := init 4 80 24 7, broadcast := [] } = some s ∧
      s.broadcast = [.output 0 [1, 2], .output 0 [3, 4]] ∧
      ¬ s.broadcast.IsChain Follows ∧ ¬ s.broadcast.Pairwise Apart ∧
      applied 0 s.broadcast = [1, 2] := by
  obtain ⟨s, hs, hv⟩ := Option.map_eq_some_iff.mp
    (show (Runs.run stepUpTo [(.ptyRead [1, 2], 0), (.ptyRead [3, 4], 99)]
        { shared := init 4 80 24 7, broadcast := [] }).map Pumped.broadcast
        = some [.output 0 [1, 2], .output 0 [3, 4]] by decide)
  refine ⟨s, hs, hv, ?_, ?_, ?_⟩
  · rw [hv, isChain_cons_cons]
    rintro ⟨hfollows, -⟩
    simp [Follows] at hfollows
  · rw [hv, pairwise_cons]
    rintro ⟨happart, -⟩
    have := happart (.output 0 [3, 4]) (by simp)
    simp [Apart] at this
  · rw [hv]
    decide

end Bud.Holder
