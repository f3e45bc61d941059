import Bud.Browser.StreamRelay
import Bud.Lib.Runs
import Mathlib.Algebra.Order.BigOperators.Group.List
import Mathlib.Algebra.Order.Group.Nat
import Mathlib.Data.List.Nodup
import Mathlib.Data.List.Pairwise

/-!
# What the relay keeps

The invariant of the private stream relay. Its heart is the order of the frames: those sent to the
viewer, the one that `drain` has in hand and the pending one have increasing sequences, and the last
two are outstanding and not forwarded, so that no feedback can retire them. Each sequence is at most
once among the outstanding and the retired, and every accepted one is there until the relay closes.
-/

namespace Bud.Browser

open List Option

/-! ### Packets -/

theorem parseStreamPacket_eq_ok :
    parseStreamPacket raw = .ok header ↔
      (9 ≤ raw.length ∧ raw.length ≤ 1024 * 1024 + 4104 ∧ raw.magic = true) ∧
        (2 ≤ raw.headerLength ∧ raw.headerLength ≤ 4096 ∧ 8 + raw.headerLength < raw.length) ∧
          raw.header = some header ∧ streamHeader header = true ∧
            header.imageBytes = raw.length - 8 - raw.headerLength ∧
              header.bitmapWidth * header.bitmapHeight ≤ 4000000 := by
  constructor
  · intro h
    rw [parseStreamPacket] at h
    split at h
    · cases h
    · next hbounds =>
      split at h
      · cases h
      · next hlength =>
        split at h
        · cases h
        · next found hfound =>
          split at h
          · cases h
          · next hvalid =>
            split at h
            · cases h
            · next himage =>
              obtain rfl : found = header := Except.ok.inj h
              simp only [Bool.or_eq_true, decide_eq_true_eq, Bool.not_eq_true', not_or, not_lt,
                Bool.not_eq_false, not_not, ge_iff_le, not_le] at hbounds hlength himage hvalid
              exact ⟨⟨hbounds.1.1, hbounds.1.2, hbounds.2⟩, ⟨hlength.1.1, hlength.1.2, hlength.2⟩,
                hfound, hvalid, himage⟩
  · rintro ⟨⟨hmin, hmax, hmagic⟩, ⟨hlow, hhigh, hinside⟩, hheader, hvalid, hbytes, harea⟩
    have hbounds : (raw.length < 9 || raw.length > 1024 * 1024 + 4104 || !raw.magic) = false := by
      rw [hmagic, Bool.or_eq_false_iff, Bool.or_eq_false_iff]
      exact ⟨⟨decide_eq_false (by omega), decide_eq_false (by omega)⟩, rfl⟩
    have hlength : (raw.headerLength < 2 || raw.headerLength > 4096 ||
        8 + raw.headerLength ≥ raw.length) = false := by
      rw [Bool.or_eq_false_iff, Bool.or_eq_false_iff]
      exact ⟨⟨decide_eq_false (by omega), decide_eq_false (by omega)⟩, decide_eq_false (by omega)⟩
    have himage : (header.imageBytes ≠ raw.length - 8 - raw.headerLength ||
        header.bitmapWidth * header.bitmapHeight > 4000000) = false := by
      rw [Bool.or_eq_false_iff]
      exact ⟨decide_eq_false (not_not.mpr hbytes), decide_eq_false (by omega)⟩
    rw [parseStreamPacket, hbounds, hlength, hheader]
    dsimp only
    rw [hvalid, himage]
    rfl

/-! ### What has been sent -/

def Sent.frame? : Sent → Option Frame
  | .frame f _ => some f
  | .reset _ _ => none

def Sent.reset? : Sent → Option Reset
  | .reset r _ => some r
  | .frame _ _ => none

/-- The number that the next authorisation had when the message arrived. -/
def Sent.arrived : Sent → ℕ
  | .frame f _ => f.arrived
  | .reset r _ => r.arrived

/-- The number of the authorisation that the message was sent on. -/
def Sent.check : Sent → ℕ
  | .frame _ check | .reset _ check => check

/-- The generation of the last reset, `generation` if there is none. -/
def lastGeneration (generation : Option Text) : List Sent → Option Text
  | [] => generation
  | .reset reset _ :: sent => lastGeneration (some reset.generation) sent
  | .frame .. :: sent => lastGeneration generation sent

/-- Every frame has the generation of the last reset before it. -/
def Fed (generation : Option Text) : List Sent → Prop
  | [] => True
  | .reset reset _ :: sent => Fed (some reset.generation) sent
  | .frame frame _ :: sent => generation = some frame.generation ∧ Fed generation sent

theorem lastGeneration_append (generation : Option Text) (l l' : List Sent) :
    lastGeneration generation (l ++ l') = lastGeneration (lastGeneration generation l) l' := by
  induction l generalizing generation with
  | nil => rfl
  | cons m l ih =>
    cases m with
    | reset reset check | frame frame check => exact ih _

theorem fed_append {generation : Option Text} :
    Fed generation (l ++ l') ↔ Fed generation l ∧ Fed (lastGeneration generation l) l' := by
  induction l generalizing generation with
  | nil => exact (true_and _).symm ▸ Iff.rfl
  | cons m l ih =>
    cases m with
    | reset reset check => exact ih
    | frame frame check => exact (and_congr_right fun _ => ih).trans and_assoc.symm

/-! ### The invariant -/

def Drain.frame? : Drain → Option Frame
  | .idle => none
  | .waiting frame _ | .authorizing frame _ => some frame

def Relay.inHand (s : Relay) : List Frame := s.drain.frame?.toList ++ s.pending.toList

def Relay.forwarded (s : Relay) : List Frame := s.viewer.filterMap Sent.frame?

def Relay.sequences (s : Relay) : List ℕ :=
  s.retired.map (fun r => r.ack.frameSequence) ++ s.outstanding.map Outstanding.sequence

/-- What `frame` has read in the packet. -/
def Frame.Parsed (frame : Frame) : Prop :=
  ∃ header, parseStreamPacket frame.raw = .ok header ∧
    header.mediaGeneration = frame.generation ∧ header.frameSequence = frame.sequence

def Reset.Parsed (reset : Reset) : Prop :=
  reset.value.valid = true ∧ reset.value.mediaGeneration = reset.generation

def Relay.Holds (s : Relay) (frame : Frame) : Prop :=
  ∃ item ∈ s.outstanding, item.sequence = frame.sequence ∧ item.generation = frame.generation ∧
    item.forwarded = false

structure RelayInv (s : Relay) : Prop where
  size : s.outstanding.length ≤ 3
  bytes : (s.outstanding.map Outstanding.bytes).sum ≤ 2 * 1024 * 1024
  once : s.sequences.Nodup
  known : ∀ n ∈ s.sequences, n ≤ s.sequence
  accounted : s.closed = false → ∀ frame ∈ s.accepted, frame.sequence ∈ s.sequences
  ordered : (s.forwarded ++ s.inHand).Pairwise fun f g => f.sequence < g.sequence
  queued : ∀ frame ∈ s.forwarded ++ s.inHand, frame.sequence ≤ s.sequence ∧ frame.Parsed
  held : s.closed = false → ∀ frame ∈ s.inHand, s.Holds frame
  shut : s.closed = true → s.outstanding = [] ∧ s.pending = none
  delivered : s.deliveredGeneration = (lastGeneration none s.viewer).getD []
  fed : Fed none s.viewer
  resets : ∀ reset ∈ s.viewer.filterMap Sent.reset?, reset.Parsed
  checked : ∀ m ∈ s.viewer, m.arrived ≤ m.check ∧ (m.check, .allowed) ∈ s.ended
  authorizing : ∀ frame check, s.drain = .authorizing frame check → frame.arrived ≤ check
  arrived : ∀ frame ∈ s.inHand, frame.arrived ≤ s.begun
  resetting : ∀ p ∈ s.resetting, p.1.arrived ≤ p.2 ∧ p.1.Parsed
  pendingReset : ∀ reset ∈ s.pendingReset, reset.arrived ≤ s.begun ∧ reset.Parsed

theorem relayInv_init : RelayInv init where
  size := Nat.zero_le _
  bytes := Nat.zero_le _
  once := nodup_nil
  known := nofun
  accounted := nofun
  ordered := Pairwise.nil
  queued := nofun
  held := nofun
  shut := nofun
  delivered := rfl
  fed := trivial
  resets := nofun
  checked := nofun
  authorizing := nofun
  arrived := nofun
  resetting := nofun
  pendingReset := nofun

/-! ### The hand and the loops -/

variable {s s' : Relay} {check sequence : ℕ} {sockets : Sockets} {generation : Text}
  {disposition : Disposition}

theorem RelayInv.setHand (h : RelayInv s) {drain : Drain} {pending : Option Frame}
    (hsub : (drain.frame?.toList ++ pending.toList).Sublist s.inHand)
    (hcheck : ∀ frame check, drain = .authorizing frame check → frame.arrived ≤ check)
    (hshut : s.closed = true → pending = none) : RelayInv { s with
      drain := drain
      pending := pending } :=
  { h with
    ordered := h.ordered.sublist (hsub.append_left _)
    queued := fun frame hf => h.queued frame ((hsub.append_left _).subset hf)
    held := fun hopen frame hf => h.held hopen frame (hsub.subset hf)
    shut := fun hclosed => ⟨(h.shut hclosed).1, hshut hclosed⟩
    authorizing := hcheck
    arrived := fun frame hf => h.arrived frame (hsub.subset hf) }

theorem RelayInv.setResets (h : RelayInv s) {resetting : Option (Reset × ℕ)}
    {pendingReset : Option Reset} (hbegun : s.begun ≤ begun)
    (hr : ∀ p ∈ resetting, p.1.arrived ≤ p.2 ∧ p.1.Parsed)
    (hp : ∀ reset ∈ pendingReset, reset.arrived ≤ begun ∧ reset.Parsed) : RelayInv { s with
      resetting := resetting
      pendingReset := pendingReset
      resetAt := resetAt
      begun := begun } :=
  { h with
    arrived := fun frame hf => Nat.le_trans (h.arrived frame hf) hbegun
    resetting := hr
    pendingReset := hp }

theorem RelayInv.drainIdle (h : RelayInv s) : RelayInv { s with drain := .idle } :=
  h.setHand (sublist_append_right _ _) nofun fun hclosed => (h.shut hclosed).2

theorem frame?_resume (drain : Drain) (outcome : Awaited) :
    (drain.resume outcome).frame? = drain.frame? := by
  rcases drain with _ | ⟨frame, _ | _ | _⟩ | ⟨frame, check⟩ <;> rfl

theorem authorizing_resume {drain : Drain} {outcome : Awaited}
    (h : drain.resume outcome = .authorizing frame check) : drain = .authorizing frame check := by
  rcases drain with _ | ⟨frame, _ | _ | _⟩ | ⟨frame, check⟩
  all_goals first | exact h | cases h

theorem RelayInv.endResets (h : RelayInv s) (outcome : Awaited) :
    RelayInv (s.endResets outcome) := by
  have hnone : ∀ p ∈ (none : Option (Reset × ℕ)), p.1.arrived ≤ p.2 ∧ p.1.Parsed := nofun
  refine (h.setResets (Nat.le_refl _) hnone h.pendingReset).setHand ?_ ?_ fun hclosed =>
    (h.shut hclosed).2
  · rw [frame?_resume]
    exact Sublist.refl _
  · exact fun frame check hd => h.authorizing frame check (authorizing_resume hd)

theorem RelayInv.applyResets (h : RelayInv s) : RelayInv s.applyResets := by
  rw [Relay.applyResets]
  split
  · next reset hreset =>
    split
    · exact h.endResets _
    · refine h.setResets (Nat.le_succ _) ?_ nofun
      rintro _ ⟨⟩
      exact h.pendingReset reset hreset
  · exact h.endResets _

theorem RelayInv.drainLoop (h : RelayInv s) : RelayInv s.drainLoop := by
  rw [Relay.drainLoop]
  split
  · next frame hpending =>
    split
    · exact h.drainIdle
    · refine h.setHand ?_ nofun fun _ => rfl
      rw [Relay.inHand, hpending]
      exact sublist_append_right _ _
  · exact h.drainIdle

theorem RelayInv.dispose (h : RelayInv s) : RelayInv s.dispose := by
  have hsub : s.dispose.sequences.Sublist s.sequences :=
    (Sublist.refl _).append (nil_sublist _)
  have hhand : s.dispose.inHand.Sublist s.inHand :=
    (Sublist.refl _).append (nil_sublist _)
  exact
    { h with
      size := Nat.zero_le _
      bytes := Nat.zero_le _
      once := h.once.sublist hsub
      known := fun n hn => h.known n (hsub.subset hn)
      accounted := nofun
      ordered := h.ordered.sublist (hhand.append_left _)
      queued := fun frame hf => h.queued frame ((hhand.append_left _).subset hf)
      held := nofun
      shut := fun _ => ⟨rfl, rfl⟩
      arrived := fun frame hf => h.arrived frame (hhand.subset hf)
      pendingReset := nofun }

theorem RelayInv.closeWithFailure (h : RelayInv s) : RelayInv s.closeWithFailure := by
  rw [Relay.closeWithFailure]
  split
  · exact h
  · exact h.dispose

theorem RelayInv.ended (h : RelayInv s) (check : ℕ) (result : Authorization) :
    RelayInv { s with ended := s.ended ++ [(check, result)] } :=
  { h with
    checked := fun m hm => ⟨(h.checked m hm).1, mem_append_left _ (h.checked m hm).2⟩ }

/-! ### Retiring -/

theorem retire_eq_some (h : s.retire sockets sequence generation disposition = some s') :
    sequence ∈ s.outstanding.map Outstanding.sequence ∧ s' =
      { s with
        outstanding := s.outstanding.filter fun item => item.sequence ≠ sequence
        retired := s.retired ++
          [⟨⟨generation, sequence, disposition⟩, !s.closed && sockets.daemonOpen⟩] } := by
  rw [Relay.retire] at h
  split at h
  · cases h
  · next item hitem =>
    split at h
    · cases h
    · refine ⟨mem_map.mpr ⟨item, mem_of_find?_eq_some hitem, ?_⟩, (some.inj h).symm⟩
      simpa using find?_some hitem

theorem retire_perm {n : ℕ} (hn : n ∈ outstanding) (hnodup : (retired ++ outstanding).Nodup) :
    ((retired ++ [n]) ++ outstanding.filter fun m => m ≠ n).Perm (retired ++ outstanding) := by
  rw [append_assoc]
  refine Perm.append_left _ ?_
  have herase : (outstanding.filter fun m => m ≠ n) = outstanding.erase n := by
    rw [(nodup_append.mp hnodup).2.1.erase_eq_filter]
    exact filter_congr fun m _ => by by_cases hm : m = n <;> simp [hm]
  rw [herase]
  exact (perm_cons_erase hn).symm

/-- An outstanding frame that is in no hand is settled. -/
theorem RelayInv.settle (h : RelayInv s) (hmem : sequence ∈ s.outstanding.map Outstanding.sequence)
    (hfree : ∀ frame ∈ s.inHand, frame.sequence ≠ sequence) (generation : Text)
    (disposition : Disposition) (sent : Bool) : RelayInv { s with
      outstanding := s.outstanding.filter fun item => item.sequence ≠ sequence
      retired := s.retired ++ [⟨⟨generation, sequence, disposition⟩, sent⟩] } := by
  have hsub := filter_sublist (l := s.outstanding) (p := fun item => item.sequence ≠ sequence)
  have hmap : (s.outstanding.filter fun item => item.sequence ≠ sequence).map
      Outstanding.sequence = (s.outstanding.map Outstanding.sequence).filter fun m =>
        m ≠ sequence := by
    rw [List.filter_map]
    rfl
  have hperm : ((s.retired ++ [(⟨⟨generation, sequence, disposition⟩, sent⟩ : Retired)]).map
      (fun r => r.ack.frameSequence) ++ (s.outstanding.filter fun item =>
        item.sequence ≠ sequence).map Outstanding.sequence).Perm s.sequences := by
    rw [hmap, map_append]
    exact retire_perm hmem h.once
  exact
    { h with
      size := hsub.length_le.trans h.size
      bytes := ((hsub.map _).sum_le_sum fun _ _ => Nat.zero_le _).trans h.bytes
      once := hperm.nodup_iff.mpr h.once
      known := fun n hn => h.known n (hperm.mem_iff.mp hn)
      accounted := fun hopen frame hf => hperm.mem_iff.mpr (h.accounted hopen frame hf)
      held := by
        intro hopen frame hf
        obtain ⟨item, hitem, hseq, hrest⟩ := h.held hopen frame hf
        refine ⟨item, mem_filter.mpr ⟨hitem, decide_eq_true ?_⟩, hseq, hrest⟩
        rw [hseq]
        exact hfree frame hf
      shut := fun hclosed => ⟨by rw [(h.shut hclosed).1]; rfl, (h.shut hclosed).2⟩ }

theorem RelayInv.retire (h : RelayInv s)
    (hs : s.retire sockets sequence generation disposition = some s')
    (hfree : ∀ frame ∈ s.inHand, frame.sequence ≠ sequence) : RelayInv s' := by
  obtain ⟨hmem, rfl⟩ := retire_eq_some hs
  exact h.settle hmem hfree ..

theorem RelayInv.pending_ne (h : RelayInv s) (hp : s.pending = some frame) :
    ∀ f ∈ s.drain.frame?.toList, f.sequence ≠ frame.sequence := by
  intro f hf
  have hord := (pairwise_append.mp h.ordered).2.1
  rw [Relay.inHand, hp] at hord
  exact Nat.ne_of_lt ((pairwise_append.mp hord).2.2 f hf frame (mem_singleton_self _))

theorem discardPending_spec (hs : s.discardPending sockets = some s') : s' = { s with
      pending := none
      outstanding := s'.outstanding
      retired := s'.retired } ∧
      ∀ item ∈ s.outstanding, (∀ frame ∈ s.pending, item.sequence ≠ frame.sequence) →
        item ∈ s'.outstanding := by
  rw [Relay.discardPending] at hs
  split at hs
  · next hp =>
    obtain rfl := some.inj hs
    exact ⟨by rw [← hp], fun item hitem _ => hitem⟩
  · next frame hp =>
    obtain ⟨t, ht, rfl⟩ := map_eq_some_iff.mp hs
    obtain ⟨-, rfl⟩ := retire_eq_some ht
    exact ⟨rfl, fun item hitem hne =>
      mem_filter.mpr ⟨hitem, decide_eq_true (hne frame hp)⟩⟩

theorem RelayInv.discardPending (h : RelayInv s) (hs : s.discardPending sockets = some s') :
    RelayInv s' := by
  rw [Relay.discardPending] at hs
  split at hs
  · exact some.inj hs ▸ h
  · next frame hp =>
    obtain ⟨t, ht, rfl⟩ := map_eq_some_iff.mp hs
    obtain ⟨hmem, rfl⟩ := retire_eq_some ht
    -- the pending frame may as well be let go of first
    have hgo : RelayInv { s with
        drain := s.drain
        pending := none } :=
      h.setHand ((Sublist.refl _).append (nil_sublist _)) h.authorizing fun _ => rfl
    refine hgo.settle hmem (fun f hf => h.pending_ne hp f ?_) ..
    rwa [Relay.inHand, toList_none, append_nil] at hf

theorem drainLoop_eq (drain : Drain) : Relay.drainLoop { s with drain := drain } = s.drainLoop := by
  rw [Relay.drainLoop, Relay.drainLoop]

theorem RelayInv.discard (h : RelayInv s) (sockets : Sockets) {frame : Frame}
    (hd : s.drain.frame? = some frame) : RelayInv (s.discard sockets frame) := by
  rw [Relay.discard]
  split
  · next t ht =>
    obtain ⟨hmem, rfl⟩ := retire_eq_some ht
    have hfree : ∀ f ∈ ({ s with drain := .idle } : Relay).inHand, f.sequence ≠ frame.sequence := by
      intro f hf
      have hord := (pairwise_append.mp h.ordered).2.1
      rw [Relay.inHand, hd] at hord
      exact Nat.ne_of_gt ((pairwise_append.mp hord).2.2 frame (mem_singleton_self _) f hf)
    have hset := (h.drainIdle.settle hmem hfree frame.generation .discarded
      (!s.closed && sockets.daemonOpen)).drainLoop
    exact drainLoop_eq (s := { s with
      outstanding := s.outstanding.filter fun item => item.sequence ≠ frame.sequence
      retired := s.retired ++ [⟨⟨frame.generation, frame.sequence, .discarded⟩,
        !s.closed && sockets.daemonOpen⟩] }) .idle ▸ hset
  · exact h.drainIdle.closeWithFailure

theorem Frame.Parsed.generation_ne_nil {frame : Frame} (h : frame.Parsed) :
    frame.generation ≠ [] := by
  obtain ⟨header, hparse, hgen, -⟩ := h
  intro hnil
  have hvalid := (parseStreamPacket_eq_ok.mp hparse).2.2.2.1
  rw [streamHeader, hgen, hnil] at hvalid
  cases hvalid

theorem map_forwarded {α : Type*} {f : Outstanding → α}
    (hf : ∀ item : Outstanding, f { item with forwarded := true } = f item) {l : List Outstanding} :
    (l.map fun item => if item.sequence = n then { item with forwarded := true } else item).map f =
      l.map f := by
  rw [List.map_map]
  refine map_congr_left fun item _ => ?_
  show f (if item.sequence = n then _ else _) = f item
  split
  · exact hf item
  · rfl

theorem RelayInv.forward (h : RelayInv s) {frame : Frame} (hd : s.drain = .authorizing frame check)
    (hcheck : (check, .allowed) ∈ s.ended)
    (hgeneration : frame.generation = s.deliveredGeneration) : RelayInv { s with
      outstanding := s.outstanding.map fun item =>
        if item.sequence = frame.sequence then { item with forwarded := true } else item
      viewer := s.viewer ++ [.frame frame check]
      drain := .idle } := by
  have hhand : s.inHand = frame :: s.pending.toList := by
    rw [Relay.inHand, hd]
    rfl
  have hmem : frame ∈ s.forwarded ++ s.inHand := by
    rw [hhand]
    exact mem_append_right _ (mem_cons_self ..)
  have hall : (s.viewer ++ [Sent.frame frame check]).filterMap Sent.frame? ++ s.pending.toList =
      s.forwarded ++ s.inHand := by
    rw [filterMap_append, hhand, Relay.forwarded, append_assoc]
    rfl
  have hseqs : s.retired.map (fun r => r.ack.frameSequence) ++ (s.outstanding.map fun item =>
      if item.sequence = frame.sequence then { item with forwarded := true } else item).map
        Outstanding.sequence = s.sequences := by
    rw [map_forwarded fun _ => rfl, Relay.sequences]
  have hlast : lastGeneration none s.viewer = some frame.generation := by
    have hdelivered := h.delivered
    rw [← hgeneration] at hdelivered
    cases hl : lastGeneration none s.viewer with
    | none =>
      rw [hl] at hdelivered
      exact absurd hdelivered (h.queued frame hmem).2.generation_ne_nil
    | some g =>
      rw [hl] at hdelivered
      rw [hdelivered]
      rfl
  exact
    { h with
      size := by
        rw [length_map]
        exact h.size
      bytes := by
        rw [map_forwarded fun _ => rfl]
        exact h.bytes
      once := (congrArg Nodup hseqs).mpr h.once
      known := fun n hn => h.known n ((congrArg (n ∈ ·) hseqs).mp hn)
      accounted := fun hopen f hf =>
        (congrArg (f.sequence ∈ ·) hseqs).mpr (h.accounted hopen f hf)
      ordered := hall ▸ h.ordered
      queued := fun f hf => h.queued f (hall ▸ hf)
      held := by
        intro hopen f hf
        obtain ⟨item, hitem, hseq, hgen, hforwarded⟩ :=
          h.held hopen f (hhand ▸ mem_cons_of_mem _ hf)
        have hord := (pairwise_append.mp h.ordered).2.1
        rw [hhand] at hord
        have hne : item.sequence ≠ frame.sequence := by
          rw [hseq]
          exact Nat.ne_of_gt ((pairwise_cons.mp hord).1 f hf)
        exact ⟨item, mem_map.mpr ⟨item, hitem, if_neg hne⟩, hseq, hgen, hforwarded⟩
      shut := fun hclosed => ⟨by rw [(h.shut hclosed).1]; rfl, (h.shut hclosed).2⟩
      delivered := by
        rw [lastGeneration_append]
        exact h.delivered
      fed := fed_append.mpr ⟨h.fed, hlast, trivial⟩
      resets := by
        rw [filterMap_append]
        exact fun r hr => h.resets r ((mem_append.mp hr).resolve_right nofun)
      checked := by
        exact forall_mem_append.mpr
          ⟨h.checked, forall_mem_singleton.mpr ⟨h.authorizing frame check hd, hcheck⟩⟩
      authorizing := nofun
      arrived := fun f hf => h.arrived f (hhand ▸ mem_cons_of_mem _ hf) }

theorem RelayInv.deliver (h : RelayInv s) (hparsed : reset.Parsed)
    (harrived : reset.arrived ≤ check) (hcheck : (check, .allowed) ∈ s.ended) : RelayInv { s with
      viewer := s.viewer ++ [.reset reset check]
      deliveredGeneration := reset.generation } := by
  have hframes : (s.viewer ++ [Sent.reset reset check]).filterMap Sent.frame? = s.forwarded := by
    rw [filterMap_append]
    exact append_nil _
  exact
    { h with
      ordered := by
        rw [Relay.forwarded, hframes]
        exact h.ordered
      queued := by
        rw [Relay.forwarded, hframes]
        exact h.queued
      delivered := by
        rw [lastGeneration_append]
        rfl
      fed := fed_append.mpr ⟨h.fed, trivial⟩
      resets := by
        rw [filterMap_append]
        exact forall_mem_append.mpr ⟨h.resets, forall_mem_singleton.mpr hparsed⟩
      checked := by
        intro m hm
        rcases mem_append.mp hm with hm | hm
        · exact h.checked m hm
        · rw [mem_singleton.mp hm]
          exact ⟨harrived, hcheck⟩ }

/-! ### What the sockets bring -/

theorem RelayInv.accept (h : RelayInv s) {frame : Frame} {acceptedAt : ℕ} (hopen : s.closed = false)
    (hseq : s.sequence < frame.sequence) (hsize : s.outstanding.length < 3)
    (hbytes : (s.outstanding.map Outstanding.bytes).sum + frame.raw.length ≤ 2 * 1024 * 1024) :
    RelayInv { s with
      sequence := frame.sequence
      outstanding := s.outstanding ++
        [⟨frame.sequence, frame.generation, frame.raw.length, acceptedAt, false⟩]
      accepted := s.accepted ++ [frame] } := by
  generalize hitem : (⟨frame.sequence, frame.generation, frame.raw.length, acceptedAt, false⟩ :
    Outstanding) = item
  have hseqs : s.retired.map (fun r => r.ack.frameSequence) ++
      (s.outstanding ++ [item]).map Outstanding.sequence = s.sequences ++ [frame.sequence] := by
    rw [map_append, ← append_assoc, ← hitem]
    rfl
  exact
    { h with
      size := by
        rw [length_append]
        exact hsize
      bytes := by
        rw [map_append, sum_append, ← hitem]
        exact hbytes
      once := by
        refine (congrArg Nodup hseqs).mpr ?_
        refine nodup_append.mpr ⟨h.once, nodup_singleton _, ?_⟩
        intro n hn m hm heq
        rw [mem_singleton.mp hm] at heq
        exact Nat.not_lt.mpr (h.known n hn) (heq ▸ hseq)
      known := by
        intro n hn
        rcases mem_append.mp ((congrArg (n ∈ ·) hseqs).mp hn) with hn | hn
        · exact Nat.le_of_lt (Nat.lt_of_le_of_lt (h.known n hn) hseq)
        · rw [mem_singleton.mp hn]
      accounted := by
        intro _ f hf
        refine (congrArg (f.sequence ∈ ·) hseqs).mpr ?_
        rcases mem_append.mp hf with hf | hf
        · exact mem_append_left _ (h.accounted hopen f hf)
        · rw [mem_singleton.mp hf]
          exact mem_append_right _ (mem_singleton_self _)
      queued := fun f hf => ⟨Nat.le_of_lt (Nat.lt_of_le_of_lt (h.queued f hf).1 hseq),
        (h.queued f hf).2⟩
      held := by
        intro _ f hf
        obtain ⟨held, hheld, hrest⟩ := h.held hopen f hf
        exact ⟨held, mem_append_left _ hheld, hrest⟩
      shut := fun hclosed => nomatch hopen.symm.trans hclosed }

theorem RelayInv.setPending (h : RelayInv s) (hnone : s.pending = none) (hopen : s.closed = false)
    (hlt : ∀ f ∈ s.forwarded ++ s.inHand, f.sequence < frame.sequence)
    (hle : frame.sequence ≤ s.sequence) (hparsed : frame.Parsed) (hholds : s.Holds frame)
    (harrived : frame.arrived ≤ s.begun) : RelayInv { s with pending := some frame } := by
  have hhand : ({ s with pending := some frame } : Relay).inHand = s.inHand ++ [frame] := by
    rw [Relay.inHand, Relay.inHand, hnone, toList_none, append_nil]
    rfl
  have hall : s.forwarded ++ (s.inHand ++ [frame]) = s.forwarded ++ s.inHand ++ [frame] :=
    (append_assoc ..).symm
  exact
    { h with
      ordered := by
        rw [hhand]
        show (s.forwarded ++ (s.inHand ++ [frame])).Pairwise _
        rw [hall]
        refine pairwise_append.mpr ⟨h.ordered, pairwise_singleton _ _, ?_⟩
        intro f hf g hg
        rw [mem_singleton.mp hg]
        exact hlt f hf
      queued := by
        rw [hhand]
        show ∀ f ∈ s.forwarded ++ (s.inHand ++ [frame]), _
        rw [hall]
        exact forall_mem_append.mpr ⟨h.queued, forall_mem_singleton.mpr ⟨hle, hparsed⟩⟩
      held := by
        rw [hhand]
        intro _
        exact forall_mem_append.mpr ⟨h.held hopen, forall_mem_singleton.mpr hholds⟩
      shut := fun hclosed => nomatch hopen.symm.trans hclosed
      arrived := by
        rw [hhand]
        intro f hf
        rcases mem_append.mp hf with hf | hf
        · exact h.arrived f hf
        · rw [mem_singleton.mp hf]
          exact harrived }

theorem RelayInv.frame (h : RelayInv s) (raw : StreamPacket) (sockets : Sockets) :
    RelayInv (s.frame raw sockets).1 := by
  rw [Relay.frame]
  split
  · exact h
  · next header hparse =>
    split
    · exact h
    · next hsequence =>
      split
      · exact h
      · next hcredit =>
        simp only [Bool.or_eq_true, decide_eq_true_eq, not_or, not_le, not_lt,
          Bool.not_eq_true] at hsequence hcredit
        obtain ⟨⟨hopen, -⟩, hseq⟩ := hsequence
        have haccept := @RelayInv.accept s h
          ⟨raw, header.frameSequence, header.mediaGeneration, s.begun⟩ sockets.now hopen hseq
          hcredit.1 hcredit.2
        dsimp only
        split
        · exact haccept
        · next t ht =>
          have hdiscard := haccept.discardPending ht
          obtain ⟨heq, hkept⟩ := discardPending_spec ht
          have hpending : RelayInv { t with pending := some ⟨raw, header.frameSequence,
              header.mediaGeneration, s.begun⟩ } := by
            have hhand : ∀ f ∈ t.forwarded ++ t.inHand, f ∈ s.forwarded ++ s.inHand := by
              rw [heq]
              intro f hf
              refine ((Sublist.refl _).append ?_).subset hf
              exact (Sublist.refl _).append (nil_sublist _)
            refine hdiscard.setPending (by rw [heq]) (by rw [heq]; exact hopen) ?_ (by rw [heq])
              ⟨header, hparse, rfl, rfl⟩ ?_ (by rw [heq])
            · exact fun f hf => Nat.lt_of_le_of_lt (h.queued f (hhand f hf)).1 hseq
            · refine ⟨_, hkept _ (mem_append_right _ (mem_singleton_self _)) ?_, rfl, rfl, rfl⟩
              intro f hf
              have hmem : f ∈ s.inHand := mem_append_right _ (mem_toList.mpr hf)
              exact Nat.ne_of_gt (Nat.lt_of_le_of_lt (h.queued f (mem_append_right _ hmem)).1 hseq)
          dsimp only
          split
          · exact hpending.drainLoop
          · exact hpending

theorem RelayInv.reset (h : RelayInv s) (raw : ResetPacket) (sockets : Sockets) :
    RelayInv (s.reset raw sockets).1 := by
  rw [Relay.reset]
  split
  · exact h
  · split
    · exact h
    · split
      · exact h
      · next value hvalue =>
        split
        · exact h
        · next hvalid =>
          split
          · exact h
          · have hfence : RelayInv { s with
                generation := value.mediaGeneration
                resets := s.resets ++ [value.mediaGeneration] } := { h with }
            dsimp only
            split
            · exact hfence
            · next t ht =>
              have hdiscard := hfence.discardPending ht
              have hpending : RelayInv { t with
                  resetting := t.resetting
                  pendingReset := some ⟨value, value.mediaGeneration, t.begun⟩
                  resetAt := t.resetAt
                  begun := t.begun } := by
                refine hdiscard.setResets (Nat.le_refl _) hdiscard.resetting ?_
                rintro _ ⟨⟩
                exact ⟨Nat.le_refl _, by simpa using hvalid, rfl⟩
              split
              · exact hpending
              · exact (hpending.setResets (Nat.le_refl _) hpending.resetting
                  hpending.pendingReset).applyResets

theorem RelayInv.feedback (h : RelayInv s) (raw : Option FrameAck) (sockets : Sockets) :
    RelayInv (s.feedback raw sockets).1 := by
  cases raw with
  | none => exact h
  | some value =>
    rw [Relay.feedback]
    split
    · exact h
    · split
      · exact h
      · next hforwarded =>
        split
        · exact h
        · next t ht =>
          refine h.retire ht fun f hf hseq => ?_
          -- what is in hand has not been forwarded
          by_cases hclosed : s.closed = true
          · obtain ⟨hmem, -⟩ := retire_eq_some ht
            rw [(h.shut hclosed).1] at hmem
            cases hmem
          · obtain ⟨item, hitem, hitemSeq, -, hnot⟩ := h.held (by simpa using hclosed) f hf
            cases hfind : s.outstanding.find? fun item => item.sequence = value.frameSequence with
            | none =>
              exact absurd (hitemSeq.trans hseq) (by simpa using find?_eq_none.mp hfind item hitem)
            | some found =>
              have hfound : found.sequence = value.frameSequence := by
                simpa using find?_some hfind
              have hsame : found = item := inj_on_of_nodup_map
                (nodup_append.mp h.once).2.1 (mem_of_find?_eq_some hfind) hitem
                (hfound.trans (hitemSeq.trans hseq).symm)
              rw [hfind, hsame] at hforwarded
              exact hforwarded (by simp [hnot])

/-! ### The authorisations -/

theorem RelayInv.resetAuthorized (h : RelayInv s) {reset : Reset}
    (hr : s.resetting = some (reset, check)) (result : Authorization) (sockets : Sockets) :
    RelayInv (s.resetAuthorized reset check result sockets) := by
  have hended := h.ended check result
  obtain ⟨harrived, hparsed⟩ := h.resetting _ hr
  cases result with
  | failed => exact hended.endResets _
  | denied => exact hended.closeWithFailure.endResets _
  | allowed =>
    rw [Relay.resetAuthorized]
    dsimp only
    split
    · exact hended.closeWithFailure.endResets _
    · split
      · exact hended.applyResets
      · split
        · exact hended.closeWithFailure.endResets _
        · exact (hended.deliver hparsed harrived
            (mem_append_right _ (mem_singleton_self _))).applyResets

theorem RelayInv.frameAuthorized (h : RelayInv s) {frame : Frame}
    (hd : s.drain = .authorizing frame check) (result : Authorization) (sockets : Sockets) :
    RelayInv (s.frameAuthorized frame check result sockets) := by
  have hended := h.ended check result
  have hframe : s.drain.frame? = some frame := by rw [hd]; rfl
  rw [Relay.frameAuthorized]
  dsimp only
  split
  · exact hended.drainIdle.closeWithFailure
  · split
    · exact hended.drainIdle
    · split
      · exact hended.drainIdle.closeWithFailure
      · next hallowed =>
        split
        · exact hended.discard sockets hframe
        · next hgeneration =>
          simp only [Bool.or_eq_true, decide_eq_true_eq, not_or, not_not] at hallowed hgeneration
          split
          · exact hended.drainIdle.closeWithFailure
          · split
            · exact hended.drainIdle.closeWithFailure
            · split
              · exact hended.discard sockets hframe
              · have hcheck : (check, Authorization.allowed) ∈ s.ended ++ [(check, result)] :=
                  mem_append_right _ (by rw [hallowed.1]; exact mem_singleton_self _)
                have hforward := (hended.forward hd hcheck hgeneration.2).drainLoop
                exact drainLoop_eq (s := { s with
                  ended := s.ended ++ [(check, result)]
                  outstanding := s.outstanding.map fun item =>
                    if item.sequence = frame.sequence then { item with forwarded := true }
                    else item
                  viewer := s.viewer ++ [.frame frame check] }) .idle ▸ hforward

theorem RelayInv.wake (h : RelayInv s) (hs : s.wake = some s') : RelayInv s' := by
  rw [Relay.wake] at hs
  split at hs
  · next frame hd =>
    have hframe : frame ∈ s.inHand := by
      rw [Relay.inHand, hd]
      exact mem_append_left _ (mem_singleton_self _)
    split at hs <;> cases hs
    · exact h.drainIdle
    · have hbegun : RelayInv { s with begun := s.begun + 1 } :=
        h.setResets (Nat.le_succ s.begun) h.resetting fun reset hreset =>
          ⟨Nat.le_succ_of_le (h.pendingReset reset hreset).1, (h.pendingReset reset hreset).2⟩
      refine hbegun.setHand ?_ ?_ fun hclosed => (h.shut hclosed).2
      · show Sublist _ (s.drain.frame?.toList ++ s.pending.toList)
        rw [hd]
        exact Sublist.refl _
      · rintro _ _ ⟨⟩
        exact h.arrived frame hframe
  · cases hs
    exact h.drainIdle.closeWithFailure
  · cases hs

/-- **What every step keeps.** -/
theorem relayInv_step {a : Act} (h : RelayInv s) (hs : step s a = some s') : RelayInv s' := by
  cases a with
  | reset raw sockets =>
    cases hs
    exact h.reset raw sockets
  | frame raw sockets =>
    cases hs
    exact h.frame raw sockets
  | feedback raw sockets =>
    cases hs
    exact h.feedback raw sockets
  | resetAuthorized result sockets =>
    obtain ⟨⟨reset, check⟩, hr, rfl⟩ := map_eq_some_iff.mp hs
    exact h.resetAuthorized hr result sockets
  | wake => exact h.wake hs
  | frameAuthorized result sockets =>
    rw [step] at hs
    split at hs
    · next frame check hd =>
      cases hs
      exact h.frameAuthorized hd result sockets
    · cases hs
  | tick now =>
    cases hs
    rw [Relay.tick]
    split
    · exact h.closeWithFailure
    · exact h
  | dispose =>
    cases hs
    exact h.dispose

/-! ### What the steps leave -/

def Relay.resetsAhead (s : Relay) : List Reset :=
  s.viewer.filterMap Sent.reset? ++ (s.resetting.toList.map Prod.fst ++ s.pendingReset.toList)

/-- What the credit rule counts. -/
def Outstanding.entry (item : Outstanding) : ℕ × ℕ := (item.sequence, item.bytes)

/-- No reset and no frame is added. -/
def Keeps (s s' : Relay) : Prop :=
  s'.resetsAhead.Sublist s.resetsAhead ∧ s'.resets = s.resets ∧
    (s'.outstanding.map Outstanding.entry).Sublist (s.outstanding.map Outstanding.entry) ∧
      s'.sequence = s.sequence

theorem Keeps.refl (s : Relay) : Keeps s s := ⟨.refl _, rfl, .refl _, rfl⟩

theorem Keeps.trans {s'' : Relay} (h : Keeps s s') (h' : Keeps s' s'') : Keeps s s'' :=
  ⟨h'.1.trans h.1, h'.2.1.trans h.2.1, h'.2.2.1.trans h.2.2.1, h'.2.2.2.trans h.2.2.2⟩

theorem keeps_closeWithFailure (s : Relay) : Keeps s s.closeWithFailure := by
  rw [Relay.closeWithFailure]
  split
  · exact .refl s
  · exact ⟨(Sublist.refl _).append ((Sublist.refl _).append (nil_sublist _)), rfl,
      nil_sublist _, rfl⟩

theorem keeps_endResets (s : Relay) (outcome : Awaited) : Keeps s (s.endResets outcome) :=
  ⟨(Sublist.refl _).append ((nil_sublist _).append (Sublist.refl _)), rfl, .refl _, rfl⟩

theorem keeps_applyResets (s : Relay) : Keeps s s.applyResets := by
  rw [Relay.applyResets]
  split
  · next reset hreset =>
    split
    · exact keeps_endResets s _
    · refine ⟨(Sublist.refl _).append ?_, rfl, .refl _, rfl⟩
      rw [hreset]
      exact sublist_append_right _ _
  · exact keeps_endResets s _

theorem keeps_drainLoop (s : Relay) : Keeps s s.drainLoop := by
  rw [Relay.drainLoop]
  split
  · split <;> exact Keeps.refl s
  · exact Keeps.refl s

theorem keeps_retire (hs : s.retire sockets sequence generation disposition = some s') :
    Keeps s s' := by
  obtain ⟨-, rfl⟩ := retire_eq_some hs
  exact ⟨.refl _, rfl, filter_sublist.map _, rfl⟩

theorem keeps_discardPending (hs : s.discardPending sockets = some s') : Keeps s s' := by
  rw [Relay.discardPending] at hs
  split at hs
  · exact some.inj hs ▸ .refl s
  · obtain ⟨t, ht, rfl⟩ := map_eq_some_iff.mp hs
    have hkeeps : Keeps s t := keeps_retire ht
    exact hkeeps

theorem keeps_discard (s : Relay) (sockets : Sockets) (frame : Frame) :
    Keeps s (s.discard sockets frame) := by
  rw [Relay.discard]
  split
  · next t ht => exact (keeps_retire ht).trans (keeps_drainLoop t)
  · exact keeps_closeWithFailure { s with drain := .idle }

theorem keeps_resetAuthorized (hr : s.resetting = some (reset, check)) (result : Authorization)
    (sockets : Sockets) : Keeps s (s.resetAuthorized reset check result sockets) := by
  have hend : Keeps s ((Relay.closeWithFailure { s with
      ended := s.ended ++ [(check, result)] }).endResets .fulfilled) :=
    (keeps_closeWithFailure { s with ended := s.ended ++ [(check, result)] }).trans
      (keeps_endResets _ _)
  cases result with
  | failed => exact keeps_endResets { s with ended := s.ended ++ [(check, .failed)] } _
  | denied => exact hend
  | allowed =>
    rw [Relay.resetAuthorized]
    dsimp only
    split
    · exact hend
    · split
      · exact keeps_applyResets { s with ended := s.ended ++ [(check, .allowed)] }
      · split
        · exact hend
        · -- the reset is in the loop's hand until it has been sent
          refine Keeps.trans ?_ (keeps_applyResets { s with
            ended := s.ended ++ [(check, .allowed)]
            viewer := s.viewer ++ [.reset reset check]
            deliveredGeneration := reset.generation
            resetting := none })
          refine ⟨?_, rfl, .refl _, rfl⟩
          rw [Relay.resetsAhead, Relay.resetsAhead, hr, filterMap_append, append_assoc]
          exact .refl _

theorem keeps_frameAuthorized (s : Relay) (frame : Frame) (check : ℕ) (result : Authorization)
    (sockets : Sockets) : Keeps s (s.frameAuthorized frame check result sockets) := by
  have hclose : Keeps s (Relay.closeWithFailure { s with
      ended := s.ended ++ [(check, result)]
      drain := .idle }) := keeps_closeWithFailure { s with
        ended := s.ended ++ [(check, result)]
        drain := .idle }
  have hdiscard := keeps_discard { s with ended := s.ended ++ [(check, result)] } sockets frame
  have hsent : Keeps s { s with
      ended := s.ended ++ [(check, result)]
      outstanding := s.outstanding.map fun item =>
        if item.sequence = frame.sequence then { item with forwarded := true } else item
      viewer := s.viewer ++ [.frame frame check] } := by
    refine ⟨?_, rfl, ?_, rfl⟩
    · rw [Relay.resetsAhead, filterMap_append]
      exact (append_nil (s.viewer.filterMap Sent.reset?)).symm ▸ .refl _
    · rw [map_forwarded fun _ => rfl]
  rw [Relay.frameAuthorized]
  dsimp only
  split
  · exact hclose
  · split
    · exact Keeps.refl s
    · split
      · exact hclose
      · split
        · exact hdiscard
        · split
          · exact hclose
          · split
            · exact hclose
            · split
              · exact hdiscard
              · exact hsent.trans (keeps_drainLoop _)

theorem keeps_wake (hs : s.wake = some s') : Keeps s s' := by
  rw [Relay.wake] at hs
  split at hs
  · split at hs <;> cases hs <;> exact Keeps.refl s
  · cases hs
    exact keeps_closeWithFailure { s with drain := .idle }
  · cases hs

theorem keeps_feedback (s : Relay) (raw : Option FrameAck) (sockets : Sockets) :
    Keeps s (s.feedback raw sockets).1 := by
  cases raw with
  | none => exact .refl s
  | some value =>
    rw [Relay.feedback]
    split
    · exact .refl s
    · split
      · exact .refl s
      · split
        · exact .refl s
        · next t ht => exact keeps_retire ht

theorem keeps_tick (s : Relay) (now : ℕ) : Keeps s (s.tick now) := by
  rw [Relay.tick]
  split
  · exact keeps_closeWithFailure s
  · exact .refl s

/-- A reset or a frame comes. -/
def Act.arrives : Act → Bool
  | .reset .. | .frame .. => true
  | _ => false

theorem keeps_step (ha : a.arrives = false) (hs : step s a = some s') : Keeps s s' := by
  cases a with
  | reset raw sockets | frame raw sockets => cases ha
  | feedback raw sockets =>
    cases hs
    exact keeps_feedback s raw sockets
  | resetAuthorized result sockets =>
    obtain ⟨⟨reset, check⟩, hr, rfl⟩ := map_eq_some_iff.mp hs
    exact keeps_resetAuthorized hr result sockets
  | wake => exact keeps_wake hs
  | frameAuthorized result sockets =>
    rw [step] at hs
    split at hs
    · next frame check hd =>
      cases hs
      exact keeps_frameAuthorized s frame check result sockets
    · cases hs
  | tick now =>
    cases hs
    exact keeps_tick s now
  | dispose =>
    cases hs
    exact ⟨(Sublist.refl _).append ((Sublist.refl _).append (nil_sublist _)), rfl,
      nil_sublist _, rfl⟩

theorem frame_spec (s : Relay) (raw : StreamPacket) (sockets : Sockets) :
    (s.frame raw sockets).1 = s ∨ ∃ header, parseStreamPacket raw = .ok header ∧
      s.sequence < header.frameSequence ∧
        Keeps { s with
          sequence := header.frameSequence
          outstanding := s.outstanding ++
            [⟨header.frameSequence, header.mediaGeneration, raw.length, sockets.now, false⟩] }
          (s.frame raw sockets).1 := by
  rw [Relay.frame]
  split
  · exact .inl rfl
  · next header hparse =>
    split
    · exact .inl rfl
    · next hsequence =>
      split
      · exact .inl rfl
      · have hlt : s.sequence < header.frameSequence := by
          simp only [Bool.or_eq_true, decide_eq_true_eq, not_or, not_le] at hsequence
          exact hsequence.2
        refine .inr ⟨header, hparse, hlt, ?_⟩
        dsimp only
        split
        · exact Keeps.refl _
        · next t ht =>
          have hkeeps := keeps_discardPending ht
          have hpending : Keeps _ { t with pending := some ⟨raw, header.frameSequence,
            header.mediaGeneration, s.begun⟩ } := hkeeps
          split
          · exact hpending.trans (keeps_drainLoop _)
          · exact hpending

theorem reset_spec (s : Relay) (raw : ResetPacket) (sockets : Sockets) :
    (s.reset raw sockets).1 = s ∨ ∃ value, raw.value = some value ∧ ∃ pendingReset,
      (pendingReset = s.pendingReset ∨
        ∃ reset : Reset, pendingReset = some reset ∧ reset.generation = value.mediaGeneration) ∧
        Keeps { s with
          resets := s.resets ++ [value.mediaGeneration]
          pendingReset := pendingReset } (s.reset raw sockets).1 := by
  rw [Relay.reset]
  split
  · exact .inl rfl
  · split
    · exact .inl rfl
    · split
      · exact .inl rfl
      · next value hvalue =>
        split
        · exact .inl rfl
        · split
          · exact .inl rfl
          · refine .inr ⟨value, hvalue, ?_⟩
            dsimp only
            split
            · exact ⟨_, .inl rfl, Keeps.refl _⟩
            · next t ht =>
              obtain ⟨ahead, resets, entries, sequence⟩ := keeps_discardPending ht
              obtain ⟨heq, -⟩ := discardPending_spec ht
              have hpending : Keeps { s with
                  resets := s.resets ++ [value.mediaGeneration]
                  pendingReset := some ⟨value, value.mediaGeneration, t.begun⟩ }
                  { t with pendingReset := some ⟨value, value.mediaGeneration, t.begun⟩ } := by
                refine ⟨?_, resets, entries, sequence⟩
                rw [heq]
                exact .refl _
              refine ⟨some ⟨value, value.mediaGeneration, t.begun⟩, .inr ⟨_, rfl, rfl⟩, ?_⟩
              split
              · exact hpending
              · exact hpending.trans (keeps_applyResets { t with
                  pendingReset := some ⟨value, value.mediaGeneration, t.begun⟩
                  resetAt := sockets.now })

end Bud.Browser
