import Bud.Proxy.HttpEdge
import Bud.Proxy.WebSocketRows

/-!
# The rows of a proxied HTTP request

As for a WebSocket, which end of a request its rows see depends on what asks for it. A reset by the
daemon, the loss of the carrier, a `stream_close` frame and a client that goes away each start a
task that ends both rows wherever they may have come. The service's own limits, a response that is
too large and a request body that cannot be sent ask for `failed` from `offered` as well, which is
never allowed and refuses the whole transition; a response that ends with its last chunk asks for no
transition of the stream. These end the rows only if the handler is still waiting for the daemon,
because then it gives up and records that.
-/

namespace Bud.Proxy

namespace HttpEdge

open Settling Runs

def OpenPromise.isAcceptance : OpenPromise → Bool
  | .resolved result => result.accepted && result.statusCode.isSome
  | _ => false

/-- The handler is waiting for the daemon, and what it is going to find is not an acceptance. -/
def Phase.awaitingOpen : Phase → Bool
  | .waiting promise => !promise.isAcceptance
  | _ => false

/-- The stream is over already, or the handler has given up or is sure to. -/
def Exchange.Recorded (s : Exchange) : Prop :=
  s.completed = true ∨ s.phase.awaitingOpen = true ∨ s.phase = .ended

instance (s : Exchange) : Decidable s.Recorded := inferInstanceAs (Decidable (_ ∨ _ ∨ _))

/-- If the step completes the stream, the end is one that is going to be recorded. -/
def RecordsEnd (maxReceivedBytes : ℕ) (s : Exchange) : Act → Prop
  | .bodyFailed => s.completed = true
  | .data byteLength _ _ _ =>
    byteLength = 0 ∨ s.receivedBytes + byteLength ≤ maxReceivedBytes ∨ s.Recorded
  | .credited sent => sent = false ∨ s.Recorded
  | .limitReset => s.Recorded
  | _ => True

instance (maxReceivedBytes : ℕ) (s : Exchange) :
    ∀ a : Act, Decidable (RecordsEnd maxReceivedBytes s a)
  | .bodyFailed => inferInstanceAs (Decidable (_ = _))
  | .data _ _ _ _ => inferInstanceAs (Decidable (_ ∨ _ ∨ _))
  | .credited _ => inferInstanceAs (Decidable (_ ∨ _))
  | .limitReset => inferInstanceAs (Decidable s.Recorded)
  | .created | .attached _ | .bodySent | .openTimeout | .resumed | .recorded | .openResult _
  | .drained _ | .writeFailed _ _ | .streamReset _ | .streamClose _ | .carrierLost | .carrierReset
  | .clientClosed | .bodyEnd | .limit _ | .task _ | .markOperationUnknown | .markStreamUnknown =>
    inferInstanceAs (Decidable True)

/-- The handler has returned and no task is pending. -/
def Exchange.Idle (s : Exchange) : Prop :=
  (s.phase = .responding ∨ s.phase = .answered ∨ s.phase = .ended) ∧ s.desk.tasks = []

/-! ### The parts of a step -/

/-- A phase the handler may be found in after its promise has been rejected. -/
def SamePhase (p p' : Phase) : Prop := p' = p ∨ p = .waiting .pending ∧ p' = .waiting .rejected

theorem handleReset_spec (s : Exchange) :
    (handleReset s).desk = s.desk ∧ (handleReset s).completed = true ∧
      SamePhase s.phase (handleReset s).phase := by
  rw [handleReset]
  split
  · next hc => exact ⟨rfl, hc, .inl rfl⟩
  · rw [rejectOpen]
    split
    · next hp => exact ⟨rfl, rfl, .inr ⟨hp, rfl⟩⟩
    · exact ⟨rfl, rfl, .inl rfl⟩

theorem handleClose_spec (s : Exchange) :
    (handleClose s).desk = s.desk ∧ (handleClose s).completed = true ∧
      (handleClose s).phase = s.phase := by
  rw [handleClose]
  split
  · next hc => exact ⟨rfl, hc, rfl⟩
  · exact ⟨rfl, rfl, rfl⟩

theorem desk_waitForOpen (s : Exchange) :
    (waitForOpen s).desk = s.desk ∧ (waitForOpen s).completed = s.completed ∧
      ∃ promise, (waitForOpen s).phase = .waiting promise := by
  rw [waitForOpen]
  split
  · exact ⟨rfl, rfl, _, rfl⟩
  · split
    all_goals exact ⟨rfl, rfl, _, rfl⟩

/-! ### The tasks -/

theorem forward_resetTask (canceled : Bool) : ∀ u ∈ resetTask canceled, u.Forward := by
  cases canceled <;> decide

theorem not_opens_resetTask (canceled : Bool) (r : Row) : ¬ Opens r (resetTask canceled) := by
  cases canceled <;> cases r <;> decide

/-- A rejection, and a failure for an operation that has been accepted by then. -/
theorem ends_reject_fail (hf : ∀ u ∈ task, u.Forward) (hmem : failAccepted ∈ task) (rows : Rows) :
    Ends .operation (reject :: task) rows := by
  intro y _
  by_cases hoffered : y.operation = .offered
  · refine settles_of_holds (Row.ended_mono _) ?_ (@ended_closer .operation y hoffered)
    intro f hfmem x
    obtain ⟨u, hu, rfl⟩ := List.mem_map.mp hfmem
    exact le_update (hf u hu) x
  · have hrank : 1 ≤ y.operation.rank := by
      rcases y with ⟨operation, stream⟩
      cases operation
      case offered => exact absurd rfl hoffered
      all_goals exact Nat.le_of_ble_eq_true rfl
    exact ends_failed (hrank.trans (le_update (by decide : reject.Forward) y).1) hf hmem

theorem ends_resetTask (canceled : Bool) (r : Row) (rows : Rows) :
    Ends r (resetTask canceled) rows := by
  cases r with
  | stream => exact ends_reset (forward_resetTask canceled) (by cases canceled <;> decide) rows
  | operation =>
    cases canceled with
    | true => exact ends_canceled (forward_resetTask true) (by decide) rows
    | false => exact ends_reject_fail (by decide) (by decide) rows

theorem ends_succeed (rows : Rows) : Ends .operation succeed rows := ends_succeeded rows

theorem ends_closeTask (r : Row) (rows : Rows) : Ends r (succeed ++ closeStream) rows := by
  rw [Ends, List.map_append]
  cases r with
  | operation =>
    refine Settles.append_right (Row.ended_mono _) ?_ (ends_succeed rows)
    intro f hfmem x
    obtain ⟨u, hu, rfl⟩ := List.mem_map.mp hfmem
    exact le_update ((by decide : ∀ u ∈ closeStream, u.Forward) u hu) x
  | stream => exact Settles.append fun x => ends_closed x

/-! ### No row leaves a final state -/

variable {maxReceivedBytes : ℕ}

variable {s s' t : Exchange}

@[grind =] theorem rows_start (task : List Update) : (s.start task).desk.rows = s.desk.rows := rfl

@[grind =] theorem rows_cleanup : (cleanup s).desk.rows = s.desk.rows := rfl

@[grind =] theorem rows_rejectOpen : (rejectOpen s).desk.rows = s.desk.rows := by
  rw [rejectOpen]
  split <;> rfl

@[grind =] theorem rows_handleReset : (handleReset s).desk.rows = s.desk.rows :=
  congrArg Desk.rows (handleReset_spec s).1

@[grind =] theorem rows_handleClose : (handleClose s).desk.rows = s.desk.rows :=
  congrArg Desk.rows (handleClose_spec s).1

@[grind =] theorem rows_waitForOpen : (waitForOpen s).desk.rows = s.desk.rows :=
  congrArg Desk.rows (desk_waitForOpen s).1

@[grind =] theorem rows_afterOpen (result : OpenPromise) :
    (afterOpen s result).desk.rows = s.desk.rows := by
  cases result with
  | resolved result =>
    rw [afterOpen]
    split
    · rfl
    · split <;> rfl
  | _ => rfl

theorem rows_step (hs : step maxReceivedBytes s a = some s') :
    s.desk.RowsGo s'.desk := by
  cases a with
  | recorded =>
    rw [step] at hs
    split at hs
    · next u updates statusCode _ =>
      cases hs
      refine .inr (.inl ⟨u, ?_⟩)
      rw [recorded, respond]
      dsimp only
      split_ifs <;> rfl
    · cases hs
  | task k =>
    obtain ⟨desk, hdesk, rfl⟩ := Option.map_eq_some_iff.mp hs
    exact .inr (.inr (.inl ⟨k, hdesk⟩))
  | markOperationUnknown =>
    cases hs
    exact .inr (.inr (.inr (.inl rfl)))
  | markStreamUnknown =>
    cases hs
    exact .inr (.inr (.inr (.inr rfl)))
  | limit ttl =>
    left
    cases ttl <;> grind [step, onLimit]
  | _ =>
    left
    grind [step, attach, giveUp, handleOpenResult, onData, consumerFailed, consumed, onEndStream,
      onReset, onClose, onClientClosed, resetFromServiceLimit]

theorem keepsFinal_step (hs : step maxReceivedBytes s a = some s') :
    s.desk.rows.KeepsFinal s'.desk.rows :=
  (rows_step hs).keepsFinal

/-! ### The invariant -/

/-- The handler has yet to record what the daemon answers. -/
def Phase.Early (phase : Phase) : Prop :=
  (∃ n, phase = .creating n) ∨ phase = .sendingBody ∨ ∃ promise, phase = .waiting promise

structure RowInv (s : Exchange) : Prop where
  sound : s.desk.Sound
  early : s.phase.Early → ∀ r, s.desk.Unopened r
  recording : ∀ updates statusCode, s.phase = .recording updates statusCode →
    ∀ u ∈ updates, u.Forward
  ended : s.phase = .ended → ∀ r, s.desk.Lands r
  done : s.completed = true → s.phase.awaitingOpen = false → s.phase ≠ .ended →
    ∀ r, s.desk.Covered r

theorem RowInv.rows_end (h : RowInv s) (hover : s.completed = true ∨ s.phase = .ended)
    (hidle : s.Idle) (r : Row) : r.Ended s.desk.rows := by
  obtain ⟨hphase, htasks⟩ := hidle
  have hcovered : s.desk.Covered r → r.Ended s.desk.rows := by
    rintro (hr | ⟨task, hmem, -⟩)
    · exact hr
    · rw [htasks] at hmem
      exact absurd hmem List.not_mem_nil
  by_cases hended : s.phase = .ended
  · rcases h.ended hended r with hlands | ⟨-, task, hmem, -⟩
    · exact hcovered hlands
    · rw [htasks] at hmem
      exact absurd hmem List.not_mem_nil
  · have hnot : s.phase.awaitingOpen = false := by
      rcases hphase with hp | hp | hp <;> rw [hp] <;> rfl
    exact hcovered (h.done (hover.resolve_right hended) hnot hended r)

theorem rowInv_init (isHead hasBody : Bool) : RowInv (init isHead hasBody) where
  sound := ⟨nofun, nofun⟩
  early _ r := .inl (by cases r <;> rfl)
  recording := nofun
  ended := nofun
  done := nofun

/-! ### Steps beside the handler -/

theorem SamePhase.early (h : SamePhase p p') (he : p'.Early) : p.Early := by
  rcases h with rfl | ⟨rfl, -⟩
  · exact he
  · exact .inr (.inr ⟨_, rfl⟩)

/-- The handler goes on as before, unless its promise has been rejected. -/
theorem RowInv.beside (h : RowInv s) (hp : SamePhase s.phase s'.phase) (hf : s.desk.Follows s'.desk)
    (hover : s'.completed = s.completed ∨ s.Recorded ∨ ∀ r, s'.desk.Covered r) : RowInv s' where
  sound := hf.sound
  early he r := hf.unopened r (h.early (hp.early he) r)
  recording updates statusCode hr := by
    rcases hp with hp | ⟨-, hp⟩
    · exact h.recording updates statusCode (hp ▸ hr)
    · exact absurd (hp.symm.trans hr) nofun
  ended he r := by
    rcases hp with hp | ⟨-, hp⟩
    · exact hf.lands r (h.ended (hp ▸ he) r)
    · exact absurd (hp.symm.trans he) nofun
  done hc hw hne r := by
    rcases hp with hp | ⟨-, hp⟩
    · rw [hp] at hw hne
      rcases hover with hover | (hover | hover | hover) | hover
      · exact hf.covered r (h.done (hover ▸ hc) hw hne r)
      · exact hf.covered r (h.done hover hw hne r)
      · exact absurd (hw.symm.trans hover) nofun
      · exact absurd hover hne
      · exact hover r
    · rw [hp] at hw
      cases hw

theorem RowInv.follow (h : RowInv s) (hf : s.desk.Follows d) : RowInv { s with desk := d } :=
  h.beside (.inl rfl) hf (.inl rfl)

theorem rowInv_onReset (h : RowInv s) (hphase : t.phase = s.phase) (hdesk : t.desk = s.desk)
    (canceled : Bool) : RowInv (onReset t canceled) := by
  obtain ⟨hd, -, hp⟩ := handleReset_spec { t with closedRemotely := true }
  have htask : (onReset t canceled).desk = s.desk.start (resetTask canceled) := by
    show (handleReset _).desk.start _ = _
    rw [hd]
    exact congrArg (Desk.start · _) hdesk
  refine h.beside (hphase ▸ hp) ?_ (.inr (.inr fun r => ?_))
  · rw [htask]
    exact follows_start h.sound (forward_resetTask canceled)
      fun r ho => absurd ho (not_opens_resetTask canceled r)
  · rw [htask]
    exact covered_start (ends_resetTask canceled r _)

theorem rowInv_onClose (h : RowInv s) : RowInv (onClose s) := by
  obtain ⟨hd, -, hp⟩ := handleClose_spec { s with closedRemotely := true }
  have htask : (onClose s).desk = s.desk.start (succeed ++ closeStream) :=
    congrArg (Desk.start · _) hd
  refine h.beside (.inl hp) ?_ (.inr (.inr fun r => ?_))
  · rw [htask]
    exact follows_start h.sound (by decide) fun r _ => ends_closeTask r _
  · rw [htask]
    exact covered_start (ends_closeTask r _)

theorem rowInv_onEndStream (h : RowInv s) (hphase : t.phase = s.phase) (hdesk : t.desk = s.desk)
    (hrecorded : s.Recorded) : RowInv (onEndStream t) := by
  obtain ⟨hd, -, hp⟩ := handleClose_spec { t with closedRemotely := true }
  have htask : (onEndStream t).desk = s.desk.start succeed := by
    show (handleClose _).desk.start _ = _
    rw [hd]
    exact congrArg (Desk.start · _) hdesk
  refine h.beside (.inl (hp.trans hphase)) ?_ (.inr (.inl hrecorded))
  rw [htask]
  refine follows_start h.sound (by decide) fun r ho => ?_
  cases r with
  | operation => exact ends_succeed _
  | stream => exact absurd ho (by decide)

theorem rowInv_resetFromServiceLimit (h : RowInv s) (hphase : t.phase = s.phase)
    (hdesk : t.desk = s.desk) (hrecorded : s.Recorded) : RowInv (resetFromServiceLimit t) := by
  obtain ⟨hd, -, hp⟩ := handleReset_spec t
  have htask : (resetFromServiceLimit t).desk = s.desk.start [resetStream, failOffered] := by
    show (handleReset _).desk.start _ = _
    rw [hd, hdesk]
  refine h.beside (hphase ▸ hp) ?_ (.inr (.inl hrecorded))
  rw [htask]
  refine follows_start h.sound (by decide) fun r ho => absurd ho ?_
  cases r <;> decide

theorem rowInv_onClientClosed (h : RowInv s) : RowInv (onClientClosed s) := by
  rw [onClientClosed]
  split
  · exact h
  · obtain ⟨hd, -, hp⟩ := handleReset_spec s
    have hstream : s.desk.Follows (s.desk.start [resetStream]) := by
      refine follows_start h.sound (by decide) fun r ho => absurd ho ?_
      cases r <;> decide
    have hoperation : (s.desk.start [resetStream]).Follows ((s.desk.start [resetStream]).start
          [.operation [.offered, .accepted, .running] .canceled]) := by
      refine follows_start hstream.sound (by decide) fun r ho => absurd ho ?_
      cases r <;> decide
    have htask : (((handleReset s).start [resetStream]).start
        [.operation [.offered, .accepted, .running] .canceled]).desk =
          (s.desk.start [resetStream]).start
            [.operation [.offered, .accepted, .running] .canceled] := by
      show ((handleReset s).desk.start _).start _ = _
      rw [hd]
    refine h.beside hp ?_ (.inr (.inr fun r => ?_))
    · rw [htask]
      exact hstream.trans hoperation
    · rw [htask]
      cases r with
      | operation => exact covered_start (ends_canceled (by decide) (by decide) _)
      | stream =>
        exact hoperation.covered _ (covered_start (ends_reset (by decide) (by decide) _))

theorem rowInv_consumerFailed (h : RowInv s) (hp : SamePhase s.phase t.phase)
    (hdesk : t.desk = s.desk) (hover : t.completed = s.completed ∨ s.Recorded) (resetSent : Bool) :
    RowInv (consumerFailed t resetSent) := by
  refine h.beside hp ?_ (hover.imp_right .inl)
  show s.desk.Follows (t.desk.start _)
  rw [hdesk]
  refine follows_start h.sound (by cases resetSent <;> decide) fun r ho => absurd ho ?_
  cases resetSent <;> cases r <;> decide

/-! ### Steps of the handler -/

/-- The handler goes on with no more of the opening to record. -/
theorem RowInv.move (h : RowInv s) (hdesk : s'.desk = s.desk)
    (hcompleted : s'.completed = s.completed) (hearly : s'.phase.Early → s.phase.Early)
    (hrecording : ∀ updates statusCode, s'.phase = .recording updates statusCode → ∀ u ∈ updates,
      u.Forward) (hended : s'.phase ≠ .ended)
    (hover : s'.phase.awaitingOpen = false → s.phase.awaitingOpen = false ∧ s.phase ≠ .ended) :
    RowInv s' where
  sound := hdesk ▸ h.sound
  early he := hdesk ▸ h.early (hearly he)
  recording := hrecording
  ended he := absurd he hended
  done hc hw _ := hdesk ▸ h.done (hcompleted ▸ hc) (hover hw).1 (hover hw).2

/-- The handler gives up before it has recorded the opening. -/
theorem rowInv_giveUp (h : RowInv s) (he : s.phase.Early) (hdesk : t.desk = s.desk)
    (hf : ∀ u ∈ task, u.Forward) (ho : ∀ r, ¬ Opens r task)
    (hlands : ∀ r, r.closer ∈ task ∨ Ends r task s.desk.rows ∨ s.desk.Covered r) :
    RowInv (giveUp t task) := by
  have hfollows : s.desk.Follows (s.desk.start task) :=
    follows_start h.sound hf fun r hopens => absurd hopens (ho r)
  have htask : (giveUp t task).desk = s.desk.start task := congrArg (Desk.start · task) hdesk
  refine ⟨htask ▸ hfollows.sound, ?_, nofun, fun _ r => ?_, fun _ _ hne => absurd rfl hne⟩
  · rintro (⟨n, hn⟩ | hn | ⟨promise, hn⟩) <;> cases hn
  · rw [htask]
    rcases hlands r with hclose | hends | hcovered
    · exact lands_start (h.early he r) hclose
    · exact .inl (covered_start hends)
    · exact .inl (hfollows.covered r hcovered)

/-- Before the daemon has opened the stream, both rows are closed as they are. -/
theorem rowInv_giveUpTask (h : RowInv s) (he : s.phase.Early) (hdesk : t.desk = s.desk) :
    RowInv (giveUp t giveUpTask) :=
  rowInv_giveUp h he hdesk (by decide) (by rintro (- | -) <;> decide)
    fun r => .inl (by cases r <;> decide)

theorem rowInv_waitForOpen (h : RowInv s) (he : s.phase.Early) (hnot : s.phase.awaitingOpen = false)
    (hdesk : t.desk = s.desk) (hcompleted : t.completed = s.completed) :
    RowInv (waitForOpen t) := by
  obtain ⟨hd, hc, promise, hp⟩ := desk_waitForOpen t
  refine h.move (hd.trans hdesk) (hc.trans hcompleted) (fun _ => he) ?_ (by rw [hp]; nofun) ?_
  · intro updates statusCode hr
    exact absurd (hp.symm.trans hr) nofun
  · refine fun _ => ⟨hnot, ?_⟩
    rcases he with ⟨n, hn⟩ | hn | ⟨promise, hn⟩ <;> rw [hn] <;> nofun

theorem rowInv_attach (h : RowInv s) (hp : s.phase = .creating 1) (sent : Bool) :
    RowInv (attach s sent) := by
  have he : s.phase.Early := .inl ⟨1, hp⟩
  rw [attach]
  dsimp only
  split
  · exact rowInv_giveUpTask h he rfl
  · split
    · exact h.move rfl rfl (fun _ => he) nofun nofun fun _ => by rw [hp]; exact ⟨rfl, nofun⟩
    · exact rowInv_waitForOpen h he (by rw [hp]; rfl) rfl rfl

theorem rowInv_afterOpen (h : RowInv s) (hp : s.phase = .waiting result) :
    RowInv (afterOpen s result) := by
  have he : s.phase.Early := .inr (.inr ⟨result, hp⟩)
  cases result with
  | pending => exact h
  | rejected => exact rowInv_giveUpTask h he rfl
  | resolved result =>
    rw [afterOpen]
    split
    · exact rowInv_giveUpTask h he rfl
    · next haccepted =>
      split
      · refine rowInv_giveUp h he rfl (by decide) (by rintro (- | -) <;> decide) fun r => ?_
        cases r with
        | operation => exact .inl (by decide)
        | stream => exact .inr (.inl (ends_reset (by decide) (by decide) _))
      · next statusCode hstatus =>
        refine h.move rfl rfl ?_ ?_ nofun fun _ => ?_
        · rintro (⟨n, hn⟩ | hn | ⟨promise, hn⟩) <;> cases hn
        · intro updates statusCode' hr
          cases hr
          decide
        · rw [hp]
          refine ⟨?_, nofun⟩
          show (!(result.accepted && result.statusCode.isSome)) = false
          simp_all

theorem rowInv_recorded (h : RowInv s) (hp : s.phase = .recording (u :: updates) statusCode) :
    RowInv (recorded s u updates statusCode) := by
  have hforward := h.recording _ _ hp
  have hle : s.desk.rows ≤ s.desk.rows.update u := le_update (hforward u (List.mem_cons_self ..)) _
  have hover : s.completed = true → ∀ r, (s.desk.update u).Covered r := fun hc r =>
    (h.done hc (by rw [hp]; rfl) (by rw [hp]; nofun) r).mono hle fun _ => id
  have hsound : (s.desk.update u).Sound := h.sound.mono hle rfl
  rw [recorded]
  dsimp only
  split
  · rw [respond]
    split
    all_goals
      refine ⟨hsound, ?_, nofun, nofun, fun hc _ _ => hover hc⟩
      rintro (⟨n, hn⟩ | hn | ⟨promise, hn⟩) <;> cases hn
  · refine ⟨hsound, ?_, ?_, nofun, fun hc _ _ => hover hc⟩
    · rintro (⟨n, hn⟩ | hn | ⟨promise, hn⟩) <;> cases hn
    · intro updates' statusCode' hr
      cases hr
      exact fun v hv => hforward v (List.mem_cons_of_mem _ hv)

theorem rowInv_handleOpenResult (h : RowInv s) (frame : OpenResult) :
    RowInv (handleOpenResult s frame) := by
  rw [handleOpenResult]
  split
  · exact h
  · next hc =>
    split
    · next hp =>
      refine ⟨h.sound, fun _ => h.early (.inr (.inr ⟨_, hp⟩)), nofun, nofun, ?_⟩
      exact fun hc' => absurd hc' hc
    · exact { h with }

theorem rowInv_onData (h : RowInv s)
    (hok : byteLength = 0 ∨ s.receivedBytes + byteLength ≤ maxReceivedBytes ∨ s.Recorded)
    (flushed endStream resetSent : Bool) :
    RowInv (onData maxReceivedBytes s byteLength flushed endStream resetSent) := by
  have hsame : ∀ t : Exchange, t.phase = s.phase → t.desk = s.desk → t.completed = s.completed →
      RowInv t :=
    fun t hp hd hc => h.beside (.inl hp) (by rw [hd]; exact follows_refl h.sound) (.inl hc)
  rw [onData]
  dsimp only
  split
  · exact @rowInv_consumerFailed s { s with idleTimer := true } h (.inl rfl) rfl (.inl rfl)
      resetSent
  · split
    · exact hsame _ rfl rfl rfl
    · next hbytes =>
      split
      · next hsize =>
        have hrecorded : s.Recorded :=
          (hok.resolve_left hbytes).resolve_left (Nat.not_le.mpr hsize)
        refine rowInv_consumerFailed h ?_ ?_ (.inr hrecorded) resetSent
        · rw [rejectOpen]
          split
          · next hp => exact .inr ⟨hp, rfl⟩
          · exact .inl rfl
        · rw [rejectOpen]
          split <;> rfl
      · split
        all_goals exact hsame _ rfl rfl rfl

theorem rowInv_step (h : RowInv s) (hok : RecordsEnd maxReceivedBytes s a)
    (hs : step maxReceivedBytes s a = some s') : RowInv s' := by
  have hsame : ∀ t : Exchange, t.phase = s.phase → t.desk = s.desk → t.completed = s.completed →
      RowInv t :=
    fun t hp hd hc => h.beside (.inl hp) (by rw [hd]; exact follows_refl h.sound) (.inl hc)
  cases a with
  | created =>
    rw [step] at hs
    split at hs
    · next awaits hp =>
      cases hs
      exact h.move rfl rfl (fun _ => .inl ⟨_, hp⟩) nofun nofun
        fun _ => by rw [hp]; exact ⟨rfl, nofun⟩
    · cases hs
  | attached sent =>
    obtain ⟨hp, rfl⟩ := of_guard hs
    exact rowInv_attach h hp sent
  | bodySent =>
    obtain ⟨hp, rfl⟩ := of_guard hs
    exact rowInv_waitForOpen h (.inr (.inl hp)) (by rw [hp]; rfl) rfl rfl
  | bodyFailed =>
    obtain ⟨hp, rfl⟩ := of_guard hs
    refine rowInv_giveUp h (.inr (.inl hp)) rfl (by decide) (by rintro (- | -) <;> decide) ?_
    exact fun r => .inr (.inr (h.done hok (by rw [hp]; rfl) (by rw [hp]; nofun) r))
  | openTimeout =>
    obtain ⟨hp, rfl⟩ := of_guard hs
    exact h.beside (.inr ⟨hp, rfl⟩) (follows_refl h.sound) (.inl rfl)
  | resumed =>
    rw [step] at hs
    split at hs
    · cases hs
    · next result hresult hp =>
      cases hs
      exact rowInv_afterOpen h hp
    · cases hs
  | recorded =>
    rw [step] at hs
    split at hs
    · next u updates statusCode hp =>
      cases hs
      exact rowInv_recorded h hp
    · cases hs
  | openResult frame =>
    obtain ⟨-, rfl⟩ := of_guard hs
    exact rowInv_handleOpenResult h frame
  | data byteLength flushed endStream resetSent =>
    obtain ⟨-, rfl⟩ := of_guard hs
    exact rowInv_onData h hok flushed endStream resetSent
  | drained k =>
    rw [step] at hs
    split at hs <;> cases hs
    exact hsame _ rfl rfl rfl
  | writeFailed k resetSent =>
    rw [step] at hs
    split at hs <;> cases hs
    exact @rowInv_consumerFailed s { s with writes := s.writes.eraseIdx k } h (.inl rfl) rfl
      (.inl rfl) resetSent
  | credited sent =>
    obtain ⟨-, hs⟩ := Option.ite_none_left_eq_some.mp hs
    split at hs
    · next hsent =>
      cases hs
      exact @rowInv_onEndStream s { s with ends := s.ends - 1 } h rfl rfl
        (hok.resolve_left (by simp [hsent]))
    · cases hs
      exact hsame _ rfl rfl rfl
  | streamReset canceled =>
    rw [step] at hs
    split at hs <;> cases hs
    · exact rowInv_onReset h rfl rfl canceled
    · refine h.follow (follows_start h.sound (by decide) fun r ho => absurd ho ?_)
      cases r <;> decide
  | streamClose offsetMatches =>
    rw [step] at hs
    split at hs
    · split at hs <;> cases hs
      · exact rowInv_onClose h
      · exact rowInv_onReset h rfl rfl false
    · cases hs
      refine h.follow (follows_start h.sound (by decide) fun r ho => ?_)
      cases r with
      | operation => exact absurd ho (by decide)
      | stream => exact ends_closed _
  | carrierLost | bodyEnd =>
    obtain ⟨-, rfl⟩ := of_guard hs
    exact hsame _ rfl rfl rfl
  | carrierReset =>
    obtain ⟨-, hs⟩ := Option.ite_none_left_eq_some.mp hs
    dsimp only at hs
    split at hs <;> cases hs
    · exact hsame _ rfl rfl rfl
    · exact @rowInv_onReset s { s with finalizing := false } h rfl rfl false
  | clientClosed =>
    obtain ⟨-, rfl⟩ := of_guard hs
    exact rowInv_onClientClosed h
  | limit ttl =>
    have hlimit : ∀ t : Exchange, t.phase = s.phase → t.desk = s.desk →
        t.completed = s.completed → RowInv (onLimit t) := by
      intro t hp hd hc
      rw [onLimit]
      split
      · exact hsame t hp hd hc
      · exact hsame _ hp hd hc
    cases ttl <;>
    · rw [step] at hs
      obtain ⟨-, rfl⟩ := of_guard hs
      exact hlimit _ rfl rfl rfl
  | limitReset =>
    rw [step] at hs
    split at hs <;> cases hs
    exact @rowInv_resetFromServiceLimit s { s with limits := s.limits - 1 } h rfl rfl hok
  | task k =>
    obtain ⟨desk, hdesk, rfl⟩ := Option.map_eq_some_iff.mp hs
    exact h.follow (follows_runTask h.sound hdesk)
  | markOperationUnknown =>
    cases hs
    exact h.follow (follows_markOperationUnknown h.sound)
  | markStreamUnknown =>
    cases hs
    exact h.follow (follows_markStreamUnknown h.sound)

/-! ### Runs -/

/-- **The rows of a proxied request end.** In every state of a run all of whose ends are recorded,
the rows have ended once the stream is over and nothing is pending. -/
theorem exchange_rows_end (maxReceivedBytes : ℕ) (isHead hasBody : Bool)
    (hok : Runs.Along (step maxReceivedBytes) (RecordsEnd maxReceivedBytes) acts (init isHead
      hasBody)) (hrun : run (step maxReceivedBytes) acts (init isHead hasBody) = some s)
    (hover : s.completed = true ∨ s.phase = .ended) (hidle : s.Idle) (r : Row) :
    r.Ended s.desk.rows :=
  (invariant_along (fun _ _ _ hi hok hs => rowInv_step hi hok hs) hok hrun
    (rowInv_init isHead hasBody)).rows_end hover hidle r

end HttpEdge

/-! ### A WebSocket and a request together -/

def WebSocketEdge.Session.Settled (s : WebSocketEdge.Session) : Prop :=
  (s.completed = true ∨ s.phase = .ended) ∧ s.Idle

def HttpEdge.Exchange.Settled (s : HttpEdge.Exchange) : Prop :=
  (s.completed = true ∨ s.phase = .ended) ∧ s.Idle

instance (s : WebSocketEdge.Session) : Decidable s.Settled :=
  inferInstanceAs (Decidable ((_ = _ ∨ _ = _) ∧ (_ = _ ∨ _ = _) ∧ _ = _))

instance (s : HttpEdge.Exchange) : Decidable s.Settled :=
  inferInstanceAs (Decidable ((_ = _ ∨ _ = _) ∧ (_ = _ ∨ _ = _ ∨ _ = _) ∧ _ = _))

instance : ∀ (r : Row) (rows : Rows), Decidable (r.Ended rows)
  | .operation, rows => inferInstanceAs (Decidable rows.operation.Ended)
  | .stream, rows => inferInstanceAs (Decidable rows.stream.Ended)

/-- **Durable proxy rows end.** In every run all of whose ends are recorded, both rows have ended
whenever the session or the exchange is settled; and no step of any run takes a row out of a final
state. -/
theorem proxy_rows_end (maxMessageBytes : ℕ) (accepts : ℕ → Bool) (maxReceivedBytes : ℕ) :
    (∀ overLimit acts s,
      Runs.Along (WebSocketEdge.step maxMessageBytes accepts)
          (WebSocketEdge.RecordsEnd maxMessageBytes accepts) acts
          (WebSocketEdge.init overLimit) →
        Runs.run (WebSocketEdge.step maxMessageBytes accepts) acts
          (WebSocketEdge.init overLimit) = some s →
        s.Settled → ∀ r : Row, r.Ended s.desk.rows) ∧
      (∀ isHead hasBody acts s,
        Runs.Along (HttpEdge.step maxReceivedBytes) (HttpEdge.RecordsEnd maxReceivedBytes) acts
            (HttpEdge.init isHead hasBody) →
          Runs.run (HttpEdge.step maxReceivedBytes) acts (HttpEdge.init isHead hasBody) = some s →
          s.Settled → ∀ r : Row, r.Ended s.desk.rows) ∧
      (∀ s a s', WebSocketEdge.step maxMessageBytes accepts s a = some s' →
        s.desk.rows.KeepsFinal s'.desk.rows) ∧
      ∀ s a s', HttpEdge.step maxReceivedBytes s a = some s' →
        s.desk.rows.KeepsFinal s'.desk.rows := by
  refine ⟨?_, ?_, ?_, ?_⟩
  · rintro overLimit acts s hok hrun ⟨hover, hidle⟩ r
    exact WebSocketEdge.webSocket_rows_end maxMessageBytes accepts overLimit hok hrun hover hidle r
  · rintro isHead hasBody acts s hok hrun ⟨hover, hidle⟩ r
    exact HttpEdge.exchange_rows_end maxReceivedBytes isHead hasBody hok hrun hover hidle r
  · exact fun _ _ _ hs => WebSocketEdge.keepsFinal_step hs
  · exact fun _ _ _ hs => HttpEdge.keepsFinal_step hs

def browserCloses : List WebSocketEdge.Act :=
  [WebSocketEdge.Act.created, .created, .created] ++ WebSocketEdge.toOpen ++
    [WebSocketEdge.Act.browserClose (some 1000), .task 0, .task 0, .task 0]

def answered : List HttpEdge.Act :=
  [HttpEdge.Act.created, .created, .created, .attached true, .openResult ⟨true, some 200⟩, .resumed,
    .recorded, .recorded, .recorded, .data 5 true false true, .streamClose true] ++
    List.replicate 6 (HttpEdge.Act.task 0)

theorem proxy_rows_end_closes :
    (∃ s, Runs.run (WebSocketEdge.step 8 fun _ => true) browserCloses
        (WebSocketEdge.init false) = some s ∧ s.Settled ∧ ∀ r : Row, r.Ended s.desk.rows) ∧
      (∃ s, Runs.run (HttpEdge.step 8) answered (HttpEdge.init false false) = some s ∧
        s.Settled ∧ ∀ r : Row, r.Ended s.desk.rows) ∧
      Rows.KeepsFinal ⟨.offered, .opening⟩ ⟨.offered, .opening⟩ := by
  obtain ⟨hws, hhttp, -, hkeeps⟩ := proxy_rows_end 8 (fun _ => true) 8
  refine ⟨?_, ?_, ?_⟩
  · obtain ⟨s, hs, hsettled⟩ := @Runs.exists_end _ _ (WebSocketEdge.step 8 fun _ => true)
      (fun s => s.Settled) _ browserCloses (WebSocketEdge.init false) (by decide)
    exact ⟨s, hs, hsettled,
      hws false browserCloses s (by decide) hs hsettled⟩
  · obtain ⟨s, hs, hsettled⟩ := @Runs.exists_end _ _ (HttpEdge.step 8) (fun s => s.Settled) _
      answered (HttpEdge.init false false) (by decide)
    exact ⟨s, hs, hsettled, hhttp false false answered s (by decide) hs hsettled⟩
  · exact hkeeps (HttpEdge.init false false) .created _ rfl

def daemonCloses : List WebSocketEdge.Act :=
  [WebSocketEdge.Act.created, .created, .created] ++ WebSocketEdge.toOpen ++
    [WebSocketEdge.Act.daemonClose, .task 0, .task 0, .task 0]

/-- A request that is idle for too long after it has been opened. -/
def idles : List HttpEdge.Act :=
  [.created, .created, .created, .attached true, .openResult ⟨true, some 200⟩, .resumed,
    .recorded, .recorded, .recorded, .limit false, .limitReset, .task 0, .task 0, .task 0]

/-- **Some rows never end.** After the daemon has closed a WebSocket its operation is still running
and its stream open, and a request that was reset for its idle time is still running, with nothing
pending. -/
theorem proxy_rows_left :
    (∃ s, Runs.run (WebSocketEdge.step 8 fun _ => true) daemonCloses
        (WebSocketEdge.init false) = some s ∧ s.Settled ∧
          s.desk.rows = ⟨.running, .opened⟩ ∧ ¬ Row.Ended .operation s.desk.rows) ∧
      ∃ s, Runs.run (HttpEdge.step 8) idles (HttpEdge.init false false) = some s ∧
        s.Settled ∧ s.desk.rows = ⟨.running, .reset⟩ ∧ ¬ Row.Ended .operation s.desk.rows := by
  constructor
  all_goals exact Runs.exists_end (by decide)

end Bud.Proxy
