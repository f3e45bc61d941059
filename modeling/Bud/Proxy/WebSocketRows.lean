import Bud.Proxy.WebSocketMessages

/-!
# The rows of a proxied WebSocket

Whether the rows of a proxied WebSocket end depends on which way the session is closed, and when.
The browser's close always ends them: an operation may be canceled from any live state. A close by
the service ends them as long as the daemon has not accepted the connection, when the operation is
still offered and is rejected, and again once it is open, when it fails. In between, while the
opening is being recorded, the rejection that is asked for comes too late. A close that goes past
the edge (`closeProxyWebSocketRuntimeSessionsForSite`, a message that is too large, a frame that the
carrier refuses) starts no task at all, and `transitionSuccess` asks for transitions that are never
allowed: `opening → closed` and `offered → succeeded`. These end the rows only if the handler is
still waiting for the daemon, because then it fails and records that.
-/

namespace Bud.Proxy

namespace WebSocketEdge

open Settling List Runs

/-- The handler is waiting for the daemon, and what it is going to find is not an acceptance. -/
def Phase.awaitingOpen : Phase → Bool
  | .waiting (.resolved true) => false
  | .waiting _ => true
  | _ => false

/-- The audit of the opening is the next thing the handler waits for. -/
def Phase.auditing : Phase → Bool
  | .recording (.audit :: _) => true
  | _ => false

/-- If the step closes the session, the end is one that is going to be recorded. -/
def RecordsEnd (maxMessageBytes : ℕ) (accepts : ℕ → Bool) (s : Session) : Act → Prop
  | .browserMessage message =>
    s.listening = false ∨
      if s.daemonOpen then message.data.length ≤ maxMessageBytes ∧ accepts s.attempts = true
      else message.data.length ≤ maxMessageBytes ∧
          s.pendingBrowserMessages.length < maxPendingBrowserMessages ∨
        s.phase.awaitingOpen = true
  | .recorded =>
    s.completed = false → s.phase.auditing = true →
      ∀ i < s.pendingBrowserMessages.length, accepts (s.attempts + i) = true
  | .rejected | .createdExpired => False
  | .daemonMessage byteLength =>
    byteLength ≤ maxMessageBytes ∨ s.browserGone = true ∨ s.phase.awaitingOpen = true
  | .daemonClose | .siteDisabled => s.phase.awaitingOpen = true
  | .daemonError | .siteExpired | .carrierReset =>
    s.phase.awaitingOpen = true ∨ s.phase = .opened
  | _ => True

instance (maxMessageBytes : ℕ) (accepts : ℕ → Bool) (s : Session) :
    ∀ a : Act, Decidable (RecordsEnd maxMessageBytes accepts s a)
  | .browserMessage _ => inferInstanceAs (Decidable (_ ∨ ite _ (_ ∧ _) (_ ∧ _ ∨ _)))
  | .recorded => inferInstanceAs (Decidable (_ = _ → _ = _ → ∀ i < _, accepts (_ + i) = true))
  | .rejected | .createdExpired => inferInstanceAs (Decidable False)
  | .daemonMessage _ => inferInstanceAs (Decidable (_ ∨ _ ∨ _))
  | .daemonClose | .siteDisabled => inferInstanceAs (Decidable (_ = _))
  | .daemonError | .siteExpired | .carrierReset => inferInstanceAs (Decidable (_ ∨ _))
  | .browserClose _ | .created | .openTimeout | .resumed | .openResult _ | .idleTimeout
  | .strayReset | .strayClose | .task _ | .markOperationUnknown | .markStreamUnknown =>
    inferInstanceAs (Decidable True)

/-- The handler has returned and no task is pending. -/
def Session.Idle (s : Session) : Prop :=
  (s.phase = .opened ∨ s.phase = .ended) ∧ s.desk.tasks = []

/-! ### What the session's steps leave of the desk -/

variable {maxMessageBytes : ℕ} {accepts : ℕ → Bool}

@[grind =] theorem desk_sendDaemonFrame (s : Session) (frame : Frame) :
    (sendDaemonFrame accepts s frame).1.desk = s.desk := by
  rw [sendDaemonFrame]
  split <;> rfl

@[grind =] theorem desk_rejectOpen (s : Session) : (rejectOpen s).desk = s.desk := by
  rw [rejectOpen]
  split <;> rfl

@[grind =] theorem desk_runtimeCloseFromService (s : Session) (code : String) (closeCode : ℕ) :
    (runtimeCloseFromService accepts s code closeCode).desk = s.desk := by
  rw [runtimeCloseFromService]
  split
  · rfl
  · show (rejectOpen _).desk = s.desk
    rw [desk_rejectOpen, desk_sendDaemonFrame, desk_sendDaemonFrame]

@[grind =] theorem desk_abortFromBrowser (s : Session) (code : Option ℕ) :
    (abortFromBrowser accepts s code).desk = s.desk := by
  rw [abortFromBrowser]
  split
  · rfl
  · show (rejectOpen _).desk = s.desk
    rw [desk_rejectOpen, desk_sendDaemonFrame]

@[grind =] theorem desk_sendBrowserMessage (s : Session) (message : Message) :
    (sendBrowserMessage maxMessageBytes accepts s message).1.desk = s.desk := by
  have hsend := @desk_sendDaemonFrame accepts s (.browserMessage message)
  rw [sendBrowserMessage]
  split
  · rfl
  · split
    · exact desk_runtimeCloseFromService s _ _
    · split
      · next hs =>
        rw [hs] at hsend
        exact hsend
      · next hs =>
        rw [hs] at hsend
        exact hsend

@[grind =] theorem desk_flush (messages : List Message) (s : Session) :
    (flush maxMessageBytes accepts messages s).desk = s.desk := by
  induction messages generalizing s with
  | nil => rfl
  | cons message messages ih =>
    have hsend := @desk_sendBrowserMessage maxMessageBytes accepts s message
    rw [flush]
    split
    · next hs =>
      rw [hs] at hsend
      rw [ih]
      exact hsend
    · next hs =>
      rw [hs] at hsend
      exact hsend

/-! ### No row leaves a final state -/

@[grind =] theorem rows_start (s : Session) (task : List Update) :
    (s.start task).desk.rows = s.desk.rows := rfl

@[grind =] theorem rows_afterOpen (s : Session) (result : OpenPromise) :
    (afterOpen accepts s result).desk.rows = s.desk.rows := by
  cases result <;> grind [afterOpen, closeFromService]

theorem rows_step (hs : step maxMessageBytes accepts s a = some s') :
    s.desk.RowsGo s'.desk := by
  cases a with
  | recorded =>
    rw [step] at hs
    split at hs
    · next await awaits hp =>
      cases hs
      cases await with
      | update u => exact .inr (.inl ⟨u, rfl⟩)
      | audit => exact .inl (congrArg Desk.rows (desk_flush _ _))
    · cases hs
  | task k =>
    obtain ⟨desk, hdesk, rfl⟩ := Option.map_eq_some_iff.mp hs
    exact .inr (.inr (.inl ⟨k, hdesk⟩))
  | markOperationUnknown =>
    cases hs
    exact .inr (.inr (.inr (.inl rfl)))
  | markStreamUnknown =>
    cases hs
    exact .inr (.inr (.inr (.inr rfl)))
  | _ =>
    left
    grind [step, onBrowserMessage, onBrowserClose, attach, attachExpired,
      handleOpenResult, handleDaemonClose, handleDaemonError, onReset, closeFromService, finish]

theorem keepsFinal_step (hs : step maxMessageBytes accepts s a = some s') :
    s.desk.rows.KeepsFinal s'.desk.rows :=
  (rows_step hs).keepsFinal

/-! ### The invariant -/

def Session.Covered (s : Session) : Prop := ∀ r, s.desk.Covered r

/-- The handler has yet to attach its listeners. -/
def Phase.Early (phase : Phase) : Prop :=
  (∃ n, phase = .creating n) ∨ phase = .denying ∨ phase = .denied

structure RowInv (maxMessageBytes : ℕ) (s : Session) : Prop where
  sound : s.desk.Sound
  listening : s.listening = true → s.completed = false
  attached : s.phase.Opening ∨ s.phase = .opened → s.completed = true ∨ s.listening = true
  fits : ∀ message ∈ s.pendingBrowserMessages, message.data.length ≤ maxMessageBytes
  early : s.phase.Early → s.completed = false ∧ s.listening = false ∧ s.desk.Unopened .operation
  waiting : ∀ promise, s.phase = .waiting promise → s.desk.Unopened .operation
  recording : ∀ awaits, s.phase = .recording awaits →
    (∀ u, .update u ∈ awaits → u.Forward) ∧
      (awaits = recordOpen ∨ 1 ≤ s.desk.rows.operation.rank)
  opened : s.phase = .opened → s.daemonOpen = true ∧ 1 ≤ s.desk.rows.operation.rank
  daemonOpen : s.daemonOpen = true → s.phase = .opened
  ended : s.phase = .ended →
    s.listening = false ∧ s.desk.Covered .stream ∧ s.desk.Lands .operation
  done : s.completed = true → s.phase.awaitingOpen = false → s.phase ≠ .ended → s.Covered
  closed : s.browserClosed = true → s.completed = true ∧ s.Covered
  threw : s.phase ≠ .threw

theorem RowInv.rows_end (h : RowInv maxMessageBytes s)
    (hover : s.completed = true ∨ s.phase = .ended) (hidle : s.Idle) (r : Row) :
    r.Ended s.desk.rows := by
  obtain ⟨hphase, htasks⟩ := hidle
  have hcovered : ∀ r, s.desk.Covered r → r.Ended s.desk.rows := by
    rintro r (hr | ⟨task, hmem, -⟩)
    · exact hr
    · rw [htasks] at hmem
      exact absurd hmem not_mem_nil
  rcases hphase with hp | hp
  · have hc : s.completed = true := hover.resolve_right (by rw [hp]; nofun)
    exact hcovered r (h.done hc (by rw [hp]; rfl) (by rw [hp]; nofun) r)
  · obtain ⟨-, hstream, hlands⟩ := h.ended hp
    cases r with
    | stream => exact hcovered _ hstream
    | operation =>
      rcases hlands with hlands | ⟨-, task, hmem, -⟩
      · exact hcovered _ hlands
      · rw [htasks] at hmem
        exact absurd hmem not_mem_nil

theorem rowInv_init (maxMessageBytes : ℕ) (overLimit : Bool) :
    RowInv maxMessageBytes (init overLimit) where
  sound := ⟨nofun, nofun⟩
  listening := nofun
  attached := by cases overLimit <;> simp [init, Phase.Opening]
  fits := nofun
  early _ := ⟨rfl, rfl, .inl rfl⟩
  waiting promise hp := by cases overLimit <;> cases hp
  recording awaits hp := by cases overLimit <;> cases hp
  opened hp := by cases overLimit <;> cases hp
  daemonOpen := nofun
  ended hp := by cases overLimit <;> cases hp
  done := nofun
  closed := nofun
  threw hp := by cases overLimit <;> cases hp

/-! ### The tasks -/

theorem forward_transitionOpenFailure (s : Session) (reason : Reason) :
    ∀ u ∈ transitionOpenFailure s reason, u.Forward := by
  intro u hu
  rw [transitionOpenFailure] at hu
  rcases mem_cons.mp hu with rfl | hu
  · decide
  · rw [mem_singleton.mp hu]
    split
    · decide
    · split <;> decide

theorem not_opens_transitionOpenFailure (s : Session) (reason : Reason) (r : Row) :
    ¬ Opens r (transitionOpenFailure s reason) := by
  rw [transitionOpenFailure]
  split
  · cases r <;> decide
  · split <;> cases r <;> decide

theorem forward_recordOpen : ∀ u, .update u ∈ recordOpen → u.Forward := by
  intro u hu
  simp only [recordOpen, mem_cons, Recording.update.injEq, not_mem_nil, or_false,
    reduceCtorEq] at hu
  rcases hu with rfl | rfl | rfl <;> decide

theorem not_opens_transitionSuccess (r : Row) : ¬ Opens r transitionSuccess := by
  cases r <;> decide

/-- The task that records a failed opening can be started at any time. -/
theorem follows_transitionOpenFailure {d : Desk} (h : d.Sound) (s : Session) (reason : Reason) :
    d.Follows (d.start (transitionOpenFailure s reason)) :=
  follows_start h (forward_transitionOpenFailure s reason)
    fun r ho => absurd ho (not_opens_transitionOpenFailure s reason r)

theorem ends_stream_transitionOpenFailure (rows : Rows) (s : Session) (reason : Reason) :
    Ends .stream (transitionOpenFailure s reason) rows :=
  ends_reset (forward_transitionOpenFailure s reason) (mem_cons_self ..) rows

theorem ends_transitionOpenFailure_canceled (rows : Rows) (s : Session) :
    Ends .operation (transitionOpenFailure s .canceled) rows :=
  ends_canceled (forward_transitionOpenFailure s .canceled)
    (mem_cons_of_mem _ (mem_singleton_self _)) rows

/-- Before the daemon is open it is a rejection. -/
theorem reject_mem_transitionOpenFailure (hd : s.daemonOpen = false) (hr : reason ≠ .canceled) :
    reject ∈ transitionOpenFailure s reason := by
  rw [transitionOpenFailure, if_neg hr, if_neg (by simp [hd])]
  exact mem_cons_of_mem _ (mem_singleton_self _)

/-! ### Closing the session -/

/-- Closing while the handler is waiting for the daemon: it is going to fail, and record that. -/
theorem RowInv.closing_awaiting (h : RowInv maxMessageBytes s) (hp : s.phase.awaitingOpen = true)
    (hc : Closing s s') (hf : s.desk.Follows s'.desk) : RowInv maxMessageBytes s' := by
  obtain ⟨promise, hpromise⟩ : ∃ promise, s.phase = .waiting promise := by
    cases hphase : s.phase with
    | waiting promise => exact ⟨promise, rfl⟩
    | _ => rw [hphase] at hp; cases hp
  have hd : s'.daemonOpen = false := by
    rw [hc.quiet.daemonOpen]
    by_contra hd
    exact absurd (hpromise.symm.trans (h.daemonOpen (by simpa using hd))) nofun
  obtain ⟨promise', hpromise', hawaiting⟩ : ∃ promise', s'.phase = .waiting promise' ∧
      s'.phase.awaitingOpen = true := by
    rcases hc.phase with hp' | ⟨-, hp'⟩
    · exact ⟨promise, hp'.trans hpromise, by rw [hp']; exact hp⟩
    · exact ⟨.rejected, hp', by rw [hp']; rfl⟩
  refine ⟨hf.sound, fun hl => absurd hl (by simp [hc.listening]), fun _ => .inl hc.completed, ?_,
    ?_, fun _ _ => hf.unopened _ (h.waiting promise hpromise), ?_, ?_, ?_, ?_, ?_, ?_, ?_⟩
  · rw [hc.quiet.pending]
    exact h.fits
  · rw [hpromise']
    rintro (⟨n, hn⟩ | hn | hn) <;> cases hn
  · exact fun awaits hr => absurd (hpromise'.symm.trans hr) nofun
  · exact fun ho => absurd (hpromise'.symm.trans ho) nofun
  · exact fun ho => absurd ho (by simp [hd])
  · exact fun he => absurd (hpromise'.symm.trans he) nofun
  · exact fun _ hn => absurd (hawaiting.symm.trans hn) nofun
  · rw [hc.quiet.browserClosed]
    exact fun hb => ⟨hc.completed, fun r => hf.covered r ((h.closed hb).2 r)⟩
  · exact fun ht => absurd (hpromise'.symm.trans ht) nofun

/-- Closing with a task that is sure to end both rows. -/
theorem RowInv.closing_covered (h : RowInv maxMessageBytes s) (hl : s.listening = true)
    (hcompleted : s'.completed = true) (hlistening : s'.listening = false)
    (hphase : SamePhase s.phase s'.phase)
    (hpending : s'.pendingBrowserMessages = s.pendingBrowserMessages)
    (hdaemon : s'.daemonOpen = s.daemonOpen) (hrows : s'.desk.rows = s.desk.rows)
    (hsound : s'.desk.Sound) (hcovered : s'.Covered) : RowInv maxMessageBytes s' := by
  have hearly : ¬ s.phase.Early := fun he => by
    have := (h.early he).2.1
    rw [hl] at this
    cases this
  have hended : s.phase ≠ .ended := fun he => by
    have := (h.ended he).1
    rw [hl] at this
    cases this
  have hcases : s'.phase = s.phase ∨ s'.phase = .waiting .rejected ∧ s.phase = .waiting .pending :=
    hphase.imp_right fun hp => ⟨hp.2, hp.1⟩
  refine ⟨hsound, fun hl' => absurd hl' (by simp [hlistening]), fun _ => .inl hcompleted, ?_, ?_,
    fun _ _ => .inr (hcovered _), ?_, ?_, ?_, ?_, fun _ _ _ => hcovered,
    fun _ => ⟨hcompleted, hcovered⟩, ?_⟩
  · rw [hpending]
    exact h.fits
  · intro he
    rcases hcases with hp | ⟨hp, -⟩
    · rw [hp] at he
      exact absurd he hearly
    · rw [hp] at he
      rcases he with ⟨n, hn⟩ | hn | hn <;> cases hn
  · intro awaits hr
    rcases hcases with hp | ⟨hp, -⟩
    · rw [hrows]
      exact h.recording awaits (hp ▸ hr)
    · exact absurd (hp.symm.trans hr) nofun
  · intro ho
    rcases hcases with hp | ⟨hp, -⟩
    · rw [hdaemon, hrows]
      exact h.opened (hp ▸ ho)
    · exact absurd (hp.symm.trans ho) nofun
  · rw [hdaemon]
    intro hd
    rcases hcases with hp | ⟨-, hp⟩
    · rw [hp]
      exact h.daemonOpen hd
    · exact absurd (hp.symm.trans (h.daemonOpen hd)) nofun
  · intro he
    rcases hcases with hp | ⟨hp, -⟩
    · exact absurd (hp ▸ he) hended
    · exact absurd (hp.symm.trans he) nofun
  · intro ht
    rcases hcases with hp | ⟨hp, -⟩
    · exact h.threw (hp ▸ ht)
    · exact absurd (hp.symm.trans ht) nofun

/-- A failure that is recorded once the session is open ends both rows. -/
theorem RowInv.closing_opened (h : RowInv maxMessageBytes s) (hl : s.listening = true)
    (hp : s.phase = .opened) (hc : Closing s s') (hdesk : s'.desk = s.desk.start task)
    (hf : ∀ u ∈ task, u.Forward) (ho : ∀ r, ¬ Opens r task)
    (hreset : .stream liveStreamStates .reset ∈ task)
    (hfailed : .operation [.accepted, .running] .failed ∈ task) : RowInv maxMessageBytes s' := by
  refine h.closing_covered hl hc.completed hc.listening hc.phase hc.quiet.pending
    hc.quiet.daemonOpen (by rw [hdesk]; rfl) ?_ ?_
  · rw [hdesk]
    exact h.sound.start hf fun r hopens => absurd hopens (ho r)
  · rw [Session.Covered, hdesk]
    rintro (- | -)
    · exact covered_start (ends_failed (h.opened hp).2 hf hfailed)
    · exact covered_start (ends_reset hf hreset _)

/-- The handler returns early, with the task that rejects the operation started. -/
theorem rowInv_closeFromService_ended {s : Session} (hsound : s.desk.Sound)
    (hlistening : s.completed = true → s.listening = false) (hd : s.daemonOpen = false)
    (hfits : ∀ message ∈ s.pendingBrowserMessages, message.data.length ≤ maxMessageBytes)
    (hclosed : s.browserClosed = true → s.completed = true ∧ s.Covered)
    (hunopened : s.desk.Unopened .operation) {reason : Reason} (hr : reason ≠ .canceled)
    (code : String)
    (closeCode : ℕ) :
    RowInv maxMessageBytes
      { closeFromService accepts s reason code closeCode with phase := .ended } := by
  have hquiet : Quiet s (runtimeCloseFromService accepts s code closeCode) ∧
      (runtimeCloseFromService accepts s code closeCode).completed = true ∧
      (runtimeCloseFromService accepts s code closeCode).listening = false := by
    by_cases hc : s.completed = true
    · rw [runtimeCloseFromService, if_pos hc]
      exact ⟨⟨rfl, rfl, rfl, rfl, rfl, rfl⟩, hc, hlistening hc⟩
    · have := closing_runtimeCloseFromService (by simpa using hc) accepts code closeCode
      exact ⟨this.quiet, this.completed, this.listening⟩
  obtain ⟨hq, hcompleted, hl⟩ := hquiet
  have hdaemon : (runtimeCloseFromService accepts s code closeCode).daemonOpen = false :=
    hq.daemonOpen.trans hd
  have hdesk : (closeFromService accepts s reason code closeCode).desk = s.desk.start
        (transitionOpenFailure (runtimeCloseFromService accepts s code closeCode) reason) := by
    show (runtimeCloseFromService accepts s code closeCode).desk.start _ = _
    rw [desk_runtimeCloseFromService]
  have hf := @follows_transitionOpenFailure _ hsound
    (runtimeCloseFromService accepts s code closeCode) reason
  refine ⟨?_, ?_, ?_, ?_, ?_, (by rintro _ ⟨⟩), (by rintro _ ⟨⟩), (by rintro ⟨⟩), ?_, ?_, ?_, ?_,
    (by rintro ⟨⟩)⟩
  · show (closeFromService accepts s reason code closeCode).desk.Sound
    rw [hdesk]
    exact hf.sound
  · exact fun hl' => absurd (hl.symm.trans hl') Bool.false_ne_true
  · exact fun _ => .inl hcompleted
  · show ∀ message ∈ (runtimeCloseFromService accepts s code closeCode).pendingBrowserMessages, _
    rw [hq.pending]
    exact hfits
  · rintro (⟨n, hn⟩ | hn | hn) <;> cases hn
  · exact fun hd' => absurd (hdaemon.symm.trans hd') Bool.false_ne_true
  · intro _
    refine ⟨hl, ?_, ?_⟩
    · show (closeFromService accepts s reason code closeCode).desk.Covered _
      rw [hdesk]
      exact covered_start (ends_stream_transitionOpenFailure _ _ _)
    · show (closeFromService accepts s reason code closeCode).desk.Lands .operation
      rw [hdesk]
      exact lands_start hunopened (reject_mem_transitionOpenFailure hdaemon hr)
  · exact fun _ _ hn => absurd rfl hn
  · intro hb
    have hb' : s.browserClosed = true := hq.browserClosed.symm.trans hb
    refine ⟨hcompleted, fun r => ?_⟩
    show (closeFromService accepts s reason code closeCode).desk.Covered r
    rw [hdesk]
    exact hf.covered r ((hclosed hb').2 r)

/-! ### Steps that leave the session open -/

/-- Only the desk has changed, and not by the handler. -/
theorem RowInv.follow (h : RowInv maxMessageBytes s) (hf : s.desk.Follows d) :
    RowInv maxMessageBytes { s with desk := d } where
  sound := hf.sound
  listening := h.listening
  attached := h.attached
  fits := h.fits
  early he := ⟨(h.early he).1, (h.early he).2.1, hf.unopened _ (h.early he).2.2⟩
  waiting promise hp := hf.unopened _ (h.waiting promise hp)
  recording awaits hr :=
    ⟨(h.recording awaits hr).1, (h.recording awaits hr).2.imp_right fun hrank =>
      hrank.trans hf.rows.1⟩
  opened hp := ⟨(h.opened hp).1, (h.opened hp).2.trans hf.rows.1⟩
  daemonOpen := h.daemonOpen
  ended hp := ⟨(h.ended hp).1, hf.covered _ (h.ended hp).2.1, hf.lands _ (h.ended hp).2.2⟩
  done hc hw he r := hf.covered r (h.done hc hw he r)
  closed hb := ⟨(h.closed hb).1, fun r => hf.covered r ((h.closed hb).2 r)⟩
  threw := h.threw

theorem RowInv.settle (h : RowInv maxMessageBytes s) (hp : s.phase = .waiting .pending)
    (hs : s.completed = false ∨ (Phase.waiting promise).awaitingOpen = true) :
    RowInv maxMessageBytes { s with phase := .waiting promise } where
  sound := h.sound
  listening := h.listening
  attached _ := h.attached (.inl (.inl ⟨_, hp⟩))
  fits := h.fits
  early := by rintro (⟨n, hn⟩ | hn | hn) <;> cases hn
  waiting _ _ := h.waiting _ hp
  recording := nofun
  opened := nofun
  daemonOpen hd := absurd (hp.symm.trans (h.daemonOpen hd)) nofun
  ended := nofun
  done hc hw _ := by
    rcases hs with hs | hs
    · exact absurd (hs.symm.trans hc) nofun
    · exact absurd (hs.symm.trans hw) nofun
  closed := h.closed
  threw := nofun

theorem RowInv.frames (h : RowInv maxMessageBytes s) (frames : List Frame) (attempts : ℕ) :
    RowInv maxMessageBytes
      { s with
        frames := frames
        attempts := attempts } :=
  { h with }

variable {message : Message}

theorem sendBrowserMessage_accepted (hc : s.completed = false)
    (hfits : message.data.length ≤ maxMessageBytes) (ha : accepts s.attempts = true) :
    sendBrowserMessage maxMessageBytes accepts s message = ({ s with
          frames := s.frames ++ [.browserMessage message]
          attempts := s.attempts + 1 }, true) := by
  rw [sendBrowserMessage, if_neg (by simp [hc]), if_neg (Nat.not_lt.mpr hfits), sendDaemonFrame,
    if_pos ha]

theorem flush_accepted (messages : List Message) {s : Session} (hc : s.completed = false)
    (hfits : ∀ message ∈ messages, message.data.length ≤ maxMessageBytes)
    (ha : ∀ i < messages.length, accepts (s.attempts + i) = true) :
    ∃ frames attempts, flush maxMessageBytes accepts messages s =
      { s with
        idleTimer := true
        frames := frames
        attempts := attempts } := by
  induction messages generalizing s with
  | nil => exact ⟨s.frames, s.attempts, rfl⟩
  | cons message messages ih =>
    rw [flush, sendBrowserMessage_accepted hc (hfits message (mem_cons_self ..))
      (ha 0 (Nat.succ_pos _))]
    have hnext : ∀ i < messages.length, accepts (s.attempts + 1 + i) = true := by
      intro i hi
      rw [Nat.add_assoc, Nat.add_comm 1 i]
      exact ha (i + 1) (Nat.succ_lt_succ hi)
    exact @ih { s with
      frames := s.frames ++ [.browserMessage message]
      attempts := s.attempts + 1 } hc (fun m hm => hfits m (mem_cons_of_mem _ hm)) hnext

variable {awaits : List Recording}

theorem RowInv.open (h : RowInv maxMessageBytes s) (hp : s.phase = .recording (.audit :: awaits)) :
    RowInv maxMessageBytes
      { s with
        daemonOpen := true
        pendingBrowserMessages := []
        phase := .opened } where
  sound := h.sound
  listening := h.listening
  attached _ := h.attached (.inl (.inr ⟨_, hp⟩))
  fits := nofun
  early := by rintro (⟨n, hn⟩ | hn | hn) <;> cases hn
  waiting := nofun
  recording := nofun
  opened _ := ⟨rfl, (h.recording _ hp).2.resolve_left nofun⟩
  daemonOpen _ := rfl
  ended := nofun
  done hc _ _ := h.done hc (by rw [hp]; rfl) (by rw [hp]; nofun)
  closed := h.closed
  threw := nofun

theorem rowInv_recorded_update (h : RowInv maxMessageBytes s)
    (hp : s.phase = .recording (.update u :: awaits)) : RowInv maxMessageBytes
      { s with
        desk := s.desk.update u
        phase := .recording awaits } := by
  obtain ⟨hforward, hstart⟩ := h.recording _ hp
  have hle : s.desk.rows ≤ s.desk.rows.update u := le_update (hforward u (mem_cons_self ..)) _
  have hcovered : s.Covered → ∀ r, (s.desk.update u).Covered r :=
    fun hc r => (hc r).mono hle fun _ => id
  refine ⟨h.sound.mono hle rfl, h.listening, fun _ => h.attached (.inl (.inr ⟨_, hp⟩)), h.fits, ?_,
    nofun, ?_, nofun, ?_, nofun, ?_, ?_, nofun⟩
  · rintro (⟨n, hn⟩ | hn | hn) <;> cases hn
  · intro awaits' hr
    obtain rfl : awaits = awaits' := by cases hr; rfl
    refine ⟨fun v hv => hforward v (mem_cons_of_mem _ hv), .inr ?_⟩
    rcases hstart with hstart | hrank
    · -- the first of them accepts an operation that is offered
      cases hstart
      exact rank_accepted s.desk.rows
    · exact hrank.trans hle.1
  · exact fun hd => absurd (hp.symm.trans (h.daemonOpen hd)) nofun
  · intro hc _ _
    exact hcovered (h.done hc (by rw [hp]; rfl) (by rw [hp]; nofun))
  · exact fun hb => ⟨(h.closed hb).1, hcovered (h.closed hb).2⟩

/-! ### One step -/

theorem rowInv_onBrowserMessage (h : RowInv maxMessageBytes s) (hl : s.listening = true)
    (hok : if s.daemonOpen then message.data.length ≤ maxMessageBytes ∧ accepts s.attempts = true
      else message.data.length ≤ maxMessageBytes ∧ s.pendingBrowserMessages.length <
      maxPendingBrowserMessages ∨ s.phase.awaitingOpen = true) :
    RowInv maxMessageBytes (onBrowserMessage maxMessageBytes accepts s message) := by
  have hc := h.listening hl
  have hclose : ∀ reason code closeCode, s.phase.awaitingOpen = true →
      RowInv maxMessageBytes (closeFromService accepts s reason code closeCode) := by
    intro reason code closeCode hp
    refine h.closing_awaiting hp (closing_closeFromService hc accepts reason code closeCode) ?_
    show s.desk.Follows ((runtimeCloseFromService accepts s code closeCode).desk.start _)
    rw [desk_runtimeCloseFromService]
    exact follows_transitionOpenFailure h.sound _ reason
  rw [onBrowserMessage]
  by_cases hd : s.daemonOpen = true
  · rw [if_pos hd] at hok ⊢
    rw [sendBrowserMessage_accepted hc hok.1 hok.2]
    exact h.frames _ _
  · rw [if_neg hd] at hok ⊢
    split
    · next hsize => exact hclose _ _ _ (hok.resolve_left fun hfits => absurd hfits.1
        (Nat.not_le.mpr hsize))
    · next hsize =>
      split
      · next hfull => exact hclose _ _ _ (hok.resolve_left fun hfits => absurd hfits.2
          (Nat.not_lt.mpr hfull))
      · refine { h with fits := ?_ }
        exact forall_mem_append.mpr ⟨h.fits, forall_mem_singleton.mpr (Nat.not_lt.mp hsize)⟩

theorem rowInv_closeFromService {s : Session} (h : RowInv maxMessageBytes s)
    (hl : s.listening = true) (hp : s.phase.awaitingOpen = true ∨ s.phase = .opened)
    {reason : Reason} (hr : reason ≠ .canceled) (code : String) (closeCode : ℕ) {rest : List Update}
    (hrest : ∀ u ∈ rest, u = .stream liveStreamStates .reset) :
    RowInv maxMessageBytes ((runtimeCloseFromService accepts s code closeCode).start
      (transitionOpenFailure (runtimeCloseFromService accepts s code closeCode) reason ++
        rest)) := by
  have hclosing := closing_runtimeCloseFromService (h.listening hl) accepts code closeCode
  have hf : ∀ t : Session, ∀ u ∈ transitionOpenFailure t reason ++ rest, u.Forward := by
    intro t u hu
    rcases mem_append.mp hu with hu | hu
    · exact forward_transitionOpenFailure _ _ u hu
    · rw [hrest u hu]
      decide
  have ho : ∀ (t : Session) (r : Row), ¬ Opens r (transitionOpenFailure t reason ++ rest) := by
    rintro t r ⟨u, hu, ho⟩
    rcases mem_append.mp hu with hu | hu
    · exact not_opens_transitionOpenFailure _ _ r ⟨u, hu, ho⟩
    · rw [hrest u hu] at ho
      cases r <;> exact absurd ho (by decide)
  rcases hp with hp | hp
  · refine h.closing_awaiting hp (hclosing.start _) ?_
    show s.desk.Follows ((runtimeCloseFromService accepts s code closeCode).desk.start _)
    rw [desk_runtimeCloseFromService]
    exact follows_start h.sound (hf _) fun r hopens => absurd hopens (ho _ r)
  · have hdesk := @desk_runtimeCloseFromService accepts s code closeCode
    have hopen : (runtimeCloseFromService accepts s code closeCode).daemonOpen = true :=
      hclosing.quiet.daemonOpen.trans (h.opened hp).1
    refine h.closing_opened hl hp (hclosing.start _) (congrArg (Desk.start · _) hdesk) (hf _) (ho _)
      (mem_append_left _ (mem_cons_self ..)) (mem_append_left _ ?_)
    rw [transitionOpenFailure, if_neg hr, if_pos hopen]
    exact mem_cons_of_mem _ (mem_singleton_self _)

theorem rowInv_handleDaemonError (h : RowInv maxMessageBytes s) (hl : s.listening = true)
    (hp : s.phase.awaitingOpen = true ∨ s.phase = .opened) :
    RowInv maxMessageBytes (handleDaemonError s) := by
  have hc := h.listening hl
  have hclosing := closing_handleDaemonError hc
  have hdesk : (handleDaemonError s).desk =
      s.desk.start (transitionOpenFailure s .remoteError) := by
    rw [handleDaemonError, if_neg (by simp [hc])]
    show (rejectOpen s).desk.start _ = _
    rw [desk_rejectOpen]
  rcases hp with hp | hp
  · refine h.closing_awaiting hp hclosing ?_
    rw [hdesk]
    exact follows_transitionOpenFailure h.sound s .remoteError
  · refine h.closing_opened hl hp hclosing hdesk (forward_transitionOpenFailure s _)
      (not_opens_transitionOpenFailure s _) (mem_cons_self ..) ?_
    rw [transitionOpenFailure, if_neg (by decide), if_pos (h.opened hp).1]
    exact mem_cons_of_mem _ (mem_singleton_self _)

theorem rowInv_onBrowserClose (h : RowInv maxMessageBytes s) (hl : s.listening = true)
    (code : Option ℕ) : RowInv maxMessageBytes (onBrowserClose accepts s code) := by
  have hclosing := @closing_abortFromBrowser { s with browserClosed := true } (h.listening hl)
    accepts code
  have hdesk : (abortFromBrowser accepts { s with browserClosed := true } code).desk = s.desk :=
    desk_abortFromBrowser _ code
  have hrows : (onBrowserClose accepts s code).desk.rows = s.desk.rows := by
    show (abortFromBrowser accepts _ code).desk.rows = s.desk.rows
    rw [hdesk]
  refine h.closing_covered hl hclosing.completed hclosing.listening hclosing.phase
    hclosing.quiet.pending hclosing.quiet.daemonOpen hrows ?_ ?_
  · show ((abortFromBrowser accepts _ code).desk.start _).Sound
    rw [hdesk]
    exact (follows_transitionOpenFailure h.sound _ _).sound
  · intro r
    show ((abortFromBrowser accepts _ code).desk.start _).Covered r
    cases r with
    | operation => exact covered_start (ends_transitionOpenFailure_canceled _ _)
    | stream => exact covered_start (ends_stream_transitionOpenFailure _ _ _)

theorem rowInv_attach (h : RowInv maxMessageBytes s) (hp : s.phase = .creating 1) :
    RowInv maxMessageBytes (attach accepts s) := by
  obtain ⟨hc, -, hunopened⟩ := h.early (.inl ⟨1, hp⟩)
  have hd := daemonOpen_eq_false h.daemonOpen (by rw [hp]; nofun)
  have hb : s.browserClosed = false := by
    by_contra hb
    exact absurd (hc.symm.trans (h.closed (by simpa using hb)).1) nofun
  rw [attach, sendDaemonFrame]
  by_cases ha : accepts s.attempts = true
  · rw [if_pos ha]
    exact ⟨h.sound, fun _ => hc, fun _ => .inr rfl, h.fits,
      (by rintro (⟨n, hn⟩ | hn | hn) <;> cases hn), fun _ _ => hunopened, (by rintro _ ⟨⟩),
      (by rintro ⟨⟩), fun hd' => absurd (hd.symm.trans hd') Bool.false_ne_true, (by rintro ⟨⟩),
      fun hc' => absurd (hc.symm.trans hc') Bool.false_ne_true,
      fun hb' => absurd (hb.symm.trans hb') Bool.false_ne_true, (by rintro ⟨⟩)⟩
  · rw [if_neg ha]
    refine @rowInv_closeFromService_ended maxMessageBytes accepts
      { s with
        listening := true
        attempts := s.attempts + 1 } h.sound ?_ hd h.fits ?_ hunopened .transportLost
      (by decide) _ _
    · exact fun hc' => absurd (hc.symm.trans hc') Bool.false_ne_true
    · exact fun hb' => absurd (hb.symm.trans hb') Bool.false_ne_true

theorem rowInv_afterOpen (h : RowInv maxMessageBytes s) (hp : s.phase = .waiting result)
    (hresult : result ≠ .pending) : RowInv maxMessageBytes (afterOpen accepts s result) := by
  have hd := daemonOpen_eq_false h.daemonOpen (by rw [hp]; nofun)
  have hlistening : s.completed = true → s.listening = false := by
    intro hc
    by_contra hl
    exact absurd (hc.symm.trans (h.listening (by simpa using hl))) nofun
  have hclose : ∀ reason code closeCode, reason ≠ .canceled →
      RowInv maxMessageBytes
        { closeFromService accepts s reason code closeCode with phase := .ended } :=
    fun reason code closeCode hr => rowInv_closeFromService_ended h.sound hlistening hd h.fits
      h.closed (h.waiting result hp) hr code closeCode
  cases result with
  | pending => exact absurd rfl hresult
  | rejected => exact hclose _ _ _ (by decide)
  | resolved accepted =>
    rw [afterOpen]
    split
    · next hb =>
      obtain ⟨hc, hcovered⟩ := h.closed hb
      exact ⟨h.sound, h.listening, fun _ => .inl hc, h.fits,
        (by rintro (⟨n, hn⟩ | hn | hn) <;> cases hn), (by rintro _ ⟨⟩), (by rintro _ ⟨⟩),
        (by rintro ⟨⟩), fun hd' => absurd (hd.symm.trans hd') Bool.false_ne_true,
        fun _ => ⟨hlistening hc, hcovered _, .inl (hcovered _)⟩, fun _ _ hn => absurd rfl hn,
        h.closed, (by rintro ⟨⟩)⟩
    · split
      · next haccepted =>
        refine ⟨h.sound, h.listening, fun _ => h.attached (.inl (.inl ⟨_, hp⟩)), h.fits,
          (by rintro (⟨n, hn⟩ | hn | hn) <;> cases hn), (by rintro _ ⟨⟩), ?_, (by rintro ⟨⟩),
          fun hd' => absurd (hd.symm.trans hd') Bool.false_ne_true, (by rintro ⟨⟩), ?_, h.closed,
          (by rintro ⟨⟩)⟩
        · intro awaits hr
          cases hr
          exact ⟨forward_recordOpen, .inl rfl⟩
        · intro hc _ _
          exact h.done hc (by rw [hp, haccepted]; rfl) (by rw [hp]; rintro ⟨⟩)
      · exact hclose _ _ _ (by decide)

theorem rowInv_recorded (h : RowInv maxMessageBytes s) (hp : s.phase = .recording (await :: awaits))
    (hok : s.completed = false → s.phase.auditing = true → ∀ i < s.pendingBrowserMessages.length,
      accepts (s.attempts + i) = true) :
    RowInv maxMessageBytes (recorded maxMessageBytes accepts s (await :: awaits)) := by
  cases await with
  | update u => exact rowInv_recorded_update h hp
  | audit =>
    rw [recorded]
    by_cases hc : s.completed = true
    · obtain ⟨idleTimer, hflush⟩ := @flush_of_completed maxMessageBytes accepts
        { s with
          daemonOpen := true
          pendingBrowserMessages := []
          phase := .opened } hc s.pendingBrowserMessages
      rw [hflush]
      exact { h.open hp with }
    · have haudit : s.phase.auditing = true := by rw [hp]; rfl
      obtain ⟨frames, attempts, hflush⟩ := @flush_accepted maxMessageBytes accepts
        s.pendingBrowserMessages
        { s with
          daemonOpen := true
          pendingBrowserMessages := []
          phase := .opened }
        (by simpa using hc) h.fits (hok (by simpa using hc) haudit)
      rw [hflush]
      exact { h.open hp with }

theorem rowInv_step (h : RowInv maxMessageBytes s) (hok : RecordsEnd maxMessageBytes accepts s a)
    (hs : step maxMessageBytes accepts s a = some s') : RowInv maxMessageBytes s' := by
  have hruntime : ∀ code closeCode, s.listening = true → s.phase.awaitingOpen = true →
      RowInv maxMessageBytes (runtimeCloseFromService accepts s code closeCode) := by
    intro code closeCode hl hp
    refine h.closing_awaiting hp (closing_runtimeCloseFromService (h.listening hl) _ _ _) ?_
    rw [desk_runtimeCloseFromService]
    exact follows_refl h.sound
  have hservice : ∀ reason code closeCode, reason ≠ .canceled → s.listening = true →
      s.phase.awaitingOpen = true ∨ s.phase = .opened →
      RowInv maxMessageBytes (closeFromService accepts s reason code closeCode) := by
    intro reason code closeCode hr hl hp
    have := @rowInv_closeFromService _ accepts _ h hl hp reason hr code closeCode [] nofun
    rw [append_nil] at this
    exact this
  cases a with
  | browserMessage message =>
    have hreceived : RowInv maxMessageBytes { s with received := s.received ++ [message] } :=
      { h with }
    obtain ⟨-, hs⟩ := Option.ite_none_left_eq_some.mp hs
    dsimp only at hs
    split at hs
    · next hl =>
      cases hs
      exact rowInv_onBrowserMessage hreceived hl (hok.resolve_left (by simp [hl]))
    · cases hs
      exact hreceived
  | browserClose code =>
    have hgone : RowInv maxMessageBytes { s with browserGone := true } :=
      { h with }
    obtain ⟨-, hs⟩ := Option.ite_none_left_eq_some.mp hs
    dsimp only at hs
    split at hs
    · next hl =>
      cases hs
      exact rowInv_onBrowserClose hgone hl code
    · cases hs
      exact hgone
  | created =>
    have hearly : ∀ phase : Phase, s.phase.Early → phase.Early →
        RowInv maxMessageBytes { s with phase := phase } := by
      intro phase he he'
      obtain ⟨hc, hl, hu⟩ := h.early he
      have hd : s.daemonOpen = false := by
        by_contra hd
        have := h.daemonOpen (by simpa using hd)
        rw [this] at he
        rcases he with ⟨n, hn⟩ | hn | hn <;> cases hn
      rcases he' with ⟨n, rfl⟩ | rfl | rfl
      all_goals
        exact ⟨h.sound, h.listening, (by rintro ((⟨promise, hp⟩ | ⟨awaits, hp⟩) | hp) <;> cases hp),
          h.fits, fun _ => ⟨hc, hl, hu⟩, nofun, nofun, nofun,
          fun hd' => absurd (hd.symm.trans hd') nofun, nofun,
          fun hc' => absurd (hc.symm.trans hc') nofun, h.closed, nofun⟩
    rw [step] at hs
    split at hs
    · next hp =>
      cases hs
      exact hearly _ (.inr (.inl hp)) (.inr (.inr rfl))
    · next hp =>
      cases hs
      exact hearly _ (.inl ⟨_, hp⟩) (.inl ⟨_, rfl⟩)
    · next hp =>
      cases hs
      exact rowInv_attach h hp
    · cases hs
  | recorded =>
    rw [step] at hs
    split at hs
    · next await awaits hp =>
      cases hs
      exact rowInv_recorded h hp hok
    · cases hs
  | rejected | createdExpired => exact absurd hok id
  | openTimeout =>
    rw [step] at hs
    split at hs
    · next hp =>
      cases hs
      exact h.settle hp (.inr rfl)
    · cases hs
  | resumed =>
    rw [step] at hs
    split at hs
    · cases hs
    · next result hresult hp =>
      cases hs
      refine rowInv_afterOpen h hp ?_
      rintro rfl
      exact hresult rfl
    · cases hs
  | openResult accepted =>
    obtain ⟨hl, rfl⟩ := of_guard hs
    rw [handleOpenResult]
    split
    · next hp => exact h.settle hp (.inl (h.listening hl))
    · exact h
  | daemonMessage byteLength =>
    obtain ⟨hl, hs⟩ := Option.ite_none_right_eq_some.mp hs
    split at hs
    · next hsize =>
      cases hs
      rcases hok with hok | hok | hok
      · exact absurd hok (Nat.not_le.mpr hsize.1)
      · exact absurd hsize.2 (by simp [hok])
      · exact hruntime _ _ hl hok
    · cases hs
      exact h
  | daemonClose =>
    obtain ⟨hl, rfl⟩ := of_guard hs
    have hc := h.listening hl
    refine h.closing_awaiting hok (closing_handleDaemonClose hc) ?_
    rw [handleDaemonClose, if_neg (by simp [hc])]
    exact follows_start h.sound (by decide) fun r ho =>
      absurd ho (not_opens_transitionSuccess r)
  | daemonError =>
    obtain ⟨hl, rfl⟩ := of_guard hs
    exact rowInv_handleDaemonError h hl hok
  | siteExpired =>
    obtain ⟨hl, rfl⟩ := of_guard hs
    exact hservice _ _ _ (by decide) hl hok
  | idleTimeout =>
    obtain ⟨hl, rfl⟩ := of_guard hs
    have hunset : RowInv maxMessageBytes { s with idleTimer := false } := { h with }
    by_cases hc : s.completed = true
    · -- a session that completed while its opening was recorded
      rw [closeFromService, runtimeCloseFromService, if_pos hc]
      exact hunset.follow (follows_transitionOpenFailure h.sound _ _)
    · have := @rowInv_closeFromService _ accepts _ hunset ((h.attached (.inr hl.2)).resolve_left hc)
        (.inr hl.2) .idleTimeout (by decide) "PROXY_WS_IDLE_TIMEOUT" 1001 [] nofun
      rw [append_nil] at this
      exact this
  | siteDisabled =>
    obtain ⟨hl, rfl⟩ := of_guard hs
    exact hruntime _ _ hl hok
  | carrierReset =>
    obtain ⟨hl, rfl⟩ := of_guard hs
    exact rowInv_closeFromService h hl hok (show Reason.transportLost ≠ .canceled by decide) _ _
      fun u hu => mem_singleton.mp hu
  | strayReset =>
    cases hs
    refine h.follow (follows_start h.sound (by decide) fun r ho => absurd ho ?_)
    cases r <;> decide
  | strayClose =>
    cases hs
    refine h.follow (follows_start h.sound (by decide) fun r ho => ?_)
    cases r with
    | operation => exact absurd ho (by decide)
    | stream => exact ends_closed _
  | task k =>
    obtain ⟨desk, hdesk, rfl⟩ := Option.map_eq_some_iff.mp hs
    exact h.follow (follows_runTask h.sound hdesk)
  | markOperationUnknown =>
    cases hs
    exact h.follow (follows_markOperationUnknown h.sound)
  | markStreamUnknown =>
    cases hs
    exact h.follow (follows_markStreamUnknown h.sound)

/-! ### Runs -/

/-- **The rows of a proxied WebSocket end.** In every state of a run all of whose ends are
recorded, the rows have ended once the session is over and nothing is pending. -/
theorem webSocket_rows_end (maxMessageBytes : ℕ) (accepts : ℕ → Bool) (overLimit : Bool)
    (hok : Runs.Along (step maxMessageBytes accepts) (RecordsEnd maxMessageBytes accepts) acts (init
      overLimit)) (hrun : run (step maxMessageBytes accepts) acts (init overLimit) = some s)
    (hover : s.completed = true ∨ s.phase = .ended) (hidle : s.Idle) (r : Row) :
    r.Ended s.desk.rows :=
  (invariant_along (fun _ _ _ hi hok hs => rowInv_step hi hok hs) hok hrun
    (rowInv_init maxMessageBytes overLimit)).rows_end hover hidle r

end WebSocketEdge

end Bud.Proxy
