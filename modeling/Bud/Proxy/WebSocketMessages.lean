import Bud.Proxy.WebSocketEdge

/-!
# What a proxied WebSocket passes on

The messages sent to the daemon are a prefix of those the browser sent, and all of them as long as
the session has not been closed, in every run in which the browser sends nothing while the edge has
yet to attach its listeners. A message sent during those awaits finds no listener and is lost, and
the ones after it are passed on all the same.

The invariant says where the messages are. Before the listeners there are none; until the daemon is
open all of them are in the buffer; from then on all of them have been sent, because the buffer is
emptied in the same turn in which `daemonOpen` is set.
-/

namespace Bud.Proxy

namespace WebSocketEdge

open List

def Session.Closed (s : Session) : Prop :=
  s.completed = true ∨ s.browserGone = true ∨ s.phase = .denied

def Session.Returned (s : Session) : Prop :=
  s.phase = .opened ∨ s.phase = .ended ∨ s.phase = .denied

/-- Nothing is skipped, repeated or overtaken, and nothing kept back once the handler has returned,
unless the session is closed. -/
def PassedOn (s : Session) : Prop :=
  s.sent <+: s.received ∧ (s.Returned → ¬ s.Closed → s.sent = s.received)

def Phase.isCreating : Phase → Bool
  | .creating _ => true
  | _ => false

/-- The browser sends nothing while the awaits before the listeners are pending. -/
def Heard (s : Session) : Act → Prop
  | .browserMessage _ => s.phase.isCreating = false
  | _ => True

instance (s : Session) : ∀ a : Act, Decidable (Heard s a)
  | .browserMessage _ => inferInstanceAs (Decidable (_ = false))
  | .browserClose _ | .created | .createdExpired | .recorded | .rejected | .openTimeout | .resumed
  | .openResult _ | .daemonMessage _ | .daemonClose | .daemonError | .siteExpired | .idleTimeout
  | .siteDisabled | .carrierReset | .strayReset | .strayClose | .task _ | .markOperationUnknown
  | .markStreamUnknown => inferInstanceAs (Decidable True)

/-! ### Where the messages are -/

/-- The handler is between attaching its listeners and letting messages through. -/
def Phase.Opening (phase : Phase) : Prop :=
  (∃ promise, phase = .waiting promise) ∨ ∃ awaits, phase = .recording awaits

structure Inv (s : Session) : Prop where
  creating : ∀ n, s.phase = .creating n →
    s.listening = false ∧ s.completed = false ∧ s.daemonOpen = false ∧ s.received = [] ∧
      s.sent = [] ∧ s.pendingBrowserMessages = []
  buffered : s.listening = true → s.daemonOpen = false →
    s.sent = [] ∧ s.pendingBrowserMessages = s.received
  direct : s.listening = true → s.daemonOpen = true → s.sent = s.received
  idle : s.listening = false → s.completed = false → s.sent = []
  sent_prefix : s.sent <+: s.received
  listening : s.listening = true → s.completed = false
  daemonOpen : s.daemonOpen = true → s.phase = .opened
  attached : s.phase.Opening → s.completed = true ∨ s.listening = true
  opened : s.phase = .opened → s.completed = true ∨ s.listening = true ∧ s.daemonOpen = true
  ended : s.phase = .ended → s.completed = true ∨ s.browserGone = true
  denied : s.phase = .denying ∨ s.phase = .denied → s.listening = false ∧ s.completed = false
  closed : s.browserClosed = true → s.browserGone = true

theorem daemonOpen_eq_false {s : Session} (h : s.daemonOpen = true → s.phase = .opened)
    (hp : s.phase ≠ .opened) : s.daemonOpen = false := by
  by_contra hd
  exact hp (h (by simpa using hd))

theorem inv_init (overLimit : Bool) : Inv (init overLimit) := by
  cases overLimit <;> constructor <;> simp [init, Session.sent, Phase.Opening]

theorem Inv.passedOn (h : Inv s) : PassedOn s := by
  refine ⟨h.sent_prefix, fun hreturned hopen => ?_⟩
  have hnot : s.completed = false := by
    by_contra hc
    exact hopen (.inl (by simpa using hc))
  rcases hreturned with hp | hp | hp
  · rcases h.opened hp with hc | ⟨hl, hd⟩
    · exact absurd hc (by simp [hnot])
    · exact h.direct hl hd
  · rcases h.ended hp with hc | hg
    · exact absurd hc (by simp [hnot])
    · exact absurd (.inr (.inl hg)) hopen
  · exact absurd (.inr (.inr hp)) hopen

/-! ### Steps that send no message -/

/-- Nothing about the messages has changed. -/
structure Quiet (s s' : Session) : Prop where
  sent : s'.sent = s.sent
  received : s'.received = s.received
  pending : s'.pendingBrowserMessages = s.pendingBrowserMessages
  daemonOpen : s'.daemonOpen = s.daemonOpen
  browserGone : s'.browserGone = s.browserGone
  browserClosed : s'.browserClosed = s.browserClosed

theorem Quiet.trans (h : Quiet s t) (h' : Quiet t u) : Quiet s u :=
  ⟨h'.sent.trans h.sent, h'.received.trans h.received, h'.pending.trans h.pending,
    h'.daemonOpen.trans h.daemonOpen, h'.browserGone.trans h.browserGone,
    h'.browserClosed.trans h.browserClosed⟩

/-- A phase the handler may be found in after its promise has been rejected. -/
def SamePhase (p p' : Phase) : Prop := p' = p ∨ p = .waiting .pending ∧ p' = .waiting .rejected

/-- The session has been closed, and nothing about its messages has changed. -/
structure Closing (s s' : Session) : Prop where
  quiet : Quiet s s'
  completed : s'.completed = true
  listening : s'.listening = false
  phase : SamePhase s.phase s'.phase

variable {maxMessageBytes : ℕ} {accepts : ℕ → Bool}

theorem quiet_sendDaemonFrame (accepts : ℕ → Bool) (s : Session) {frame : Frame}
    (hf : frame.message? = none) :
    Quiet s (sendDaemonFrame accepts s frame).1 ∧
      (sendDaemonFrame accepts s frame).1.phase = s.phase ∧
      (sendDaemonFrame accepts s frame).1.listening = s.listening ∧
      (sendDaemonFrame accepts s frame).1.completed = s.completed := by
  rw [sendDaemonFrame]
  split
  · exact ⟨⟨by simp [Session.sent, filterMap_append, hf], rfl, rfl, rfl, rfl, rfl⟩, rfl, rfl, rfl⟩
  · exact ⟨⟨rfl, rfl, rfl, rfl, rfl, rfl⟩, rfl, rfl, rfl⟩

theorem closing_finish (s : Session) : Closing s (finish s) :=
  ⟨⟨rfl, rfl, rfl, rfl, rfl, rfl⟩, rfl, rfl, .inl rfl⟩

theorem closing_finish_rejectOpen (s : Session) : Closing s (finish (rejectOpen s)) := by
  rw [rejectOpen]
  split
  · next hp => exact ⟨⟨rfl, rfl, rfl, rfl, rfl, rfl⟩, rfl, rfl, .inr ⟨hp, rfl⟩⟩
  · exact closing_finish s

theorem Closing.of_quiet (h : Quiet s t) (hp : t.phase = s.phase) (h' : Closing t u) :
    Closing s u :=
  ⟨h.trans h'.quiet, h'.completed, h'.listening, by rw [← hp]; exact h'.phase⟩

theorem Closing.start {s t : Session} (h : Closing s t) (task : List Update) :
    Closing s (t.start task) :=
  { h with quiet := h.quiet.trans ⟨rfl, rfl, rfl, rfl, rfl, rfl⟩ }

theorem closing_runtimeCloseFromService (h : s.completed = false) (accepts : ℕ → Bool)
    (code : String) (closeCode : ℕ) :
    Closing s (runtimeCloseFromService accepts s code closeCode) := by
  obtain ⟨hq, hp, -, -⟩ := @quiet_sendDaemonFrame accepts s (.error code) rfl
  obtain ⟨hq', hp', -, -⟩ := @quiet_sendDaemonFrame accepts
    (sendDaemonFrame accepts s (.error code)).1 (.close (some closeCode)) rfl
  rw [runtimeCloseFromService, if_neg (by simp [h])]
  exact (closing_finish_rejectOpen _).of_quiet (hq.trans hq') (hp'.trans hp)

theorem closing_closeFromService (h : s.completed = false) (accepts : ℕ → Bool) (reason : Reason)
    (code : String) (closeCode : ℕ) :
    Closing s (closeFromService accepts s reason code closeCode) :=
  (closing_runtimeCloseFromService h accepts code closeCode).start _

theorem closing_abortFromBrowser {s : Session} (h : s.completed = false) (accepts : ℕ → Bool)
    (code : Option ℕ) : Closing s (abortFromBrowser accepts s code) := by
  obtain ⟨hq, hp, -, -⟩ := @quiet_sendDaemonFrame accepts s (.close code) rfl
  rw [abortFromBrowser, if_neg (by simp [h])]
  exact (closing_finish_rejectOpen _).of_quiet hq hp

theorem closing_handleDaemonClose (h : s.completed = false) : Closing s (handleDaemonClose s) := by
  rw [handleDaemonClose, if_neg (by simp [h])]
  exact (closing_finish s).start transitionSuccess

theorem closing_handleDaemonError (h : s.completed = false) : Closing s (handleDaemonError s) := by
  rw [handleDaemonError, if_neg (by simp [h])]
  exact (closing_finish_rejectOpen s).start (transitionOpenFailure s .remoteError)

/-! ### A session that is over -/

/-- The session has completed in some phase after its listeners were attached. -/
structure Over (s : Session) : Prop where
  completed : s.completed = true
  listening : s.listening = false
  sent_prefix : s.sent <+: s.received
  phase : (∀ n, s.phase ≠ .creating n) ∧ s.phase ≠ .denying ∧ s.phase ≠ .denied
  daemonOpen : s.daemonOpen = true → s.phase = .opened
  closed : s.browserClosed = true → s.browserGone = true

theorem Over.inv (h : Over s) : Inv s where
  creating n hp := absurd hp (h.phase.1 n)
  buffered hl _ := absurd hl (by simp [h.listening])
  direct hl _ := absurd hl (by simp [h.listening])
  idle _ hc := absurd hc (by simp [h.completed])
  sent_prefix := h.sent_prefix
  listening hl := absurd hl (by simp [h.listening])
  daemonOpen := h.daemonOpen
  attached _ := .inl h.completed
  opened _ := .inl h.completed
  ended _ := .inl h.completed
  denied hp := absurd hp (not_or.mpr h.phase.2)
  closed := h.closed

theorem Inv.over (h : Inv s) (hl : s.listening = true) (hc : Closing s s') : Over s' := by
  have hphase : (∀ n, s.phase ≠ .creating n) ∧ s.phase ≠ .denying ∧ s.phase ≠ .denied := by
    refine ⟨fun n hp => ?_, fun hp => ?_, fun hp => ?_⟩
    · exact absurd hl (by simp [(h.creating n hp).1])
    · exact absurd hl (by simp [(h.denied (.inl hp)).1])
    · exact absurd hl (by simp [(h.denied (.inr hp)).1])
  refine ⟨hc.completed, hc.listening, ?_, ?_, ?_, ?_⟩
  · rw [hc.quiet.sent, hc.quiet.received]
    exact h.sent_prefix
  · rcases hc.phase with hp | ⟨-, hp⟩
    · rw [hp]
      exact hphase
    · rw [hp]
      exact ⟨fun n => nofun, nofun, nofun⟩
  · rw [hc.quiet.daemonOpen]
    intro hd
    rcases hc.phase with hp | ⟨hp, -⟩
    · rw [hp, h.daemonOpen hd]
    · exact absurd (hp.symm.trans (h.daemonOpen hd)) nofun
  · rw [hc.quiet.browserClosed, hc.quiet.browserGone]
    exact h.closed

theorem Inv.over_of_completed (h : Inv s) (hc : s.completed = true) : Over s where
  completed := hc
  listening := by
    by_contra hl
    exact absurd hc (by simp [h.listening (by simpa using hl)])
  sent_prefix := h.sent_prefix
  phase := by
    refine ⟨fun n hp => ?_, fun hp => ?_, fun hp => ?_⟩
    · exact absurd hc (by simp [(h.creating n hp).2.1])
    · exact absurd hc (by simp [(h.denied (.inl hp)).2])
    · exact absurd hc (by simp [(h.denied (.inr hp)).2])
  daemonOpen := h.daemonOpen
  closed := h.closed

/-! ### Sending -/

/-- The session is open, and has sent all but `rest` of what it has received. -/
structure Sending (s : Session) (rest : List Message) : Prop where
  listening : s.listening = true
  completed : s.completed = false
  daemonOpen : s.daemonOpen = true
  phase : s.phase = .opened
  sent : s.sent ++ rest = s.received
  closed : s.browserClosed = true → s.browserGone = true

theorem Sending.inv (h : Sending s []) : Inv s where
  creating n hp := absurd (h.phase.symm.trans hp) nofun
  buffered _ hd := absurd hd (by simp [h.daemonOpen])
  direct _ _ := by simpa using h.sent
  idle hl := absurd hl (by simp [h.listening])
  sent_prefix := ⟨[], h.sent⟩
  listening _ := h.completed
  daemonOpen _ := h.phase
  attached _ := .inr h.listening
  opened _ := .inr ⟨h.listening, h.daemonOpen⟩
  ended hp := absurd (h.phase.symm.trans hp) nofun
  denied hp := by rcases hp with hp | hp <;> exact absurd (h.phase.symm.trans hp) nofun
  closed := h.closed

theorem Sending.over (h : Sending s rest) (hc : Closing s s') : Over s' := by
  have hp : s'.phase = .opened := by
    rcases hc.phase with hp | ⟨hp, -⟩
    · rw [hp, h.phase]
    · exact absurd (h.phase.symm.trans hp) nofun
  refine ⟨hc.completed, hc.listening, ?_, ?_, ?_, ?_⟩
  · rw [hc.quiet.sent, hc.quiet.received]
    exact ⟨rest, h.sent⟩
  · rw [hp]
    exact ⟨fun n => nofun, nofun, nofun⟩
  · exact fun _ => hp
  · rw [hc.quiet.browserClosed, hc.quiet.browserGone]
    exact h.closed

theorem sendBrowserMessage_cases {s : Session} {message : Message} {rest : List Message}
    (h : Sending s (message :: rest)) :
    ((sendBrowserMessage maxMessageBytes accepts s message).2 = true ∧
        Sending (sendBrowserMessage maxMessageBytes accepts s message).1 rest) ∨
      (sendBrowserMessage maxMessageBytes accepts s message).2 = false ∧
        Over (sendBrowserMessage maxMessageBytes accepts s message).1 := by
  rw [sendBrowserMessage, if_neg (by simp [h.completed])]
  split
  · exact .inr ⟨rfl, h.over (closing_runtimeCloseFromService h.completed accepts _ _)⟩
  · rw [sendDaemonFrame]
    split
    · next hs =>
      split at hs
      · cases hs
        refine .inl ⟨rfl, h.listening, h.completed, h.daemonOpen, h.phase, ?_, h.closed⟩
        rw [← h.sent]
        simp [Session.sent, filterMap_append, Frame.message?]
      · cases hs
    · next hs =>
      split at hs
      · cases hs
      · cases hs
        exact .inr ⟨rfl, h.over ⟨⟨rfl, rfl, rfl, rfl, rfl, rfl⟩, rfl, rfl, .inl rfl⟩⟩

theorem inv_flush (messages : List Message) (h : Sending s messages) :
    Inv (flush maxMessageBytes accepts messages s) := by
  induction messages generalizing s with
  | nil => exact Sending.inv { h with }
  | cons message messages ih =>
    have hcases := @sendBrowserMessage_cases maxMessageBytes accepts s message messages h
    rw [flush]
    split
    · next hs =>
      rw [hs] at hcases
      rcases hcases with ⟨-, hsending⟩ | ⟨hfalse, -⟩
      · exact ih hsending
      · cases hfalse
    · next hs =>
      rw [hs] at hcases
      rcases hcases with ⟨htrue, -⟩ | ⟨-, hover⟩
      · cases htrue
      · exact hover.inv

/-- A completed session sends nothing, but its idle timer may be set. -/
theorem flush_of_completed {s : Session} (h : s.completed = true) (messages : List Message) :
    ∃ idleTimer, flush maxMessageBytes accepts messages s = { s with idleTimer := idleTimer } := by
  cases messages with
  | nil => exact ⟨true, rfl⟩
  | cons message messages => exact ⟨s.idleTimer, by rw [flush, sendBrowserMessage, if_pos h]⟩

/-! ### One step -/

/-- A step that leaves the session as it is. -/
theorem Inv.of_quiet (h : Inv s) (hq : Quiet s s') (hp : s'.phase = s.phase)
    (hl : s'.listening = s.listening) (hc : s'.completed = s.completed) : Inv s' := by
  constructor <;> simp only [hq.sent, hq.received, hq.pending, hq.daemonOpen, hq.browserGone,
    hq.browserClosed, hp, hl, hc]
  · exact h.creating
  · exact h.buffered
  · exact h.direct
  · exact h.idle
  · exact h.sent_prefix
  · exact h.listening
  · exact h.daemonOpen
  · exact h.attached
  · exact h.opened
  · exact h.ended
  · exact h.denied
  · exact h.closed

/-- The handler goes on opening, or gives up on an await. -/
theorem Inv.move (h : Inv s) (hq : Quiet s s') (hl : s'.listening = s.listening)
    (hc : s'.completed = s.completed) (hd : s.daemonOpen = false)
    (hp : s'.phase.Opening ∧ (s.completed = true ∨ s.listening = true) ∨ s'.phase = .threw) :
    Inv s' := by
  have hne : (∀ n, s'.phase ≠ .creating n) ∧ s'.phase ≠ .denying ∧ s'.phase ≠ .denied ∧
      s'.phase ≠ .opened ∧ s'.phase ≠ .ended := by
    rcases hp with ⟨⟨promise, hp⟩ | ⟨awaits, hp⟩, -⟩ | hp <;> rw [hp] <;>
      exact ⟨fun n => nofun, nofun, nofun, nofun, nofun⟩
  constructor <;> simp only [hq.sent, hq.received, hq.pending, hq.daemonOpen, hq.browserGone,
    hq.browserClosed, hl, hc]
  · exact fun n hn => absurd hn (hne.1 n)
  · exact h.buffered
  · exact h.direct
  · exact h.idle
  · exact h.sent_prefix
  · exact h.listening
  · exact fun ho => absurd ho (by simp [hd])
  · intro ho
    rcases hp with ⟨-, ha⟩ | ht
    · exact ha
    · rcases ho with ⟨promise, ho⟩ | ⟨awaits, ho⟩ <;> exact absurd (ht.symm.trans ho) nofun
  · exact fun ho => absurd ho hne.2.2.2.1
  · exact fun he => absurd he hne.2.2.2.2
  · rintro (hden | hden)
    · exact absurd hden hne.2.1
    · exact absurd hden hne.2.2.1
  · exact h.closed

theorem inv_onBrowserMessage (h : Inv s) (hl : s.listening = true) (message : Message) :
    Inv (onBrowserMessage maxMessageBytes accepts
      { s with received := s.received ++ [message] } message) := by
  have hc := h.listening hl
  have hgrow : s.sent <+: s.received ++ [message] :=
    h.sent_prefix.trans (prefix_append _ _)
  -- closing the session now leaves the new message unsent
  have hover : ∀ u, Closing { s with received := s.received ++ [message] } u → Over u := by
    intro u hu
    have hold : Over { u with received := s.received } :=
      h.over hl { hu with quiet := ⟨hu.quiet.sent, rfl, hu.quiet.pending, hu.quiet.daemonOpen,
          hu.quiet.browserGone, hu.quiet.browserClosed⟩ }
    refine { hold with sent_prefix := ?_ }
    rw [hu.quiet.received, hu.quiet.sent]
    exact hgrow
  rw [onBrowserMessage]
  split
  · next hd =>
    have hsending : Sending { s with received := s.received ++ [message] } [message] :=
      ⟨hl, hc, hd, h.daemonOpen hd, congrArg (· ++ [message]) (h.direct hl hd), h.closed⟩
    rcases @sendBrowserMessage_cases maxMessageBytes accepts _ message [] hsending with
      ⟨-, hsent⟩ | ⟨-, hdone⟩
    · exact hsent.inv
    · exact hdone.inv
  · next hd =>
    have hd : s.daemonOpen = false := by simpa using hd
    have hc' : Session.completed { s with received := s.received ++ [message] } = false := hc
    split
    · exact (hover _ (closing_closeFromService hc' accepts _ _ _)).inv
    · split
      · exact (hover _ (closing_closeFromService hc' accepts _ _ _)).inv
      · obtain ⟨hsent, hpending⟩ := h.buffered hl hd
        refine ⟨?_, ?_, ?_, ?_, ?_, ?_, ?_, ?_, ?_, ?_, ?_, ?_⟩
        · exact fun n hp => absurd hl (by simp [(h.creating n hp).1])
        · exact fun _ _ => ⟨hsent, congrArg (· ++ [message]) hpending⟩
        · exact fun _ ho => absurd ho (by simp [hd])
        · exact fun hno => absurd hl (by simp [show s.listening = false from hno])
        · exact hgrow
        · exact h.listening
        · exact h.daemonOpen
        · exact h.attached
        · exact h.opened
        · exact h.ended
        · exact h.denied
        · exact h.closed

theorem inv_ended {s : Session} (hs : s.sent <+: s.received) (hd : s.daemonOpen = false)
    (hl : s.completed = true → s.listening = false)
    (hb : s.browserClosed = true → s.browserGone = true) (reason : Reason) (code : String)
    (closeCode : ℕ) :
    Inv { closeFromService accepts s reason code closeCode with phase := .ended } := by
  set u := closeFromService accepts s reason code closeCode with hu
  have hclosed : Quiet s u ∧ u.completed = true ∧ u.listening = false := by
    by_cases hc : s.completed = true
    · rw [hu, closeFromService, runtimeCloseFromService, if_pos hc]
      exact ⟨⟨rfl, rfl, rfl, rfl, rfl, rfl⟩, hc, hl hc⟩
    · have hclosing := closing_closeFromService (by simpa using hc) accepts reason code closeCode
      exact ⟨hclosing.quiet, hclosing.completed, hclosing.listening⟩
  obtain ⟨hq, hc, hl⟩ := hclosed
  refine Over.inv ⟨hc, hl, ?_, ⟨fun n => nofun, nofun, nofun⟩, ?_, ?_⟩
  · show u.sent <+: u.received
    rw [hq.sent, hq.received]
    exact hs
  · intro ho
    rw [hq.daemonOpen, hd] at ho
    cases ho
  · intro ho
    rw [hq.browserClosed] at ho
    exact hq.browserGone.trans (hb ho)

theorem inv_attach (h : Inv s) (hp : s.phase = .creating 1) : Inv (attach accepts s) := by
  obtain ⟨hl, hc, hd, hr, hs, hb⟩ := h.creating 1 hp
  rw [attach, sendDaemonFrame]
  split
  · next hsend =>
    split at hsend
    · cases hsend
      have hsent : filterMap Frame.message? (s.frames ++ [Frame.openConnection]) = [] := by
        rw [filterMap_append, show filterMap Frame.message? s.frames = [] from hs]
        rfl
      refine ⟨nofun, ?_, ?_, nofun, ?_, fun _ => hc, ?_, fun _ => .inr rfl, nofun, nofun, ?_,
        h.closed⟩
      · exact fun _ _ => ⟨hsent, hb.trans hr.symm⟩
      · exact fun _ _ => hsent.trans hr.symm
      · show filterMap Frame.message? (s.frames ++ [Frame.openConnection]) <+: _
        rw [hsent]
        exact nil_prefix
      · exact fun ho => absurd ho (by simp [hd])
      · rintro (hden | hden) <;> cases hden
    · cases hsend
  · next hsend =>
    split at hsend
    · cases hsend
    · cases hsend
      exact @inv_ended accepts
        { s with
          listening := true
          attempts := s.attempts + 1 }
        h.sent_prefix hd (fun hcc => absurd (hc.symm.trans hcc) nofun) h.closed _ _ _

theorem inv_attachExpired (h : Inv s) (hp : s.phase = .creating 1) :
    Inv (attachExpired accepts s) := by
  obtain ⟨-, hc, hd, -, hs, -⟩ := h.creating 1 hp
  have hclosing := closing_runtimeCloseFromService hc accepts "PROXIED_SITE_EXPIRED" 1008
  obtain ⟨hq, -, hl, hcompleted⟩ := @quiet_sendDaemonFrame accepts
    (runtimeCloseFromService accepts s "PROXIED_SITE_EXPIRED" 1008) .openConnection rfl
  have hquiet := hclosing.quiet.trans hq
  refine Over.inv ⟨hcompleted.trans hclosing.completed, hl.trans hclosing.listening, ?_,
    ⟨fun n => nofun, nofun, nofun⟩, ?_, ?_⟩
  · have hsent : (attachExpired accepts s).sent = [] := hquiet.sent.trans hs
    rw [hsent]
    exact nil_prefix
  · exact fun ho => absurd (ho.symm.trans (hquiet.daemonOpen.trans hd)) (by decide)
  · exact fun hb => hquiet.browserGone.trans (h.closed (hquiet.browserClosed.symm.trans hb))

theorem inv_afterOpen (h : Inv s) (hp : s.phase = .waiting result) :
    Inv (afterOpen accepts s result) := by
  have hopening : s.phase.Opening := .inl ⟨result, hp⟩
  have hd := daemonOpen_eq_false h.daemonOpen (by rw [hp]; nofun)
  have hover : s.completed = true → s.listening = false :=
    fun hc => (h.over_of_completed hc).listening
  cases result with
  | pending => exact h
  | rejected => exact inv_ended h.sent_prefix hd hover h.closed _ _ _
  | resolved accepted =>
    rw [afterOpen]
    split
    · next hb =>
      have hgone := h.closed hb
      refine { h with creating := nofun, daemonOpen := ?_, attached := ?_, opened := nofun, ended :=
          fun _ => .inr hgone, denied := ?_ }
      · exact fun ho => absurd ho (by simp [hd])
      · rintro (⟨promise, ho⟩ | ⟨awaits, ho⟩) <;> cases ho
      · rintro (hden | hden) <;> cases hden
    · split
      · exact h.move ⟨rfl, rfl, rfl, rfl, rfl, rfl⟩ rfl rfl hd
          (.inl ⟨.inr ⟨_, rfl⟩, h.attached hopening⟩)
      · exact inv_ended h.sent_prefix hd hover h.closed _ _ _

theorem inv_recorded (h : Inv s) (hp : s.phase = .recording (await :: awaits)) :
    Inv (recorded maxMessageBytes accepts s (await :: awaits)) := by
  have hopening : s.phase.Opening := .inr ⟨_, hp⟩
  have hd := daemonOpen_eq_false h.daemonOpen (by rw [hp]; nofun)
  cases await with
  | update u =>
    exact h.move ⟨rfl, rfl, rfl, rfl, rfl, rfl⟩ rfl rfl hd
      (.inl ⟨.inr ⟨_, rfl⟩, h.attached hopening⟩)
  | audit =>
    rw [recorded]
    by_cases hc : s.completed = true
    · have hover := h.over_of_completed hc
      obtain ⟨idleTimer, hflush⟩ := @flush_of_completed maxMessageBytes accepts
        { s with
          daemonOpen := true
          pendingBrowserMessages := []
          phase := .opened } hc s.pendingBrowserMessages
      rw [hflush]
      exact Over.inv ⟨hc, hover.listening, h.sent_prefix, ⟨fun n => nofun, nofun, nofun⟩,
        fun _ => rfl, h.closed⟩
    · have hl : s.listening = true := (h.attached hopening).resolve_left hc
      obtain ⟨hs, hb⟩ := h.buffered hl hd
      have hsent : s.sent ++ s.pendingBrowserMessages = s.received := by
        rw [hs, hb]
        rfl
      exact inv_flush _ ⟨hl, by simpa using hc, rfl, rfl, hsent, h.closed⟩

theorem inv_onBrowserClose (h : Inv s) (hl : s.listening = true) (code : Option ℕ) :
    Inv (onBrowserClose accepts { s with browserGone := true } code) := by
  set t : Session :=
    { s with
      browserGone := true
      browserClosed := true } with ht
  have hc : t.completed = false := h.listening hl
  have hclosing : Closing t (onBrowserClose accepts { s with browserGone := true } code) :=
    (closing_abortFromBrowser hc accepts code).start _
  have hold : Over { onBrowserClose accepts { s with browserGone := true } code with
      browserGone := s.browserGone
      browserClosed := s.browserClosed } :=
        h.over hl { hclosing with quiet := ⟨hclosing.quiet.sent, hclosing.quiet.received,
            hclosing.quiet.pending, hclosing.quiet.daemonOpen, rfl, rfl⟩ }
  exact Over.inv { hold with closed := fun _ => hclosing.quiet.browserGone }

/-- **What one step preserves.** -/
theorem inv_step (h : Inv s) (hok : Heard s a) (hs : step maxMessageBytes accepts s a = some s') :
    Inv s' := by
  have hclose : ∀ u, s.listening = true → (s.completed = false → Closing s u) → Inv u :=
    fun u hl hc => (h.over hl (hc (h.listening hl))).inv
  have hsame : ∀ u : Session, Quiet s u → u.phase = s.phase → u.listening = s.listening →
      u.completed = s.completed → Inv u := fun u => h.of_quiet
  cases a with
  | browserMessage message =>
    obtain ⟨-, hs⟩ := Option.ite_none_left_eq_some.mp hs
    dsimp only at hs
    split at hs
    · next hl =>
      cases hs
      exact inv_onBrowserMessage h hl message
    · next hl =>
      cases hs
      refine { h with creating := ?_, buffered := ?_, direct := ?_, sent_prefix :=
          h.sent_prefix.trans (prefix_append _ _) }
      · intro n hp
        have hheard : s.phase.isCreating = false := hok
        rw [show s.phase = .creating n from hp] at hheard
        cases hheard
      all_goals exact fun hl' => absurd hl' hl
  | browserClose code =>
    obtain ⟨-, hs⟩ := Option.ite_none_left_eq_some.mp hs
    dsimp only at hs
    split at hs
    · next hl =>
      cases hs
      exact inv_onBrowserClose h hl code
    · cases hs
      exact ⟨h.creating, h.buffered, h.direct, h.idle, h.sent_prefix, h.listening, h.daemonOpen,
        h.attached, h.opened, fun _ => .inr rfl, h.denied, fun _ => rfl⟩
  | created =>
    rw [step] at hs
    split at hs
    · next hp =>
      cases hs
      obtain ⟨hl, hc⟩ := h.denied (.inl hp)
      have hd := daemonOpen_eq_false h.daemonOpen (by rw [hp]; nofun)
      refine ⟨nofun, h.buffered, h.direct, h.idle, h.sent_prefix, h.listening, ?_, ?_, nofun,
        nofun, fun _ => ⟨hl, hc⟩, h.closed⟩
      · exact fun ho => absurd ho (by simp [hd])
      · rintro (⟨promise, ho⟩ | ⟨awaits, ho⟩) <;> cases ho
    · next awaits hp =>
      cases hs
      obtain ⟨hl, hc, hd, hr⟩ := h.creating _ hp
      refine ⟨fun n _ => ⟨hl, hc, hd, hr⟩, h.buffered, h.direct, h.idle, h.sent_prefix,
        h.listening, ?_, ?_, nofun, nofun, ?_, h.closed⟩
      · exact fun ho => absurd ho (by simp [hd])
      · rintro (⟨promise, ho⟩ | ⟨awaits, ho⟩) <;> cases ho
      · rintro (hden | hden) <;> cases hden
    · next hp =>
      cases hs
      exact inv_attach h hp
    · cases hs
  | createdExpired =>
    rw [step] at hs
    split at hs
    · next hp =>
      cases hs
      exact inv_attachExpired h hp
    · cases hs
  | recorded =>
    rw [step] at hs
    split at hs
    · next await awaits hp =>
      cases hs
      exact inv_recorded h hp
    · cases hs
  | rejected =>
    have hthrew : s.phase ≠ .opened → Inv { s with phase := .threw } := by
      intro hp
      have hd := daemonOpen_eq_false h.daemonOpen hp
      exact h.move ⟨rfl, rfl, rfl, rfl, rfl, rfl⟩ rfl rfl hd (.inr rfl)
    rw [step] at hs
    split at hs
    · next hp =>
      cases hs
      exact hthrew (by rw [hp]; nofun)
    · next hp =>
      cases hs
      exact hthrew (by rw [hp]; nofun)
    · next hp =>
      cases hs
      exact hthrew (by rw [hp]; nofun)
    · cases hs
  | openTimeout =>
    rw [step] at hs
    split at hs
    · next hp =>
      cases hs
      have hopening : s.phase.Opening := .inl ⟨_, hp⟩
      have hd := daemonOpen_eq_false h.daemonOpen (by rw [hp]; nofun)
      exact h.move ⟨rfl, rfl, rfl, rfl, rfl, rfl⟩ rfl rfl hd
        (.inl ⟨.inl ⟨_, rfl⟩, h.attached hopening⟩)
    · cases hs
  | resumed =>
    rw [step] at hs
    split at hs
    · cases hs
    · next result _ hp =>
      cases hs
      exact inv_afterOpen h hp
    · cases hs
  | openResult accepted =>
    obtain ⟨hl, rfl⟩ := Runs.of_guard hs
    rw [handleOpenResult]
    split
    · next hp =>
      have hd := daemonOpen_eq_false h.daemonOpen (by rw [hp]; nofun)
      exact h.move ⟨rfl, rfl, rfl, rfl, rfl, rfl⟩ rfl rfl hd (.inl ⟨.inl ⟨_, rfl⟩, .inr hl⟩)
    · exact h
  | daemonMessage byteLength =>
    obtain ⟨hl, hs⟩ := Option.ite_none_right_eq_some.mp hs
    split at hs
    · cases hs
      exact hclose _ hl fun hc => closing_runtimeCloseFromService hc accepts _ _
    · cases hs
      exact h
  | daemonClose =>
    obtain ⟨hl, rfl⟩ := Runs.of_guard hs
    exact hclose _ hl closing_handleDaemonClose
  | daemonError =>
    obtain ⟨hl, rfl⟩ := Runs.of_guard hs
    exact hclose _ hl closing_handleDaemonError
  | siteExpired =>
    obtain ⟨hl, rfl⟩ := Runs.of_guard hs
    exact hclose _ hl fun hc => closing_closeFromService hc accepts _ _ _
  | idleTimeout =>
    obtain ⟨hl, rfl⟩ := Runs.of_guard hs
    have hunset : Inv { s with idleTimer := false } :=
      h.of_quiet ⟨rfl, rfl, rfl, rfl, rfl, rfl⟩ rfl rfl rfl
    by_cases hc : s.completed = true
    · rw [closeFromService, runtimeCloseFromService, if_pos hc]
      exact hunset.of_quiet ⟨rfl, rfl, rfl, rfl, rfl, rfl⟩ rfl rfl rfl
    · have hlistening := ((h.opened hl.2).resolve_left hc).1
      exact (hunset.over hlistening
        (closing_closeFromService (hunset.listening hlistening) accepts _ _ _)).inv
  | siteDisabled =>
    obtain ⟨hl, rfl⟩ := Runs.of_guard hs
    exact hclose _ hl fun hc => closing_runtimeCloseFromService hc accepts _ _
  | carrierReset =>
    obtain ⟨hl, rfl⟩ := Runs.of_guard hs
    exact hclose _ hl fun hc => (closing_runtimeCloseFromService hc accepts _ _).start _
  | strayReset | strayClose | markOperationUnknown | markStreamUnknown =>
    cases hs
    exact hsame _ ⟨rfl, rfl, rfl, rfl, rfl, rfl⟩ rfl rfl rfl
  | task k =>
    obtain ⟨desk, -, rfl⟩ := Option.map_eq_some_iff.mp hs
    exact hsame _ ⟨rfl, rfl, rfl, rfl, rfl, rfl⟩ rfl rfl rfl

/-! ### Runs -/

/-- **A proxied WebSocket loses no message it hears.** In every state of a run in which the browser
sends nothing before the listeners are attached, what has been sent to the daemon is a prefix of
what the browser sent, and all of it once the handler has returned and unless the session is
closed. -/
theorem sent_prefix_received (maxMessageBytes : ℕ) (accepts : ℕ → Bool) (overLimit : Bool)
    {acts : List Act} {s : Session}
    (hok : Runs.Along (step maxMessageBytes accepts) Heard acts (init overLimit))
    (hrun : Runs.run (step maxMessageBytes accepts) acts (init overLimit) = some s) :
    PassedOn s :=
  (Runs.invariant_along (fun _ _ _ hi hheard hs => inv_step hi hheard hs) hok hrun
    (inv_init overLimit)).passedOn

def text (byte : UInt8) : Message := ⟨false, [byte]⟩

def toOpen : List Act :=
  [.openResult true, .resumed, .recorded, .recorded, .recorded, .recorded]

/-- One message while the daemon is opening, and one after. -/
def heardActs : List Act :=
  [Act.created, .created, .created, .browserMessage (text 1)] ++ toOpen ++
    [Act.browserMessage (text 2)]

/-- The first message comes while the edge is still waiting for its database. -/
def earlyActs : List Act :=
  [Act.created, .browserMessage (text 1), .created, .created] ++ toOpen ++
    [Act.browserMessage (text 2)]

/-- A carrier that takes every frame, and messages of at most eight bytes. -/
def heardEnd : Option Session := Runs.run (step 8 fun _ => true) heardActs (init false)

theorem sent_prefix_received_heardActs : ∃ s, heardEnd = some s ∧ PassedOn s := by
  obtain ⟨s, hs⟩ : ∃ s, heardEnd = some s := Option.isSome_iff_exists.mp (by decide)
  exact ⟨s, hs, sent_prefix_received 8 (fun _ => true) false (by decide) hs⟩

/-- **A message sent too early is skipped**, and the next one is passed on. -/
theorem not_prefix_earlyMessage : ∃ s,
    Runs.run (step 8 fun _ => true) earlyActs (init false) = some s ∧
      s.received = [text 1, text 2] ∧ s.sent = [text 2] ∧ ¬ PassedOn s := by
  obtain ⟨s, hs⟩ : ∃ s, Runs.run (step 8 fun _ => true) earlyActs (init false) = some s :=
    Option.isSome_iff_exists.mp (by decide)
  have hmessages : (Runs.run (step 8 fun _ => true) earlyActs (init false)).map
      (fun s => (s.received, s.sent)) = some ([text 1, text 2], [text 2]) := by decide
  rw [hs] at hmessages
  obtain ⟨hr, hsent⟩ := Prod.mk.inj (Option.some.inj hmessages)
  refine ⟨s, hs, hr, hsent, fun hpassed => ?_⟩
  have := hpassed.1
  rw [hr, hsent] at this
  exact absurd this (by decide)

end WebSocketEdge

end Bud.Proxy
