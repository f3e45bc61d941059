import Bud.Lib.Runs
import Bud.Stem.Ipc

/-!
# The control connection's reply accounting

`client.rs`, `HolderClient::request`: a request writes one frame and reads one frame. The protocol
has no request ids, so which request a reply belongs to is a matter of counting. A request whose
future is dropped or times out after its frame was written leaves a reply behind; `replies_owed`
counts those, and the next request reads and discards them before it writes.

The accounting is exact at every await point. A frame that was written is either the one the
current call waits for or one that is owed, so a call that reads a reply reads its own.

## Modelling notes

The two directions of the socket are FIFO: `written` and `answered` list the frames that were put
into them, the holder answers the frame at index `answered.length`, and the client reads the reply
at index `consumed`. The reply to request frame `i` is thus reply frame `i`.

`drop` is the caller dropping the future, at any await point. `timeout` and `ioError` are the
`Err` returns of the same points. A step moves a whole frame: a future that is given up with a
frame read or written in part leaves the byte stream out of step, which the source sets aside too.
After an I/O error the socket is `dead` and carries nothing. Decoding is postcard's, a parameter.

`replies_owed` is a `u32`; `Inv.owed_le_one` says that it never exceeds one.
-/

namespace Bud.Client

open Bud.Ipc List

inductive StemError where
  | io
  | ipc (msg : String)
  | holder (msg : String)
  | other (msg : String)

/-! ### Operations -/

/-- The operations that are one request. -/
inductive Op where
  | write (bytes : List UInt8)
  | resize (cols rows : ℕ)
  | stat
  | ringRead (start stop : ℕ)
  | queryTermios
  | kill
  deriving DecidableEq

namespace Op

def msg : Op → ClientMsg
  | .write bytes => .write bytes
  | .resize cols rows => .resize cols rows
  | .stat => .stat
  | .ringRead start stop => .ringRead start stop
  | .queryTermios => .queryTermios
  | .kill => .kill

end Op

/-! ### The connection -/

/-- Where the request future is, by what it will do next. -/
inductive Call where
  | idle
  /-- In the drain loop, or at the write behind it. -/
  | draining (op : Op)
  /-- Its frame, at index `frame`, is written; it waits for the reply. -/
  | awaiting (op : Op) (frame : ℕ)

/-- How a call ended. -/
inductive Outcome where
  /-- It read a reply after writing frame `frame`; `result` is what `request` returned. -/
  | replied (op : Op) (frame : ℕ) (result : Except StemError HolderMsg)
  | failed (op : Op) (err : StemError)

structure Conn (Payload : Type) where
  repliesOwed : ℕ
  call : Call
  /-- Request frames written, in order. -/
  written : List ClientMsg
  /-- Reply frames the holder wrote, in order. -/
  answered : List Payload
  /-- How many reply frames were read. -/
  consumed : ℕ
  /-- The socket has failed. -/
  dead : Bool
  outcomes : List Outcome

inductive Act (Payload : Type) where
  | start (op : Op)
  | drain
  | write
  | read
  | timeout
  | ioError
  | drop
  /-- The holder answers the oldest request frame it has not answered. -/
  | answer (payload : Payload)

section

variable {Payload : Type} (decode : Payload → Except StemError HolderMsg)

/-- `connect`: `Hello` is answered before the client is built. -/
def init : Conn Payload :=
  { repliesOwed := 0
    call := .idle
    written := []
    answered := []
    consumed := 0
    dead := false
    outcomes := [] }

/-- The last statement of `request`. -/
def reply (payload : Payload) : Except StemError HolderMsg :=
  match decode payload with
  | .ok (.err msg) => .error (.holder msg)
  | r => r

/-- A call ends with an error, without having read a frame. -/
def Conn.fail (c : Conn Payload) (op : Op) (err : StemError) : Conn Payload :=
  { c with call := .idle, outcomes := c.outcomes ++ [.failed op err] }

def step (c : Conn Payload) : Act Payload → Option (Conn Payload)
  | .start op =>
    match c.call with
    | .idle => some { c with call := .draining op }
    | _ => none
  | .drain =>
    match c.call with
    | .draining op =>
      if c.dead = false ∧ 0 < c.repliesOwed then
        (c.answered[c.consumed]?).map fun payload =>
          let c := { c with consumed := c.consumed + 1 }
          match decode payload with
          | .ok _ => { c with repliesOwed := c.repliesOwed - 1 }
          -- the frame is read, and still counted as owed
          | .error e => c.fail op e
      else none
    | _ => none
  | .write =>
    match c.call with
    | .draining op =>
      if c.dead = false ∧ c.repliesOwed = 0 then
        some
          { c with
            written := c.written ++ [op.msg]
            repliesOwed := c.repliesOwed + 1
            call := .awaiting op c.written.length }
      else none
    | _ => none
  | .read =>
    match c.call with
    | .awaiting op frame =>
      if c.dead = false then
        (c.answered[c.consumed]?).map fun payload =>
          { c with
            consumed := c.consumed + 1
            repliesOwed := c.repliesOwed - 1
            call := .idle
            outcomes := c.outcomes ++ [.replied op frame (reply decode payload)] }
      else none
    | _ => none
  | .timeout =>
    match c.call with
    | .draining op =>
      if 0 < c.repliesOwed then
        some (c.fail op (.other "holder op timed out draining stale reply"))
      else none
    | .awaiting op _ => some (c.fail op (.other "holder op timed out"))
    | .idle => none
  | .ioError =>
    match c.call with
    | .draining op | .awaiting op _ => some { c.fail op .io with dead := true }
    | .idle => none
  | .drop =>
    match c.call with
    | .idle => none
    | _ => some { c with call := .idle }
  | .answer payload =>
    if c.dead = false ∧ c.answered.length < c.written.length then
      some { c with answered := c.answered ++ [payload] }
    else none

/-! ### The accounting -/

/-- The reply a call is waiting for is the next one to be read. -/
def Call.Next (c : Conn Payload) : Call → Prop
  | .awaiting op frame =>
    c.written.length = frame + 1 ∧ c.written[frame]? = some op.msg ∧ c.consumed = frame
  | _ => True

/-- An outcome with a reply has the reply to its own frame. -/
def Outcome.Own (c : Conn Payload) : Outcome → Prop
  | .replied op frame result =>
    c.written[frame]? = some op.msg ∧
      ∃ payload, c.answered[frame]? = some payload ∧ result = reply decode payload
  | .failed _ _ => True

structure Inv (c : Conn Payload) : Prop where
  consumed_le : c.consumed ≤ c.answered.length
  answered_le : c.answered.length ≤ c.written.length
  /-- No frame is unaccounted for. -/
  owed : c.written.length ≤ c.consumed + c.repliesOwed
  owed_le_one : c.repliesOwed ≤ 1
  /-- The count is exact unless a drained reply did not decode. -/
  exact : (∀ payload ∈ c.answered, ∃ msg, decode payload = .ok msg) →
    c.written.length = c.consumed + c.repliesOwed
  call : c.call.Next c
  outcomes : ∀ outcome ∈ c.outcomes, outcome.Own decode c

variable {decode}

variable {c c' : Conn Payload} {act : Act Payload}

theorem Outcome.Own.mono {outcome : Outcome} (h : outcome.Own decode c)
    (hwritten : c.written <+: c'.written) (hanswered : c.answered <+: c'.answered) :
    outcome.Own decode c' := by
  cases outcome with
  | failed op err => trivial
  | replied op frame result =>
    obtain ⟨hmsg, payload, hpayload, hresult⟩ := h
    obtain ⟨ws, hws⟩ := hwritten
    obtain ⟨ps, hps⟩ := hanswered
    refine ⟨?_, payload, ?_, hresult⟩
    · rw [← hws, getElem?_append_left (List.getElem?_eq_some_iff.mp hmsg).1]
      exact hmsg
    · rw [← hps, getElem?_append_left (List.getElem?_eq_some_iff.mp hpayload).1]
      exact hpayload

/-- A call that ends without having read a frame leaves the accounting as it is. -/
theorem Inv.idle (h : Inv decode c)
    (hc' : c' = { c with call := .idle, dead := c'.dead, outcomes := c'.outcomes }) (hout :
      ∀ outcome ∈ c'.outcomes, outcome ∈ c.outcomes ∨ ∃ op err, outcome = .failed op err) :
    Inv decode c' := by
  rw [hc']
  refine { h with call := trivial, outcomes := ?_ }
  intro outcome hmem
  rcases hout outcome hmem with hmem | ⟨op, err, rfl⟩
  · exact (h.outcomes outcome hmem).mono (prefix_rfl) (prefix_rfl)
  · trivial

theorem Inv.fail (h : Inv decode c) (op : Op) (err : StemError) (dead : Bool) :
    Inv decode { c.fail op err with dead := dead } :=
  h.idle rfl fun outcome hmem => by
    rcases mem_append.mp hmem with hmem | hmem
    · exact .inl hmem
    · exact .inr ⟨op, err, mem_singleton.mp hmem⟩

/-- **A turn of the drain loop.** -/
theorem Inv.drain (h : Inv decode c) (hstep : step decode c .drain = some c') : Inv decode c' := by
  rw [step] at hstep
  split at hstep
  · next op hcall =>
    obtain ⟨⟨-, hpos⟩, hstep⟩ := Option.ite_none_right_eq_some.mp hstep
    obtain ⟨payload, hpayload, rfl⟩ := Option.map_eq_some_iff.mp hstep
    obtain ⟨hlt, hget⟩ := List.getElem?_eq_some_iff.mp hpayload
    have howed := h.owed
    have hone := h.owed_le_one
    cases hdec : decode payload with
    | ok msg =>
      refine ⟨hlt, h.answered_le, ?_, ?_, fun hall => ?_, by simp [hcall, Call.Next], ?_⟩
      · show c.written.length ≤ c.consumed + 1 + (c.repliesOwed - 1)
        omega
      · show c.repliesOwed - 1 ≤ 1
        omega
      · show c.written.length = c.consumed + 1 + (c.repliesOwed - 1)
        have := h.exact hall
        omega
      · exact fun outcome hmem => (h.outcomes outcome hmem).mono prefix_rfl prefix_rfl
    | error e =>
      refine Inv.fail (c := { c with consumed := c.consumed + 1 })
        ⟨hlt, h.answered_le, ?_, hone, fun hall => ?_, ?_, ?_⟩ op e c.dead
      · show c.written.length ≤ c.consumed + 1 + c.repliesOwed
        omega
      · obtain ⟨msg, hmsg⟩ := hall payload (hget ▸ getElem_mem hlt)
        rw [hdec] at hmsg
        cases hmsg
      · simp [hcall, Call.Next]
      · exact fun outcome hmem => (h.outcomes outcome hmem).mono prefix_rfl prefix_rfl
  · cases hstep

/-- **Writing the frame.** Nothing is owed here, so all replies so far have been read and the next
one is the answer to this frame. -/
theorem Inv.write (h : Inv decode c) (hstep : step decode c .write = some c') : Inv decode c' := by
  rw [step] at hstep
  split at hstep
  · next op hcall =>
    obtain ⟨⟨-, hzero⟩, hstep⟩ := Option.ite_none_right_eq_some.mp hstep
    cases hstep
    have hcons := h.consumed_le
    have hans := h.answered_le
    have howed := h.owed
    have hall : c.consumed = c.written.length := by omega
    refine ⟨hcons, ?_, ?_, ?_, fun _ => ?_, ⟨?_, ?_, hall⟩, ?_⟩
    · rw [length_append]
      exact Nat.le_trans hans (Nat.le_add_right _ _)
    · rw [length_append, length_singleton]
      show c.written.length + 1 ≤ c.consumed + (c.repliesOwed + 1)
      omega
    · show c.repliesOwed + 1 ≤ 1
      omega
    · rw [length_append, length_singleton]
      show c.written.length + 1 = c.consumed + (c.repliesOwed + 1)
      omega
    · rw [length_append, length_singleton]
    · exact getElem?_concat_length
    · exact fun outcome hmem =>
        (h.outcomes outcome hmem).mono (prefix_append _ _) prefix_rfl
  · cases hstep

/-- **Reading the reply.** -/
theorem Inv.read (h : Inv decode c) (hstep : step decode c .read = some c') : Inv decode c' := by
  rw [step] at hstep
  split at hstep
  · next op frame hcall =>
    obtain ⟨-, hstep⟩ := Option.ite_none_right_eq_some.mp hstep
    obtain ⟨payload, hpayload, rfl⟩ := Option.map_eq_some_iff.mp hstep
    obtain ⟨hlt, -⟩ := List.getElem?_eq_some_iff.mp hpayload
    have hans := h.answered_le
    have howed := h.owed
    have hone := h.owed_le_one
    have hnext := h.call
    rw [hcall] at hnext
    obtain ⟨hlen, hmsg, hframe⟩ := hnext
    refine ⟨hlt, hans, ?_, ?_, fun _ => ?_, trivial, ?_⟩
    · show c.written.length ≤ c.consumed + 1 + (c.repliesOwed - 1)
      omega
    · show c.repliesOwed - 1 ≤ 1
      omega
    · show c.written.length = c.consumed + 1 + (c.repliesOwed - 1)
      omega
    · intro outcome hmem
      rcases mem_append.mp hmem with hmem | hmem
      · exact (h.outcomes outcome hmem).mono prefix_rfl prefix_rfl
      · rw [mem_singleton.mp hmem]
        exact ⟨hmsg, payload, by rw [← hframe]; exact hpayload, rfl⟩
  · cases hstep

theorem Inv.answer {payload : Payload} (h : Inv decode c)
    (hstep : step decode c (.answer payload) = some c') : Inv decode c' := by
  obtain ⟨⟨-, hlt⟩, hstep⟩ := Option.ite_none_right_eq_some.mp hstep
  cases hstep
  have hlen : (c.answered ++ [payload]).length = c.answered.length + 1 := by
    rw [length_append, length_singleton]
  refine ⟨?_, ?_, h.owed, h.owed_le_one, fun hall => ?_, ?_, ?_⟩
  · exact Nat.le_trans h.consumed_le (hlen ▸ Nat.le_succ _)
  · exact hlen ▸ hlt
  · exact h.exact fun p hp => hall p (mem_append_left _ hp)
  · have hnext := h.call
    cases hcall : c.call with
    | awaiting op frame =>
      rw [hcall] at hnext
      exact hnext
    | _ => trivial
  · exact fun outcome hmem =>
      (h.outcomes outcome hmem).mono prefix_rfl (prefix_append _ _)

/-- **One step.** -/
theorem Inv.step (h : Inv decode c) (hstep : Client.step decode c act = some c') :
    Inv decode c' := by
  cases act with
  | start op =>
    rw [Client.step] at hstep
    split at hstep
    · cases hstep
      refine { h with call := trivial, outcomes := ?_ }
      exact fun outcome hmem => (h.outcomes outcome hmem).mono prefix_rfl prefix_rfl
    · cases hstep
  | drain => exact h.drain hstep
  | write => exact h.write hstep
  | read => exact h.read hstep
  | timeout =>
    rw [Client.step] at hstep
    split at hstep
    · split at hstep
      · cases hstep
        exact h.fail _ _ _
      · cases hstep
    · cases hstep
      exact h.fail _ _ _
    · cases hstep
  | ioError =>
    rw [Client.step] at hstep
    split at hstep
    · cases hstep
      exact h.fail _ _ _
    · cases hstep
      exact h.fail _ _ _
    · cases hstep
  | drop =>
    rw [Client.step] at hstep
    split at hstep
    · cases hstep
    · cases hstep
      exact h.idle rfl fun outcome hmem => .inl hmem
  | answer payload => exact h.answer hstep

variable (decode) in
theorem inv_init : Inv decode (init : Conn Payload) where
  consumed_le := Nat.le_refl _
  answered_le := Nat.le_refl _
  owed := Nat.le_refl _
  owed_le_one := Nat.zero_le _
  exact := fun _ => rfl
  call := trivial
  outcomes := fun _ hmem => absurd hmem not_mem_nil

/-- **Every run keeps the accounting.** -/
theorem Inv.run {acts : List (Act Payload)} (h : Runs.run (Client.step decode) acts init = some c) :
    Inv decode c :=
  Runs.invariant (fun _ _ _ hi hs => hi.step hs) h (inv_init decode)

/-! ### Whole runs -/

variable (decode)

/-- **A completed request has its own reply.** Whatever was abandoned before, and at whichever await
point: a call that wrote frame `frame` and returned with a reply returned the holder's reply to
frame `frame`, which carries that call's message. -/
theorem completed_own_reply (acts : List (Act Payload)) {c : Conn Payload}
    (hrun : Runs.run (step decode) acts init = some c) :
    ∀ op frame result, .replied op frame result ∈ c.outcomes →
      c.written[frame]? = some op.msg ∧
        ∃ payload, c.answered[frame]? = some payload ∧ result = reply decode payload :=
  fun op frame result hmem => (Inv.run hrun).outcomes (.replied op frame result) hmem

end

/-- The case the counter was introduced for: a termios query is dropped after its frame was
written, and the resize after it gets its own `Ok` and not the late `TermiosAck`. -/
theorem completed_own_reply_dropped :
    ∃ c : Conn HolderMsg,
      Runs.run (step Except.ok)
          [.start .queryTermios, .write, .drop, .answer (.termiosAck false false),
            .start (.resize 80 24), .drain, .write, .answer .ok, .read] init = some c ∧
        .replied (.resize 80 24) 1 (.ok .ok) ∈ c.outcomes ∧
        c.written[1]? = some (.resize 80 24) ∧ c.answered[1]? = some .ok := by
  have h := completed_own_reply (@Except.ok StemError HolderMsg)
    [.start .queryTermios, .write, .drop, .answer (.termiosAck false false),
      .start (.resize 80 24), .drain, .write, .answer .ok, .read] rfl (.resize 80 24) 1 (.ok .ok)
    mem_cons_self
  obtain ⟨hmsg, payload, hpayload, -⟩ := h
  exact ⟨_, rfl, mem_cons_self, hmsg, rfl⟩

end Bud.Client
