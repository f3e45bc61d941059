import Bud.Lib.Runs

/-!
# Bud connections

`bud-connection.ts` with `session-trackers.ts`: the WebSocket connections of any number of Buds, the
`sessions` map they share and the rows of the Buds. A connection says hello, is challenged with a
nonce, and proves that it knows the Bud's secret; its tracker is then put in the map, in place of
the one that was there. When a connection closes, or its tracker is not heard from for too long, the
tracker is taken out again if it is still the current one, and the Bud is marked offline.

## Modelling notes

Frames are handled as they come, without waiting for the ones before, so what is left of a handler
at an await is kept in a list: `hellos` wait for the Bud's row, `authentications` and `closings`
have a list of steps to take. A step is one await that completes, with all that the handler does
before the next. An update of a row is a step of its own, as it happens before the handler goes on.

Frames that are refused (`sendError` and `close`) change nothing here: the socket's own `close`
event may come at any time. So may a timeout, as it does nothing unless its tracker is the current
one. The development token is off, and a `hello` with a token is refused.

A Bud that has no row is one without a secret. Of a row the fields are kept that the handlers read,
and the status. `hmac` is `createHmac("sha256", …)` in base64url; nonces come from `randomBytes(32)`
and do not repeat.
-/

namespace Bud.Gateway

variable {B N S D I : Type*}

/-! ### Data -/

/-- A `hello` frame. -/
structure Hello (B I : Type*) where
  token : Bool
  budId : Option B
  installationId : Option I

/-- A `hello` that waits for the Bud's row. -/
structure PendingHello (B I : Type*) where
  connection : ℕ
  budId : B
  installationId : Option I

structure Challenge (B N S I : Type*) where
  budId : B
  deviceSecret : S
  nonce : N
  installationId : Option I

inductive ConnectionState (B N S I : Type*) where
  | awaitingHello
  | awaitingProof (challenge : Challenge B N S I)
  | connected (budId : B)
  | closed

def ConnectionState.budId? : ConnectionState B N S I → Option B
  | .awaitingProof challenge => some challenge.budId
  | .connected budId => some budId
  | .awaitingHello | .closed => none

structure SessionTracker (B : Type*) where
  id : ℕ
  budId : B
  connection : ℕ
  deriving DecidableEq

structure Connection (B N S I : Type*) where
  state : ConnectionState B N S I
  tracker : Option (SessionTracker B)
  /-- The socket's `close` event has come. -/
  closed : Bool

structure BudRow (S I : Type*) where
  deviceSecret : Option S
  installationId : Option I
  online : Bool

/-- The awaits of `handleHelloProof` and `registerSession`. -/
inductive AuthStep where
  | resolveName
  /-- The update of the row to `online`. -/
  | markOnline
  | completeFlow
  | connect
  | registerDevice
  | registerTransport
  | acknowledge
  | emitOnline
  deriving DecidableEq

structure Authentication (B N S I : Type*) where
  connection : ℕ
  challenge : Challenge B N S I
  left : List AuthStep

/-- The awaits of `closeTrackerTransport` and `handleOfflineTransition`. -/
inductive CloseStep where
  | closeTransport
  | rejectPending
  | clearCaches
  | clearEventBuffers
  | suspendSessions
  | emitOffline
  /-- `markBudOffline`. -/
  | markOffline
  /-- The handler goes on to its end. -/
  | finish
  deriving DecidableEq

structure Closing (B : Type*) where
  /-- The connection, unless this is a heartbeat that timed out. -/
  owner : Option ℕ
  budId : B
  left : List CloseStep

/-- A tracker that has been registered, and the nonce that led to it. -/
structure Registration (B N : Type*) where
  tracker : SessionTracker B
  nonce : N

structure State (B N S D I : Type*) where
  connections : ℕ → Connection B N S I
  hellos : List (PendingHello B I)
  authentications : List (Authentication B N S I)
  closings : List (Closing B)
  sessions : B → Option (SessionTracker B)
  rows : B → BudRow S I
  nextTracker : ℕ
  issued : List (ℕ × Challenge B N S I)
  proofs : List (ℕ × D)
  registered : List (Registration B N)

/-- Nothing has happened, and every Bud is offline. -/
def init : State B N S D I :=
  { connections := fun _ => ⟨.awaitingHello, none, false⟩
    hellos := []
    authentications := []
    closings := []
    sessions := fun _ => none
    rows := fun _ => ⟨none, none, false⟩
    nextTracker := 0
    issued := []
    proofs := []
    registered := [] }

/-- The steps of an authentication, with a device flow to complete or without. -/
def authSteps (flow : Bool) : List AuthStep :=
  [AuthStep.resolveName, .markOnline] ++ (if flow then [AuthStep.completeFlow] else []) ++
    [AuthStep.connect, .registerDevice, .registerTransport, .acknowledge, .emitOnline]

def offlineSteps : List CloseStep :=
  [.closeTransport, .rejectPending, .clearCaches, .clearEventBuffers, .suspendSessions,
    .emitOffline, .markOffline, .finish]

def supersededSteps : List CloseStep := [.closeTransport, .finish]

/-! ### Connections -/

def State.setConnection (s : State B N S D I) (c : ℕ) (connection : Connection B N S I) :
    State B N S D I :=
  { s with connections := Function.update s.connections c connection }

def State.setState (s : State B N S D I) (c : ℕ) (state : ConnectionState B N S I) :
    State B N S D I :=
  s.setConnection c { s.connections c with state := state }

@[simp] theorem connections_setConnection_self (s : State B N S D I) (c : ℕ)
    (connection : Connection B N S I) : (s.setConnection c connection).connections c = connection :=
  Function.update_self ..

theorem connections_setConnection_of_ne (s : State B N S D I) (connection : Connection B N S I)
    (h : c' ≠ c) : (s.setConnection c connection).connections c' = s.connections c' :=
  Function.update_of_ne h ..

variable {s : State B N S D I} {c c' : ℕ} {connection : Connection B N S I}

theorem forall_setConnection {P : ℕ → Connection B N S I → Prop} (hself : P c connection)
    (hother : ∀ c' ≠ c, P c' (s.connections c')) (c' : ℕ) :
    P c' ((s.setConnection c connection).connections c') :=
  (Function.forall_update_iff s.connections P).mpr ⟨hself, hother⟩ c'

theorem closed_setConnection (h : connection.closed = (s.connections c).closed) :
    ((s.setConnection c connection).connections c').closed = (s.connections c').closed :=
  forall_setConnection (P := fun c' x => x.closed = (s.connections c').closed) h
    (fun _ _ => rfl) c'

variable [DecidableEq B]

/-! ### The map -/

def registerActiveSessionTracker (sessions : B → Option (SessionTracker B))
    (tracker : SessionTracker B) : B → Option (SessionTracker B) :=
  Function.update sessions tracker.budId (some tracker)

def deleteSessionTrackerIfCurrent (sessions : B → Option (SessionTracker B)) :
    Option (SessionTracker B) → Option (B → Option (SessionTracker B))
  | none => none
  | some tracker =>
    if sessions tracker.budId = some tracker then
      some (Function.update sessions tracker.budId none)
    else none

/-! ### Handlers -/

def State.setRow (s : State B N S D I) (budId : B) (row : BudRow S I) : State B N S D I :=
  { s with rows := Function.update s.rows budId row }

def handleHello (s : State B N S D I) (c : ℕ) (frame : Hello B I) : State B N S D I :=
  if frame.token then s
  else
    match frame.budId with
    | none => s
    | some budId => { s with hellos := s.hellos ++ [⟨c, budId, frame.installationId⟩] }

/-- `issueChallenge`, from the row it has waited for on. -/
def issueChallenge [DecidableEq I] (s : State B N S D I) (hello : PendingHello B I) (nonce : N) :
    State B N S D I :=
  let row := s.rows hello.budId
  match row.deviceSecret with
  | none => s
  | some deviceSecret =>
    if row.installationId.isSome ∧ hello.installationId.isSome ∧
        row.installationId ≠ hello.installationId then s
    else
      let challenge := ⟨hello.budId, deviceSecret, nonce, hello.installationId⟩
      { s.setState hello.connection (.awaitingProof challenge) with
        issued := s.issued ++ [(hello.connection, challenge)] }

/-- `handleHelloProof` up to its first await. -/
def handleHelloProof [DecidableEq D] (hmac : S → N → D) (s : State B N S D I) (c : ℕ)
    (digest : D) : State B N S D I :=
  let s := { s with proofs := s.proofs ++ [(c, digest)] }
  match (s.connections c).state with
  | .awaitingProof challenge =>
    if hmac challenge.deviceSecret challenge.nonce = digest then
      { s with
        authentications :=
          s.authentications ++ [⟨c, challenge, authSteps challenge.installationId.isSome⟩] }
    else s
  | _ => s

def registerSession (s : State B N S D I) (a : Authentication B N S I) : State B N S D I :=
  let tracker := ⟨s.nextTracker, a.challenge.budId, a.connection⟩
  { s.setConnection a.connection { s.connections a.connection with tracker := some tracker } with
    sessions := registerActiveSessionTracker s.sessions tracker
    nextTracker := s.nextTracker + 1
    registered := s.registered ++ [⟨tracker, a.challenge.nonce⟩] }

def authStep (s : State B N S D I) (a : Authentication B N S I) : AuthStep → State B N S D I
  | .markOnline =>
    let row := s.rows a.challenge.budId
    s.setRow a.challenge.budId
      { row with
        installationId := a.challenge.installationId.orElse fun _ => row.installationId
        online := true }
  | .connect => s.setState a.connection (.connected a.challenge.budId)
  | .registerTransport => registerSession s a
  | _ => s

/-- `handleClose` up to its first await. -/
def handleClose (s : State B N S D I) (c : ℕ) : State B N S D I :=
  let connection := s.connections c
  match connection.state with
  | .connected budId =>
    let s := s.setConnection c { connection with closed := true }
    match deleteSessionTrackerIfCurrent s.sessions connection.tracker with
    | some sessions =>
      { s with
        sessions := sessions
        closings := s.closings ++ [⟨some c, budId, offlineSteps⟩] }
    | none => { s with closings := s.closings ++ [⟨some c, budId, supersededSteps⟩] }
  | _ => s.setConnection c ⟨.closed, none, true⟩

/-- `handleTrackerTimeout` up to its first await. -/
def handleTrackerTimeout (s : State B N S D I) (tracker : SessionTracker B) :
    State B N S D I :=
  match deleteSessionTrackerIfCurrent s.sessions (some tracker) with
  | some sessions =>
    { s with
      sessions := sessions
      closings := s.closings ++ [⟨none, tracker.budId, offlineSteps⟩] }
  | none => s

/-- `handleClose` reads the Bud's id again once the transport has been closed. -/
def closingBud (s : State B N S D I) (owner : Option ℕ) (budId : B) : CloseStep → B
  | .closeTransport =>
    match owner with
    | some c => (s.connections c).state.budId?.getD budId
    | none => budId
  | _ => budId

def closeStep (s : State B N S D I) (closing : Closing B) : CloseStep → State B N S D I
  | .markOffline => s.setRow closing.budId { s.rows closing.budId with online := false }
  | .finish =>
    match closing.owner with
    | some c => s.setConnection c { s.connections c with
        state := .closed
        tracker := none }
    | none => s
  | _ => s

/-! ### Steps -/

inductive Act (B N S D I : Type*) where
  | hello (c : ℕ) (frame : Hello B I)
  /-- The `k`-th hello gets the row it waits for. -/
  | found (k : ℕ) (nonce : N)
  | proof (c : ℕ) (digest : D)
  /-- The `k`-th authentication takes its next step. -/
  | authenticate (k : ℕ)
  | close (c : ℕ)
  /-- The `k`-th closing takes its next step. -/
  | closing (k : ℕ)
  | timeout (tracker : SessionTracker B)
  /-- The Bud's secret and installation are changed elsewhere. -/
  | stored (budId : B) (deviceSecret : Option S) (installationId : Option I)

variable [DecidableEq N] [DecidableEq D] [DecidableEq I]

/-- One step; `none` is an action that cannot happen. -/
def step (hmac : S → N → D) (s : State B N S D I) :
    Act B N S D I → Option (State B N S D I)
  | .hello c frame => if (s.connections c).closed then none else some (handleHello s c frame)
  | .found k nonce =>
    match s.hellos[k]? with
    | some hello =>
      if nonce ∈ s.issued.map fun c => c.2.nonce then none
      else some (issueChallenge { s with hellos := s.hellos.eraseIdx k } hello nonce)
    | none => none
  | .proof c digest =>
    if (s.connections c).closed then none else some (handleHelloProof hmac s c digest)
  | .authenticate k =>
    match s.authentications[k]? with
    | some ⟨c, challenge, next :: left⟩ =>
      some (authStep { s with authentications := s.authentications.set k ⟨c, challenge, left⟩ }
        ⟨c, challenge, left⟩ next)
    | _ => none
  | .close c => if (s.connections c).closed then none else some (handleClose s c)
  | .closing k =>
    match s.closings[k]? with
    | some ⟨owner, budId, next :: left⟩ =>
      let closing := ⟨owner, closingBud s owner budId next, left⟩
      some (closeStep { s with closings := s.closings.set k closing } closing next)
    | _ => none
  | .timeout tracker =>
    if tracker ∈ s.registered.map Registration.tracker then some (handleTrackerTimeout s tracker)
    else none
  | .stored budId deviceSecret installationId =>
    some (s.setRow budId
      { s.rows budId with
        deviceSecret := deviceSecret
        installationId := installationId })

end Bud.Gateway
