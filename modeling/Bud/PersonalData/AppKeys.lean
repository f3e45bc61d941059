import Bud.PersonalData.Automations

/-!
# App data keys

An agent may ask that an app on one of the owner's sites be given a key to read personal data with
(`app-keys.ts`). Once the owner has approved the request, the key waits, encrypted for the app's
installation, until the installation proves that it has it; if that takes too long the setup has
failed. The app then queries data with the key (`app-queries.ts`): a query authenticates without a
lock, reads, and confirms under the owner's lock that the key is still what it was.

## Modelling notes

Everything here belongs to one owner, whose lock makes a transaction atomic; one that throws leaves
everything as it is. A transaction reads the clock several times (`Clock`), and the maintenance job
reads it before it waits for the lock. Times are in milliseconds.

Signatures are verified by a parameter, and so is SHA-256. Values whose canonical hashes the code
compares are compared themselves. The owner's invocations and sites, and the encryption, which is
random, are left to the environment (`Env`); so is what a query reads, and how it fails. Input has
been parsed, and what is stored parses again. Pages of lists, and who has decided what, are left
out.
-/

namespace Bud.AppKeys

open Automations (DataRequestError)

/-! ### Requests -/

inductive Scope where
  | contactsRead
  | locationRead
  | healthRead
  deriving DecidableEq

inductive HealthType where
  | workouts
  | sleep
  deriving DecidableEq

inductive LocationPrecision where
  | none
  | rounded2Decimals
  | asCollected
  deriving DecidableEq

structure AppDataPolicy where
  scopes : List Scope
  contactFields : List String
  healthTypes : List HealthType
  locationPrecision : LocationPrecision
  historyDays : ℕ
  deriving DecidableEq

/-- The public key of an installation, with its fingerprint. -/
structure AppKeyRecipient where
  publicKey : String
  fingerprint : String
  deriving DecidableEq

structure Destination where
  proxiedSiteId : String
  publicKey : AppKeyRecipient
  deriving DecidableEq

structure AppKeyRequestDefinition where
  appLabel : String
  purpose : String
  dataAccess : AppDataPolicy
  destination : Destination
  deriving DecidableEq

inductive RequestStatus where
  | pending
  | approved
  | declined
  | canceled
  | expired
  deriving DecidableEq

inductive Choice where
  | approve
  | decline
  deriving DecidableEq

structure Decision where
  decision : Choice
  expectedVersion : ℕ
  idempotencyKey : String
  deriving DecidableEq

structure Request where
  id : String
  invocationId : String
  callId : String
  budId : String
  proxiedSiteId : String
  definition : AppKeyRequestDefinition
  status : RequestStatus
  version : ℕ
  decisionRequest : Option Decision
  decisionIdempotencyKey : Option String
  expiresAt : ℕ

/-! ### Keys -/

inductive KeyStatus where
  | handoffPending
  | installed
  | revoked
  | setupFailed
  deriving DecidableEq

/-- `AppKeyContext`: what a proof is about. -/
structure AppKeyContext where
  requestId : String
  keyId : String
  recipientFingerprint : String
  expiresAt : ℕ

structure AppKeyEnvelope extends AppKeyContext where
  ciphertext : String
  ciphertextSha256 : String

structure Revocation where
  expectedVersion : ℕ
  idempotencyKey : String
  deriving DecidableEq

structure Key where
  id : String
  requestId : String
  verificationHash : String
  status : KeyStatus
  version : ℕ
  encryptedEnvelope : Option AppKeyEnvelope
  ciphertextDigest : String
  setupExpiresAt : ℕ
  installedAt : Option ℕ
  revokedAt : Option ℕ
  revokeRequest : Option Revocation
  outcomeCode : Option String
  lastUsedAt : Option ℕ

def pendingRequestsPerOwner : ℕ := 20

def activeKeysPerOwner : ℕ := 100

def setupSeconds : ℕ := 86400

/-! ### Credentials -/

/-- `[0-9A-HJKMNP-TV-Z]` -/
def isUlidChar (c : Char) : Bool :=
  c.isDigit || ('A' ≤ c && c ≤ 'H') || c = 'J' || c = 'K' || c = 'M' || c = 'N' ||
    ('P' ≤ c && c ≤ 'T') || ('V' ≤ c && c ≤ 'Z')

/-- `/^dak_[0-9A-HJKMNP-TV-Z]{26}$/` -/
def keyIdPattern (id : String) : Bool :=
  id.toList.length = 30 && id.toList.take 4 = ['d', 'a', 'k', '_'] &&
    (id.toList.drop 4).all isUlidChar

/-- `/^[a-f0-9]{64}$/` -/
def digestPattern (digest : String) : Bool :=
  digest.toList.length = 64 && digest.toList.all fun c => c.isDigit || ('a' ≤ c && c ≤ 'f')

/-- The id of the key that a credential begins with, up to its dot. -/
def credentialKeyId (credential : String) : String := String.ofList (credential.toList.take 30)

/-- `/^dak_[0-9A-HJKMNP-TV-Z]{26}\.[A-Za-z0-9_-]{43}$/` -/
def credentialPattern (credential : String) : Bool :=
  credential.toList.length = 74 && keyIdPattern (credentialKeyId credential) &&
    credential.toList[30]? = some '.' &&
    (credential.toList.drop 31).all fun c => c.isAlphanum || c = '_' || c = '-'

variable (sha256 : String → String)

def verifyAppQueryCredential (credential keyId expectedHash : String) : Bool :=
  keyIdPattern keyId && digestPattern expectedHash && credentialPattern credential &&
    credentialKeyId credential = keyId && sha256 credential = expectedHash

/-! ### Queries -/

/-- `AppKeyAuthority`: what a query has authenticated as. -/
structure AppKeyAuthority where
  keyId : String
  version : ℕ
  policy : AppDataPolicy

inductive Operation where
  | contactsSearch
  | contactsGet
  | contactsHistory
  | timelineQuery
  | locationContext
  | locationRecent
  | locationVisits
  | healthWorkouts
  | healthSleep

def Operation.required : Operation → List Scope
  | .timelineQuery | .locationRecent | .locationVisits => [.locationRead]
  | .locationContext => [.contactsRead, .locationRead]
  | .healthWorkouts | .healthSleep => [.healthRead]
  | .contactsSearch | .contactsGet | .contactsHistory => [.contactsRead]

def Operation.healthType : Operation → Option HealthType
  | .healthWorkouts => some .workouts
  | .healthSleep => some .sleep
  | _ => none

/-- How far a query has come, with the data that it has read. -/
inductive Phase (δ : Type) where
  | reading
  | read (data : δ)
  | returned (data : δ)
  | failed (error : DataRequestError)
  deriving DecidableEq

structure Query (δ : Type) where
  authority : AppKeyAuthority
  operation : Operation
  phase : Phase δ

/-! ### The tables -/

structure State (δ : Type) where
  clock : ℕ
  requests : List Request
  keys : List Key
  queries : List (Query δ)

variable {δ : Type}

def init : State δ := { clock := 0, requests := [], keys := [], queries := [] }

/-- The readings of the clock in a transaction. -/
structure Clock where
  first : ℕ
  second : ℕ
  third : ℕ
  first_le : first ≤ second
  second_le : second ≤ third

structure OwnedInvocation extends Invocation.Row where
  budId : String

/-- `AppKeyRequestContext`: who asks for a key. -/
structure AppKeyRequestContext where
  invocationId : String
  workerId : String
  fence : ℕ
  callId : String

structure Env where
  /-- The owner's invocation, with its thread and its Bud. -/
  invocation : String → Option OwnedInvocation
  /-- The call is one of this tool, about to be made. -/
  intent : AppKeyRequestContext → Bool
  /-- The owner's site is on this Bud, enabled, private and has not expired. -/
  validSite : String → String → Bool
  /-- `sealAppQueryCredential`, which fails if the recipient's key is not what it was. -/
  sealCredential : String → AppKeyRecipient → AppKeyContext → Option AppKeyEnvelope

def OwnedInvocation.leasedBy (invocation : OwnedInvocation) (now : ℕ)
    (context : AppKeyRequestContext) : Bool :=
  invocation.status = .running && invocation.workerId = some context.workerId &&
    invocation.fence = context.fence && invocation.leaseExpiresAt.any (now < ·) &&
    invocation.cancelRequestedAt.isNone

def OwnedInvocation.active (invocation : OwnedInvocation) : Bool :=
  invocation.cancelRequestedAt.isNone &&
    (invocation.status = .running || invocation.status = .waitingForUser)

def notFound : DataRequestError :=
  ⟨404, "app_data_not_found", "App data permission not found"⟩

def conflict : DataRequestError :=
  ⟨409, "app_data_conflict", "App data permission changed; reload before continuing"⟩

def denied : DataRequestError := ⟨403, "app_data_key_invalid", "App data key is unavailable"⟩

/-- What nobody catches. -/
def internalError (message : String) : DataRequestError := ⟨500, "internal_error", message⟩

namespace State

def load (s : State δ) (id : String) : Except DataRequestError Request :=
  match s.requests.find? (·.id = id) with
  | some row => .ok row
  | none => .error notFound

def updateRequest (s : State δ) (id : String) (update : Request → Request) : State δ :=
  { s with requests := s.requests.map fun row => if row.id = id then update row else row }

def updateKey (s : State δ) (id : String) (update : Key → Key) : State δ :=
  { s with keys := s.keys.map fun row => if row.id = id then update row else row }

/-! ### Requests and decisions -/

def pendingRequests (s : State δ) (now : ℕ) : ℕ :=
  s.requests.countP fun row => row.status = .pending && now < row.expiresAt

end State

def Key.active (key : Key) (now : ℕ) : Bool :=
  key.status = .installed || key.status = .handoffPending && now < key.setupExpiresAt

namespace State

def activeKeys (s : State δ) (now : ℕ) : ℕ := s.keys.countP (·.active now)

def requestInTransaction (s : State δ) (env : Env) (clock : Clock) (ulid : String)
    (context : AppKeyRequestContext) (value : AppKeyRequestDefinition) :
    Except DataRequestError (State δ × Request) := do
  let some invocation := env.invocation context.invocationId | throw notFound
  if !invocation.leasedBy clock.first context then
    throw ⟨409, "invocation_unavailable", "Invocation is no longer executing this request"⟩
  if !env.intent context then
    throw ⟨409, "app_data_intent_required", "A current data permission tool intent is required"⟩
  match s.requests.find? fun row =>
      row.invocationId = context.invocationId && row.callId = context.callId with
  | some existing =>
    if existing.definition ≠ value then throw conflict
    return (s, existing)
  | none =>
    if !env.validSite value.destination.proxiedSiteId invocation.budId then throw notFound
    if pendingRequestsPerOwner ≤ s.pendingRequests clock.second then
      throw ⟨409, "app_data_request_limit",
        "Resolve pending app data requests before creating more"⟩
    let row : Request :=
      { id := "dar_" ++ ulid
        invocationId := context.invocationId
        callId := context.callId
        budId := invocation.budId
        proxiedSiteId := value.destination.proxiedSiteId
        definition := value
        status := .pending
        version := 0
        decisionRequest := none
        decisionIdempotencyKey := none
        expiresAt := clock.third + setupSeconds * 1000 }
    if s.requests.any (·.id = row.id) then throw (internalError "duplicate key value")
    return ({ s with requests := s.requests ++ [row] }, row)

/-- The key that an approval issues. Its id is a primary key, and a request has one key only. -/
def issue (s : State δ) (env : Env) (clock : Clock) (prior : Request) (ulid secret : String) :
    Except DataRequestError (State δ) := do
  let recipient := prior.definition.destination.publicKey
  let keyId := "dak_" ++ ulid
  let credential := keyId ++ "." ++ secret
  let expiry := clock.third + setupSeconds * 1000
  let some envelope := env.sealCredential credential recipient
      { requestId := prior.id
        keyId
        recipientFingerprint := recipient.fingerprint
        expiresAt := expiry }
    | throw (internalError "invalid_app_key_material")
  if s.keys.any fun key => key.id = keyId || key.requestId = prior.id then
    throw (internalError "duplicate key value")
  return { s with
    keys := s.keys ++
      [{ id := keyId
         requestId := prior.id
         verificationHash := sha256 credential
         status := .handoffPending
         version := 0
         encryptedEnvelope := some envelope
         ciphertextDigest := envelope.ciphertextSha256
         setupExpiresAt := expiry
         installedAt := none
         revokedAt := none
         revokeRequest := none
         outcomeCode := none
         lastUsedAt := none }] }

/-- What an approval does before it is written down. -/
def approve (s : State δ) (env : Env) (clock : Clock) (prior : Request) (ulid secret : String) :
    Except DataRequestError (State δ) := do
  if !env.validSite prior.proxiedSiteId prior.budId then throw notFound
  if activeKeysPerOwner ≤ s.activeKeys clock.second then
    throw ⟨409, "app_data_key_limit", "Revoke an unused app key before approving more"⟩
  s.issue sha256 env clock prior ulid secret

def decide (s : State δ) (env : Env) (clock : Clock) (ulid secret : String) (id : String)
    (value : Decision) : Except DataRequestError (State δ) := do
  let prior ← s.load id
  if prior.decisionIdempotencyKey = some value.idempotencyKey then
    if prior.decisionRequest ≠ some value then throw conflict
    return s
  if prior.status ≠ .pending ∨ prior.version ≠ value.expectedVersion then throw conflict
  if s.requests.any (·.decisionIdempotencyKey = some value.idempotencyKey) then throw conflict
  if prior.expiresAt ≤ clock.first ∨ !(env.invocation prior.invocationId).any (·.active) then
    return s.updateRequest id fun row =>
      { row with
        status := if prior.expiresAt ≤ clock.second then .expired else .canceled
        version := prior.version + 1 }
  let issued ← match value.decision with
    | .approve => s.approve sha256 env clock prior ulid secret
    | .decline => .ok s
  return issued.updateRequest id fun row =>
    { row with
      status := match value.decision with
        | .approve => .approved
        | .decline => .declined
      version := prior.version + 1
      decisionRequest := some value
      decisionIdempotencyKey := some value.idempotencyKey }

/-- What `requestCancelInTransaction` does to requests, if the invocation is not over. -/
def cancelInvocation (s : State δ) (invocationId : String) : State δ :=
  { s with
    requests := s.requests.map fun row =>
      if row.invocationId = invocationId ∧ row.status = .pending then
        { row with status := .canceled, version := row.version + 1 }
      else row }

/-! ### Keys -/

def revoke (s : State δ) (clock : Clock) (keyId : String) (value : Revocation) :
    Except DataRequestError (State δ) := do
  let some key := s.keys.find? (·.id = keyId) | throw notFound
  if key.revokeRequest = some value then return s
  if key.version ≠ value.expectedVersion ∨
      ¬(key.status = .handoffPending ∨ key.status = .installed) then
    throw conflict
  return s.updateKey keyId fun row =>
    { row with
      status := .revoked
      encryptedEnvelope := none
      revokedAt := some clock.first
      revokeRequest := some value
      version := key.version + 1
      outcomeCode := some "owner_revoked" }

end State

inductive HandoffAction where
  | retrieve
  | installed
  deriving DecidableEq

structure Handoff where
  status : KeyStatus
  keyId : String
  envelope : Option AppKeyEnvelope

/-- What a proof about the key has to be about. -/
def Key.context (key : Key) (request : Request) : AppKeyContext :=
  { requestId := request.id
    keyId := key.id
    recipientFingerprint := request.definition.destination.publicKey.fingerprint
    expiresAt := key.setupExpiresAt }

/-- The type of `verifyAppKeyProof`. -/
abbrev ProofCheck : Type :=
  AppKeyRecipient → HandoffAction → AppKeyContext → String → Option String → Bool

variable (verifyAppKeyProof : ProofCheck)

namespace State

def handoff (s : State δ) (env : Env) (clock : Clock) (keyId : String) (action : HandoffAction)
    (signature : String) : Except DataRequestError (State δ × Handoff) := do
  let some key := s.keys.find? (·.id = keyId) | throw notFound
  let request ← s.load key.requestId
  let recipient := request.definition.destination.publicKey
  let digest := if action = .installed then some key.ciphertextDigest else none
  if !verifyAppKeyProof recipient action (key.context request) signature digest then throw notFound
  if key.status ≠ .handoffPending then
    return (s, { status := key.status, keyId := key.id, envelope := none })
  let expired := key.setupExpiresAt ≤ clock.first
  let invalid :=
    request.status ≠ .approved ∨ env.validSite request.proxiedSiteId request.budId = false
  if expired ∨ invalid then
    return (s.updateKey key.id fun row =>
        { row with
          status := .setupFailed
          encryptedEnvelope := none
          revokedAt := some clock.second
          version := key.version + 1
          outcomeCode :=
            some (if expired then "setup_expired" else "destination_unavailable") },
      { status := .setupFailed, keyId := key.id, envelope := none })
  match action with
  | .retrieve =>
    return (s, { status := .handoffPending, keyId := key.id, envelope := key.encryptedEnvelope })
  | .installed =>
    return (s.updateKey key.id fun row =>
        { row with
          status := .installed
          encryptedEnvelope := none
          installedAt := some clock.second
          version := key.version + 1 },
      { status := .installed, keyId := key.id, envelope := none })

/-- The maintenance job, which has read the clock before it took the lock. -/
def expireNext (s : State δ) (now : ℕ) : State δ :=
  let pending := (((s.requests.filter fun row =>
    row.status = .pending && row.expiresAt < now).insertionSort
      fun a b => a.expiresAt ≤ b.expiresAt).take 100).map (·.id)
  let uninstalled := (((s.keys.filter fun key =>
    key.status = .handoffPending && key.setupExpiresAt < now).insertionSort
      fun a b => a.setupExpiresAt ≤ b.setupExpiresAt).take 100).map (·.id)
  { s with
    requests := s.requests.map fun row =>
      if row.id ∈ pending then { row with status := .expired, version := row.version + 1 } else row
    keys := s.keys.map fun key =>
      if key.id ∈ uninstalled then
        { key with
          status := .setupFailed
          encryptedEnvelope := none
          revokedAt := some now
          version := key.version + 1
          outcomeCode := some "setup_expired" }
      else key }

/-! ### Queries -/

def authenticate (s : State δ) (env : Env) (credential : String) :
    Except DataRequestError AppKeyAuthority := do
  if !credentialPattern credential then throw denied
  let keyId := credentialKeyId credential
  let some key := s.keys.find? fun key => key.id = keyId && key.status = .installed | throw denied
  let some request := s.requests.find? fun row =>
      row.id = key.requestId && row.status = .approved
    | throw denied
  if !verifyAppQueryCredential sha256 credential keyId key.verificationHash ||
      !env.validSite request.proxiedSiteId request.budId then
    throw denied
  return { keyId, version := key.version, policy := request.definition.dataAccess }

def confirmCurrent (s : State δ) (env : Env) (clock : Clock) (authority : AppKeyAuthority) :
    Except DataRequestError (State δ) := do
  let some key := s.keys.find? fun key =>
      key.id = authority.keyId && key.version = authority.version && key.status = .installed
    | throw denied
  let some request := s.requests.find? fun row =>
      row.id = key.requestId && row.status = .approved
    | throw denied
  if !env.validSite request.proxiedSiteId request.budId ||
      request.definition.dataAccess ≠ authority.policy then
    throw denied
  return s.updateKey authority.keyId fun row => { row with lastUsedAt := some clock.first }

/-- `execute`, up to what it reads. -/
def beginQuery (s : State δ) (env : Env) (credential : String) (operation : Operation)
    (parsed : Bool) : Except DataRequestError (State δ) := do
  let authority ← s.authenticate sha256 env credential
  if !parsed then throw ⟨400, "invalid_app_data_query", "Invalid app data query"⟩
  if !operation.required.all (authority.policy.scopes.contains ·) ||
      operation.healthType.any (!authority.policy.healthTypes.contains ·) then
    throw ⟨403, "app_data_scope_required", "This app was not granted the requested data scope"⟩
  return { s with queries := s.queries ++ [{ authority, operation, phase := .reading }] }

def setPhase (s : State δ) (id : ℕ) (phase : Phase δ) : State δ :=
  { s with queries := s.queries.modify id ({ · with phase }) }

/-- `execute` has read its data, and confirms. Only then it returns them. -/
def confirmQuery (s : State δ) (env : Env) (clock : Clock) (id : ℕ) : Option (State δ) := do
  let query ← s.queries[id]?
  let .read data := query.phase | none
  return match s.confirmCurrent env clock query.authority with
    | .ok t => t.setPhase id (.returned data)
    | .error error => s.setPhase id (.failed error)

/-- `execute` reads, at any time. -/
def readQuery (s : State δ) (id : ℕ) (result : Except DataRequestError δ) : Option (State δ) := do
  let query ← s.queries[id]?
  let .reading := query.phase | none
  return match result with
    | .ok data => s.setPhase id (.read data)
    | .error error => s.setPhase id (.failed error)

/-- A transaction that throws leaves everything as it is. -/
def commit {ε : Type} (s : State δ) : Except ε (State δ) → State δ
  | .ok t => t
  | .error _ => s

def tick (s : State δ) (clock : Clock) (x : State δ) : Option (State δ) :=
  if s.clock ≤ clock.first then some { x with clock := clock.third } else none

end State

/-! ### Steps -/

inductive Act (δ : Type) where
  | request (env : Env) (clock : Clock) (ulid : String) (context : AppKeyRequestContext)
      (value : AppKeyRequestDefinition)
  | decide (env : Env) (clock : Clock) (ulid secret : String) (id : String) (value : Decision)
  | cancelInvocation (invocationId : String)
  | revoke (clock : Clock) (keyId : String) (value : Revocation)
  | handoff (env : Env) (clock : Clock) (keyId : String) (action : HandoffAction)
      (signature : String)
  | expireNext (now : ℕ)
  | beginQuery (env : Env) (credential : String) (operation : Operation) (parsed : Bool)
  | readQuery (id : ℕ) (result : Except DataRequestError δ)
  | confirmQuery (env : Env) (clock : Clock) (id : ℕ)

def step (s : State δ) : Act δ → Option (State δ)
  | .request env clock ulid context value =>
    s.tick clock (s.commit ((s.requestInTransaction env clock ulid context value).map (·.1)))
  | .decide env clock ulid secret id value =>
    s.tick clock (s.commit (s.decide sha256 env clock ulid secret id value))
  | .cancelInvocation invocationId => some (s.cancelInvocation invocationId)
  | .revoke clock keyId value => s.tick clock (s.commit (s.revoke clock keyId value))
  | .handoff env clock keyId action signature =>
    s.tick clock
      (s.commit ((s.handoff verifyAppKeyProof env clock keyId action signature).map (·.1)))
  | .expireNext now => some { s.expireNext now with clock := max s.clock now }
  | .beginQuery env credential operation parsed =>
    some (s.commit (s.beginQuery sha256 env credential operation parsed))
  | .readQuery id result => s.readQuery id result
  | .confirmQuery env clock id => (s.confirmQuery env clock id).bind (s.tick clock)

end Bud.AppKeys
