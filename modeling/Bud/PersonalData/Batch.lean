import Bud.Lib.JsText
import Mathlib.Algebra.Order.Ring.Rat
import Mathlib.Data.List.Lex

/-!
# Batches of personal data

A phone uploads its events in batches, a line of JSON each. `parseBatch` decodes a batch and
validates its lines (`validateEvent`), and `persist` stores what is new in one transaction: an event
that is stored already is a duplicate, and an id that stands for different content is rejected. The
phone forgets the events that are acknowledged.

Strings are JavaScript's, and numbers are rationals with one value for the infinite ones, which
`JSON.parse` can produce. What the language and the platform do is `Runtime`: decompression, `JSON`
for a line of bytes, the text of a scalar, the digest and the dates are any functions. Rows get
their ids from a counter.
-/

namespace Bud.PersonalData

open JsText

abbrev Str := List UInt16

namespace Batch

/-! ### Values -/

inductive Json where
  | null
  | bool (b : Bool)
  /-- A finite number, or `none`. -/
  | num (n : Option ℚ)
  | str (s : Str)
  | arr (values : List Json)
  | obj (fields : List (Str × Json))

/-- `value.name`. -/
def Json.get? : Json → String → Option Json
  | .obj fields, name => fields.lookup (lit name)
  | _, _ => none

/-- `isRecord`. -/
def Json.isRecord : Json → Bool
  | .obj _ => true
  | _ => false

structure Runtime where
  /-- `gunzip` with a bound on the output: `none` for what is not gzip, `some none` for too much. -/
  gunzip : List UInt8 → ℕ → Option (Option (List UInt8))
  /-- A strict UTF-8 decoder and `JSON.parse`. -/
  parseJson : List UInt8 → Option Json
  /-- `JSON.stringify` of a scalar. -/
  stringify : Json → Str
  /-- The SHA-256 of a text, in hexadecimal. -/
  sha256 : Str → String
  /-- `Date.parse`. -/
  parseDate : Str → Option ℤ

/-! ### Limits and errors -/

namespace INGEST_LIMITS

def compressed_bytes : ℕ := 5 * 1024 * 1024

def decoded_bytes : ℕ := 25 * 1024 * 1024

def line_bytes : ℕ := 256 * 1024

def events : ℕ := 500

end INGEST_LIMITS

structure DataRequestError where
  statusCode : ℕ
  code : String
  message : String
  retryable : Bool := false
  retryAfterSeconds : ℕ := 0

/-- The errors of the two functions. The last is the database's: a column is too narrow. -/
inductive Failure where
  | request (error : DataRequestError)
  | database

structure RejectedEvent where
  line : ℕ
  eventId : Option Str := none
  code : String
  message : String
  retryable : Bool := false

structure IngestContext where
  userId : Str
  installationId : Str
  collectionEpoch : Str
  batchId : Str

structure ValidEvent where
  line : ℕ
  eventId : Str
  eventType : Str
  schemaVersion : ℕ
  occurredAt : ℤ
  recordedAt : ℤ
  envelope : Json
  payloadHash : String
  byteLength : ℕ

structure ParsedBatch where
  events : List ValidEvent := []
  rejected : List RejectedEvent := []

structure BatchResult where
  accepted_count : ℕ := 0
  duplicate_count : ℕ := 0
  acked_event_ids : List Str := []
  rejected : List RejectedEvent := []

/-! ### Validation -/

/-- `/[\x00-\x1f\x7f]/`. -/
def isControl (u : UInt16) : Bool := u.toNat < 0x20 || u.toNat = 0x7f

def validIdentifier : Option Json → Option Str
  | some (.str s) =>
    if 0 < s.length && s.length ≤ 200 && trim s = s && !s.any isControl then some s else none
  | _ => none

def isDigit (u : UInt16) : Bool := 0x30 ≤ u.toNat && u.toNat ≤ 0x39

/-- One unit of a pattern: a digit, or the character itself. -/
def matchUnits : List (Option Char) → Str → Option Str
  | [], s => some s
  | _ :: _, [] => none
  | none :: pattern, u :: s => if isDigit u then matchUnits pattern s else none
  | some c :: pattern, u :: s => if u.toNat = c.toNat then matchUnits pattern s else none

/-- `\d{4}-\d{2}-\d{2}T\d{2}:\d{2}:\d{2}`. -/
def dateTimePattern : List (Option Char) :=
  [none, none, none, none, some '-', none, none, some '-', none, none, some 'T', none, none,
   some ':', none, none, some ':', none, none]

/-- `Z|[+-]\d{2}:\d{2}`, to the end. -/
def matchZone (s : Str) : Bool :=
  s = lit "Z" || matchUnits [some '+', none, none, some ':', none, none] s = some [] ||
    matchUnits [some '-', none, none, some ':', none, none] s = some []

/-- The pattern of a time stamp with a time zone. The fraction takes all the digits there are. -/
def matchTimestamp (s : Str) : Bool :=
  match matchUnits dateTimePattern s with
  | none => false
  | some rest =>
    match rest with
    | dot :: digits =>
      if dot.toNat = 0x2e then
        0 < (digits.takeWhile isDigit).length && matchZone (digits.dropWhile isDigit)
      else matchZone rest
    | [] => false

variable (rt : Runtime)

def validTimestamp : Option Json → Option ℤ
  | some (.str s) => if matchTimestamp s then rt.parseDate s else none
  | _ => none

/-- What PostgreSQL cannot represent: `/[\u0000\ud800-\udfff]/u`. -/
def validText (s : Str) : Bool := s.all (· ≠ 0) && (scalars s).all Option.isSome

/-- Key order, by code units. -/
def keyLe (a b : Str) : Bool := (a.map UInt16.toNat) ≤ (b.map UInt16.toNat)

/-- Semantic JSON, independent of object key ordering. `fuel` is 65 less the depth: nesting deeper
than 64 is refused. -/
def canonicalJson : ℕ → Json → Option Str
  | 0, _ => none
  | fuel + 1, value =>
    match value with
    | .str s => if validText s then some (rt.stringify value) else none
    | .num (some _) | .null | .bool _ => some (rt.stringify value)
    | .num none => none
    | .arr values => do
      let texts ← values.mapM (canonicalJson fuel)
      return lit "[" ++ (texts.intersperse (lit ",")).flatten ++ lit "]"
    | .obj fields => do
      let sorted := fields.mergeSort fun a b => keyLe a.1 b.1
      let texts ← sorted.mapM fun field => do
        let key ← canonicalJson fuel (.str field.1)
        let text ← canonicalJson fuel field.2
        return key ++ lit ":" ++ text
      return lit "\x7b" ++ (texts.intersperse (lit ",")).flatten ++ lit "\x7d"

/-- `Number.isSafeInteger(value) && value >= 1`. -/
def validSchemaVersion : Option Json → Option ℕ
  | some (.num (some n)) =>
    if n.den = 1 && 1 ≤ n.num && n.num < 2 ^ 53 then some n.num.toNat else none
  | _ => none

/-- The field is absent, null, or the string. -/
def absentOr (value : Option Json) (s : Str) : Bool :=
  match value with
  | none | some .null => true
  | some (.str t) => t = s
  | _ => false

def validateEvent (value : Json) (line : ℕ) (context : IngestContext) :
    ValidEvent ⊕ RejectedEvent :=
  let eventId := if value.isRecord then validIdentifier (value.get? "event_id") else none
  let reject (code message : String) : ValidEvent ⊕ RejectedEvent :=
    .inr { line, eventId, code, message }
  match eventId with
  | none => reject "invalid_event_id" "A bounded event_id is required"
  | some eventId =>
    match validSchemaVersion (value.get? "schema_version") with
    | none => reject "invalid_schema_version" "schema_version must be a positive integer"
    | some schemaVersion =>
      match validIdentifier (value.get? "event_type") with
      | none => reject "invalid_event_type" "A bounded event_type is required"
      | some eventType =>
        match validTimestamp rt (value.get? "occurred_at"),
            validTimestamp rt (value.get? "recorded_at") with
        | some occurredAt, some recordedAt =>
          let actor := (value.get? "actor").getD .null
          if !actor.isRecord ||
              !(match actor.get? "installation_id" with
                | some (.str s) => s = context.installationId
                | _ => false) then
            reject "installation_id_mismatch"
              "actor.installation_id must match X-Installation-Id"
          else if !absentOr (actor.get? "user_id") context.userId then
            reject "actor_mismatch" "actor.user_id must match the authenticated owner"
          else if !(match value.get? "collection_epoch" with
              | none | some .null => lit "legacy" = context.collectionEpoch
              | some (.str s) => s = context.collectionEpoch
              | _ => false) then
            reject "collection_epoch_mismatch" "collection_epoch must match X-Collection-Epoch"
          else if !((value.get? "payload").getD .null).isRecord then
            reject "invalid_payload" "payload must be an object"
          else
            match canonicalJson rt 65 value with
            | none =>
              reject "invalid_json_value" "Event contains unsupported JSON values or nesting"
            | some canonical =>
              .inl { line, eventId, eventType, schemaVersion, occurredAt, recordedAt,
                     envelope := value, payloadHash := rt.sha256 canonical,
                     byteLength := (toUtf8 canonical).length }
        | _, _ =>
          reject "invalid_timestamp" "Event timestamps must be ISO-8601 timestamps with a timezone"

/-! ### Parsing -/

/-- The lines of a buffer. A line feed ends a line; the last line may have none. -/
def splitLines : List UInt8 → List (List UInt8)
  | [] => []
  | b :: bs =>
    if b = 10 then [] :: splitLines bs
    else
      match splitLines bs with
      | [] => [[b]]
      | line :: lines => (b :: line) :: lines

/-- Nothing, or a carriage return. -/
def isBlank (bytes : List UInt8) : Bool := bytes.length = 0 || bytes = [13]

def parseLine (context : IngestContext) (line : ℕ) (bytes : List UInt8) :
    ValidEvent ⊕ RejectedEvent :=
  if INGEST_LIMITS.line_bytes < bytes.length then
    .inr { line, code := "event_too_large", message := "Event line exceeds byte limit" }
  else
    match rt.parseJson bytes with
    | none => .inr { line, code := "invalid_json", message := "Line must be UTF-8 JSON" }
    | some value => validateEvent rt value line context

def tooManyEvents : DataRequestError :=
  { statusCode := 413, code := "payload_too_large", message := "Too many events in batch" }

/-- The loop over the lines: `line` is the number of the last one, `count` the number of those that
were not blank. -/
def parseLines (context : IngestContext) :
    ℕ → ℕ → List (List UInt8) → ParsedBatch → Except DataRequestError ParsedBatch
  | _, _, [], result => .ok result
  | line, count, bytes :: lines, result =>
    if isBlank bytes then parseLines context (line + 1) count lines result
    else if INGEST_LIMITS.events < count + 1 then .error tooManyEvents
    else
      match parseLine rt context (line + 1) bytes with
      | .inl event => parseLines context (line + 1) (count + 1) lines
          { result with events := result.events ++ [event] }
      | .inr rejected => parseLines context (line + 1) (count + 1) lines
          { result with rejected := result.rejected ++ [rejected] }

def decodeBody (body : List UInt8) (encoding : String) : Except DataRequestError (List UInt8) :=
  if INGEST_LIMITS.compressed_bytes < body.length then
    .error { statusCode := 413, code := "payload_too_large",
             message := "Encoded batch exceeds byte limit" }
  else if encoding = "gzip" then
    match rt.gunzip body INGEST_LIMITS.decoded_bytes with
    | some (some decoded) => .ok decoded
    | some none => .error { statusCode := 413, code := "payload_too_large",
                            message := "Decoded batch exceeds byte limit" }
    | none => .error { statusCode := 400, code := "invalid_gzip",
                       message := "Invalid or truncated gzip batch" }
  else if encoding = "identity" || encoding = "" then .ok body
  else .error { statusCode := 415, code := "unsupported_encoding",
                message := "Use gzip or identity encoding" }

def parseBatch (body : List UInt8) (encoding : String) (context : IngestContext) :
    Except DataRequestError ParsedBatch := do
  let decoded ← decodeBody rt body encoding
  parseLines rt context 0 0 (splitLines decoded) {}

/-! ### The tables -/

/-- A row of `data_event`. -/
structure EventRow where
  id : ℕ
  createdByUserId : Str
  eventId : Str
  installationId : Str
  collectionEpoch : Str
  eventType : Str
  schemaVersion : ℕ
  occurredAt : ℤ
  recordedAt : ℤ
  batchId : Str
  payloadHash : String
  byteLength : ℕ
  rawEnvelope : Json

/-- A row of `data_processing_job`. -/
structure JobRow where
  eventId : ℕ
  createdByUserId : Str

/-- A row of `data_owner_state`. -/
structure OwnerState where
  storedBytes : ℕ := 0
  requestWindowAt : ℤ
  requestCount : ℕ := 0

/-- The tables. A registered source (an installation, or one of its collection epochs) is revoked or
not; one that is not registered is `none`. -/
structure Store where
  events : List EventRow := []
  jobs : List JobRow := []
  owner : Str → Option OwnerState := fun _ => none
  installation : Str → Str → Option Bool := fun _ _ => none
  epoch : Str → Str → Str → Option Bool := fun _ _ _ => none
  nextId : ℕ := 0

def Store.hash (s : Store) (userId eventId : Str) : Option String :=
  (s.events.find? fun e => e.createdByUserId = userId && e.eventId = eventId).map
    EventRow.payloadHash

def Store.storedBytes (s : Store) (userId : Str) : ℕ :=
  (s.owner userId).elim 0 OwnerState.storedBytes

/-! ### Admission -/

/-- The ids that a batch has with different contents. -/
def conflicts (events : List ValidEvent) : List Str :=
  (events.foldl (fun (acc : List (Str × String) × List Str) e =>
    ((e.eventId, e.payloadHash) :: acc.1,
      if (acc.1.lookup e.eventId).any (· ≠ e.payloadHash) then e.eventId :: acc.2 else acc.2))
    ([], [])).2

/-- What the second loop over the events collects. -/
structure Admitted where
  accepted : ℕ := 0
  duplicate : ℕ := 0
  acked : List Str := []
  rejected : List RejectedEvent
  hashes : Str → Option String
  rows : List ValidEvent := []
  addedBytes : ℕ := 0

def eventIdConflict (e : ValidEvent) : RejectedEvent :=
  { line := e.line, eventId := some e.eventId, code := "event_id_conflict",
    message := "Event ID already identifies different content" }

def Admitted.ack (acc : Admitted) (eventId : Str) : Admitted :=
  if eventId ∈ acc.acked then acc else { acc with acked := acc.acked ++ [eventId] }

/-- The body of the second loop. -/
def admitEvent (conflicting : List Str) (acc : Admitted) (e : ValidEvent) : Admitted :=
  if e.eventId ∈ conflicting || (acc.hashes e.eventId).any (· ≠ e.payloadHash) then
    { acc with rejected := acc.rejected ++ [eventIdConflict e] }
  else if (acc.hashes e.eventId).isSome then
    ({ acc with duplicate := acc.duplicate + 1 } : Admitted).ack e.eventId
  else
    ({ acc with
      hashes := Function.update acc.hashes e.eventId (some e.payloadHash)
      rows := acc.rows ++ [e]
      accepted := acc.accepted + 1
      addedBytes := acc.addedBytes + e.byteLength } : Admitted).ack e.eventId

/-- Both loops over the events of a batch. -/
def admitEvents (hashes : Str → Option String) (batch : ParsedBatch) : Admitted :=
  batch.events.foldl (admitEvent (conflicts batch.events)) { rejected := batch.rejected, hashes }

def Admitted.result (acc : Admitted) : BatchResult where
  accepted_count := acc.accepted
  duplicate_count := acc.duplicate
  acked_event_ids := acc.acked
  rejected := acc.rejected.mergeSort fun a b => a.line ≤ b.line

/-! ### The transaction -/

def rateLimited : DataRequestError :=
  { statusCode := 429, code := "rate_limited", message := "Upload rate limit reached",
    retryable := true, retryAfterSeconds := 60 }

def installationRevoked : DataRequestError :=
  { statusCode := 403, code := "installation_revoked",
    message := "Collection installation has been revoked" }

def epochRevoked : DataRequestError :=
  { statusCode := 403, code := "epoch_revoked", message := "Collection epoch has been revoked" }

def storageBudgetExceeded : DataRequestError :=
  { statusCode := 429, code := "storage_budget_exceeded",
    message := "Personal-data storage budget reached", retryable := true,
    retryAfterSeconds := 3600 }

/-- The clocks an upload reads: the process's and the database's. -/
structure Clock where
  now : ℤ
  dbNow : ℤ

def Store.setOwner (s : Store) (userId : Str) (state : OwnerState) : Store :=
  { s with owner := Function.update s.owner userId (some state) }

def Store.registerInstallation (s : Store) (context : IngestContext) : Store :=
  { s with installation := fun u i =>
      if u = context.userId && i = context.installationId then
        some ((s.installation u i).getD false)
      else s.installation u i }

def Store.registerEpoch (s : Store) (context : IngestContext) : Store :=
  { s with epoch := fun u i c =>
      if u = context.userId && i = context.installationId && c = context.collectionEpoch then
        some ((s.epoch u i c).getD false)
      else s.epoch u i c }

def EventRow.ofValid (context : IngestContext) (e : ValidEvent) (id : ℕ) : EventRow :=
  { id, createdByUserId := context.userId, eventId := e.eventId,
    installationId := context.installationId, collectionEpoch := context.collectionEpoch,
    eventType := e.eventType, schemaVersion := e.schemaVersion, occurredAt := e.occurredAt,
    recordedAt := e.recordedAt, batchId := context.batchId, payloadHash := e.payloadHash,
    byteLength := e.byteLength, rawEnvelope := e.envelope }

def Store.insertRows (s : Store) (context : IngestContext) (rows : List ValidEvent) : Store :=
  let inserted := (rows.zipIdx s.nextId).map fun (e, id) => EventRow.ofValid context e id
  { s with
    events := s.events ++ inserted
    jobs := s.jobs ++ inserted.map fun row =>
      { eventId := row.id, createdByUserId := row.createdByUserId }
    nextId := s.nextId + rows.length }

/-- One more request in the owner's window of a minute, if the rate allows it. -/
def OwnerState.request (state : OwnerState) (now : ℤ) : Option OwnerState :=
  if now - state.requestWindowAt < 60000 then
    if 60 ≤ state.requestCount then none
    else some { state with requestCount := state.requestCount + 1 }
  else some { state with requestCount := 1, requestWindowAt := now }

/-- The statements of `persist` after the source was registered: `storedBytes` was read when the
owner was locked. -/
def storeBatch (maxStoredBytes storedBytes : ℕ) (context : IngestContext) (batch : ParsedBatch)
    (s : Store) : Except Failure BatchResult × Store :=
  let acc := admitEvents (s.hash context.userId) batch
  if maxStoredBytes < storedBytes + acc.addedBytes then
    (.error (.request storageBudgetExceeded), s)
  -- `schema_version` is a 32-bit column.
  else if acc.rows.any (2 ^ 31 ≤ ·.schemaVersion) then (.error .database, s)
  else
    (.ok acc.result,
      { s.insertRows context acc.rows with
        owner := Function.update s.owner context.userId
          ((s.owner context.userId).map fun row =>
            { row with storedBytes := storedBytes + acc.addedBytes }) })

/-- The statements of the transaction of `persist`, with the tables as they are at its end or where
it throws. -/
def persistBody (maxStoredBytes : ℕ) (clock : Clock) (context : IngestContext)
    (batch : ParsedBatch) (s : Store) : Except Failure BatchResult × Store :=
  let state := (s.owner context.userId).getD { requestWindowAt := clock.dbNow }
  match state.request clock.now with
  | none => (.error (.request rateLimited), s.setOwner context.userId state)
  | some requested =>
    let s := (s.setOwner context.userId requested).registerInstallation context
    if s.installation context.userId context.installationId = some true then
      (.error (.request installationRevoked), s)
    else
      let s := s.registerEpoch context
      if s.epoch context.userId context.installationId context.collectionEpoch = some true then
        (.error (.request epochRevoked), s)
      else storeBatch maxStoredBytes state.storedBytes context batch s

/-- A transaction that throws leaves nothing behind. -/
def transaction {α : Type} (body : Store → Except Failure α × Store) (s : Store) :
    Except Failure α × Store :=
  match body s with
  | (.ok result, s') => (.ok result, s')
  | (.error e, _) => (.error e, s)

def persist (maxStoredBytes : ℕ) (clock : Clock) (context : IngestContext) (batch : ParsedBatch) :
    Store → Except Failure BatchResult × Store :=
  transaction (persistBody maxStoredBytes clock context batch)

/-! ### Uploads -/

/-- A request: what the phone sends. -/
structure Request where
  context : IngestContext
  body : List UInt8
  encoding : String

def upload (maxStoredBytes : ℕ) (request : Request) (clock : Clock) (s : Store) :
    Except Failure BatchResult × Store :=
  match parseBatch rt request.body request.encoding request.context with
  | .error e => (.error (.request e), s)
  | .ok batch => persist maxStoredBytes clock request.context batch s

inductive Act where
  | upload (request : Request) (clock : Clock)
  /-- Sources are registered and revoked elsewhere too. -/
  | sources (installation : Str → Str → Option Bool) (epoch : Str → Str → Str → Option Bool)

def step (maxStoredBytes : ℕ) (s : Store) : Act → Store
  | .upload request clock => (upload rt maxStoredBytes request clock s).2
  | .sources installation epoch => { s with installation, epoch }

def run (maxStoredBytes : ℕ) (acts : List Act) (s : Store) : Store :=
  acts.foldl (step rt maxStoredBytes) s

end Batch

end Bud.PersonalData
