import Bud.Lib.Runs
import Mathlib.Data.List.Sort
import Mathlib.Data.String.Basic

/-!
# Contact scans

A phone sends its contacts as scans, numbered by their generation: a record for each contact that
has changed, and a manifest that says which records there are. `contact-processor.ts` collects them
as they come in (`processNext`), in any order, and publishes a scan when it is complete and next in
line (`publishNext`). A repair has the complete set of contacts and need not wait for the scans
before it; what is left of those is then superseded.

## Modelling notes

One contact store of one owner, so a scan is known by its generation and a contact by its id in the
store. Contact fields are any type. A job is taken in any order, and so is a scan that could be
published next; the rows of a scan are read in any order too. `Date.parse` and SHA-256 are
parameters. Columns that nothing here reads are left out, and so is the publication sequence.
-/

namespace Bud.Contacts

inductive ScanMode where
  | baseline
  | incremental
  | accessChange
  | resync
  deriving DecidableEq

inductive Change where
  | upsert
  | noLongerVisible
  deriving DecidableEq

/-- What every payload of a scan says about it. -/
structure Context where
  payloadVersion : ℕ
  repair : Bool
  contactStoreId : String
  scanId : String
  generation : ℕ
  previousGeneration : ℕ
  scanMode : ScanMode
  observedAt : String
  previousObservedAt : Option String
  authorization : String
  deriving DecidableEq

structure Record (F : Type) where
  context : Context
  sourceContactId : String
  change : Change
  newlyObserved : Bool
  contact : Option F
  deriving DecidableEq

structure Manifest where
  context : Context
  expectedEventCount : ℕ
  eventIdsSha256 : String
  deriving DecidableEq

inductive Payload (F : Type) where
  | record (record : Record F)
  | manifest (manifest : Manifest)
  deriving DecidableEq

def Payload.context {F : Type} : Payload F → Context
  | .record r => r.context
  | .manifest m => m.context

structure Event (F : Type) where
  eventId : String
  payload : Payload F
  deriving DecidableEq

/-! ### Rows -/

inductive ScanStatus where
  /-- `v2_` or not, and `repair_pending` or `pending`. -/
  | pending (payloadVersion : ℕ) (repair : Bool)
  | published
  | superseded
  | invalid
  deriving DecidableEq

def pendingState (context : Context) : ScanStatus :=
  .pending context.payloadVersion context.repair

def ScanStatus.isPending : ScanStatus → Bool
  | .pending _ _ => true
  | _ => false

structure RecordRow (F : Type) where
  clientEventId : String
  payload : Record F
  deriving DecidableEq

structure ScanRow (F : Type) where
  scanId : String
  generation : ℕ
  status : ScanStatus
  manifest : Option Manifest
  records : List (RecordRow F)

structure Contact (F : Type) where
  sourceContactId : String
  fields : F
  visible : Bool
  generation : ℕ
  observedAt : ℕ

structure Revision (F : Type) where
  sourceContactId : String
  generation : ℕ
  fields : F
  visible : Bool

structure State (F : Type) where
  jobs : List (Event F)
  generation : ℕ
  observedAt : Option ℕ
  scans : List (ScanRow F)
  contacts : List (Contact F)
  revisions : List (Revision F)
  added : List String

variable {F : Type} [DecidableEq F] [Inhabited F] (sha256 : String → String) (parse : String → ℕ)

def init (jobs : List (Event F)) : State F :=
  { jobs, generation := 0, observedAt := none, scans := [], contacts := [], revisions := [],
    added := [] }

/-! ### Manifests -/

def isHex (c : Char) : Bool :=
  '0' ≤ c && c ≤ '9' || 'a' ≤ c && c ≤ 'f' || 'A' ≤ c && c ≤ 'F'

/-- Five groups of hexadecimal digits. -/
def isUuid (value : String) : Bool :=
  let groups := value.toList.splitOn '-'
  groups.map List.length = [8, 4, 4, 4, 12] && groups.all (·.all isHex)

def contactManifestDigest (eventIds : List String) : String :=
  sha256 (String.intercalate "\n" (eventIds.insertionSort (· ≤ ·)))

def verifyContactScan (manifest : Manifest) (rows : List (RecordRow F)) : Bool :=
  rows.length = manifest.expectedEventCount &&
    (rows.map (·.clientEventId)).Nodup && (rows.map (·.payload.sourceContactId)).Nodup &&
    rows.all (fun row => isUuid row.clientEventId && row.payload.context = manifest.context) &&
    contactManifestDigest sha256 (rows.map (·.clientEventId)) = manifest.eventIdsSha256

/-! ### Processing -/

/-- What becomes of a job. -/
inductive Outcome where
  | processed
  | superseded
  | invalid (errorCode : String)
  | failed

def State.scan? (s : State F) (generation : ℕ) : Option (ScanRow F) :=
  s.scans.find? (·.generation = generation)

def State.setScan (s : State F) (generation : ℕ) (update : ScanRow F → ScanRow F) : State F :=
  { s with
    scans := s.scans.map fun scan => if scan.generation = generation then update scan else scan }

/-- A repair that is at least as new has been published. -/
def State.repaired (s : State F) (generation : ℕ) : Bool :=
  s.scans.any fun scan =>
    scan.status = .published && scan.manifest.any (·.context.repair) &&
      generation ≤ scan.generation

def ScanRow.new (context : Context) : ScanRow F :=
  { scanId := context.scanId
    generation := context.generation
    status := pendingState context
    manifest := none
    records := [] }

/-- The row of the scan is inserted, unless there is one. -/
def State.openScan (s : State F) (context : Context) : State F :=
  if s.scans.any fun scan =>
      scan.scanId = context.scanId || scan.generation = context.generation then s
  else { s with scans := s.scans ++ [.new context] }

def ScanRow.store (scan : ScanRow F) (event : Event F) : ScanRow F :=
  match event.payload with
  | .manifest manifest => { scan with manifest := some manifest }
  | .record record =>
    { scan with
      records := scan.records ++ [{ clientEventId := event.eventId, payload := record }] }

/-- The manifest differs from one that the scan has. -/
def ScanRow.conflicts (scan : ScanRow F) (payload : Payload F) : Bool :=
  match payload with
  | .manifest manifest => scan.manifest.any (· ≠ manifest)
  | .record _ => false

/-- The contact branch of `processNext`, for one job. -/
def State.processNext (s : State F) (event : Event F) : State F × Outcome :=
  let context := event.payload.context
  if context.generation ≤ s.generation ∧ s.repaired context.generation then (s, .superseded)
  else
    let opened := s.openScan context
    match opened.scan? context.generation with
    | none => (s, .failed)
    | some scan =>
      if scan.scanId ≠ context.scanId ∨ scan.conflicts event.payload then
        (opened.setScan context.generation ({ · with status := .invalid }),
          .invalid "scan_identity_conflict")
      else if scan.status ≠ pendingState context then (opened, .invalid "scan_already_closed")
      else (opened.setScan context.generation (·.store event), .processed)

/-! ### Publication -/

def State.contact? (s : State F) (sourceContactId : String) : Option (Contact F) :=
  s.contacts.find? (·.sourceContactId = sourceContactId)

/-- The contact after a record, with the fields it had if the record has none. -/
def Record.written (parse : String → ℕ) (manifest : Manifest) (record : Record F)
    (prior : Option (Contact F)) : Contact F :=
  { sourceContactId := record.sourceContactId
    fields := record.contact.getD ((prior.map (·.fields)).getD default)
    visible := record.change = .upsert
    generation := manifest.context.generation
    observedAt := parse manifest.context.observedAt }

def State.putContact (s : State F) (contact : Contact F) : List (Contact F) :=
  if (s.contact? contact.sourceContactId).isSome then
    s.contacts.map fun other =>
      if other.sourceContactId = contact.sourceContactId then contact else other
  else s.contacts ++ [contact]

def State.publishRecord (rebuild : Bool) (manifest : Manifest) (s : State F) (record : Record F) :
    State F :=
  let prior := s.contact? record.sourceContactId
  let contact := record.written parse manifest prior
  { s with
    contacts := s.putContact contact
    revisions := s.revisions ++
      [{ sourceContactId := contact.sourceContactId
         generation := contact.generation
         fields := contact.fields
         visible := contact.visible }]
    added :=
      -- a producer's claim alone cannot mint an addition
      if !rebuild && prior.isNone && contact.visible && record.newlyObserved &&
          manifest.context.scanMode = .incremental then
        s.added ++ [record.sourceContactId]
      else s.added }

def Manifest.omits (manifest : Manifest) (contact : Contact F) : Record F :=
  { context := manifest.context
    sourceContactId := contact.sourceContactId
    change := .noLongerVisible
    newlyObserved := false
    contact := none }

def State.absent (s : State F) (generation : ℕ) : List (Contact F) :=
  s.contacts.filter fun contact => contact.visible && contact.generation < generation

/-- What a repair does besides publishing its records. -/
def State.repair (s : State F) (manifest : Manifest) (generation : ℕ) : State F :=
  let s := ((s.absent generation).map manifest.omits).foldl
    (State.publishRecord parse true manifest) s
  { s with
    scans := s.scans.map fun scan =>
      if scan.generation < generation ∧ (scan.status.isPending ∨ scan.status = .invalid) then
        { scan with status := .superseded }
      else scan }

/-- The scan is complete, as far as counting goes, and next in line. -/
def State.due (s : State F) (scan : ScanRow F) : Bool :=
  scan.status.isPending && scan.manifest.any fun manifest =>
    (scan.generation = s.generation + 1 ||
      manifest.context.repair && s.generation < scan.generation) &&
    manifest.expectedEventCount ≤ scan.records.length

/-- The time of the scan before is the one that the manifest names. -/
def State.succeeds (s : State F) (manifest : Manifest) : Bool :=
  s.observedAt = manifest.context.previousObservedAt.map parse

/-- A turn of the loop of `publishNext`: `rows` are the scan's. -/
def State.publishNext (s : State F) (rebuild : Bool) (scan : ScanRow F) (manifest : Manifest)
    (rows : List (RecordRow F)) : State F :=
  if !verifyContactScan sha256 manifest rows ||
      !manifest.context.repair && !s.succeeds parse manifest then
    s.setScan scan.generation ({ · with status := .invalid })
  else
    let s := (rows.map (·.payload)).foldl (State.publishRecord parse rebuild manifest) s
    let s := if manifest.context.repair then s.repair parse manifest scan.generation else s
    { s with
      generation := scan.generation
      observedAt := some (parse manifest.context.observedAt) }.setScan scan.generation
        ({ · with status := .published })

/-! ### Steps -/

inductive Act (F : Type) where
  | process (event : Event F)
  /-- `publishNext` comes to this scan, and reads its rows in this order. -/
  | publish (rebuild : Bool) (generation : ℕ) (rows : List (RecordRow F))

def step (s : State F) : Act F → Option (State F)
  | .process event =>
    if event ∈ s.jobs then
      match s.processNext event with
      | (_, .failed) => some s
      | (t, _) => some { t with jobs := s.jobs.erase event }
    else none
  | .publish rebuild generation rows => do
    let scan ← s.scan? generation
    let manifest ← scan.manifest
    if s.due scan ∧ (scan.records.take 20001).Perm rows then
      some (s.publishNext sha256 parse rebuild scan manifest rows)
    else none

def State.drained (s : State F) : Prop := ∀ scan ∈ s.scans, s.due scan = false

instance (s : State F) : Decidable s.drained := inferInstanceAs (Decidable (∀ _ ∈ _, _))

def State.view (s : State F) (sourceContactId : String) : Option F :=
  (s.contact? sourceContactId).bind fun contact =>
    if contact.visible then some contact.fields else none

end Bud.Contacts
