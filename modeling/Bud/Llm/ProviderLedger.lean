import Bud.Lib.Grouping
import Bud.Llm.Types
import Mathlib.Data.Prod.Lex
import Mathlib.Data.String.Basic

/-!
# The provider ledger

`llm/provider-ledger.ts`: the blocks that a model answers are recorded as the items of a call, one
item a block, and read back when the same provider is asked to go on. An item has two payloads. The
canonical one is the JSON of the block. The provider's is what the provider itself wants to see
again, and it wins over the copy in the canonical one if it is not empty.

`Conversation.blockFromPayload` has of all this that a block survives; here is what it survives
through. Two things do not come back as they went. A text of OpenAI's that has no phase is given
one, on purpose. And what the two payloads cannot carry is lost or changed: data of a provider that
is not among the three that have some, a payload that is no object, a redaction without anything in
it. `Replayable` leaves these out.

## Modelling notes

A table is the list of its rows, in the order in which they were inserted, with the proofs that its
unique indices hold and that no item is without its call. The columns for the accounting of a call
and the ids of items are left out: nothing here reads them. A turn is its number, as in
`Repository`. The order of the items that the query leaves open, between an input and an output with
the same sequence, is that of the table.

A payload that is absent from a provider's data reads as `null`.
-/

namespace Bud.ProviderLedger

open Llm JsText JsValue
open Conversation (Provider Phase CanonicalRole RequestMode LedgerBoundary parseRequestMode)

/-! ### Items -/

inductive Direction where
  | input
  | output
  deriving DecidableEq

inductive Kind where
  | text
  | toolUse
  | toolResult
  | reasoning
  | reasoningRedacted
  | image
  deriving DecidableEq

/-- `LlmCallVisibility`. -/
inductive Visibility where
  | providerOnly
  | productText
  | tool

structure LlmCallItem where
  llmCallId : String
  threadId : String
  direction : Direction
  role : CanonicalRole
  kind : Kind
  sequence : ℕ
  providerItemId : Option Text
  toolCallId : Option Text
  text : Option Text
  canonicalPayload : Fields
  providerPayload : Fields
  visibility : Visibility
  messageId : Option String
  createdByUserId : Option String

def kindForBlock : Block → Kind
  | .text .. => .text
  | .toolUse .. => .toolUse
  | .toolResult .. => .toolResult
  | .reasoning .. => .reasoning
  | .reasoningRedacted _ => .reasoningRedacted
  | .image .. => .image

def visibilityForBlock : Block → Visibility
  | .text .. => .productText
  | .toolUse .. => .tool
  | .toolResult .. => .tool
  | .image .. => .providerOnly
  | .reasoning .. => .providerOnly
  | .reasoningRedacted _ => .providerOnly

def textForBlock : Block → Option Text
  | .text text _ => some text
  | .reasoning text _ => some text
  | _ => none

def providerItemIdForBlock : Block → Option Text
  | .toolUse id _ _ => some id
  | .reasoning _ providerData =>
    asString (member (providerData.map (·.payload)) "id")
  | _ => none

/-! ### The JSON of a block -/

def providerName : Provider → Text
  | .openai => lit "openai"
  | .anthropic => lit "anthropic"
  | .ds4 => lit "ds4"
  | .budLocal => lit "bud_local"

def phaseName : Phase → Text
  | .commentary => lit "commentary"
  | .finalAnswer => lit "final_answer"

def mediaTypeName : MediaType → Text
  | .jpeg => lit "image/jpeg"
  | .png => lit "image/png"
  | .gif => lit "image/gif"
  | .webp => lit "image/webp"

/-- The field with the provider's data, which is absent where there are none. -/
def providerDataFields : Option ProviderData → Fields
  | none => []
  | some data => [("providerData",
      .object [("provider", .string (providerName data.provider)), ("payload", data.payload)])]

mutual

def blockFields : Block → Fields
  | .text text assistantPhase =>
    [("type", .string (lit "text")), ("text", .string text)] ++
      match assistantPhase with
      | none => []
      | some phase => [("assistantPhase", .string (phaseName phase))]
  | .image mediaType data =>
    [("type", .string (lit "image")),
      ("source", .object [("type", .string (lit "base64")),
        ("media_type", .string (mediaTypeName mediaType)), ("data", .string data)])]
  | .toolUse id name input =>
    [("type", .string (lit "tool_use")), ("id", .string id), ("name", .string name),
      ("input", .object input)]
  | .toolResult toolUseId content isError =>
    [("type", .string (lit "tool_result")), ("tool_use_id", .string toolUseId),
        ("content", contentValue content)] ++
      match isError with
      | none => []
      | some isError => [("is_error", .bool isError)]
  | .reasoning text providerData =>
    [("type", .string (lit "reasoning")), ("text", .string text)] ++
      providerDataFields providerData
  | .reasoningRedacted providerData =>
    [("type", .string (lit "reasoning_redacted"))] ++ providerDataFields providerData

def contentValue : Content → Value
  | .string text => .string text
  | .blocks blocks => .array (blockValues blocks)

def blockValues : List Block → List Value
  | [] => []
  | block :: blocks => .object (blockFields block) :: blockValues blocks

end

/-- `jsonRecord`: a JSON object, around the value if that is none. -/
def jsonRecord (value : Value) : Fields :=
  let normalized := jsonCopy (match value with
    | .null => .object []
    | value => value)
  match normalized with
  | .object fields => fields
  | normalized => [("value", normalized)]

def providerPayloadForBlock : Block → Option Value
  | .reasoning _ providerData => providerData.map (·.payload)
  | .reasoningRedacted providerData => providerData.map (·.payload)
  | _ => none

def buildOutputItemValue (llmCallId threadId : String) (sequence : ℕ) (block : Block)
    (messageId ownerUserId : Option String) : LlmCallItem where
  llmCallId := llmCallId
  threadId := threadId
  direction := .output
  role := .assistant
  kind := kindForBlock block
  sequence := sequence
  providerItemId := providerItemIdForBlock block
  toolCallId := block.useId
  text := textForBlock block
  canonicalPayload := jsonRecord (.object (blockFields block))
  providerPayload :=
    match (providerPayloadForBlock block).filter truthy with
    | none => []
    | some payload => jsonRecord payload
  visibility := visibilityForBlock block
  messageId := messageId
  createdByUserId := ownerUserId

/-! ### The block of an item -/

def parseAssistantMessagePhase (value : Option Value) : Option Phase :=
  match asString value with
  | none => none
  | some text =>
    if text = lit "commentary" then some .commentary
    else if text = lit "final_answer" then some .finalAnswer
    else none

/-- A provider that has data of its own in the ledger. -/
def parseProvider (value : Option Value) : Option Provider :=
  match asString value with
  | none => none
  | some text =>
    if text = lit "openai" then some .openai
    else if text = lit "anthropic" then some .anthropic
    else if text = lit "ds4" then some .ds4
    else none

def reasoningBlockFromPayload (canonicalPayload providerPayload : Fields) : Option Block := do
  let text ← asString (get canonicalPayload "text")
  let providerData := (asRecord (get canonicalPayload "providerData")).bind fun providerData =>
    (parseProvider (get providerData "provider")).map fun provider =>
      { provider
        payload :=
          if providerPayload.isEmpty then (get providerData "payload").getD .null
          else .object providerPayload : ProviderData }
  return .reasoning text providerData

def blockFromPayload (kind : Kind) (canonicalPayload providerPayload : Fields) : Option Block :=
  match kind with
  | .text => do
    let text ← asString (get canonicalPayload "text")
    return .text text (parseAssistantMessagePhase (get canonicalPayload "assistantPhase"))
  | .toolUse => do
    let id ← asString (get canonicalPayload "id")
    let name ← asString (get canonicalPayload "name")
    let input ← asRecord (get canonicalPayload "input")
    return .toolUse id name input
  | .reasoning => reasoningBlockFromPayload canonicalPayload providerPayload
  | .reasoningRedacted =>
    some (.reasoningRedacted (some
      { provider := .anthropic
        payload :=
          .object (if providerPayload.isEmpty then canonicalPayload else providerPayload) }))
  | .toolResult => none
  | .image => none

def canonicalBlockFromLedgerItem (item : LlmCallItem) : Option Block :=
  blockFromPayload item.kind item.canonicalPayload item.providerPayload

/-! ### What the payloads carry -/

/-- The payloads of an item can carry the block: what is JSON in it is JSON, the provider is one
that has data in the ledger, and its payload is an object, which is not empty in a redaction. -/
def Replayable : Block → Prop
  | .text .. => True
  | .toolUse _ _ input => IsJsonFields input
  | .reasoning _ none => True
  | .reasoning _ (some data) =>
    data.provider ≠ .budLocal ∧ ∃ payload, data.payload = .object payload ∧ IsJsonFields payload
  | .reasoningRedacted none => False
  | .reasoningRedacted (some data) =>
    data.provider = .anthropic ∧
      ∃ payload, data.payload = .object payload ∧ payload ≠ [] ∧ IsJsonFields payload
  | .image .. => False
  | .toolResult .. => False

theorem get_jsonRecord : get (jsonRecord (.object fields)) name = (get fields name).map jsonCopy :=
  get_jsonCopyFields fields name

theorem parseAssistantMessagePhase_phaseName :
    parseAssistantMessagePhase (some (.string (phaseName phase))) = some phase := by
  cases phase with
  | commentary | finalAnswer => rfl

theorem parseProvider_providerName (h : provider ≠ .budLocal) :
    parseProvider (some (.string (providerName provider))) = some provider := by
  cases provider with
  | budLocal => exact absurd rfl h
  | openai | anthropic | ds4 => rfl

/-- The data of a provider, as they come back from the two payloads. -/
theorem reasoningBlockFromPayload_record (hprovider : data.provider ≠ .budLocal)
    (hpayload : data.payload = .object payload) (hjson : IsJsonFields payload) :
    reasoningBlockFromPayload (jsonRecord (.object (blockFields (.reasoning text (some data)))))
        payload =
      some (.reasoning text (some data)) := by
  obtain ⟨provider, _⟩ := data
  cases hpayload
  have htext : get (blockFields (.reasoning text (some ⟨provider, .object payload⟩))) "text" =
      some (.string text) := rfl
  have hdata : get (blockFields (.reasoning text (some ⟨provider, .object payload⟩)))
      "providerData" = some (.object
        [("provider", .string (providerName provider)), ("payload", .object payload)]) := rfl
  rw [reasoningBlockFromPayload, get_jsonRecord, get_jsonRecord, htext, hdata]
  simp only [Option.map_some, jsonCopy, jsonCopyFields, asString, asRecord, Option.bind_some,
    jsonCopyFields_eq_self payload hjson]
  have hname : get [("provider", Value.string (providerName provider)),
      ("payload", .object payload)] "provider" = some (.string (providerName provider)) := rfl
  have hcopy : get [("provider", Value.string (providerName provider)),
      ("payload", .object payload)] "payload" = some (.object payload) := rfl
  rw [hname, hcopy, parseProvider_providerName hprovider]
  cases payload with
  | nil | cons field payload => rfl

/-- **An item has the block that it was made from.** -/
theorem blockFromPayload_item {sequence : ℕ} (h : Replayable block) :
    canonicalBlockFromLedgerItem
      (buildOutputItemValue llmCallId threadId sequence block messageId ownerUserId) =
        some block := by
  cases block with
  | text text assistantPhase =>
    cases assistantPhase with
    | none => rfl
    | some phase =>
      have hphase : parseAssistantMessagePhase (some (.string (phaseName phase))) = some phase :=
        parseAssistantMessagePhase_phaseName
      exact congrArg (fun phase => some (Block.text text phase)) hphase
  | image | toolResult => exact h.elim
  | toolUse id name input =>
    have hinput := jsonCopyFields_eq_self input h
    exact congrArg (fun input => some (Block.toolUse id name input)) hinput
  | reasoning text providerData =>
    cases providerData with
    | none => rfl
    | some data =>
      obtain ⟨hprovider, payload, hpayload, hjson⟩ := h
      have hrecord : jsonRecord (.object payload) = payload := jsonCopyFields_eq_self payload hjson
      have hcarried : (buildOutputItemValue llmCallId threadId sequence
          (.reasoning text (some data)) messageId ownerUserId).providerPayload = payload := by
        rw [buildOutputItemValue, providerPayloadForBlock, Option.map_some, hpayload]
        exact hrecord
      refine Eq.trans ?_ (reasoningBlockFromPayload_record hprovider hpayload hjson)
      exact congrArg (reasoningBlockFromPayload _) hcarried
  | reasoningRedacted providerData =>
    cases providerData with
    | none => exact h.elim
    | some data =>
      obtain ⟨hprovider, payload, hpayload, hne, hjson⟩ := h
      obtain ⟨provider, _⟩ := data
      cases hprovider
      cases hpayload
      have hrecord : jsonRecord (.object payload) = payload := jsonCopyFields_eq_self payload hjson
      cases payload with
      | nil => exact absurd rfl hne
      | cons field payload =>
        exact congrArg (fun payload : Fields => some (Block.reasoningRedacted
          (some ⟨.anthropic, .object (if payload.isEmpty then _ else payload)⟩))) hrecord

/-! ### The tables -/

structure LlmCall where
  llmCallId : String
  threadId : String
  turnId : ℕ
  provider : Provider
  model : String
  requestMode : RequestMode
  createdByUserId : Option String
  createdAt : ℕ

def LlmCallItem.slot (item : LlmCallItem) : String × Direction × ℕ :=
  (item.llmCallId, item.direction, item.sequence)

structure Ledger where
  calls : List LlmCall
  items : List LlmCallItem
  calls_nodup : (calls.map (·.llmCallId)).Nodup
  items_nodup : (items.map (·.slot)).Nodup
  owned : ∀ item ∈ items, item.llmCallId ∈ calls.map (·.llmCallId)

def Ledger.empty : Ledger where
  calls := []
  items := []
  calls_nodup := List.nodup_nil
  items_nodup := List.nodup_nil
  owned := by simp

structure RecordLlmCallArgs where
  llmCallId : String
  threadId : String
  turnId : ℕ
  provider : Provider
  model : String
  requestMode : RequestMode
  output : List Block
  ownerUserId : Option String
  assistantMessageId : Option String

/-- The rows that a call is recorded as: the call and, block by block, its output. -/
def RecordLlmCallArgs.call (args : RecordLlmCallArgs) (createdAt : ℕ) : LlmCall where
  llmCallId := args.llmCallId
  threadId := args.threadId
  turnId := args.turnId
  provider := args.provider
  model := args.model
  requestMode := args.requestMode
  createdByUserId := args.ownerUserId
  createdAt := createdAt

def RecordLlmCallArgs.item (args : RecordLlmCallArgs) (block : Block) (index : ℕ) : LlmCallItem :=
  buildOutputItemValue args.llmCallId args.threadId index block
    (match block with
      | .text .. => args.assistantMessageId.filter (· ≠ "")
      | _ => none)
    args.ownerUserId

def RecordLlmCallArgs.items (args : RecordLlmCallArgs) : List LlmCallItem :=
  args.output.zipIdx.map fun entry => args.item entry.1 entry.2

variable {args : RecordLlmCallArgs} {item : LlmCallItem} {ledger ledger' : Ledger} {call : LlmCall}

theorem slot_items : args.items.map (·.slot) =
      (List.range args.output.length).map fun index => (args.llmCallId, .output, index) := by
  rw [RecordLlmCallArgs.items, List.map_map, List.range_eq_range', ← List.zipIdx_map_snd 0,
    List.map_map]
  rfl

theorem nodup_slot_items : (args.items.map (·.slot)).Nodup := by
  rw [slot_items]
  exact List.nodup_range.map fun _ _ h => (Prod.mk.inj (Prod.mk.inj h).2).2

theorem llmCallId_of_mem_items (h : item ∈ args.items) :
    item.llmCallId = args.llmCallId ∧ item.direction = .output := by
  obtain ⟨_, _, rfl⟩ := List.mem_map.mp h
  exact ⟨rfl, rfl⟩

/-- One transaction. It fails where the call is there already, and only there. -/
def recordLlmCall (ledger : Ledger) (createdAt : ℕ) (args : RecordLlmCallArgs) : Option Ledger :=
  if hfresh : args.llmCallId ∈ ledger.calls.map (·.llmCallId) then none
  else some
    { calls := ledger.calls ++ [args.call createdAt]
      items := ledger.items ++ args.items
      calls_nodup := by
        rw [List.map_append]
        exact List.nodup_append'.mpr
          ⟨ledger.calls_nodup, List.nodup_singleton _, List.disjoint_singleton.mpr hfresh⟩
      items_nodup := by
        rw [List.map_append]
        refine List.nodup_append'.mpr
          ⟨ledger.items_nodup, nodup_slot_items, fun slot hold hnew => ?_⟩
        obtain ⟨item, hitem, rfl⟩ := List.mem_map.mp hold
        obtain ⟨other, hother, hslot⟩ := List.mem_map.mp hnew
        have hid : item.llmCallId = args.llmCallId :=
          (Prod.mk.inj hslot).1.symm.trans (llmCallId_of_mem_items hother).1
        exact hfresh (hid ▸ ledger.owned item hitem)
      owned := by
        intro item hitem
        rw [List.map_append]
        rcases List.mem_append.mp hitem with hold | hnew
        · exact List.mem_append_left _ (ledger.owned item hold)
        · exact List.mem_append_right _
            (List.mem_singleton.mpr (llmCallId_of_mem_items hnew).1) }

/-- An insert fails where there is no such call, or another item in the slot. -/
def Ledger.insertItem (ledger : Ledger) (item : LlmCallItem) : Option Ledger :=
  if hcall : item.llmCallId ∈ ledger.calls.map (·.llmCallId) then
    if hslot : item.slot ∈ ledger.items.map (·.slot) then none
    else some
      { ledger with
        items := ledger.items ++ [item]
        items_nodup := by
          rw [List.map_append]
          exact List.nodup_append'.mpr
            ⟨ledger.items_nodup, List.nodup_singleton _, List.disjoint_singleton.mpr hslot⟩
        owned := by
          intro other hother
          rcases List.mem_append.mp hother with hold | hnew
          · exact ledger.owned other hold
          · exact List.mem_singleton.mp hnew ▸ hcall }
  else none

theorem insertItem_eq_some (h : ledger.insertItem item = some ledger') :
    ledger'.calls = ledger.calls ∧ ledger'.items = ledger.items ++ [item] := by
  unfold Ledger.insertItem at h
  split at h
  · split at h
    · cases h
    · cases h
      exact ⟨rfl, rfl⟩
  · cases h

structure RecordLlmToolResultItemArgs where
  llmCallId : String
  threadId : String
  sequence : ℕ
  toolCallId : Text
  content : Text
  payload : Fields
  messageId : Option String
  ownerUserId : Option String

def toolResultItem (llmCallId threadId : String) (sequence : ℕ) (toolCallId content : Text)
    (providerPayload : Fields) (messageId ownerUserId : Option String) : LlmCallItem where
  llmCallId := llmCallId
  threadId := threadId
  direction := .input
  role := .user
  kind := .toolResult
  sequence := sequence
  providerItemId := none
  toolCallId := some toolCallId
  text := some content
  canonicalPayload := jsonRecord (.object [("type", .string (lit "tool_result")),
    ("tool_use_id", .string toolCallId), ("content", .string content)])
  providerPayload := providerPayload
  visibility := .tool
  messageId := messageId
  createdByUserId := ownerUserId

def recordLlmToolResultItem (ledger : Ledger) (args : RecordLlmToolResultItemArgs) :
    Option Ledger :=
  ledger.insertItem (toolResultItem args.llmCallId args.threadId args.sequence args.toolCallId
    args.content (jsonRecord (.object args.payload)) args.messageId args.ownerUserId)

inductive Write where
  | call (createdAt : ℕ) (args : RecordLlmCallArgs)
  | toolResult (args : RecordLlmToolResultItemArgs)

/-- A write that fails changes nothing. -/
def Ledger.write (ledger : Ledger) : Write → Ledger
  | .call createdAt args => (recordLlmCall ledger createdAt args).getD ledger
  | .toolResult args => (recordLlmToolResultItem ledger args).getD ledger

/-- The items of a call are of its thread and its owner, and what goes in are results. -/
structure Coherent (ledger : Ledger) : Prop where
  own : ∀ call ∈ ledger.calls, ∀ item ∈ ledger.items, item.llmCallId = call.llmCallId →
    item.threadId = call.threadId ∧ item.createdByUserId = call.createdByUserId
  results : ∀ item ∈ ledger.items, item.direction = .input → item.kind = .toolResult

theorem coherent_empty : Coherent .empty := by
  constructor
  · simp [Ledger.empty]
  · simp [Ledger.empty]

theorem Coherent.recordLlmCall (h : Coherent ledger)
    (hrecord : recordLlmCall ledger createdAt args = some ledger') : Coherent ledger' := by
  unfold ProviderLedger.recordLlmCall at hrecord
  split at hrecord
  · cases hrecord
  · next hfresh =>
    cases hrecord
    constructor
    · intro call hcall item hitem hid
      rcases List.mem_append.mp hcall with hcall | hcall
      · rcases List.mem_append.mp hitem with hitem | hitem
        · exact h.own call hcall item hitem hid
        · rw [(llmCallId_of_mem_items hitem).1] at hid
          exact absurd (hid ▸ List.mem_map_of_mem hcall) hfresh
      · obtain rfl := List.mem_singleton.mp hcall
        rcases List.mem_append.mp hitem with hitem | hitem
        · have hold : args.llmCallId ∈ ledger.calls.map (·.llmCallId) :=
            (show item.llmCallId = args.llmCallId from hid) ▸ ledger.owned item hitem
          exact absurd hold hfresh
        · obtain ⟨_, _, rfl⟩ := List.mem_map.mp hitem
          exact ⟨rfl, rfl⟩
    · intro item hitem hinput
      rcases List.mem_append.mp hitem with hitem | hitem
      · exact h.results item hitem hinput
      · rw [(llmCallId_of_mem_items hitem).2] at hinput
        cases hinput

/-! ### Reading -/

structure ProviderLedgerMessage where
  createdAt : ℕ
  llmCallId : String
  model : String
  requestMode : RequestMode
  content : List Block

/-- Times are in microseconds in the database and in milliseconds in a boundary. -/
def llmCallAfterBoundary (boundary : Option LedgerBoundary) (call : LlmCall) : Bool :=
  match boundary with
  | none => true
  | some boundary =>
    boundary.llmCallId = "" || boundary.createdAt * 1000 < call.createdAt ||
      call.createdAt = boundary.createdAt * 1000 && boundary.llmCallId < call.llmCallId

/-- The join of the calls that are asked for with their items. -/
def Ledger.rows (ledger : Ledger) (threadId : String) (provider : Provider)
    (after : Option LedgerBoundary) : List (LlmCall × LlmCallItem) :=
  (ledger.calls.filter fun call => call.threadId = threadId && call.provider = provider &&
      llmCallAfterBoundary after call).flatMap fun call =>
    (ledger.items.filter (·.llmCallId = call.llmCallId)).map (call, ·)

def rowKey (row : LlmCall × LlmCallItem) : ℕ ×ₗ String ×ₗ ℕ :=
  toLex (row.1.createdAt, toLex (row.1.llmCallId, row.2.sequence))

/-- What `grouped` has for a call. -/
structure Group where
  createdAt : ℕ
  model : String
  requestMode : RequestMode
  content : List Block

def Group.start (row : LlmCall × LlmCallItem) : Group where
  createdAt := row.1.createdAt
  model := row.1.model
  requestMode := parseRequestMode row.1.requestMode
  content := []

def rowBlock (row : LlmCall × LlmCallItem) : Option Block :=
  if row.2.direction = .output then canonicalBlockFromLedgerItem row.2 else none

def Group.add (group : Group) (row : LlmCall × LlmCallItem) : Group :=
  { group with content := group.content ++ (rowBlock row).toList }

def fallbackPhase (content : List Block) : Phase :=
  if content.any fun block => block.useId.isSome then .commentary else .finalAnswer

def deriveOpenAIAssistantPhases (content : List Block) : List Block :=
  content.map fun
    | .text text none => .text text (some (fallbackPhase content))
    | block => block

def replayed (provider : Provider) (content : List Block) : List Block :=
  if provider = .openai then deriveOpenAIAssistantPhases content else content

def loadProviderLedgerMessages (ledger : Ledger) (threadId : String) (provider : Provider)
    (after : Option LedgerBoundary) : List ProviderLedgerMessage :=
  let rows := (ledger.rows threadId provider after).insertionSort fun a b => rowKey a ≤ rowKey b
  let grouped := Grouping.group (·.1.llmCallId) Group.start Group.add
    (rows.filter (·.1.llmCallId ≠ ""))
  (grouped.filter fun entry => !entry.2.content.isEmpty).map fun entry =>
    { llmCallId := entry.1
      createdAt := entry.2.createdAt
      model := entry.2.model
      requestMode := entry.2.requestMode
      content := replayed provider entry.2.content }

theorem Ledger.eq_of_llmCallId (hcall : call ∈ ledger.calls) (hother : other ∈ ledger.calls)
    (hid : other.llmCallId = call.llmCallId) : other = call :=
  List.inj_on_of_nodup_map ledger.calls_nodup hother hcall hid

def Ledger.outputOf (ledger : Ledger) (llmCallId : String) : List LlmCallItem :=
  ledger.items.filter fun item => item.llmCallId = llmCallId && item.direction = .output

/-- The call is in the ledger, and its output is this. -/
structure Recorded (ledger : Ledger) (call : LlmCall) (items : List LlmCallItem) : Prop where
  mem : call ∈ ledger.calls
  output : ledger.outputOf call.llmCallId = items

theorem recorded_of_recordLlmCall (h : recordLlmCall ledger createdAt args = some ledger') :
    Recorded ledger' (args.call createdAt) args.items := by
  unfold recordLlmCall at h
  split at h
  · cases h
  · next hfresh =>
    cases h
    refine ⟨List.mem_append_right _ (List.mem_singleton_self _), ?_⟩
    have hold : ledger.items.filter (fun item =>
        item.llmCallId = args.llmCallId && item.direction = .output) = [] := by
      refine List.filter_eq_nil_iff.mpr fun item hitem hmatch => hfresh ?_
      rw [Bool.and_eq_true, decide_eq_true_eq] at hmatch
      exact hmatch.1 ▸ ledger.owned item hitem
    have hnew : args.items.filter (fun item =>
        item.llmCallId = args.llmCallId && item.direction = .output) = args.items := by
      refine List.filter_eq_self.mpr fun item hitem => ?_
      obtain ⟨hid, hdirection⟩ := llmCallId_of_mem_items hitem
      simp [hid, hdirection]
    show (ledger.items ++ args.items).filter _ = args.items
    rw [List.filter_append]
    exact (congrArg (· ++ _) hold).trans hnew

/-- **What is written later leaves a call alone.** -/
theorem Recorded.write (h : Recorded ledger call items) (write : Write) :
    Recorded (ledger.write write) call items := by
  cases write with
  | call createdAt args =>
    rw [Ledger.write]
    unfold recordLlmCall
    split
    · exact h
    · next hfresh =>
      refine ⟨List.mem_append_left _ h.mem, ?_⟩
      have hnew : args.items.filter (fun item =>
          item.llmCallId = call.llmCallId && item.direction = .output) = [] := by
        refine List.filter_eq_nil_iff.mpr fun item hitem hmatch => hfresh ?_
        rw [Bool.and_eq_true, decide_eq_true_eq, (llmCallId_of_mem_items hitem).1] at hmatch
        exact hmatch.1 ▸ List.mem_map_of_mem h.mem
      show (ledger.items ++ args.items).filter _ = items
      rw [List.filter_append, hnew, List.append_nil]
      exact h.output
  | toolResult args =>
    rw [Ledger.write]
    cases hinsert : recordLlmToolResultItem ledger args with
    | none => exact h
    | some ledger' =>
      obtain ⟨hcalls, hitems⟩ := insertItem_eq_some hinsert
      refine ⟨hcalls ▸ h.mem, ?_⟩
      show ledger'.items.filter _ = items
      rw [hitems, List.filter_append]
      refine (congrArg _ (List.filter_eq_nil_iff.mpr fun item hitem => ?_)).trans
        ((List.append_nil _).trans h.output)
      rw [List.mem_singleton.mp hitem]
      simp [toolResultItem]

theorem Recorded.writes {items : List LlmCallItem} (h : Recorded ledger call items)
    (writes : List Write) : Recorded (writes.foldl Ledger.write ledger) call items := by
  induction writes generalizing ledger with
  | nil => exact h
  | cons write writes ih => exact ih (h.write write)

/-! ### What is read of one call -/

section Read

variable {ledger : Ledger} {call : LlmCall} {after : Option LedgerBoundary}

theorem filter_rows (hcall : call ∈ ledger.calls) (hafter : llmCallAfterBoundary after call) :
    (ledger.rows call.threadId call.provider after).filter (·.1.llmCallId = call.llmCallId) =
      (ledger.items.filter (·.llmCallId = call.llmCallId)).map (call, ·) := by
  have hselected : call ∈ ledger.calls.filter fun other => other.threadId = call.threadId &&
      other.provider = call.provider && llmCallAfterBoundary after other := by
    simp [hcall, hafter]
  have hnodup : (ledger.calls.filter fun other => other.threadId = call.threadId &&
      other.provider = call.provider && llmCallAfterBoundary after other).Nodup :=
    (List.Nodup.of_map _ ledger.calls_nodup).filter _
  obtain ⟨before, later, hsplit⟩ := List.append_of_mem hselected
  rw [hsplit] at hnodup
  have hothers : ∀ other ∈ before ++ later, ∀ row ∈
      (ledger.items.filter (·.llmCallId = other.llmCallId)).map (other, ·),
      ¬row.1.llmCallId = call.llmCallId := by
    intro other hother row hrow hid
    obtain ⟨_, _, rfl⟩ := List.mem_map.mp hrow
    have hmem : other ∈ before ++ call :: later := by
      rcases List.mem_append.mp hother with h | h
      · exact List.mem_append_left _ h
      · exact List.mem_append_right _ (List.mem_cons_of_mem _ h)
    have heq : other = call :=
      ledger.eq_of_llmCallId hcall (List.mem_of_mem_filter (hsplit ▸ hmem)) hid
    exact (List.nodup_middle.mp hnodup).notMem (heq ▸ hother)
  have hnone : ∀ others : List LlmCall, (∀ other ∈ others, other ∈ before ++ later) →
      (others.flatMap fun other =>
        (ledger.items.filter (·.llmCallId = other.llmCallId)).map (other, ·)).filter
          (fun row => decide (row.1.llmCallId = call.llmCallId)) = [] := by
    intro others hsub
    refine List.filter_eq_nil_iff.mpr fun row hrow hid => ?_
    obtain ⟨other, hother, hrow⟩ := List.mem_flatMap.mp hrow
    exact hothers other (hsub other hother) row hrow (of_decide_eq_true hid)
  have hself : ((ledger.items.filter (·.llmCallId = call.llmCallId)).map (call, ·)).filter
      (fun row => decide (row.1.llmCallId = call.llmCallId)) =
      (ledger.items.filter (·.llmCallId = call.llmCallId)).map (call, ·) := by
    refine List.filter_eq_self.mpr fun row hrow => ?_
    obtain ⟨_, _, rfl⟩ := List.mem_map.mp hrow
    exact decide_eq_true rfl
  rw [Ledger.rows, hsplit, List.flatMap_append, List.flatMap_cons, List.filter_append,
    List.filter_append, hnone before fun _ => List.mem_append_left _,
    hnone later fun _ => List.mem_append_right _, hself, List.nil_append, List.append_nil]

theorem rowKey_le_iff :
    rowKey (call, item) ≤ rowKey (call, other) ↔ item.sequence ≤ other.sequence := by
  simp [rowKey, Prod.Lex.toLex_le_toLex]

/-- **The order of an output.** Sorted with everything else, the items of a call stay in the order
of their sequences. -/
theorem output_sorted (hcall : call ∈ ledger.calls) (hafter : llmCallAfterBoundary after call)
    (hincreasing : (ledger.outputOf call.llmCallId).Pairwise (·.sequence < ·.sequence)) :
    ((((ledger.rows call.threadId call.provider after).insertionSort
        fun a b => rowKey a ≤ rowKey b).filter (·.1.llmCallId = call.llmCallId)).filter
          (·.2.direction = .output)) =
      (ledger.outputOf call.llmCallId).map (call, ·) := by
  have houtput : ((ledger.items.filter (·.llmCallId = call.llmCallId)).map (call, ·)).filter
      (fun row => decide (row.2.direction = .output)) =
      (ledger.outputOf call.llmCallId).map (call, ·) := by
    rw [List.filter_map, List.filter_filter, Ledger.outputOf]
    refine congrArg _ (List.filter_congr fun item _ => ?_)
    exact Bool.and_comm _ _
  have hperm := (((List.perm_insertionSort (fun a b => rowKey a ≤ rowKey b)
    (ledger.rows call.threadId call.provider after)).filter
      (·.1.llmCallId = call.llmCallId)).filter (·.2.direction = .output))
  rw [filter_rows hcall hafter, houtput] at hperm
  refine @List.Perm.eq_of_pairwise _ (fun a b => rowKey a ≤ rowKey b) _ _ ?_ ?_ ?_ hperm
  · intro a b ha hb hle hge
    obtain ⟨item, hitem, rfl⟩ := List.mem_map.mp (hperm.mem_iff.mp ha)
    obtain ⟨other, hother, rfl⟩ := List.mem_map.mp hb
    have hsequence : item.sequence = other.sequence :=
      Nat.le_antisymm (rowKey_le_iff.mp hle) (rowKey_le_iff.mp hge)
    obtain ⟨hitem, hmatch⟩ := List.mem_filter.mp hitem
    obtain ⟨hother, hmatch'⟩ := List.mem_filter.mp hother
    rw [Bool.and_eq_true, decide_eq_true_eq, decide_eq_true_eq] at hmatch hmatch'
    have hslot : item.slot = other.slot := by
      rw [LlmCallItem.slot, LlmCallItem.slot, hmatch.1, hmatch.2, hmatch'.1, hmatch'.2, hsequence]
    rw [List.inj_on_of_nodup_map ledger.items_nodup hitem hother hslot]
  · refine ((List.pairwise_insertionSort _ _).filter _).filter _
  · refine List.pairwise_map.mpr (hincreasing.imp fun h => ?_)
    exact rowKey_le_iff.mpr (Nat.le_of_lt h)

theorem foldl_add {rows : List (LlmCall × LlmCallItem)} :
    rows.foldl Group.add group =
      { group with content := group.content ++ rows.filterMap rowBlock } := by
  induction rows generalizing group with
  | nil => simp
  | cons row rows ih =>
    rw [List.foldl_cons, ih, Group.add]
    cases hblock : rowBlock row with
    | none | some block => simp [hblock]

/-- The rows of a call make one group. It has the blocks of its output. -/
theorem collect_rows {rows : List (LlmCall × LlmCallItem)} (hrows : ∀ row ∈ rows, row.1 = call) :
    (Grouping.collect Group.start Group.add call.llmCallId rows).filter
        (fun entry => !entry.2.content.isEmpty) =
      if (rows.filterMap rowBlock).isEmpty then []
      else [(call.llmCallId,
        { createdAt := call.createdAt
          model := call.model
          requestMode := parseRequestMode call.requestMode
          content := rows.filterMap rowBlock })] := by
  cases rows with
  | nil => rfl
  | cons row rows =>
    rw [Grouping.collect, foldl_add, Group.start, hrows row List.mem_cons_self, List.nil_append]
    by_cases hempty : ((row :: rows).filterMap rowBlock).isEmpty
    · rw [if_pos hempty]
      simp [hempty]
    · rw [if_neg hempty]
      simp [hempty]

theorem filterMap_rowBlock (rows : List (LlmCall × LlmCallItem)) :
    rows.filterMap rowBlock =
      (rows.filter (·.2.direction = .output)).filterMap
        fun row => canonicalBlockFromLedgerItem row.2 := by
  rw [List.filterMap_filter]
  refine List.filterMap_congr fun row _ => ?_
  simp [rowBlock]

theorem load_recorded (hcall : call ∈ ledger.calls) (hid : call.llmCallId ≠ "")
    (hafter : llmCallAfterBoundary after call)
    (hincreasing : (ledger.outputOf call.llmCallId).Pairwise (·.sequence < ·.sequence)) :
    (loadProviderLedgerMessages ledger call.threadId call.provider after).filter
        (·.llmCallId = call.llmCallId) =
      let content := (ledger.outputOf call.llmCallId).filterMap canonicalBlockFromLedgerItem
      if content.isEmpty then []
      else [{ llmCallId := call.llmCallId
              createdAt := call.createdAt
              model := call.model
              requestMode := parseRequestMode call.requestMode
              content := replayed call.provider content }] := by
  have houtput := output_sorted hcall hafter hincreasing
  rw [loadProviderLedgerMessages, List.filter_map, List.filter_filter]
  set sorted := (ledger.rows call.threadId call.provider after).insertionSort
    fun a b => rowKey a ≤ rowKey b
  have hnamed : (sorted.filter (·.1.llmCallId ≠ "")).filter (·.1.llmCallId = call.llmCallId) =
      sorted.filter (·.1.llmCallId = call.llmCallId) := by
    rw [List.filter_filter]
    refine List.filter_congr fun row _ => ?_
    by_cases hrow : row.1.llmCallId = call.llmCallId
    · simp [hrow, hid]
    · simp [hrow]
  have hcalls : ∀ row ∈ sorted.filter (·.1.llmCallId = call.llmCallId), row.1 = call := by
    intro row hrow
    obtain ⟨hrow, hmatch⟩ := List.mem_filter.mp hrow
    obtain ⟨other, hother, hrow⟩ := List.mem_flatMap.mp ((List.mem_insertionSort _).mp hrow)
    obtain ⟨_, _, rfl⟩ := List.mem_map.mp hrow
    exact ledger.eq_of_llmCallId hcall (List.mem_of_mem_filter hother) (of_decide_eq_true hmatch)
  have hcontent : (sorted.filter (·.1.llmCallId = call.llmCallId)).filterMap rowBlock =
      (ledger.outputOf call.llmCallId).filterMap canonicalBlockFromLedgerItem := by
    rw [filterMap_rowBlock, houtput, List.filterMap_map]
    rfl
  have hgroup := @Grouping.filter_group _ _ _ _ (·.1.llmCallId) Group.start Group.add
    call.llmCallId (sorted.filter (·.1.llmCallId ≠ ""))
  rw [hnamed] at hgroup
  have hcollect := collect_rows hcalls
  rw [hcontent, ← hgroup, List.filter_filter] at hcollect
  have hboth := (List.filter_congr fun _ _ => Bool.and_comm _ _).trans hcollect
  exact (congrArg (List.map _) hboth).trans (apply_ite (List.map _) _ _ _)

end Read

theorem outputs_increase : args.items.Pairwise (·.sequence < ·.sequence) := by
  have hrange : (args.items.map (·.sequence)).Pairwise (· < ·) := by
    have hsequences : args.items.map (·.sequence) = List.range args.output.length := by
      rw [RecordLlmCallArgs.items, List.map_map, List.range_eq_range', ← List.zipIdx_map_snd 0]
      rfl
    rw [hsequences]
    exact List.pairwise_lt_range
  exact List.pairwise_map.mp hrange

theorem filterMap_items (hblocks : ∀ block ∈ args.output, Replayable block) :
    args.items.filterMap canonicalBlockFromLedgerItem = args.output := by
  rw [RecordLlmCallArgs.items, List.filterMap_map]
  have hitems : args.output.zipIdx.filterMap
      (canonicalBlockFromLedgerItem ∘ fun entry => args.item entry.1 entry.2) =
      args.output.zipIdx.filterMap (some ∘ Prod.fst) := by
    refine List.filterMap_congr fun entry hentry => ?_
    exact blockFromPayload_item (hblocks _ (List.fst_mem_of_mem_zipIdx hentry))
  rw [hitems, List.filterMap_eq_map, List.zipIdx_map_fst]

/-- **The round trip of the ledger.** A call is read back as it was recorded, block by block and in
order, whatever has been written since, if the payloads can carry its blocks. Texts of OpenAI's
without a phase get one. -/
theorem ledger_round_trip {ledger ledger' : Ledger} {createdAt : ℕ} {args : RecordLlmCallArgs}
    (hid : args.llmCallId ≠ "") (hblocks : ∀ block ∈ args.output, Replayable block)
    (hrecord : recordLlmCall ledger createdAt args = some ledger') (writes : List Write)
    {after : Option LedgerBoundary} (hafter : llmCallAfterBoundary after (args.call createdAt)) :
    (loadProviderLedgerMessages (writes.foldl Ledger.write ledger') args.threadId args.provider
        after).filter (·.llmCallId = args.llmCallId) =
      if args.output.isEmpty then []
      else [{ llmCallId := args.llmCallId
              createdAt
              model := args.model
              requestMode := parseRequestMode args.requestMode
              content := replayed args.provider args.output }] := by
  have hrecorded := (recorded_of_recordLlmCall hrecord).writes writes
  have hincreasing : ((writes.foldl Ledger.write ledger').outputOf
      (args.call createdAt).llmCallId).Pairwise (·.sequence < ·.sequence) := by
    rw [hrecorded.output]
    exact outputs_increase
  have hload := load_recorded hrecorded.mem hid hafter hincreasing
  rw [hrecorded.output, filterMap_items hblocks] at hload
  exact hload

/-- What a model has answered, with the data of its provider. -/
def exampleArgs : RecordLlmCallArgs where
  llmCallId := "c"
  threadId := "t"
  turnId := 0
  provider := .openai
  model := "m"
  requestMode := .openaiResponses
  output :=
    [.reasoning (lit "look first") (some ⟨.openai, .object [("id", .string (lit "rs"))]⟩),
      .text (lit "One moment.") none,
      .toolUse (lit "a") (lit "terminal_observe") [("view", .string (lit "screen"))]]
  ownerUserId := some "u"
  assistantMessageId := some "m"

def exampleResult : RecordLlmToolResultItemArgs where
  llmCallId := "c"
  threadId := "t"
  sequence := 1
  toolCallId := lit "a"
  content := lit "done"
  payload := []
  messageId := none
  ownerUserId := some "u"

theorem ledger_round_trip_three : ∃ ledger, recordLlmCall .empty 0 exampleArgs = some ledger ∧
    (loadProviderLedgerMessages ([.toolResult exampleResult].foldl Ledger.write ledger) "t" .openai
        none).filter (·.llmCallId = "c") =
      [{ llmCallId := "c"
         createdAt := 0
         model := "m"
         requestMode := .openaiResponses
         content := replayed .openai exampleArgs.output }] := by
  have hblocks : ∀ block ∈ exampleArgs.output, Replayable block := by
    intro block hblock
    rcases List.mem_cons.mp hblock with rfl | hblock
    · exact ⟨by decide, _, rfl, trivial, trivial⟩
    · rcases List.mem_cons.mp hblock with rfl | hblock
      · trivial
      · rw [List.mem_singleton.mp hblock]
        exact ⟨trivial, trivial⟩
  obtain ⟨ledger, hrecord⟩ := Option.isSome_iff_exists.mp
    (show (recordLlmCall .empty 0 exampleArgs).isSome = true from rfl)
  refine ⟨ledger, hrecord, ?_⟩
  exact ledger_round_trip (by decide) hblocks hrecord [.toolResult exampleResult] rfl

/-- A text of OpenAI's comes back with a phase that it has not gone with. -/
theorem text_without_phase_changes : ∃ ledger,
    recordLlmCall .empty 0 { exampleArgs with output := [.text (lit "Done.") none] } =
      some ledger ∧
    (loadProviderLedgerMessages ledger "t" .openai none).map (·.content) ≠
      [[.text (lit "Done.") none]] := by
  refine ⟨_, rfl, fun h => ?_⟩
  have hread : [[Block.text (lit "Done.") (some .finalAnswer)]] =
      [[.text (lit "Done.") none]] := h
  cases hread

end Bud.ProviderLedger
