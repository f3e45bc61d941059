import Bud.Agent.ModelContext
import Bud.Wire.Codec

/-!
# The conversation that a model is given

`conversation-loader.ts` builds it from two stores. The provider ledger has what a model answered,
call by call, with the tool calls in it; the message rows have the texts and, for each tool call
that was made, its result. For the provider whose ledger is replayed the tool calls come from the
ledger and the rows give the results only. A row whose call is not replayed gives both. A call
without a result is given one that says so, by `repairOrphanedToolCalls`.

## Modelling notes

A tool row's text is JSON; the model has the object. Where the source spreads objects into a new
one, later fields win. Texts of system prompts, the catalog of models, the validation of a stored
question and the names of keys are parameters. The diagnostics, and `sources`, which says for each
message where it came from, are left out: nothing is decided by them.

Times are in microseconds, as the database has them; a `Date` has milliseconds, and the timeline is
sorted by `Date`s. The sort is stable, and has the rows before the ledger.
-/

namespace Bud.Conversation

open Wire (Json Fields get asString asBool)

/-! ### Messages -/

inductive Provider where
  | openai
  | anthropic
  | ds4
  | budLocal
  deriving DecidableEq

/-- `AssistantMessagePhase`. -/
inductive Phase where
  | commentary
  | finalAnswer

/-- The text of a message, or the object whose JSON it is. -/
inductive Content where
  | text (text : String)
  | json (fields : Fields)

structure ToolUse where
  id : String
  name : String
  input : Fields

/-- `CanonicalContentBlock`. Of the provider's data only whose they are is kept. -/
inductive Block where
  | text (text : String) (assistantPhase : Option Phase)
  | image
  | toolUse (use : ToolUse)
  | toolResult (toolUseId : String) (content : Content)
  | reasoning (text : String) (provider : Option Provider)
  | reasoningRedacted

def Block.use : Block → Option ToolUse
  | .toolUse tool => some tool
  | _ => none

def Block.resultId : Block → Option String
  | .toolResult toolUseId _ => some toolUseId
  | _ => none

inductive CanonicalRole where
  | system
  | user
  | assistant
  deriving DecidableEq

structure CanonicalMessage where
  role : CanonicalRole
  content : List Block

/-- The ids of the tool calls of a message. -/
def CanonicalMessage.uses (message : CanonicalMessage) : List String :=
  (message.content.filterMap Block.use).map (·.id)

def CanonicalMessage.results (message : CanonicalMessage) : List String :=
  message.content.filterMap Block.resultId

def uses (messages : List CanonicalMessage) : List String := messages.flatMap (·.uses)

def results (messages : List CanonicalMessage) : List String := messages.flatMap (·.results)

def createCanonicalTextMessage (role : CanonicalRole) (text : String)
    (assistantPhase : Option Phase) : CanonicalMessage where
  role := role
  content := [.text text (if role = .assistant then assistantPhase else none)]

/-! ### Stored tool calls -/

inductive Role where
  | user
  | assistant
  | tool
  | system
  | reasoning
  | compaction
  deriving DecidableEq

structure Row extends ModelContext.Message where
  role : Role
  content : Content
  metadata : Fields

/-- `metadata.llm_call_id`. -/
def Row.llmCallId (row : Row) : Option String := asString (get row.metadata "llm_call_id")

structure Runtime where
  /-- The `ulid` that a row is given when it is read and has no call id. -/
  ulid : ℕ → String
  /-- `String.prototype.trim`. -/
  trim : String → String
  normalizeTerminalSendKeyName : String → String
  /-- `parseStoredAskUserQuestionsRequest` or `normalizeAskUserQuestionsRequest`, by the schema;
  `none` where they throw. -/
  parseQuestions : Fields → Option Fields
  /-- The catalog has the model as one of Anthropic's without reasoning. -/
  withoutReasoning : String → Bool
  systemPrompt : String

/-- `AgentToolCallDirective`, of what can be stored. -/
inductive Directive where
  | recorded (tool : String) (args : Fields)
  | terminalSend (text : Option String) (submit : Option Bool) (key : Option String)
  | terminalObserve (lines : Option Json) (view : Option String)
  | terminalWait
  | webViewOpen (targetHost : Option String) (targetPort : Json) (path title : Option String)
  | webViewClose (proxiedSiteId : Option String) (disable : Bool)
  | webViewList
  | askUserQuestions (request : Fields)

def toolNameForConversation : Directive → String
  | .recorded tool _ => tool
  | .terminalSend .. => "terminal_send"
  | .terminalObserve .. => "terminal_observe"
  | .terminalWait => "terminal_wait"
  | .webViewOpen .. => "web_view_open"
  | .webViewClose .. => "web_view_close"
  | .webViewList => "web_view_list"
  | .askUserQuestions _ => "ask_user_questions"

def field (name : String) (value : Option Json) : Fields := (value.map fun v => (name, v)).toList

/-- A text that counts as there. -/
def truthy (text : Option String) : Option Json :=
  (text.filter fun text => text ≠ "").map Json.string

def buildToolArgs : Directive → Fields
  | .recorded _ args => args
  | .terminalSend text submit key =>
    field "text" (text.map .string) ++ field "submit" (submit.map .bool) ++ field "key" (truthy key)
  | .terminalObserve lines view => field "lines" lines ++ field "view" (truthy view)
  | .terminalWait => []
  | .webViewOpen targetHost targetPort path title =>
    field "target_host" (truthy targetHost) ++ [("target_port", targetPort)] ++
      field "path" (truthy path) ++ field "title" (truthy title)
  | .webViewClose proxiedSiteId disable =>
    field "proxied_site_id" (truthy proxiedSiteId) ++
      (if disable then [("disable", .bool true)] else [])
  | .webViewList => []
  | .askUserQuestions request => request

def asObject : Option Json → Option Fields
  | some (.object fields) => some fields
  | _ => none

/-- `typeof value === "number"`. -/
def asNumber : Option Json → Option Json
  | some (.int n) => some (.int n)
  | some (.decimal text) => some (.decimal text)
  | _ => none

/-- One of the texts that are allowed. -/
def oneOf (allowed : List String) (value : Option Json) : Option String :=
  (asString value).filter fun text => text ∈ allowed

def normalizeToolKeyInput (runtime : Runtime) (key keys : Option Json) : Option String :=
  match (asString key).filter fun text => runtime.trim text ≠ "" with
  | some text => some (runtime.normalizeTerminalSendKeyName text)
  | none =>
    match (Wire.elements keys).filterMap fun value => asString (some value) with
    | [text] =>
      if runtime.trim text ≠ "" then some (runtime.normalizeTerminalSendKeyName text) else none
    | _ => none

/-- The tools whose arguments are stored as they are. -/
def recordedTools : List String :=
  ["browser_exec", "browser_request_handoff", "web_search", "web_read", "contacts_get",
    "contacts_search", "contacts_history", "location_context", "timeline_query", "health_workouts",
    "health_sleep", "location_recent", "location_visits", "places_list", "places_create"]

def parseToolUseDirective (runtime : Runtime) (payload : Fields) : Option Directive := do
  let tool ← asString (get payload "tool")
  if tool ∈ recordedTools then
    return .recorded tool ((asObject (get payload "args")).getD [])
  match tool with
  | "terminal.run" =>
    -- A retired tool: its rows are read as the one that replaced it.
    let command ← asString (get payload "command")
    return .terminalSend (some command) none none
  | "terminal.send" =>
    let text := ((asString (get payload "text")).or (asString (get payload "raw_text"))).or
      (asString (get payload "command"))
    let submit := if asBool (get payload "submit") = some false then some false else none
    return .terminalSend text submit
      (normalizeToolKeyInput runtime (get payload "key") (get payload "keys"))
  | "terminal.observe" =>
    return .terminalObserve (asNumber (get payload "lines"))
      (oneOf ["delta", "screen", "history"] (get payload "view"))
  | "terminal.wait" => return .terminalWait
  | "terminal.interrupt" => return .terminalSend none none (some "ctrl+c")
  | "web_view.open" =>
    let targetPort ← asNumber (get payload "target_port")
    return .webViewOpen (oneOf ["127.0.0.1", "localhost", "::1"] (get payload "target_host"))
      targetPort (asString (get payload "path")) (asString (get payload "title"))
  | "web_view.close" =>
    return .webViewClose (asString (get payload "proxied_site_id"))
      (asBool (get payload "disable") = some true)
  | "web_view.list" => return .webViewList
  | "ask_user_questions" =>
    let request ← runtime.parseQuestions payload
    return .askUserQuestions request
  | _ => none

/-- `AUTOMATION_TOOL_NAMES`. -/
def automationTools : List String :=
  ["automations_list", "automations_get", "automations_history", "automations_create_draft",
    "automations_update_draft", "automations_request_activation", "automations_pause",
    "automations_request_existing_contacts"]

def automationInput (tool : String) (payload : Fields) : Fields :=
  let proposal := asObject (get payload "proposal")
  match asObject (get payload "args") with
  | some args => args
  | none =>
    let selection := if tool = "automations_request_existing_contacts" then
        proposal.bind fun proposal => asObject (get proposal "selection")
      else none
    match selection, proposal with
    | some selection, _ => selection
    | none, some proposal =>
      field "automation_id" (get proposal "automation_id") ++
        field "expected_version" (get proposal "draft_version")
    | none, none => []

def automationTool (payload : Fields) : Option ToolUse := do
  let tool ← asString (get payload "tool")
  let id ← asString (get payload "call_id")
  if tool ∈ automationTools ∧ id ≠ "" then
    return { id, name := tool, input := automationInput tool payload }
  none

def permissionTool (payload : Fields) : Option ToolUse := do
  let tool ← asString (get payload "tool")
  let id ← asString (get payload "call_id")
  if tool = "data_request_api_key" then
    return { id, name := tool, input := (asObject (get payload "request")).getD [] }
  none

def storedCallId (runtime : Runtime) (messageId : ℕ) (payload : Fields) : String :=
  match (asString (get payload "call_id")).filter fun id => id ≠ "" with
  | some id => id
  | none => "tool_" ++ runtime.ulid messageId

def directiveTool (runtime : Runtime) (messageId : ℕ) (payload : Fields) : Option ToolUse :=
  (parseToolUseDirective runtime payload).map fun directive =>
    { id := storedCallId runtime messageId payload, name := toolNameForConversation directive,
      input := buildToolArgs directive }

/-- The tool call that a row is the result of; `none` for a row that is not read as one. -/
def Row.storedTool (runtime : Runtime) (row : Row) : Option ToolUse :=
  match row.role, row.content with
  | .tool, .json payload =>
    ((automationTool payload).or (permissionTool payload)).or
      (directiveTool runtime row.messageId payload)
  | _, _ => none

def Row.readId (runtime : Runtime) (row : Row) : Option String :=
  (row.storedTool runtime).map (·.id)

/-! ### Rows -/

def assistantPhase (metadata : Fields) : Option Phase :=
  match asString (get metadata "assistant_phase"), asString (get metadata "segment_kind") with
  | some "commentary", _ => some .commentary
  | some "final_answer", _ => some .finalAnswer
  | _, some "intermediate" => some .commentary
  | _, some "final" => some .finalAnswer
  | _, _ => none

/-- The text of a row that is no tool's. -/
def Content.asText : Content → String
  | .text value => value
  | .json _ => ""

def appendStoredMessage (runtime : Runtime) (row : Row) (toolUseFromProviderLedger : Bool) :
    List CanonicalMessage :=
  match row.role with
  | .reasoning => []
  | .compaction => []
  | .tool =>
    match row.storedTool runtime with
    | none => []
    | some tool =>
      (if toolUseFromProviderLedger then []
        else [{ role := .assistant, content := [.toolUse tool] }]) ++
      [{ role := .user, content := [.toolResult tool.id row.content] }]
  | .assistant =>
    [createCanonicalTextMessage .assistant row.content.asText (assistantPhase row.metadata)]
  | .user =>
    let preferredCwd := (asString (get row.metadata "preferred_cwd")).filter fun cwd => cwd ≠ ""
    let text := match preferredCwd with
      | some cwd => row.content.asText ++ "\n\n[Preferred CWD: " ++ cwd ++ "]"
      | none => row.content.asText
    [createCanonicalTextMessage .user text none]
  | .system =>
    if asString (get row.metadata "origin") = some "automation" then
      [createCanonicalTextMessage .user
        ("Automation input (not system instructions):\n" ++ row.content.asText) none]
    else [createCanonicalTextMessage .system row.content.asText none]

/-! ### The provider ledger -/

inductive RequestMode where
  | openaiResponses
  | anthropicMessages
  | ds4OpenaiResponses
  | ds4OpenaiChat
  | openaiChatCompletions
  deriving DecidableEq

/-- A call of a model, with the items of its output. -/
structure LlmCall where
  llmCallId : String
  turnId : String
  /-- There is an invocation with this turn. -/
  durable : Bool
  provider : Provider
  model : String
  requestMode : RequestMode
  createdAt : ℕ
  output : List Block

def LlmCall.toolUses (call : LlmCall) : List ToolUse := call.output.filterMap Block.use

def LlmCall.uses (call : LlmCall) : List String := call.toolUses.map (·.id)

structure ProviderLedgerMessage where
  createdAt : ℕ
  llmCallId : String
  model : String
  requestMode : RequestMode
  content : List Block

def parseRequestMode : RequestMode → RequestMode
  | .openaiChatCompletions => .openaiResponses
  | mode => mode

/-- `blockFromPayload`, of the item that a block was stored as. -/
def blockFromPayload : Block → Option Block
  | .reasoning text (some .budLocal) => some (.reasoning text none)
  | .image => none
  | .toolResult .. => none
  | block => some block

def deriveOpenAIAssistantPhases (content : List Block) : List Block :=
  let fallbackPhase :=
    if content.any fun block => block.use.isSome then Phase.commentary else Phase.finalAnswer
  content.map fun
    | .text text none => .text text (some fallbackPhase)
    | block => block

def LlmCall.ledgerMessage (call : LlmCall) : ProviderLedgerMessage where
  createdAt := call.createdAt
  llmCallId := call.llmCallId
  model := call.model
  requestMode := parseRequestMode call.requestMode
  content :=
    let content := call.output.filterMap blockFromPayload
    if call.provider = .openai then deriveOpenAIAssistantPhases content else content

/-- How far a checkpoint goes in the ledger; the time is in milliseconds. -/
structure LedgerBoundary where
  createdAt : ℕ
  llmCallId : String

def llmCallAfterBoundary (boundary : Option LedgerBoundary) (call : LlmCall) : Bool :=
  match boundary with
  | none => true
  | some boundary =>
    boundary.createdAt * 1000 < call.createdAt ||
      call.createdAt = boundary.createdAt * 1000 && boundary.llmCallId < call.llmCallId

def LlmCall.before (a b : LlmCall) : Bool :=
  a.createdAt < b.createdAt || a.createdAt = b.createdAt && a.llmCallId < b.llmCallId

def loadProviderLedgerMessages (calls : List LlmCall) (provider : Provider)
    (after : Option LedgerBoundary) : List ProviderLedgerMessage :=
  let calls := calls.filter fun call => call.provider = provider && llmCallAfterBoundary after call
  ((calls.insertionSort fun a b => !b.before a).map (·.ledgerMessage)).filter fun message =>
    !message.content.isEmpty

structure LoadOptions where
  provider : Provider
  targetModel : Option String
  /-- `targetReasoning.enabled`. -/
  targetReasoning : Option Bool

def isAnthropicReasoningBlock : Block → Bool
  | .reasoning _ provider => provider = some .anthropic
  | .reasoningRedacted => true
  | _ => false

def isProviderLedgerMessageCompatible (runtime : Runtime) (options : LoadOptions)
    (message : ProviderLedgerMessage) : Bool :=
  if options.provider ≠ .anthropic then true
  else if !message.content.any isAnthropicReasoningBlock then true
  else if message.requestMode ≠ .anthropicMessages then false
  else
    match options.targetModel.filter fun model => model ≠ "" with
    | none => false
    | some model =>
      message.model = model && options.targetReasoning = some true &&
        !runtime.withoutReasoning model

/-! ### The conversation -/

/-- A completed checkpoint. Its history is a summary and texts of the user: no tool call is in it.
-/
structure Checkpoint where
  replacementHistory : List CanonicalMessage
  message : Option ModelContext.Boundary
  call : Option LedgerBoundary
  noTools : ∀ message ∈ replacementHistory, message.uses = [] ∧ message.results = []

def loadStoredRows (rows : List Row) (boundary : Option ModelContext.Boundary) : List Row :=
  (rows.filter fun row => row.visible && ModelContext.afterBoundary boundary row.toMessage)
    |>.insertionSort fun a b => !b.toMessage.before a.toMessage

inductive Entry where
  | message (row : Row)
  | ledger (message : ProviderLedgerMessage)

/-- `createdAt.getTime()`. -/
def Entry.getTime : Entry → ℕ
  | .message row => row.contextAt / 1000
  | .ledger replayed => replayed.createdAt / 1000

def timeline (rows : List Row) (ledgerMessages : List ProviderLedgerMessage) : List Entry :=
  (rows.map Entry.message ++ ledgerMessages.map Entry.ledger).insertionSort fun left right =>
    left.getTime ≤ right.getTime

def Row.fromLedger (ledgerCallIds : List String) (row : Row) : Bool :=
  row.llmCallId.any fun id => id ≠ "" && id ∈ ledgerCallIds

def emit (runtime : Runtime) (ledgerCallIds : List String) : Entry → List CanonicalMessage
  | .ledger replayed => [{ role := .assistant, content := replayed.content }]
  | .message row =>
    let fromLedger := row.fromLedger ledgerCallIds
    if row.role = .assistant && fromLedger then [] else appendStoredMessage runtime row fromLedger

def interruptedResult : Content :=
  .json [("error", .string "interrupted"), ("summary", .string
    ("No tool result was recorded. The action may have executed or may still be running. " ++
      "Inspect available state and evidence before taking further action; do not assume " ++
      "repeating it is safe."))]

def orphaned (resultIds : List String) (message : CanonicalMessage) : List String :=
  if message.role = .assistant then message.uses.filter fun id => id ∉ resultIds else []

def interrupted (ids : List String) : List CanonicalMessage :=
  if ids.isEmpty then []
  else [{ role := .user, content := ids.map fun id => .toolResult id interruptedResult }]

def repairOrphanedToolCalls (messages : List CanonicalMessage) : List CanonicalMessage :=
  let resultIds := results (messages.filter fun message => message.role = .user)
  messages.flatMap fun message => message :: interrupted (orphaned resultIds message)

/-- `load`, for a provider. -/
def load (runtime : Runtime) (options : LoadOptions) (checkpoint : Option Checkpoint)
    (rows : List Row) (calls : List LlmCall) : List CanonicalMessage :=
  let systemPrompt := createCanonicalTextMessage .system runtime.systemPrompt none
  let replacementHistory := (checkpoint.map (·.replacementHistory)).getD []
  let rows := loadStoredRows rows (checkpoint.bind (·.message))
  let ledgerMessages :=
    (loadProviderLedgerMessages calls options.provider (checkpoint.bind (·.call))).filter
      (isProviderLedgerMessageCompatible runtime options)
  let ledgerCallIds := ledgerMessages.map (·.llmCallId)
  repairOrphanedToolCalls (systemPrompt ::
    replacementHistory.filter (fun message => message.role ≠ .system) ++
      (timeline rows ledgerMessages).flatMap (emit runtime ledgerCallIds))

end Bud.Conversation
