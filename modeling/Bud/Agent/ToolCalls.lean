import Bud.Agent.ModelStream
import Bud.Agent.QuestionContracts
import Bud.Lib.Throws

/-!
# Tool calls and their results

A response of a model may hold any number of tool calls. `model-runner.ts` makes a directive of each
call whose name it knows; `agent-service.ts` carries the directives out one after the other, and
puts their results into the message that answers the response.

The message of the assistant has every call that the response has. A call without a directive has no
result, so what is proved here is which calls have one.

## Modelling notes

What the rest of the service answers is an argument of the loop: whether the user has asked for the
browser, what asking the user for something comes to, and what executing a tool comes to. Any of it
may throw, and so may the recording of the response. What is only recorded or sent on is left out.
The schemas of the automation tools and of the key request are a library's, and are parameters.
-/

namespace Bud.ToolCalls

open JsText JsValue Llm ModelStream Throws List Option
open Conversation (Phase Provider)

/-! ### Directives -/

inductive View where
  | delta
  | screen
  | history

/-- `AgentToolCallDirective`. -/
inductive Directive where
  | browser (tool callId : Text) (args : Fields)
  | automation (tool callId : Text) (args : Value)
  | dataRequestApiKey (callId : Text) (args : Fields)
  /-- Of the web, or of personal data. -/
  | query (tool callId : Text) (args : Fields)
  | terminalSend (callId : Text) (text : Option Text) (submit : Option Bool) (key : Option Text)
  | terminalObserve (callId : Text) (lines : Option Number) (view : Option View)
  | terminalWait (callId : Text)
  | webViewOpen (callId : Text) (targetHost : Option Text) (targetPort : Number)
      (path title : Option Text)
  | webViewClose (callId : Text) (proxiedSiteId : Option Text) (disable : Bool)
  | webViewList (callId : Text)
  | askUserQuestions (callId : Text) (request : Questions.Request)

def Directive.callId : Directive → Text
  | .browser _ callId _ | .automation _ callId _ | .dataRequestApiKey callId _
  | .query _ callId _ | .terminalSend callId _ _ _ | .terminalObserve callId _ _
  | .terminalWait callId | .webViewOpen callId _ _ _ _ | .webViewClose callId _ _
  | .webViewList callId | .askUserQuestions callId _ => callId

inductive Failure where
  /-- `DataRequestError`. -/
  | dataRequest (status : ℕ) (code message : String)
  | questions (failure : Questions.Failure)
  /-- `AgentModelResponseError`. -/
  | modelResponse (code message : String)

/-- What is done by libraries, or by the language. -/
structure Parsers where
  runtime : Questions.Runtime
  /-- `toLowerCase`. -/
  lower : Text → Text
  /-- The arguments by the schema of the tool, without the nulls that stand for absent fields. -/
  automationTool : Text → Fields → Option Value
  /-- The arguments by their schema, with the key itself as the destination's `public_key`. -/
  appKeyRequest : Fields → Option Fields

/-! ### Keys -/

/-- What follows one of the ways to write the control key. -/
def ctrlSuffix (lower : Text) : Option Text :=
  (["ctrl+", "ctrl-", "control+", "control-", "c-"].find? fun written =>
    (lit written).isPrefixOf lower).map fun written => lower.drop (lit written).length

/-- The other names of keys. -/
def keyAliases : List (String × String) :=
  [("return", "enter"), ("esc", "escape"), ("arrow_up", "up"), ("arrowup", "up"),
    ("arrow_down", "down"), ("arrowdown", "down"), ("arrow_left", "left"), ("arrowleft", "left"),
    ("arrow_right", "right"), ("arrowright", "right"), ("spacebar", "space"),
    ("bspace", "backspace"), ("dc", "delete")]

def normalizeTerminalSendKeyName (p : Parsers) (value : Text) : Text :=
  let trimmed := trim value
  if trimmed = [] then []
  else
    let lower := p.lower trimmed
    match (ctrlSuffix lower).filter (· ≠ []) with
    | some suffix => lit "ctrl+" ++ suffix
    | none =>
      match keyAliases.find? fun (name, _) => lit name = lower with
      | some (_, key) => lit key
      | none => lower

def strings (values : List Value) : List Text := values.filterMap fun value => asString (some value)

def normalizeToolKeyInput (p : Parsers) (keyValue keysValue : Option Value) : Option Text :=
  match (asString keyValue).filter (trim · ≠ []) with
  | some key => some (normalizeTerminalSendKeyName p key)
  | none =>
    match keysValue with
    | some (.array values) =>
      match strings values with
      | [key] => if trim key = [] then none else some (normalizeTerminalSendKeyName p key)
      | _ => none
    | _ => none

/-! ### Extracting -/

def browserToolNames : List Text := ["browser_exec", "browser_request_handoff"].map lit

def automationToolNames : List Text :=
  ["automations_list", "automations_get", "automations_history", "automations_create_draft",
    "automations_update_draft", "automations_request_activation", "automations_pause",
    "automations_request_existing_contacts"].map lit

/-- The tools of the web and of personal data. -/
def queryToolNames : List Text :=
  ["web_search", "web_read", "contacts_get", "contacts_search", "contacts_history",
    "location_context", "timeline_query", "health_workouts", "health_sleep", "location_recent",
    "location_visits", "places_list", "places_create"].map lit

def optionalQueryFields : List String :=
  ["search", "visibility", "limit", "cursor", "activity_type", "timezone", "order", "kind"]

def Value.isNull : Value → Bool
  | .null => true
  | _ => false

def queryArgs (args : Fields) : Fields :=
  args.filter fun (key, value) => !Value.isNull value || key ∉ optionalQueryFields

def parseWebViewTargetHost (value : Option Value) : Option Text :=
  (asString value).filter (· ∈ ["127.0.0.1", "localhost", "::1"].map lit)

def parseView (value : Option Value) : Option View :=
  match asString value with
  | some text =>
    if text = lit "delta" then some .delta
    else if text = lit "screen" then some .screen
    else if text = lit "history" then some .history
    else none
  | none => none

def extractToolCallDirective (p : Parsers) (toolCall : ToolCall) :
    Except Failure (Option Directive) :=
  let args := toolCall.input
  if toolCall.name ∈ browserToolNames then .ok (some (.browser toolCall.name toolCall.id args))
  else if toolCall.name ∈ automationToolNames then
    match p.automationTool toolCall.name args with
    | some parsed => .ok (some (.automation toolCall.name toolCall.id parsed))
    | none =>
      .error (.dataRequest 400 "invalid_automation_tool" "Check the automation tool arguments")
  else if toolCall.name = lit "data_request_api_key" then
    match p.appKeyRequest args with
    | some parsed => .ok (some (.dataRequestApiKey toolCall.id parsed))
    | none =>
      .error (.dataRequest 400 "invalid_app_key_request"
        "Check the app data permissions and setup destination")
  else if toolCall.name ∈ queryToolNames then
    .ok (some (.query toolCall.name toolCall.id (queryArgs args)))
  else if toolCall.name = lit "terminal_send" then
    .ok (some (.terminalSend toolCall.id
      ((asString (get args "text")).or (asString (get args "raw_text")))
      (asBool (get args "submit")) (normalizeToolKeyInput p (get args "key") (get args "keys"))))
  else if toolCall.name = lit "terminal_observe" then
    .ok (some (.terminalObserve toolCall.id (asNumber (get args "lines"))
      (parseView (get args "view"))))
  else if toolCall.name = lit "terminal_wait" then .ok (some (.terminalWait toolCall.id))
  else if toolCall.name = lit "web_view_open" then
    match asNumber (get args "target_port") with
    | none => .ok none
    | some targetPort =>
      .ok (some (.webViewOpen toolCall.id (parseWebViewTargetHost (get args "target_host"))
        targetPort (asString (get args "path")) (asString (get args "title"))))
  else if toolCall.name = lit "web_view_close" then
    .ok (some (.webViewClose toolCall.id (asString (get args "proxied_site_id"))
      (asBool (get args "disable") = some true)))
  else if toolCall.name = lit "web_view_list" then .ok (some (.webViewList toolCall.id))
  else if toolCall.name = lit "ask_user_questions" then
    match Questions.normalizeAskUserQuestionsRequest p.runtime (.object args) with
    | .ok request => .ok (some (.askUserQuestions toolCall.id request))
    | .error failure => .error (.questions failure)
  else .ok none

def extractToolCalls (p : Parsers) (toolCalls : List ToolCall) : Except Failure (List Directive) :=
  return (← toolCalls.mapM (extractToolCallDirective p)).filterMap id

def toolNames : List Text :=
  browserToolNames ++ automationToolNames ++ queryToolNames ++
    ["data_request_api_key", "terminal_send", "terminal_observe", "terminal_wait", "web_view_open",
      "web_view_close", "web_view_list", "ask_user_questions"].map lit

/-! ### Executing -/

/-- What asking the user for something comes to. -/
inductive Asked where
  /-- The turn waits for the user. -/
  | parked
  /-- There is nothing to ask for. -/
  | noWork
  /-- `DataRequestError`. -/
  | refused
  | failed
  deriving DecidableEq

/-- What executing a tool comes to. -/
inductive Execution where
  | failed
  /-- `BrowserToolWait`. -/
  | browserWait
  /-- The JSON of the payload, and whether a message of the user has superseded the turn. -/
  | executed (payload : Text) (superseded : Bool)

/-- What the rest of the service answers to one directive. -/
structure Answers where
  userBrowser : Bool
  handoffAvailable : Bool
  validBrowserInput : Bool
  asked : Asked
  /-- There is a `parkQuestion`. -/
  parksQuestions : Bool
  execution : Execution

/-- How a turn ends among the calls of a response. -/
inductive Ended where
  | waitingForUser
  | failed
  /-- By a message of the user: the turn has succeeded, and the model is not asked again. -/
  | superseded
  deriving DecidableEq

/-- The execution of a directive, whose result is recorded before the turn may end. -/
def execute (answers : Answers) (toolCall : Directive) : Except Ended Block :=
  match answers.execution with
  | .failed => .error .failed
  | .browserWait => .error .waitingForUser
  | .executed payload superseded =>
    match toolCall with
    | .terminalSend _ _ _ _ | .terminalObserve _ _ _ | .terminalWait _ | .askUserQuestions _ _ =>
      if superseded then .error .superseded
      else .ok (.toolResult toolCall.callId (.string payload) none)
    | _ => .ok (.toolResult toolCall.callId (.string payload) none)

def executeToolCall (answers : Answers) (toolCall : Directive) : Except Ended Block :=
  if answers.userBrowser then .error .waitingForUser
  else
    match toolCall with
    | .browser tool _ _ =>
      if answers.handoffAvailable ∧ tool = lit "browser_request_handoff" ∧
          answers.validBrowserInput then
        if answers.asked = .parked then .error .waitingForUser else .error .failed
      else execute answers toolCall
    | .automation tool _ _ =>
      if tool = lit "automations_request_activation" then
        match answers.asked with
        | .parked => .error .waitingForUser
        | .refused => execute answers toolCall
        | .noWork | .failed => .error .failed
      else if tool = lit "automations_request_existing_contacts" then
        match answers.asked with
        | .parked => .error .waitingForUser
        | .noWork | .refused => execute answers toolCall
        | .failed => .error .failed
      else execute answers toolCall
    | .dataRequestApiKey _ _ =>
      if answers.asked = .parked then .error .waitingForUser else .error .failed
    | .askUserQuestions _ _ =>
      if answers.parksQuestions then
        if answers.asked = .parked then .error .waitingForUser else .error .failed
      else execute answers toolCall
    | _ => execute answers toolCall

/-- The results of the directives; `i` is how many have been carried out. -/
def executeToolCalls (answers : ℕ → Answers) (i : ℕ) : List Directive → Except Ended (List Block)
  | [] => return []
  | toolCall :: toolCalls => do
    let result ← executeToolCall (answers i) toolCall
    let results ← executeToolCalls answers (i + 1) toolCalls
    return result :: results

/-! ### A step of the loop -/

def applyOpenAIAssistantPhaseFallback (content : List Block) (fallbackPhase : Phase) : List Block :=
  content.map fun
    | .text text none => .text text (some fallbackPhase)
    | block => block

def parseFinalResponse (stopReason : StopReason) (content : List Block) : Except Failure Text :=
  if stopReason = .maxTokens then
    .error (.modelResponse "MODEL_MAX_TOKENS" "model response incomplete: max_tokens reached")
  else if stopReason ≠ .endTurn ∧ stopReason ≠ .stopSequence then
    .error (.modelResponse "MODEL_INVALID_COMPLETION"
      "model response did not finish with a final answer")
  else
    let trimmed := trim (collectText content)
    if trimmed = [] then
      .error (.modelResponse "MODEL_EMPTY_RESPONSE" "model returned no text or tool call")
    else .ok trimmed

/-- What the rest of the service answers in a step. -/
structure World where
  provider : Provider
  /-- The response is recorded; else that throws. -/
  recorded : Bool
  answers : ℕ → Answers

inductive Step where
  | rejected (failure : Failure)
  | final (message : Text)
  | ended (ended : Ended)
  /-- The loop goes on with this conversation. -/
  | continues (conversation : List Message)

/-- `response.providerData?.provider === "openai" || providerName === "openai"`. -/
def World.openai (world : World) (response : Response) : Bool :=
  response.providerData.any (·.provider = .openai) || world.provider = .openai

def responseForReplay (world : World) (response : Response) (toolCalls : List Directive) :
    List Block :=
  if world.openai response then
    applyOpenAIAssistantPhaseFallback response.content
      (if toolCalls ≠ [] then .commentary else .finalAnswer)
  else response.content

/-- What the loop makes of a response. -/
def handleResponse (p : Parsers) (world : World) (conversation : List Message)
    (response : Response) : Step :=
  match extractToolCalls p response.toolCalls with
  | .error failure => .rejected failure
  | .ok [] =>
    match parseFinalResponse response.stopReason (responseForReplay world response []) with
    | .error failure => .rejected failure
    | .ok message => if world.recorded then .final message else .ended .failed
  | .ok toolCalls =>
    if !world.recorded then .ended .failed
    else
      match executeToolCalls world.answers 0 toolCalls with
      | .error ended => .ended ended
      | .ok results =>
        .continues (conversation ++
          ⟨.assistant, .blocks (responseForReplay world response toolCalls)⟩ ::
            if results = [] then [] else [⟨.user, .blocks results⟩])

/-! ### Which calls have a directive -/

variable {p : Parsers}

/-- The call opens a web view without a port. -/
def LacksPort (toolCall : ToolCall) : Prop :=
  toolCall.name = lit "web_view_open" ∧ asNumber (get toolCall.input "target_port") = none

theorem mem_toolNames_of_eq {toolCall : ToolCall} (hname : toolCall.name = lit name)
    (hmem : name ∈ ["data_request_api_key", "terminal_send", "terminal_observe", "terminal_wait",
      "web_view_open", "web_view_close", "web_view_list", "ask_user_questions"]) :
    toolCall.name ∈ toolNames :=
  hname ▸ mem_append_right _ (mem_map_of_mem hmem)

instance : DecidablePred LacksPort := fun _ => inferInstanceAs (Decidable (_ ∧ _))

/-- A call has a directive if the parser knows its name, and the directive has its id. -/
theorem extractToolCallDirective_spec {toolCall : ToolCall} (hport : ¬LacksPort toolCall)
    (h : extractToolCallDirective p toolCall = .ok directive) :
    directive.map Directive.callId =
      if toolCall.name ∈ toolNames then some toolCall.id else none := by
  have hknown : ∀ found : Directive, toolCall.name ∈ toolNames → found.callId = toolCall.id →
      Except.ok (some found) = Except.ok (ε := Failure) directive →
      directive.map Directive.callId =
        if toolCall.name ∈ toolNames then some toolCall.id else none := by
    rintro found hmem hid ⟨⟩
    rw [if_pos hmem, map_some, hid]
  unfold extractToolCallDirective at h
  obtain ⟨hbrowser, h⟩ | ⟨hbrowser, h⟩ := ite_eq_iff.mp h
  · exact hknown _ (by simp [toolNames, hbrowser]) rfl h
  obtain ⟨hautomation, h⟩ | ⟨hautomation, h⟩ := ite_eq_iff.mp h
  · split at h
    · exact hknown _ (by simp [toolNames, hautomation]) rfl h
    · cases h
  obtain ⟨hkey, h⟩ | ⟨hkey, h⟩ := ite_eq_iff.mp h
  · split at h
    · exact hknown _ (mem_toolNames_of_eq hkey (by decide)) rfl h
    · cases h
  obtain ⟨hquery, h⟩ | ⟨hquery, h⟩ := ite_eq_iff.mp h
  · exact hknown _ (by simp [toolNames, hquery]) rfl h
  obtain ⟨hsend, h⟩ | ⟨hsend, h⟩ := ite_eq_iff.mp h
  · exact hknown _ (mem_toolNames_of_eq hsend (by decide)) rfl h
  obtain ⟨hobserve, h⟩ | ⟨hobserve, h⟩ := ite_eq_iff.mp h
  · exact hknown _ (mem_toolNames_of_eq hobserve (by decide)) rfl h
  obtain ⟨hwait, h⟩ | ⟨hwait, h⟩ := ite_eq_iff.mp h
  · exact hknown _ (mem_toolNames_of_eq hwait (by decide)) rfl h
  obtain ⟨hopen, h⟩ | ⟨hopen, h⟩ := ite_eq_iff.mp h
  · split at h
    · exact absurd ⟨hopen, ‹_›⟩ hport
    · exact hknown _ (mem_toolNames_of_eq hopen (by decide)) rfl h
  obtain ⟨hclose, h⟩ | ⟨hclose, h⟩ := ite_eq_iff.mp h
  · exact hknown _ (mem_toolNames_of_eq hclose (by decide)) rfl h
  obtain ⟨hlist, h⟩ | ⟨hlist, h⟩ := ite_eq_iff.mp h
  · exact hknown _ (mem_toolNames_of_eq hlist (by decide)) rfl h
  obtain ⟨hask, h⟩ | ⟨hask, h⟩ := ite_eq_iff.mp h
  · split at h
    · exact hknown _ (mem_toolNames_of_eq hask (by decide)) rfl h
    · cases h
  obtain rfl := Except.ok.inj h
  have hunknown : toolCall.name ∉ toolNames := by
    simp [toolNames, hbrowser, hautomation, hkey, hquery, hsend, hobserve, hwait, hopen, hclose,
      hlist, hask]
  rw [if_neg hunknown]
  rfl

/-- The directives of a response are those of the calls whose names the parser knows. -/
theorem callId_extractToolCalls (hports : ∀ toolCall ∈ toolCalls, ¬LacksPort toolCall)
    (h : extractToolCalls p toolCalls = .ok directives) :
    directives.map Directive.callId = (toolCalls.filter (·.name ∈ toolNames)).map (·.id) := by
  obtain ⟨found, hfound, hdirectives⟩ := ok_of_bind h
  obtain rfl := Except.ok.inj hdirectives
  have hall := mapM_eq_ok.mp hfound
  clear h hfound hdirectives
  induction hall with
  | nil => rfl
  | @cons toolCall directive toolCalls found hhead _ ih =>
    have hspec := extractToolCallDirective_spec (hports toolCall mem_cons_self) hhead
    have hrest := ih fun other hother => hports other (mem_cons_of_mem toolCall hother)
    by_cases hknown : toolCall.name ∈ toolNames
    · rw [if_pos hknown] at hspec
      obtain ⟨value, rfl, hid⟩ := map_eq_some_iff.mp hspec
      simp [hknown, hid, ← hrest]
    · rw [if_neg hknown] at hspec
      obtain rfl := map_eq_none_iff.mp hspec
      simp [hknown, ← hrest]

/-! ### Their results -/

theorem resultId_execute (h : execute answers toolCall = .ok result) :
    result.resultId = some toolCall.callId := by
  cases hexecution : answers.execution with
  | failed | browserWait =>
    rw [execute, hexecution] at h
    cases h
  | executed payload superseded =>
    rw [execute, hexecution] at h
    -- Only terminals and questions look whether the turn is superseded.
    cases toolCall <;> cases superseded <;> cases h <;> rfl

theorem resultId_executeToolCall (h : executeToolCall answers toolCall = .ok result) :
    result.resultId = some toolCall.callId := by
  unfold executeToolCall at h
  split at h
  · cases h
  split at h
  · split at h
    · split at h <;> cases h
    · exact resultId_execute h
  · split at h
    · split at h
      · cases h
      · exact resultId_execute h
      · cases h
      · cases h
    · split at h
      · split at h
        · cases h
        · exact resultId_execute h
        · exact resultId_execute h
        · cases h
      · exact resultId_execute h
  · split at h <;> cases h
  · split at h
    · split at h <;> cases h
    · exact resultId_execute h
  · exact resultId_execute h

theorem resultId_executeToolCalls (h : executeToolCalls answers i toolCalls = .ok results) :
    results.map Block.resultId = toolCalls.map fun toolCall => some toolCall.callId := by
  induction toolCalls generalizing i results with
  | nil =>
    obtain rfl := Except.ok.inj h
    rfl
  | cons toolCall toolCalls ih =>
    obtain ⟨result, hresult, h⟩ := ok_of_bind h
    obtain ⟨rest, hrest, h⟩ := ok_of_bind h
    obtain rfl := Except.ok.inj h
    rw [map_cons, map_cons, resultId_executeToolCall hresult, ih hrest]

theorem asToolCall_fallback (content : List Block) (fallbackPhase : Phase) :
    (applyOpenAIAssistantPhaseFallback content fallbackPhase).filterMap Block.asToolCall =
      content.filterMap Block.asToolCall := by
  rw [applyOpenAIAssistantPhaseFallback, filterMap_map]
  refine filterMap_congr fun block _ => ?_
  cases block with
  | text value assistantPhase => cases assistantPhase <;> rfl
  | _ => rfl

theorem asToolCall_responseForReplay :
    (responseForReplay world response toolCalls).filterMap Block.asToolCall =
      response.content.filterMap Block.asToolCall := by
  unfold responseForReplay
  split
  · exact asToolCall_fallback _ _
  · rfl

/-! ### The results of a step -/

/-- A step that goes on has carried out some directives. -/
theorem handleResponse_continues
    (h : handleResponse p world conversation response = .continues conversation') :
    ∃ toolCalls results, extractToolCalls p response.toolCalls = .ok toolCalls ∧
      executeToolCalls world.answers 0 toolCalls = .ok results ∧ results ≠ [] ∧
      conversation' = conversation ++
        [⟨.assistant, .blocks (responseForReplay world response toolCalls)⟩,
          ⟨.user, .blocks results⟩] := by
  unfold handleResponse at h
  split at h
  · cases h
  · split at h
    · cases h
    · split at h <;> cases h
  · next toolCalls hsome hextract =>
    split at h
    · cases h
    · split at h
      · cases h
      · next results hexecute =>
        have hne : results ≠ [] := by
          rintro rfl
          have hids := resultId_executeToolCalls hexecute
          exact hsome (map_eq_nil_iff.mp hids.symm)
        rw [if_neg hne] at h
        cases h
        exact ⟨toolCalls, results, hextract, hexecute, hne, rfl⟩

/-- **The results of a step.** Behind the message of the assistant comes one with the results: in
the order of its calls, exactly one for each call whose name the parser knows. -/
theorem tool_calls_answered {world : World} {conversation conversation' : List Message}
    {newId : Text} {events : List CanonicalStreamEvent} {result : StreamedModelResponse}
    (hresult : invokeModel newId events = some result)
    (hports : ∀ toolCall ∈ result.response.toolCalls, ¬LacksPort toolCall)
    (hstep : handleResponse p world conversation result.response = .continues conversation') :
    ∃ content results, conversation' = conversation ++
        [⟨.assistant, .blocks content⟩, ⟨.user, .blocks results⟩] ∧
      results.map Block.resultId =
        ((content.filterMap Block.asToolCall).filter (·.name ∈ toolNames)).map
          fun toolCall => some toolCall.id := by
  obtain ⟨toolCalls, results, hextract, hexecute, _, hconversation⟩ :=
    handleResponse_continues hstep
  refine ⟨_, results, hconversation, ?_⟩
  have hcontent : result.response.content.filterMap Block.asToolCall =
      result.response.toolCalls := by
    obtain ⟨s, _, rfl⟩ := map_eq_some_iff.mp hresult
    exact toolCalls_response
  have hids := congrArg (List.map some) (callId_extractToolCalls hports hextract)
  rw [List.map_map, List.map_map] at hids
  rw [asToolCall_responseForReplay, hcontent, resultId_executeToolCalls hexecute]
  exact hids

/-! ### An example -/

/-- The calls of the message that a step has put down first, and the ids of the results behind. -/
def Step.answered : Step → Option (List Text × List (Option Text))
  | .continues [⟨_, .blocks content⟩, ⟨_, .blocks results⟩] =>
    some ((content.filterMap Block.asToolCall).map (·.id), results.map Block.resultId)
  | _ => none

def Step.ended? : Step → Option Ended
  | .ended how => some how
  | _ => none

theorem exists_of_answered {step : Step} (h : step.answered = some ids) :
    ∃ conversation, step = .continues conversation := by
  unfold Step.answered at h
  split at h
  · exact ⟨_, rfl⟩
  · cases h

def exampleParsers : Parsers :=
  { runtime := ⟨fun _ => []⟩
    lower := CaseMap.ascii.lower
    automationTool := fun _ _ => none
    appKeyRequest := fun _ => none }

def exampleWorld (superseded : Bool) : World :=
  { provider := .anthropic
    recorded := true
    answers := fun _ => ⟨false, false, false, .failed, false, .executed (lit "done") superseded⟩ }

/-- What a stream sends that calls two tools, the second by this name. -/
def exampleCalls (name : String) : List CanonicalStreamEvent :=
  [.toolUseDone 0 (lit "a") (lit "terminal_wait") [], .toolUseDone 1 (lit "b") (lit name) [],
    .messageDone .toolUse none]

def exampleStep (name : String) (superseded : Bool) : Option Step :=
  (invokeModel [] (exampleCalls name)).map fun result =>
    handleResponse exampleParsers (exampleWorld superseded) [] result.response

theorem tool_calls_answered_two : ∃ content results,
    exampleStep "web_view_list" false = some (.continues ([] ++
      [⟨.assistant, .blocks content⟩, ⟨.user, .blocks results⟩])) ∧
    results.map Block.resultId =
      ((content.filterMap Block.asToolCall).filter (·.name ∈ toolNames)).map
        fun toolCall => some toolCall.id := by
  have hanswered : (exampleStep "web_view_list" false).bind Step.answered =
      some ([lit "a", lit "b"], [some (lit "a"), some (lit "b")]) := by decide +kernel
  have hports : (invokeModel [] (exampleCalls "web_view_list")).all (fun result =>
      ∀ toolCall ∈ result.response.toolCalls, ¬LacksPort toolCall) = true := by decide +kernel
  obtain ⟨step, hstep, hanswered⟩ := bind_eq_some_iff.mp hanswered
  obtain ⟨result, hresult, hhandled⟩ := map_eq_some_iff.mp hstep
  obtain ⟨conversation, rfl⟩ := exists_of_answered hanswered
  rw [hresult, all_some, decide_eq_true_eq] at hports
  obtain ⟨content, results, rfl, hids⟩ := tool_calls_answered hresult hports hhandled
  exact ⟨content, results, hstep, hids⟩

/-- A call with an unknown name, and one that opens a web view without a port, have no result; and
a message of the user ends the turn before there is any. -/
theorem call_left_unanswered :
    (exampleStep "terminal_run" false).bind Step.answered =
        some ([lit "a", lit "b"], [some (lit "a")]) ∧
      (exampleStep "web_view_open" false).bind Step.answered =
        some ([lit "a", lit "b"], [some (lit "a")]) ∧
      (exampleStep "web_view_list" true).bind Step.ended? = some .superseded := by
  decide +kernel

end Bud.ToolCalls
