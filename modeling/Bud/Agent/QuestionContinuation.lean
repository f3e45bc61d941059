import Bud.Agent.RepositoryWrites
import Bud.Llm.ProviderLedger

/-!
# Going on after a wait, in the ledger

`prepareQuestionContinuation` of `invocation-repository.ts` with what `Repository` leaves out of it:
the provider ledger and the messages. Each action that waits has been answered. The model call it
belongs to may have called other tools behind it, and those that have no result are given one that
says they were not executed, so that the model can be asked again.

A result is found by the id of its call, in the items of the model call as they are read at the
start of an action. The loop over the tools that follow does not read them again, so if two of these
have the same id, each is given a result of its own. Apart from that no id is ever given a second
one, whichever action comes first (`Settled`).

## Modelling notes

`Runtime.answer` is what the stored answer is made into, or what is thrown over it; `JSON.stringify`
and the random client ids are parameters as well. A message is known by its client id, which is
unique. The times in its metadata, and the model, are left out. The evidence of an action is not
changed with its status, since nothing reads it once the action is completed.
-/

namespace Bud.QuestionContinuation

open Invocation Transaction Repository ProviderLedger Llm JsText JsValue List

/-! ### Tools that were not executed -/

inductive WaitingFor where
  | question
  | permission
  | automation
  | browser
  deriving DecidableEq

def productName (name : Text) : Text :=
  if name = lit "terminal_send" then lit "terminal.send"
  else if name = lit "terminal_observe" then lit "terminal.observe"
  else if name = lit "terminal_wait" then lit "terminal.wait"
  else if name = lit "web_view_open" then lit "web_view.open"
  else if name = lit "web_view_close" then lit "web_view.close"
  else if name = lit "web_view_list" then lit "web_view.list"
  else name

def deferredError : WaitingFor → String
  | .browser => "not_executed_due_to_browser_handoff"
  | .automation => "not_executed_due_to_automation_review"
  | .permission => "not_executed_due_to_permission"
  | .question => "not_executed_due_to_question"

def deferredSummary (name : Text) (browserRestarted : Bool) : WaitingFor → String
  | .browser =>
    if name = lit "browser_exec" then
      "Browser control is back with the agent. This queued cell was not executed. " ++
        (if browserRestarted then
          "The browser runtime was replaced; old JavaScript bindings and handles cannot be " ++
            "assumed to survive."
        else
          "A normal takeover preserves JavaScript bindings, but cached page data is historical.") ++
        " Observe the current owned page before reconsidering the task; do not replay the " ++
        "queued cell or reuse stale action references. New calls still check live authority."
    else if browserRestarted then
      "The browser runtime was lost and replaced. This queued action was not executed. Private " ++
        "work was interrupted, not completed by the user. Observe the recovered shared page " ++
        "without old target IDs, then reconsider the task. Do not replay stale actions or ask " ++
        "for an extinct controller to return."
    else
      "The user has returned browser control to the agent. This queued action was not executed; " ++
        "the handoff is complete, not still waiting. Continue through browser_exec: use await " ++
        "browser.tabs.list() to discover owned pages and await browser.tabs.current() to bind " ++
        "the current page. If no task page exists, use await browser.tabs.open(exactUrl) with " ++
        "the requested URL. Obtain fresh observations before page interactions; do not replay " ++
        "stale actions. Do not ask the user to return control again based on this result. New " ++
        "browser calls still check live authority."
  | .automation =>
    "Not executed: reconsider this action using the automation review decision."
  | .permission =>
    "Not executed: reconsider this action using the user's permission decision."
  | .question => "Not executed: reconsider this action using the user's answer."

def setField (fields : Fields) (field : String × Value) : Fields :=
  if fields.any (·.1 = field.1) then
    fields.map fun other => if other.1 = field.1 then field else other
  else fields ++ [field]

/-- What is in the result only where the browser was handed over. -/
def handoffFields (name : Text) (browserRestarted : Bool) : Fields :=
  [("executed", .bool false)] ++
    (if name = lit "browser_exec" then [("execution_state", .string (lit "not_executed"))]
    else []) ++
    [("handoff", .object
      [("status", .string (lit (if browserRestarted then "interrupted" else "returned"))),
        ("control_state", .string (lit "agent")), ("private_content", .bool false)])]

/-- What is set in the result beside the input of the call. -/
def deferredFields (block : ToolCall) (waitingFor : WaitingFor) (browserRestarted : Bool) :
    Fields :=
  [("args", .object block.input), ("tool", .string (productName block.name)),
      ("call_id", .string block.id), ("ok", .bool false),
      ("error", .string (lit (deferredError waitingFor))), ("retryable", .bool true)] ++
    (if waitingFor = .browser then handoffFields block.name browserRestarted else []) ++
    [("summary", .string (lit (deferredSummary block.name browserRestarted waitingFor)))]

def deferredToolResult (block : ToolCall) (waitingFor : WaitingFor) (browserRestarted : Bool) :
    Fields :=
  (deferredFields block waitingFor browserRestarted).foldl setField block.input

/-! ### The state -/

inductive MessageRole where
  | system
  | tool

/-- A message that is written here. -/
structure StoredMessage where
  clientId : String
  threadId : String
  role : MessageRole
  displayRole : String
  content : Text
  createdByUserId : String
  invocationId : ℕ
  llmCallId : Option String
  callId : Option Text
  browserHandoffId : Option String

structure State where
  store : Store
  ledger : Ledger
  messages : List StoredMessage

abbrev InState (α : Type) : Type := Tx State Failure α

/-- What is sent to the model, and the client id of its message. -/
structure Answer where
  payload : Fields
  clientId : String

structure Runtime where
  answer : Store → Entry → Action → Except Failure Answer
  stringify : Fields → Text
  /-- `generateMessageClientId`, for the message of an item. -/
  generateMessageClientId : Action → LlmCallItem → String

/-- A transaction on the tables of the repository. -/
def inStore {α : Type} (x : InTransaction α) : InState α := fun s =>
  (x.run s.store).map fun r => (r.1, { s with store := r.2 })

/-- `message_client_id_idx`. -/
def insertMessage (message : StoredMessage) : InState StoredMessage := do
  let s ← get
  check (!s.messages.any (·.clientId = message.clientId)) .database
  modify fun s => { s with messages := s.messages ++ [message] }
  return message

def insertItem (item : LlmCallItem) : InState Unit := do
  let s ← get
  let ledger ← require (s.ledger.insertItem item) .database
  modify fun s => { s with ledger := ledger }

/-! ### The method -/

def toolCallOf (item : LlmCallItem) : Option ToolCall :=
  (canonicalBlockFromLedgerItem item).bind Block.asToolCall

def answered (items : List LlmCallItem) (id : Text) : Bool :=
  items.any fun value => value.direction = .input && value.toolCallId = some id

def waitingFor (pending : Action) : WaitingFor :=
  if pending.evidence.isBrowserHandoff then .browser
  else if pending.kind = automationProposalTool || pending.kind = bootstrapProposalTool then
    .automation
  else if pending.kind = appKeyRequestTool then .permission
  else .question

/-- The user has taken the browser over, without being asked. -/
def userTakeover (pending : Action) : Bool :=
  pending.evidence.isBrowserHandoff && pending.kind ≠ "browser_request_handoff"

section Method

variable (runtime : Runtime) (lease : Lease) (current : Entry) (pending : Action)

def insertResult (answer : Answer) (llmCallId : String) (item : LlmCallItem) (block : ToolCall)
    (sequence : ℕ) : InState StoredMessage := do
  let isQuestion := block.id = ofString pending.callId
  if ¬isQuestion then
    let s ← get
    check (!s.store.actions.any fun action =>
        action.invocationId = lease.id && ofString action.callId = block.id)
      (.invocation "continuation_action_ambiguous")
  let payload :=
    if isQuestion ∧ ¬userTakeover pending then answer.payload
    else deferredToolResult block (waitingFor pending)
      (asBool (get answer.payload "runtime_replaced") = some true)
  let content := runtime.stringify payload
  let message ← insertMessage
    { clientId :=
        if isQuestion then answer.clientId else runtime.generateMessageClientId pending item
      threadId := current.identity.threadId
      role := .tool
      displayRole := "Tool"
      content
      createdByUserId := current.identity.createdByUserId
      invocationId := lease.id
      llmCallId := some llmCallId
      callId := some block.id
      browserHandoffId := none }
  insertItem (toolResultItem llmCallId current.identity.threadId sequence block.id content payload
    (some message.clientId) (some current.identity.createdByUserId))
  return message

/-- The loop over the tool calls of an output. What has a result is looked up in the items as they
were before it. -/
def answerItems (answer : Answer) (llmCallId : String) (items : List LlmCallItem) :
    List LlmCallItem → ℕ → InState (List StoredMessage)
  | [], _ => return []
  | item :: output, sequence => do
    let block ← require (toolCallOf item) (.invocation "continuation_tool_invalid")
    if answered items block.id then
      answerItems answer llmCallId items output sequence
    else
      let message ← insertResult runtime lease current pending answer llmCallId item block sequence
      let messages ← answerItems answer llmCallId items output (sequence + 1)
      return message :: messages

def providerCalls (ledger : Ledger) : List (LlmCall × LlmCallItem) :=
  (ledger.calls.filter fun call =>
      call.threadId = current.identity.threadId && call.turnId = lease.id &&
        call.createdByUserId = some current.identity.createdByUserId).flatMap fun call =>
    (ledger.items.filter fun item =>
        item.llmCallId = call.llmCallId && item.toolCallId = some (ofString pending.callId) &&
          item.createdByUserId = some current.identity.createdByUserId &&
          item.direction = .output).map (call, ·)

def itemsOf (ledger : Ledger) (llmCallId : String) : List LlmCallItem :=
  (ledger.items.filter fun item =>
    item.llmCallId = llmCallId && item.threadId = current.identity.threadId &&
      item.createdByUserId = some current.identity.createdByUserId).insertionSort
    fun a b => a.sequence ≤ b.sequence

/-- `Math.max(-1, ...items.map(item => item.sequence)) + 1`. -/
def nextSequence (items : List LlmCallItem) : ℕ :=
  items.foldl (fun next item => max next (item.sequence + 1)) 0

def outputFrom (items : List LlmCallItem) (sequence : ℕ) : List LlmCallItem :=
  items.filter fun item =>
    item.direction = .output && item.kind = .toolUse && sequence ≤ item.sequence

/-- No tool of the model's was waiting for the browser. -/
def betweenCalls : Bool :=
  pending.evidence.isBrowserHandoff && pending.kind = "browser_user_handoff"

def complete : InState Unit :=
  inStore (setActions
    (fun action => action.invocationId = lease.id && action.callId = pending.callId)
    (fun action => { action with status := .completed }))

def handoffId : Evidence → Option String
  | .browserHandoff ref => some ref
  | _ => none

/-- One round of the loop over the actions. -/
def continueAction : InState (List StoredMessage) := do
  let s ← get
  (s.store.unanswered lease.id current.identity pending).forM throw
  let answer ← (runtime.answer s.store current pending : Except Failure Answer)
  if betweenCalls pending then
    let message ← insertMessage
      { clientId := answer.clientId
        threadId := current.identity.threadId
        role := .system
        displayRole := "Browser"
        content := (asString (get answer.payload "summary")).getD []
        createdByUserId := current.identity.createdByUserId
        invocationId := lease.id
        llmCallId := none
        callId := none
        browserHandoffId := handoffId pending.evidence }
    complete lease pending
    return [message]
  else
    match providerCalls lease current pending s.ledger with
    | [(call, parked)] =>
      let items := itemsOf current s.ledger call.llmCallId
      let messages ← answerItems runtime lease current pending answer call.llmCallId items
        (outputFrom items parked.sequence) (nextSequence items)
      complete lease pending
      return messages
    | _ => throw (.invocation "question_provider_call_ambiguous")

def continueActions : List Action → InState (List StoredMessage)
  | [] => return []
  | pending :: waiting => do
    let messages ← continueAction runtime lease current pending
    let more ← continueActions waiting
    return messages ++ more

end Method

def prepareQuestionContinuation (runtime : Runtime) (lease : Lease) :
    InState (List StoredMessage) := do
  let current ← inStore (lockedLease lease [.running] false)
  let s ← get
  continueActions runtime lease current (s.store.waiting lease.id)

/-! ### What one tool call is given -/

variable {s : State} {item : LlmCallItem} {call : LlmCall} {llmCallId : String} {id : Text}
  {ledger ledger' : Ledger}

theorem post_inStore {α : Type} {x : InTransaction α} {Q : α → State → Prop} :
    Post (inStore x) s Q ↔ Post x s.store fun a store => Q a { s with store := store } := by
  constructor
  · intro h a store hx
    exact h a { s with store := store } (congrArg (Except.map _) hx)
  · intro h a t hrun
    change (x.run s.store).map _ = _ at hrun
    cases hx : x.run s.store with
    | error e =>
      rw [hx] at hrun
      cases hrun
    | ok r =>
      rw [hx] at hrun
      cases hrun
      exact h r.1 r.2 hx

theorem post_lift {σ ε α : Type} {x : Except ε α} {s : σ} {Q : α → σ → Prop} :
    Post (liftM x : Tx σ ε α) s Q ↔ ∀ a, x = .ok a → Q a s := by
  cases x with
  | error e =>
    refine ⟨fun _ a ha => ?_, fun _ => post_throw e⟩
    cases ha
  | ok a =>
    refine (post_pure a).trans ⟨fun h b hb => ?_, fun h => h a rfl⟩
    cases hb
    exact h

/-- Nothing has happened but that items were added. -/
structure Added (s t : State) (new : List LlmCallItem) : Prop where
  store : t.store = s.store
  calls : t.ledger.calls = s.ledger.calls
  items : t.ledger.items = s.ledger.items ++ new

theorem Added.trans {t u : State} {new more : List LlmCallItem} (h : Added s t new)
    (h' : Added t u more) : Added s u (new ++ more) where
  store := h'.store.trans h.store
  calls := h'.calls.trans h.calls
  items := by rw [h'.items, h.items, append_assoc]

/-- The item is the result for a tool call. -/
structure IsResult (current : Entry) (llmCallId : String) (id : Text) (sequence : ℕ)
    (item : LlmCallItem) : Prop where
  llmCallId : item.llmCallId = llmCallId
  threadId : item.threadId = current.identity.threadId
  owner : item.createdByUserId = some current.identity.createdByUserId
  direction : item.direction = .input
  kind : item.kind = .toolResult
  sequence : item.sequence = sequence
  toolCallId : item.toolCallId = some id

section Loop

variable {runtime : Runtime} {lease : Lease} {current : Entry} {pending : Action} {answer : Answer}
  {llmCallId : String} {items output : List LlmCallItem} {sequence : ℕ} {s t : State}

theorem post_insertMessage {message : StoredMessage} :
    Post (insertMessage message) s fun _ t => Added s t [] := by
  simp only [insertMessage, post_bind, post_get, post_check, post_modify, post_pure]
  exact fun _ => ⟨rfl, rfl, (append_nil _).symm⟩

theorem post_insertItem : Post (insertItem item) s fun _ t => Added s t [item] := by
  simp only [insertItem, post_bind, post_get, post_require, post_modify]
  intro ledger hinsert
  obtain ⟨hcalls, hitems⟩ := insertItem_eq_some hinsert
  exact ⟨rfl, hcalls, hitems⟩

theorem post_insertResult :
    Post (insertResult runtime lease current pending answer llmCallId item block sequence) s
      fun _ t => ∃ result, IsResult current llmCallId block.id sequence result ∧
        Added s t [result] := by
  have hinsert : ∀ (t : State) (payload : Fields) (content : Text) (message : StoredMessage),
      Added s t [] → Post (insertItem (toolResultItem llmCallId current.identity.threadId sequence
        block.id content payload (some message.clientId)
        (some current.identity.createdByUserId))) t fun _ u =>
          ∃ result, IsResult current llmCallId block.id sequence result ∧ Added s u [result] := by
    intro t payload content message hadded
    refine post_insertItem.mono fun _ u hitem => ⟨_, ?_, hadded.trans hitem⟩
    exact ⟨rfl, rfl, rfl, rfl, rfl, rfl, rfl⟩
  simp only [insertResult, post_bind, post_ite, post_get, post_check, post_pure]
  refine ⟨fun _ _ => ?_, fun _ => ?_⟩
  all_goals exact post_insertMessage.mono fun message t hadded => hinsert t _ _ message hadded

/-- The ids among the tool calls of an output that have no result. -/
def openIds (items output : List LlmCallItem) : List Text :=
  ((output.filterMap toolCallOf).map (·.id)).filter (!answered items ·)

/-- The items are the results for tool calls by these ids, numbered on. -/
def ResultsFor (current : Entry) (llmCallId : String) (ids : List Text) (sequence : ℕ)
    (new : List LlmCallItem) : Prop :=
  List.Forall₂ (fun entry => IsResult current llmCallId entry.1 entry.2) (ids.zipIdx sequence) new

/-- **The loop over the tools.** Each tool call that has no result is given one, and they are
numbered on. -/
theorem post_answerItems :
    Post (answerItems runtime lease current pending answer llmCallId items output sequence) s
      fun _ t => (∀ item ∈ output, (toolCallOf item).isSome) ∧ ∃ new, Added s t new ∧
        ResultsFor current llmCallId (openIds items output) sequence new := by
  induction output generalizing s sequence with
  | nil =>
    refine (post_pure _).mpr ⟨by simp, [], ⟨rfl, rfl, (append_nil _).symm⟩, ?_⟩
    exact Forall₂.nil
  | cons item output ih =>
    rw [answerItems, post_bind, post_require]
    intro block hblock
    have hall : (∀ item ∈ output, (toolCallOf item).isSome) →
        ∀ other ∈ item :: output, (toolCallOf other).isSome := by
      intro h other hother
      rcases mem_cons.mp hother with rfl | hother
      · exact Option.isSome_iff_exists.mpr ⟨block, hblock⟩
      · exact h other hother
    have hids : openIds items (item :: output) =
        if answered items block.id then openIds items output
        else block.id :: openIds items output := by
      cases hanswered : answered items block.id with
      | false | true => simp [openIds, hblock, hanswered]
    rw [hids, post_ite]
    constructor
    · intro hanswered
      rw [if_pos hanswered]
      exact ih.mono fun _ t h => ⟨hall h.1, h.2⟩
    · intro hopen
      rw [if_neg hopen, post_bind]
      refine post_insertResult.mono fun _ t ⟨result, hresult, hadded⟩ => ?_
      rw [post_bind]
      refine ih.mono fun _ u ⟨hsome, new, hnew, hresults⟩ => (post_pure _).mpr ?_
      exact ⟨hall hsome, result :: new, hadded.trans hnew, Forall₂.cons hresult hresults⟩

end Loop

/-! ### Results, counted -/

def isResultOf (llmCallId : String) (id : Text) (item : LlmCallItem) : Bool :=
  item.llmCallId = llmCallId && item.direction = .input && item.kind = .toolResult &&
    item.toolCallId = some id

def resultCount (ledger : Ledger) (llmCallId : String) (id : Text) : ℕ :=
  ledger.items.countP (isResultOf llmCallId id)

def isUseOf (llmCallId : String) (id : Text) (item : LlmCallItem) : Bool :=
  item.llmCallId = llmCallId && item.direction = .output && item.kind = .toolUse &&
    (toolCallOf item).any (·.id = id)

/-- How many tool calls of the model call have this id. -/
def useCount (ledger : Ledger) (llmCallId : String) (id : Text) : ℕ :=
  ledger.items.countP (isUseOf llmCallId id)

section Count

variable {current : Entry} {llmCallId : String} {id : Text} {ids : List Text} {sequence : ℕ}
  {items output new : List LlmCallItem} {ledger : Ledger}

theorem isResultOf_of_isResult (h : IsResult current llmCallId id sequence item) :
    isResultOf llmCallId' id' item = decide (llmCallId = llmCallId' ∧ id = id') := by
  simp [isResultOf, h.llmCallId, h.direction, h.kind, h.toolCallId]

theorem countP_results (h : ResultsFor current llmCallId ids sequence new) :
    new.countP (isResultOf llmCallId' id) = if llmCallId = llmCallId' then ids.count id else 0 := by
  induction ids generalizing sequence new with
  | nil =>
    cases h
    simp
  | cons first ids ih =>
    rw [ResultsFor, zipIdx_cons] at h
    obtain _ | ⟨hresult, h⟩ := h
    rw [countP_cons, ih h, isResultOf_of_isResult hresult, count_cons]
    by_cases hcall : llmCallId = llmCallId'
    all_goals simp [hcall]

theorem pairwise_results (h : ResultsFor current llmCallId ids sequence new) :
    (∀ item ∈ new, ∃ id n, sequence ≤ n ∧ IsResult current llmCallId id n item) ∧
      new.Pairwise (·.sequence < ·.sequence) := by
  induction ids generalizing sequence new with
  | nil =>
    cases h
    simp
  | cons first ids ih =>
    rw [ResultsFor, zipIdx_cons] at h
    obtain _ | ⟨hresult, h⟩ := h
    obtain ⟨hall, hpairwise⟩ := ih h
    constructor
    · intro item hitem
      rcases mem_cons.mp hitem with rfl | hitem
      · exact ⟨first, sequence, Nat.le_refl _, hresult⟩
      · obtain ⟨id, n, hn, hitem⟩ := hall item hitem
        exact ⟨id, n, Nat.le_of_succ_le hn, hitem⟩
    · refine pairwise_cons.mpr ⟨fun item hitem => ?_, hpairwise⟩
      obtain ⟨id, n, hn, hitem⟩ := hall item hitem
      rw [hresult.sequence, hitem.sequence]
      exact hn

theorem lt_nextSequence (h : item ∈ items) : item.sequence < nextSequence items := by
  have hfold : ∀ (items : List LlmCallItem) (n : ℕ),
      n ≤ items.foldl (fun next item => max next (item.sequence + 1)) n ∧
      ∀ item ∈ items, item.sequence <
        items.foldl (fun next item => max next (item.sequence + 1)) n := by
    intro items
    induction items with
    | nil => simp
    | cons first items ih =>
      intro n
      obtain ⟨hle, hlt⟩ := ih (max n (first.sequence + 1))
      rw [foldl_cons]
      refine ⟨(Nat.le_max_left _ _).trans hle, fun item hitem => ?_⟩
      rcases mem_cons.mp hitem with rfl | hitem
      · exact (Nat.le_max_right n _).trans hle
      · exact hlt item hitem
  exact (hfold items 0).2 item h

/-- The model call is one of the invocation's. -/
structure OwnCall (current : Entry) (ledger : Ledger) (call : LlmCall) : Prop where
  mem : call ∈ ledger.calls
  threadId : call.threadId = current.identity.threadId
  owner : call.createdByUserId = some current.identity.createdByUserId

theorem mem_itemsOf (hcoherent : Coherent ledger) (hcall : OwnCall current ledger call) :
    item ∈ itemsOf current ledger call.llmCallId ↔
      item ∈ ledger.items ∧ item.llmCallId = call.llmCallId := by
  rw [itemsOf, mem_insertionSort, mem_filter]
  refine and_congr_right fun hitem => ?_
  constructor
  · intro h
    simp only [Bool.and_eq_true, decide_eq_true_eq] at h
    exact h.1.1
  · intro h
    obtain ⟨hthread, howner⟩ := hcoherent.own call hcall.mem item hitem h
    simp [h, hthread, howner, hcall.threadId, hcall.owner]

theorem answered_iff (hcoherent : Coherent ledger) (hcall : OwnCall current ledger call) :
    answered (itemsOf current ledger call.llmCallId) id = true ↔
      0 < resultCount ledger call.llmCallId id := by
  simp only [answered, any_eq_true, resultCount, countP_pos_iff,
    mem_itemsOf hcoherent hcall, and_assoc]
  refine exists_congr fun item => and_congr_right fun hitem => ?_
  simp only [isResultOf, Bool.and_eq_true, decide_eq_true_eq]
  constructor
  · rintro ⟨hid, hdirection, htool⟩
    exact ⟨⟨⟨hid, hdirection⟩, hcoherent.results item hitem hdirection⟩, htool⟩
  · rintro ⟨⟨⟨hid, hdirection⟩, _⟩, htool⟩
    exact ⟨hid, hdirection, htool⟩

theorem count_openIds_le :
    (openIds items output).count id ≤
      output.countP fun item => (toolCallOf item).any (·.id = id) := by
  refine (filter_sublist.count_le id).trans (le_of_eq ?_)
  rw [count_eq_countP, countP_map, countP_filterMap]
  refine countP_congr fun item _ => ?_
  cases toolCallOf item with
  | none | some block => simp

theorem count_openIds_le_useCount :
    (openIds items (outputFrom (itemsOf current ledger llmCallId) sequence)).count id ≤
      useCount ledger llmCallId id := by
  refine count_openIds_le.trans ?_
  rw [outputFrom, countP_filter, itemsOf, (perm_insertionSort _ _).countP_eq,
    countP_filter, useCount]
  refine countP_mono_left fun item _ h => ?_
  simp only [Bool.and_eq_true, decide_eq_true_eq] at h
  simp only [isUseOf, Bool.and_eq_true, decide_eq_true_eq]
  exact ⟨⟨⟨h.2.1.1, h.1.2.1.1⟩, h.1.2.1.2⟩, h.1.1⟩

end Count

/-! ### Steps -/

/-- Items that are added to a ledger: results in calls of the invocation's, behind everything that
is there, and numbered on. -/
structure NewResults (current : Entry) (ledger : Ledger) (new : List LlmCallItem) : Prop where
  results : ∀ item ∈ new, item.direction = .input ∧ item.kind = .toolResult
  own : ∀ item ∈ new, item.threadId = current.identity.threadId ∧
    item.createdByUserId = some current.identity.createdByUserId ∧
    ∃ call, OwnCall current ledger call ∧ call.llmCallId = item.llmCallId
  later : ∀ item ∈ new, ∀ old ∈ ledger.items, old.llmCallId = item.llmCallId →
    old.sequence < item.sequence
  increasing : new.Pairwise fun a b => a.llmCallId = b.llmCallId → a.sequence < b.sequence

/-- **What the ledger comes to.** Results are added, and a tool call that had one keeps what it had.
A tool call that had none has at most as many as there are calls with its id. -/
structure Settled (current : Entry) (ledger ledger' : Ledger) : Prop where
  calls : ledger'.calls = ledger.calls
  items : ∃ new, ledger'.items = ledger.items ++ new ∧ NewResults current ledger new
  kept : ∀ llmCallId id, resultCount ledger llmCallId id ≠ 0 →
    resultCount ledger' llmCallId id = resultCount ledger llmCallId id
  bounded : ∀ llmCallId id, resultCount ledger llmCallId id = 0 →
    resultCount ledger' llmCallId id ≤ useCount ledger llmCallId id

section Settled

variable {current : Entry} {ledger ledger' ledger'' : Ledger} {new : List LlmCallItem}

theorem Settled.refl : Settled current ledger ledger where
  calls := rfl
  items := ⟨[], (append_nil _).symm, by constructor <;> simp⟩
  kept _ _ _ := rfl
  bounded _ _ h := by rw [h]; exact Nat.zero_le _

theorem NewResults.useCount (h : NewResults current ledger new)
    (hitems : ledger'.items = ledger.items ++ new) (llmCallId : String) (id : Text) :
    useCount ledger' llmCallId id = useCount ledger llmCallId id := by
  have hnew : new.countP (isUseOf llmCallId id) = 0 := by
    refine countP_eq_zero.mpr fun item hitem huse => ?_
    simp [isUseOf, (h.results item hitem).1] at huse
  rw [QuestionContinuation.useCount, hitems, countP_append, hnew]
  rfl

theorem Settled.trans (h : Settled current ledger ledger')
    (h' : Settled current ledger' ledger'') : Settled current ledger ledger'' := by
  obtain ⟨new, hnew, hresults⟩ := h.items
  obtain ⟨more, hmore, hresults'⟩ := h'.items
  refine ⟨h'.calls.trans h.calls, ⟨new ++ more, ?_, ?_⟩, ?_, ?_⟩
  · rw [hmore, hnew, append_assoc]
  · constructor
    · intro item hitem
      rcases mem_append.mp hitem with hitem | hitem
      · exact hresults.results item hitem
      · exact hresults'.results item hitem
    · intro item hitem
      rcases mem_append.mp hitem with hitem | hitem
      · exact hresults.own item hitem
      · obtain ⟨hthread, howner, call, hcall, hid⟩ := hresults'.own item hitem
        exact ⟨hthread, howner, call, ⟨h.calls ▸ hcall.mem, hcall.threadId, hcall.owner⟩, hid⟩
    · intro item hitem old hold hid
      rcases mem_append.mp hitem with hitem | hitem
      · exact hresults.later item hitem old hold hid
      · exact hresults'.later item hitem old (hnew ▸ mem_append_left _ hold) hid
    · refine pairwise_append.mpr
        ⟨hresults.increasing, hresults'.increasing, fun a ha b hb hid => ?_⟩
      exact hresults'.later b hb a (hnew ▸ mem_append_right _ ha) hid
  · intro llmCallId id hcount
    have hkept := h.kept llmCallId id hcount
    rw [h'.kept llmCallId id (hkept ▸ hcount), hkept]
  · intro llmCallId id hcount
    by_cases hzero : resultCount ledger' llmCallId id = 0
    · rw [← hresults.useCount hnew]
      exact h'.bounded llmCallId id hzero
    · rw [h'.kept llmCallId id hzero]
      exact h.bounded llmCallId id hcount

theorem Settled.coherent (h : Settled current ledger ledger') (hcoherent : Coherent ledger) :
    Coherent ledger' := by
  obtain ⟨new, hnew, hresults⟩ := h.items
  refine ⟨fun call hcall item hitem hid => ?_, fun item hitem hinput => ?_⟩
  · rw [h.calls] at hcall
    rw [hnew] at hitem
    rcases mem_append.mp hitem with hitem | hitem
    · exact hcoherent.own call hcall item hitem hid
    · obtain ⟨hthread, howner, other, hother, hid'⟩ := hresults.own item hitem
      obtain rfl := ledger.eq_of_llmCallId hcall hother.mem (hid'.trans hid)
      exact ⟨hthread.trans hother.threadId.symm, howner.trans hother.owner.symm⟩
  · rw [hnew] at hitem
    rcases mem_append.mp hitem with hitem | hitem
    · exact hcoherent.results item hitem hinput
    · exact (hresults.results item hitem).2

theorem Settled.count_pos (h : Settled current ledger ledger')
    (hcount : 0 < resultCount ledger llmCallId id) : 0 < resultCount ledger' llmCallId id := by
  rw [h.kept llmCallId id (Nat.pos_iff_ne_zero.mp hcount)]
  exact hcount

theorem Settled.providerCalls (h : Settled current ledger ledger') (lease : Lease)
    (pending : Action) :
    providerCalls lease current pending ledger' = providerCalls lease current pending ledger := by
  obtain ⟨new, hnew, hresults⟩ := h.items
  rw [QuestionContinuation.providerCalls, h.calls, QuestionContinuation.providerCalls]
  refine flatMap_congr fun call _ => congrArg _ ?_
  rw [hnew, filter_append]
  refine (congrArg _ (filter_eq_nil_iff.mpr fun item hitem => ?_)).trans (append_nil _)
  simp [(hresults.results item hitem).1]

end Settled

/-- The tool calls of an output that have no result yet. -/
def dueIds (current : Entry) (ledger : Ledger) (llmCallId : String) (sequence : ℕ) : List Text :=
  openIds (itemsOf current ledger llmCallId)
    (outputFrom (itemsOf current ledger llmCallId) sequence)

section Step

variable {current : Entry} {ledger ledger' : Ledger} {new : List LlmCallItem} {call : LlmCall}
  {sequence next : ℕ}

/-- How many results a tool call has behind the loop. -/
theorem resultCount_of_results (hitems : ledger'.items = ledger.items ++ new)
    (hnew : ResultsFor current call.llmCallId (dueIds current ledger call.llmCallId sequence) next
      new) : resultCount ledger' llmCallId id = resultCount ledger llmCallId id +
      if call.llmCallId = llmCallId then
        (dueIds current ledger call.llmCallId sequence).count id
      else 0 := by
  rw [resultCount, hitems, countP_append, countP_results hnew]
  rfl

/-- **What the loop comes to.** -/
theorem settled_of_results (hcoherent : Coherent ledger) (hcall : OwnCall current ledger call)
    (hcalls : ledger'.calls = ledger.calls) (hitems : ledger'.items = ledger.items ++ new)
    (hnew : ResultsFor current call.llmCallId (dueIds current ledger call.llmCallId sequence)
      (nextSequence (itemsOf current ledger call.llmCallId)) new) :
    Settled current ledger ledger' := by
  obtain ⟨hall, hpairwise⟩ := pairwise_results hnew
  refine ⟨hcalls, ⟨new, hitems, ?_⟩, fun llmCallId id hcount => ?_, fun llmCallId id hcount => ?_⟩
  · constructor
    · intro item hitem
      obtain ⟨id, n, _, hresult⟩ := hall item hitem
      exact ⟨hresult.direction, hresult.kind⟩
    · intro item hitem
      obtain ⟨id, n, _, hresult⟩ := hall item hitem
      exact ⟨hresult.threadId, hresult.owner, call, hcall, hresult.llmCallId.symm⟩
    · intro item hitem old hold hid
      obtain ⟨id, n, hn, hresult⟩ := hall item hitem
      rw [hresult.sequence]
      have hseen := (mem_itemsOf hcoherent hcall).mpr ⟨hold, hid.trans hresult.llmCallId⟩
      exact Nat.lt_of_lt_of_le (lt_nextSequence hseen) hn
    · refine hpairwise.imp ?_
      intro a b hlt _
      exact hlt
  · rw [resultCount_of_results hitems hnew]
    split
    · next hid =>
      subst hid
      have hnot : id ∉ dueIds current ledger call.llmCallId sequence := by
        intro hmem
        have hanswered := (answered_iff hcoherent hcall).mpr (Nat.pos_iff_ne_zero.mpr hcount)
        have hopen := (mem_filter.mp hmem).2
        rw [hanswered] at hopen
        exact absurd hopen (by decide)
      rw [count_eq_zero.mpr hnot, Nat.add_zero]
    · exact Nat.add_zero _
  · rw [resultCount_of_results hitems hnew, hcount, Nat.zero_add]
    split
    · next hid =>
      subst hid
      exact count_openIds_le_useCount
    · exact Nat.zero_le _

/-- Every tool call of the output has a result behind the loop. -/
theorem count_pos_of_results (hcoherent : Coherent ledger) (hcall : OwnCall current ledger call)
    (hitems : ledger'.items = ledger.items ++ new)
    (hnew : ResultsFor current call.llmCallId (dueIds current ledger call.llmCallId sequence) next
      new) {block : ToolCall}
    (hitem : item ∈ outputFrom (itemsOf current ledger call.llmCallId) sequence)
    (hblock : toolCallOf item = some block) : 0 < resultCount ledger' call.llmCallId block.id := by
  rw [resultCount_of_results hitems hnew, if_pos rfl]
  by_cases hcount : resultCount ledger call.llmCallId block.id = 0
  · refine Nat.add_pos_right _ (count_pos_iff.mpr (mem_filter.mpr ⟨?_, ?_⟩))
    · exact mem_map.mpr ⟨block, mem_filterMap.mpr ⟨item, hitem, hblock⟩, rfl⟩
    · rw [Bool.not_eq_true', Bool.eq_false_iff]
      intro hanswered
      exact absurd ((answered_iff hcoherent hcall).mp hanswered)
        (Nat.not_lt.mpr (Nat.le_of_eq hcount))
  · exact Nat.add_pos_left (Nat.pos_iff_ne_zero.mpr hcount) _

end Step

/-! ### One action, and all of them -/

def completing (lease : Lease) (pending : Action) (actions : List Action) : List Action :=
  actions.map fun action =>
    if action.invocationId = lease.id && action.callId = pending.callId then
      { action with status := .completed }
    else action

/-- The tool calls from the one that was waiting on have their results. -/
def Answered (lease : Lease) (current : Entry) (ledger ledger' : Ledger) (pending : Action) :
    Prop :=
  betweenCalls pending = false → ∃ call parked,
    providerCalls lease current pending ledger = [(call, parked)] ∧
    ∀ item ∈ ledger.items, item.llmCallId = call.llmCallId → item.direction = .output →
      item.kind = .toolUse → parked.sequence ≤ item.sequence →
      ∃ block, toolCallOf item = some block ∧ 0 < resultCount ledger' call.llmCallId block.id

theorem Answered.later {lease : Lease} {current : Entry} {ledger'' : Ledger} {pending : Action}
    (h : Answered lease current ledger ledger' pending)
    (hlater : Settled current ledger' ledger'') :
    Answered lease current ledger ledger'' pending := by
  intro hcalls
  obtain ⟨call, parked, hparked, hitems⟩ := h hcalls
  refine ⟨call, parked, hparked, fun item hitem hid hdirection hkind hle => ?_⟩
  obtain ⟨block, hblock, hcount⟩ := hitems item hitem hid hdirection hkind hle
  exact ⟨block, hblock, hlater.count_pos hcount⟩

theorem Answered.earlier {lease : Lease} {current : Entry} {ledger'' : Ledger} {pending : Action}
    (hearlier : Settled current ledger ledger')
    (h : Answered lease current ledger' ledger'' pending) :
    Answered lease current ledger ledger'' pending := by
  intro hcalls
  obtain ⟨call, parked, hparked, hitems⟩ := h hcalls
  obtain ⟨new, hnew, _⟩ := hearlier.items
  refine ⟨call, parked, (hearlier.providerCalls lease pending).symm.trans hparked, ?_⟩
  exact fun item hitem => hitems item (hnew ▸ mem_append_left _ hitem)

/-- What one action comes to. -/
structure ActionContinued (lease : Lease) (current : Entry) (pending : Action) (s t : State) :
    Prop where
  unanswered : s.store.unanswered lease.id current.identity pending = none
  store : t.store = { s.store with actions := completing lease pending s.store.actions }
  settled : Settled current s.ledger t.ledger
  answered : Answered lease current s.ledger t.ledger pending

theorem mem_providerCalls {lease : Lease} {current : Entry} {pending : Action}
    {parked : LlmCallItem} (h : (call, parked) ∈ providerCalls lease current pending ledger) :
    OwnCall current ledger call := by
  obtain ⟨other, hother, hrow⟩ := mem_flatMap.mp h
  obtain ⟨_, _, heq⟩ := mem_map.mp hrow
  cases heq
  obtain ⟨hmem, hmatch⟩ := mem_filter.mp hother
  simp only [Bool.and_eq_true, decide_eq_true_eq] at hmatch
  exact ⟨hmem, hmatch.1.1, hmatch.2⟩

section Run

variable {runtime : Runtime} {lease : Lease} {current : Entry} {pending : Action} {s t : State}

theorem post_complete :
    Post (complete lease pending) s fun _ t =>
      t = { s with
        store := { s.store with actions := completing lease pending s.store.actions } } := by
  rw [complete, post_inStore, setActions, post_modify]
  rfl

/-- **One action.** -/
theorem post_continueAction (hcoherent : Coherent s.ledger) :
    Post (continueAction runtime lease current pending) s fun _ t =>
      ActionContinued lease current pending s t := by
  rw [continueAction, post_bind, post_get, post_bind, post_option_forM]
  refine ⟨fun hunanswered => ?_, fun _ _ => post_throw _⟩
  rw [post_bind, post_lift]
  intro answer _
  rw [post_ite]
  constructor
  · intro hbetween
    rw [post_bind]
    refine post_insertMessage.mono fun message t hadded => ?_
    rw [post_bind]
    refine post_complete.mono fun _ u hu => (post_pure _).mpr ?_
    subst hu
    have hledger : t.ledger.items = s.ledger.items := hadded.items.trans (append_nil _)
    refine ⟨hunanswered, by rw [hadded.store], ?_, fun h => ?_⟩
    swap
    · exact absurd (hbetween.symm.trans h) (by decide)
    refine ⟨hadded.calls, ⟨[], by rw [hadded.items], by constructor <;> simp⟩, ?_, ?_⟩
    · intro llmCallId id _
      rw [resultCount, resultCount, hledger]
    · intro llmCallId id hcount
      rw [resultCount, hledger, ← resultCount, hcount]
      exact Nat.zero_le _
  · intro _
    split
    · next call parked hparked =>
      have hcall := mem_providerCalls (hparked ▸ mem_singleton_self (call, parked))
      rw [post_bind]
      refine post_answerItems.mono fun messages t ⟨hsome, new, hadded, hnew⟩ => ?_
      rw [post_bind]
      refine post_complete.mono fun _ u hu => (post_pure _).mpr ?_
      subst hu
      refine ⟨hunanswered, by rw [hadded.store], ?_, fun _ => ⟨call, parked, hparked, ?_⟩⟩
      · exact settled_of_results hcoherent hcall hadded.calls hadded.items hnew
      · intro item hitem hid hdirection hkind hle
        have hseen := (mem_itemsOf hcoherent hcall).mpr ⟨hitem, hid⟩
        have houtput : item ∈ outputFrom (itemsOf current s.ledger call.llmCallId)
            parked.sequence := by
          rw [outputFrom, mem_filter]
          simp [hseen, hdirection, hkind, hle]
        obtain ⟨block, hblock⟩ := Option.isSome_iff_exists.mp (hsome item houtput)
        exact ⟨block, hblock, count_pos_of_results hcoherent hcall hadded.items hnew houtput hblock⟩
    · exact post_throw _

/-- What the loop over the actions comes to. -/
structure ActionsContinued (lease : Lease) (current : Entry) (waiting : List Action)
    (s t : State) : Prop where
  unanswered : ∀ pending ∈ waiting, s.store.unanswered lease.id current.identity pending = none
  store : t.store = { s.store with
    actions := waiting.foldl (fun actions pending => completing lease pending actions)
      s.store.actions }
  settled : Settled current s.ledger t.ledger
  answered : ∀ pending ∈ waiting, Answered lease current s.ledger t.ledger pending

theorem unanswered_of_tables {store store' : Store} (h : store'.tables = store.tables) {id : ℕ} :
    store'.unanswered id identity action = store.unanswered id identity action := by
  rw [Store.unanswered, h, Store.unanswered]

/-- **All actions**, one after the other. -/
theorem post_continueActions {waiting : List Action} (hcoherent : Coherent s.ledger) :
    Post (continueActions runtime lease current waiting) s fun _ t =>
      ActionsContinued lease current waiting s t := by
  induction waiting generalizing s with
  | nil => exact (post_pure _).mpr ⟨by simp, rfl, .refl, by simp⟩
  | cons pending waiting ih =>
    rw [continueActions, post_bind]
    refine (post_continueAction hcoherent).mono fun messages t hfirst => ?_
    rw [post_bind]
    refine (ih (hfirst.settled.coherent hcoherent)).mono fun more u hrest => (post_pure _).mpr ?_
    have htables : t.store.tables = s.store.tables := by rw [hfirst.store]
    refine ⟨fun other hother => ?_, ?_, hfirst.settled.trans hrest.settled, fun other hother => ?_⟩
    · rcases mem_cons.mp hother with rfl | hother
      · exact hfirst.unanswered
      · exact (unanswered_of_tables htables).symm.trans (hrest.unanswered other hother)
    · rw [hrest.store, hfirst.store]
      rfl
    · rcases mem_cons.mp hother with rfl | hother
      · exact hfirst.answered.later hrest.settled
      · exact (hrest.answered other hother).earlier hfirst.settled

theorem foldl_completing {waiting : List Action} :
    waiting.foldl (fun actions pending => completing lease pending actions) actions =
      actions.map fun action =>
        if action.invocationId = lease.id ∧ action.callId ∈ waiting.map (·.callId) then
          { action with status := .completed }
        else action := by
  induction waiting generalizing actions with
  | nil => simp
  | cons pending waiting ih =>
    rw [foldl_cons, ih, completing, map_map]
    refine map_congr_left fun action _ => ?_
    by_cases hid : action.invocationId = lease.id
    · by_cases hcall : action.callId = pending.callId
      all_goals simp [hid, hcall]
    · simp [hid]

theorem ActionsContinued.waiting
    (h : ActionsContinued lease current (s.store.waiting lease.id) s t) :
    t.store.waiting lease.id = [] := by
  rw [h.store, foldl_completing]
  refine filter_eq_nil_iff.mpr fun action haction hwaiting => ?_
  obtain ⟨before, hbefore, rfl⟩ := mem_map.mp haction
  simp only [Bool.and_eq_true, decide_eq_true_eq] at hwaiting
  split at hwaiting
  · exact absurd hwaiting.2 (by simp)
  · next hother =>
    refine hother ⟨hwaiting.1, mem_map.mpr ⟨before, ?_, rfl⟩⟩
    exact mem_filter.mpr ⟨hbefore, by simpa using hwaiting⟩

end Run

/-! ### The method -/

/-- What becomes of the results of a tool call: one that had some keeps them, and one that had none
has at least one, and at most as many as there are calls with its id. -/
def Resolved (ledger ledger' : Ledger) (llmCallId : String) (id : Text) : Prop :=
  if resultCount ledger llmCallId id = 0 then
    1 ≤ resultCount ledger' llmCallId id ∧
      resultCount ledger' llmCallId id ≤ useCount ledger llmCallId id
  else resultCount ledger' llmCallId id = resultCount ledger llmCallId id

/-- An id that has a result in the end was answered here, or keeps what it had. -/
theorem Settled.resolved {current : Entry} (h : Settled current ledger ledger')
    (hcount : 0 < resultCount ledger' llmCallId id) : Resolved ledger ledger' llmCallId id := by
  unfold Resolved
  split
  · next hzero => exact ⟨hcount, h.bounded llmCallId id hzero⟩
  · next hne => exact h.kept llmCallId id hne

/-- **What the method leaves behind** when it commits. -/
structure Continued (lease : Lease) (s t : State) : Prop where
  completed : t.store.waiting lease.id = [] ∧ ∀ pending ∈ s.store.waiting lease.id,
    { pending with status := .completed } ∈ t.store.actions
  answered : ∀ pending ∈ s.store.waiting lease.id, betweenCalls pending = false →
    ∃ current call parked, s.store.invocations[lease.id]? = some current ∧
      providerCalls lease current pending s.ledger = [(call, parked)] ∧
      ∀ item ∈ s.ledger.items, item.llmCallId = call.llmCallId → item.direction = .output →
        item.kind = .toolUse → parked.sequence ≤ item.sequence →
        ∃ block, toolCallOf item = some block ∧
          Resolved s.ledger t.ledger call.llmCallId block.id
  sequences : ∃ new, t.ledger.items = s.ledger.items ++ new ∧
    (∀ item ∈ new, item.direction = .input ∧ item.kind = .toolResult ∧
      ∀ old ∈ s.ledger.items, old.llmCallId = item.llmCallId → old.sequence < item.sequence) ∧
    new.Pairwise fun a b => a.llmCallId = b.llmCallId → a.sequence < b.sequence
  again : ∀ (runtime : Runtime) (now : ℕ),
    after (prepareQuestionContinuation runtime lease) { t with store := { t.store with now } } =
      { t with store := { t.store with now } }

theorem after_of_waiting_eq_nil {runtime : Runtime} {lease : Lease}
    (h : s.store.waiting lease.id = []) :
    after (prepareQuestionContinuation runtime lease) s = s := by
  refine after_of_post (R := (· = s)) rfl ?_
  rw [prepareQuestionContinuation, post_bind, post_inStore, post_lockedLease]
  intro current _ _ _ _ _
  rw [post_bind, post_get, h]
  exact (post_pure _).mpr rfl

/-- **The method**, for every invocation and every ledger: when it commits, what waited has been
settled, and when it throws, nothing has happened. -/
theorem question_continuation {runtime : Runtime} {lease : Lease} {s : State}
    (hcoherent : Coherent s.ledger) :
    Post (prepareQuestionContinuation runtime lease) s (fun _ t => Continued lease s t) ∧
      (Throws (prepareQuestionContinuation runtime lease) s →
        after (prepareQuestionContinuation runtime lease) s = s) := by
  refine ⟨?_, after_of_throws⟩
  rw [prepareQuestionContinuation, post_bind, post_inStore, post_lockedLease]
  intro current hcurrent _ _ _ _
  rw [post_bind, post_get]
  refine (post_continueActions hcoherent).mono fun messages t h => ?_
  refine ⟨⟨h.waiting, fun pending hpending => ?_⟩, fun pending hpending hbetween => ?_,
    ?_, fun runtime' now => after_of_waiting_eq_nil h.waiting⟩
  · rw [h.store, foldl_completing]
    obtain ⟨haction, hwaiting⟩ := mem_filter.mp hpending
    simp only [Bool.and_eq_true, decide_eq_true_eq] at hwaiting
    refine mem_map.mpr ⟨pending, haction, if_pos ⟨hwaiting.1, ?_⟩⟩
    exact mem_map.mpr ⟨pending, hpending, rfl⟩
  · obtain ⟨call, parked, hparked, hitems⟩ := h.answered pending hpending hbetween
    refine ⟨current, call, parked, hcurrent, hparked, fun item hitem hid hdirection hkind hle => ?_⟩
    obtain ⟨block, hblock, hcount⟩ := hitems item hitem hid hdirection hkind hle
    exact ⟨block, hblock, h.settled.resolved hcount⟩
  · obtain ⟨new, hnew, hresults⟩ := h.settled.items
    refine ⟨new, hnew, fun item hitem => ?_, hresults.increasing⟩
    obtain ⟨hdirection, hkind⟩ := hresults.results item hitem
    exact ⟨hdirection, hkind, hresults.later item hitem⟩

/-- The loop of `Repository`, where nothing is missing. -/
theorem run_forM_waiting {lease : Lease} {current : Entry} {store : Store} {waiting : List Action}
    (h : ∀ pending ∈ waiting, store.unanswered lease.id current.identity pending = none) :
    (waiting.forM fun pending => do
      (store.unanswered lease.id current.identity pending).forM throw
      (none : Option Failure).forM throw
      setActions (fun action => action.invocationId = lease.id && action.callId = pending.callId)
        (fun action => { action with status := .completed }) : InTransaction Unit).run store' =
      .ok ((), { store' with
        actions := waiting.foldl (fun actions pending => completing lease pending actions)
          store'.actions }) := by
  induction waiting generalizing store' with
  | nil => rfl
  | cons pending waiting ih =>
    have hrest := fun other hother => h other (mem_cons_of_mem _ hother)
    rw [List.forM, h pending mem_cons_self]
    exact ih hrest

/-- **In the tables of the repository** it does what the method there does. -/
theorem prepare_refines {runtime : Runtime} {lease : Lease} (hcoherent : Coherent s.ledger) :
    Post (prepareQuestionContinuation runtime lease) s fun _ t =>
      (Repository.prepareQuestionContinuation lease fun _ => none).run s.store =
        .ok ((), t.store) := by
  rw [prepareQuestionContinuation, post_bind, post_inStore]
  intro current store hlocked
  obtain rfl : store = s.store :=
    (post_lockedLease (Q := fun _ u => u = s.store)).mpr (fun _ _ _ _ _ _ => rfl) _ _ hlocked
  rw [post_bind, post_get]
  refine (post_continueActions hcoherent).mono fun messages t h => ?_
  rw [Repository.prepareQuestionContinuation, StateT.run_bind, hlocked, h.store]
  exact run_forM_waiting h.unanswered

/-! ### An example -/

def exampleLease : Lease := ⟨0, 1, some "w", "u"⟩

/-- An invocation that goes on after a question has been answered. -/
def exampleStore : Store where
  now := 0
  invocations :=
    [{ admission := ⟨"u", "t", .human, "k", none, "hi", "m", "low", none⟩
       identity := ⟨"t", "b", .human, "u", none⟩
       row :=
         { Row.new 0 with
           status := .running
           fence := 1
           workerId := some "w"
           leaseExpiresAt := some 10 } }]
  actions :=
    [{ invocationId := 0
       callId := "q"
       kind := "ask_user_questions"
       status := .waitingForUser
       fence := 1
       evidence := .question "r"
       createdByUserId := "u" }]
  tables :=
    { Outside.empty with
      threads := [⟨"t", "b", "u", false⟩]
      buds := [⟨"b", "u"⟩]
      questions := [⟨"r", "t", 0, "q", "u", .answered⟩] }

def exampleCall (ids : List String) : RecordLlmCallArgs where
  llmCallId := "c"
  threadId := "t"
  turnId := 0
  provider := .openai
  model := "m"
  requestMode := .openaiResponses
  output := ids.map fun id => .toolUse (lit id) (lit "terminal_wait") []
  ownerUserId := some "u"
  assistantMessageId := none

def exampleState (ids : List String) : State where
  store := exampleStore
  ledger := (recordLlmCall .empty 0 (exampleCall ids)).getD .empty
  messages := []

def exampleRuntime : Runtime where
  answer := fun _ _ _ => .ok ⟨[("ok", .bool true)], "answer"⟩
  stringify := fun _ => []
  generateMessageClientId := fun _ item => String.ofList (List.replicate item.sequence 'x')

theorem coherent_exampleState (ids : List String) : Coherent (exampleState ids).ledger := by
  unfold exampleState
  cases hrecord : recordLlmCall .empty 0 (exampleCall ids) with
  | none => exact coherent_empty
  | some ledger => exact coherent_empty.recordLlmCall hrecord

theorem question_continuation_three : ∃ messages t,
    (prepareQuestionContinuation exampleRuntime exampleLease).run (exampleState ["a", "q", "b"]) =
        .ok (messages, t) ∧
      Continued exampleLease (exampleState ["a", "q", "b"]) t := by
  have hcommits : ((prepareQuestionContinuation exampleRuntime exampleLease).run
      (exampleState ["a", "q", "b"])).isOk = true := by decide +kernel
  cases hrun : (prepareQuestionContinuation exampleRuntime exampleLease).run
      (exampleState ["a", "q", "b"]) with
  | error e =>
    rw [hrun] at hcommits
    cases hcommits
  | ok r =>
    exact ⟨r.1, r.2, rfl,
      (question_continuation (coherent_exampleState ["a", "q", "b"])).1 r.1 r.2 hrun⟩

theorem prepare_refines_three :
    Post (prepareQuestionContinuation exampleRuntime exampleLease) (exampleState ["a", "q", "b"])
      fun _ t => (Repository.prepareQuestionContinuation exampleLease fun _ => none).run
        exampleStore = .ok ((), t.store) :=
  prepare_refines (coherent_exampleState ["a", "q", "b"])

/-- Two calls by one id, behind the question, are both given a result. -/
theorem repeated_id_answered_twice :
    resultCount (exampleState ["q", "d", "d"]).ledger "c" (lit "d") = 0 ∧
      (after (prepareQuestionContinuation exampleRuntime exampleLease)
        (exampleState ["q", "d", "d"])).store.waiting 0 = [] ∧
      resultCount (after (prepareQuestionContinuation exampleRuntime exampleLease)
        (exampleState ["q", "d", "d"])).ledger "c" (lit "d") = 2 := by
  decide +kernel

end Bud.QuestionContinuation
