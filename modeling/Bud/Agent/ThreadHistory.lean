import Bud.Agent.Conversation

/-!
# The history of a thread

What the agent, and what is done after a crash of the service, write to the two stores that a
conversation is loaded from.

A step of a turn (`agent-service.ts`) records a model's answer in the ledger, and then makes the
tool calls in it one by one: each gets a tool row (`transcript-writer.ts`) and after it a result
item in the ledger. The row has the call of the model that it belongs to, as `llm_call_id` in its
metadata. A step of a durable turn can be parked until the user has done something; the rest of its
calls are then answered when it is continued (`invocation-repository.ts`).

A service that starts looks for tool calls without a result item and writes a row and an item for
each (`restart-repair.ts`), except for durable turns and for questions. The question of a turn that
is gone is answered when the user writes something else
(`supersedePendingUserQuestionsForFollowUp`). These two rows have no `llm_call_id`.

## Modelling notes

One thread, and one step at a time in it. A crash is `restart` at any point, also during the repair;
all that is not in the database is lost then. A continuation writes all its rows in a transaction,
here one after the other. Its payloads, as those of the tools, are any that have the id of the call,
which every executor gives them. A tool call that no directive is made of is skipped. Rows of other
roles are written at any time.
-/

namespace Bud.Conversation

open Wire (Json Fields get set asString)

/-- An item of direction `input` and kind `tool_result`. -/
structure ResultItem where
  llmCallId : String
  sequence : ℕ
  toolCallId : String

/-- A step that makes the tool calls of an answer. -/
structure Turn where
  llmCallId : String
  turnId : String
  calls : List ToolUse
  /-- `toolResultBlocks.length`. -/
  results : ℕ
  /-- The first has its row and not yet its item. -/
  recorded : Bool
  /-- The step waits for the user. -/
  parked : Bool

structure DanglingToolCall where
  llmCallId : String
  turnId : String
  toolCallId : String
  name : String
  input : Fields

/-- The loop of `repairDanglingToolCalls`. -/
structure Repair where
  calls : List DanglingToolCall
  /-- The first has its row and not yet its item. -/
  recorded : Bool
  /-- `inputSequenceByCall`: the calls of models that a number was taken for. -/
  sequences : List String

/-- A pending `agent_question_request`. -/
structure Question where
  turnId : String
  callId : String
  deriving DecidableEq

structure State where
  calls : List LlmCall
  items : List ResultItem
  rows : List Row
  turn : Option Turn
  repair : Option Repair
  questions : List Question

def init : State := ⟨[], [], [], none, none, []⟩

/-! ### The repair -/

def ASK_USER_QUESTIONS_TOOL : String := "ask_user_questions"

def productToolName : String → String
  | "terminal_run" => "terminal.run"
  | "terminal_send" => "terminal.send"
  | "terminal_observe" => "terminal.observe"
  | "terminal_wait" => "terminal.wait"
  | "web_view_open" => "web_view.open"
  | "web_view_close" => "web_view.close"
  | "web_view_list" => "web_view.list"
  | name => name

def payloadKind : String → Option String
  | "terminal.run" => some "command"
  | "terminal.send" => some "interaction_ack"
  | "terminal.observe" => some "observation"
  | "terminal.wait" => some "wait"
  | "web_view.open" => some "web_view"
  | "web_view.close" => some "web_view"
  | "web_view.list" => some "web_view"
  | _ => none

def GENERIC_NOTE : String :=
  "The service restarted before this tool call finished, so no result was recorded. " ++
  "The action may have executed. Inspect available state and evidence before taking further " ++
  "action; do not assume repeating it is safe."

def TERMINAL_NOTE : String :=
  "The service restarted before this tool call finished, so no result was recorded. " ++
  "The terminal and any program in it kept running on the Bud — nothing was interrupted " ++
  "there, and a running command may have finished meanwhile. Check the current state with " ++
  "terminal.observe, keep waiting with terminal.wait, or re-run the command if it never started."

def object (fields : Fields) : Fields :=
  fields.foldl (fun fields field => set fields field.1 field.2) []

/-- The payload of the result that is made up for a call. -/
def buildDanglingToolCallRepair (call : DanglingToolCall) : Fields :=
  let tool := productToolName (if call.name = "" then "unknown_tool" else call.name)
  let summary :=
    if tool = "terminal.wait" then
      "Terminal wait was interrupted by a service restart; the terminal kept running"
    else
      "Tool call " ++ tool ++ " was interrupted by a service restart before a result was recorded"
  let isTerminal := "terminal.".toList.isPrefixOf tool.toList
  object ([("tool", .string tool), ("call_id", .string call.toolCallId)] ++ call.input ++
    [("summary", .string summary)] ++ field "kind" ((payloadKind tool).map .string) ++
    (if tool = "terminal.wait" then [("outcome", .string "interrupted")] else []) ++
    [("error", .string "server_restarted"), ("ok", .bool false),
      ("code", .string "SERVER_RESTARTED"), ("retryable", .bool false),
      ("note", .string (if isTerminal then TERMINAL_NOTE else GENERIC_NOTE)),
      ("server_restart_repair", .bool true)])

def findDanglingToolCalls (s : State) : List DanglingToolCall :=
  let calls := (s.calls.filter fun call => !call.durable).insertionSort fun a b =>
    a.createdAt ≤ b.createdAt
  calls.flatMap fun call =>
    (call.toolUses.filter fun use => use.name ≠ ASK_USER_QUESTIONS_TOOL && use.id ≠ "" &&
      !s.items.any fun item => item.toolCallId = use.id).map fun use =>
        { llmCallId := call.llmCallId, turnId := call.turnId, toolCallId := use.id,
          name := use.name, input := use.input }

/-! ### Rows and items -/

def toolMessage (messageId createdAt : ℕ) (payload metadata : Fields) : Row where
  messageId := messageId
  createdAt := createdAt
  isInput := false
  modelContextAt := none
  role := .tool
  content := .json payload
  metadata := metadata

/-- The step that begins with a call of a model. -/
def LlmCall.turn (call : LlmCall) : Turn where
  llmCallId := call.llmCallId
  turnId := call.turnId
  calls := call.toolUses
  results := 0
  recorded := false
  parked := false

/-- The row that a step writes, or its continuation. -/
def Turn.row (turn : Turn) (messageId createdAt : ℕ) (payload : Fields) : Row :=
  toolMessage messageId createdAt payload
    (set (set payload "turn_id" (.string turn.turnId)) "llm_call_id" (.string turn.llmCallId))

/-- The row for a question that nothing waits for any more. -/
def Question.row (question : Question) (messageId createdAt : ℕ) (payload : Fields) : Row :=
  toolMessage messageId createdAt payload (set payload "turn_id" (.string question.turnId))

def DanglingToolCall.row (call : DanglingToolCall) (messageId createdAt : ℕ) : Row :=
  let payload := buildDanglingToolCallRepair call
  toolMessage messageId createdAt payload (set payload "turn_id" (.string call.turnId))

/-- The repair goes on with the rest, after a number was taken for some calls. -/
def Repair.next (repair : Repair) (rest : List DanglingToolCall) (taken : List String) : Repair :=
  ⟨rest, false, repair.sequences ++ taken⟩

/-- The calls of a step that no row has been written for. -/
def Turn.owed (turn : Turn) : List ToolUse :=
  if turn.recorded then turn.calls.tail else turn.calls

def State.insertRow (s : State) (row : Row) : Option State :=
  if s.rows.any fun other => other.messageId = row.messageId then none
  else some { s with rows := s.rows ++ [row] }

/-- `recordLlmToolResultItem`: a call has each number once. -/
def State.insertItem (s : State) (item : ResultItem) : Option State :=
  if s.items.any fun other =>
      other.llmCallId = item.llmCallId && other.sequence = item.sequence then none
  else some { s with items := s.items ++ [item] }

def State.outputLength (s : State) (llmCallId : String) : ℕ :=
  ((s.calls.find? fun call => call.llmCallId = llmCallId).map fun call => call.output.length).getD 0

def State.nextSequence (s : State) (llmCallId : String) : ℕ :=
  ((s.items.filter fun item => item.llmCallId = llmCallId).map fun item => item.sequence + 1).foldl
    max (s.outputLength llmCallId)

/-! ### Steps -/

inductive Act where
  | message (row : Row)
  /-- `recordLlmCall`. -/
  | call (call : LlmCall)
  | question
  | answered (question : Question)
  | skip
  /-- `recordToolResult`. -/
  | toolRow (messageId createdAt : ℕ) (payload : Fields)
  | toolItem
  | park
  | continuation (messageId createdAt : ℕ) (payload : Fields)
  /-- The turn ends, as it should or not. -/
  | stop
  /-- `recordStaleSupersededQuestionToolResult`. -/
  | superseded (question : Question) (messageId createdAt : ℕ) (payload : Fields)
  | restart
  | repairRow (messageId createdAt : ℕ)
  | repairItem
  | repairFailed
  | listening

/-- The step, when it runs and its first call has no row. -/
def State.dispatching (s : State) : Option (Turn × ToolUse × List ToolUse) :=
  s.turn.bind fun turn =>
    match turn.calls with
    | use :: rest => if turn.recorded || turn.parked then none else some (turn, use, rest)
    | [] => none

/-- The step, when it is parked. -/
def State.continuing (s : State) : Option (Turn × ToolUse × List ToolUse) :=
  s.turn.bind fun turn =>
    match turn.calls with
    | use :: rest => if turn.parked && !turn.recorded then some (turn, use, rest) else none
    | [] => none

/-- The tool row that an action writes. -/
def State.written (s : State) : Act → Option Row
  | .toolRow messageId createdAt payload => s.turn.map (·.row messageId createdAt payload)
  | .continuation messageId createdAt payload => s.turn.map (·.row messageId createdAt payload)
  | .superseded question messageId createdAt payload =>
    some (question.row messageId createdAt payload)
  | .repairRow messageId createdAt =>
    s.repair.bind fun repair => repair.calls.head?.map (·.row messageId createdAt)
  | _ => none

def step (s : State) : Act → Option State
  | .message row => if row.role = .tool then none else s.insertRow row
  | .call call =>
    if s.repair.isNone && (s.turn.all fun turn => turn.calls.isEmpty) && call.llmCallId ≠ "" &&
        !s.calls.any fun other => other.llmCallId = call.llmCallId then
      some { s with calls := s.calls ++ [call], turn := some call.turn }
    else none
  | .question => do
    let (turn, use, _) ← s.dispatching
    if use.name = ASK_USER_QUESTIONS_TOOL then
      some { s with questions := s.questions ++ [⟨turn.turnId, use.id⟩] }
    else none
  | .answered question => some { s with questions := s.questions.erase question }
  | .skip => do
    let (turn, _, rest) ← s.dispatching
    some { s with turn := some { turn with calls := rest } }
  | .toolRow messageId createdAt payload => do
    let (turn, use, _) ← s.dispatching
    if asString (get payload "call_id") = some use.id then
      let s ← s.insertRow (turn.row messageId createdAt payload)
      some { s with
        turn := some { turn with recorded := true }
        questions := s.questions.erase ⟨turn.turnId, use.id⟩ }
    else none
  | .toolItem => do
    let turn ← s.turn
    match turn.calls, turn.recorded with
    | use :: rest, true =>
      let sequence := s.outputLength turn.llmCallId + turn.results
      match s.insertItem ⟨turn.llmCallId, sequence, use.id⟩ with
      | some s => some { s with
          turn := some { turn with calls := rest, results := turn.results + 1, recorded := false } }
      | none => some { s with turn := none }
    | _, _ => none
  | .park => do
    let (turn, _, _) ← s.dispatching
    if s.calls.any fun call => call.llmCallId = turn.llmCallId && call.durable then
      some { s with turn := some { turn with parked := true } }
    else none
  | .continuation messageId createdAt payload => do
    let (turn, use, rest) ← s.continuing
    if s.items.any fun item => item.llmCallId = turn.llmCallId && item.toolCallId = use.id then
      some { s with turn := some { turn with calls := rest } }
    else if asString (get payload "call_id") = some use.id then
      let s ← s.insertRow (turn.row messageId createdAt payload)
      let s ← s.insertItem ⟨turn.llmCallId, s.nextSequence turn.llmCallId, use.id⟩
      some { s with turn := some { turn with calls := rest } }
    else none
  | .stop => some { s with turn := none }
  | .superseded question messageId createdAt payload => do
    -- A turn that still waits for the answer gets it, and writes the row itself.
    let live := s.dispatching.any fun (turn, use, _) =>
      turn.turnId = question.turnId && use.id = question.callId
    if question ∈ s.questions ∧ !live ∧
        asString (get payload "call_id") = some question.callId then
      let s ← s.insertRow (question.row messageId createdAt payload)
      some { s with questions := s.questions.erase question }
    else none
  | .restart => some { s with
      turn := s.turn.filter (·.parked)
      repair := some ⟨findDanglingToolCalls s, false, []⟩ }
  | .repairRow messageId createdAt => do
    let repair ← s.repair
    match repair.calls, repair.recorded with
    | call :: _, false =>
      let s ← s.insertRow (call.row messageId createdAt)
      some { s with repair := some { repair with recorded := true } }
    | _, _ => none
  | .repairItem => do
    let repair ← s.repair
    match repair.calls, repair.recorded with
    | call :: rest, true =>
      let sequence := repair.sequences.count call.llmCallId
      -- A number that the call has already is an error, which is logged.
      let s := (s.insertItem ⟨call.llmCallId, sequence, call.toolCallId⟩).getD s
      some { s with repair := some (repair.next rest [call.llmCallId]) }
    | _, _ => none
  | .repairFailed => do
    let repair ← s.repair
    match repair.calls with
    | call :: rest =>
      let taken := if repair.recorded then [call.llmCallId] else []
      some { s with repair := some (repair.next rest taken) }
    | [] => none
  | .listening => do
    let repair ← s.repair
    if repair.calls.isEmpty then some { s with repair := none } else none

end Bud.Conversation
