import Bud.Lib.JsValue

/-!
# Questions to the user

`user-question-contracts.ts`: the model may ask the user a list of questions. The request comes as
the arguments of a tool call, is normalised before anybody sees it, stored with an id, and
normalised again whenever it is read. The response of a client is validated against the request, and
the model is told the answers in a tool result.

## Modelling notes

The schemas are those of a library. What a schema makes of a value is written out here as a function
to `Option`, with `none` where the library finds fault; its messages are left out, so a `Failure` of
a schema has none. Its numbers may be infinite, unless they have to be integers. Fields that are
`undefined` are left out of objects.

A field of an object that is not in a schema is dropped by it, so `schema`, `request_id` and
`skippable` of a stored request are not seen by the normalisation.
-/

namespace Bud.Questions

open JsText JsValue

structure Runtime where
  numberText : Number → Text

structure Failure where
  code : String
  /-- `none` for what the schema library says. -/
  message : Option Text
  deriving DecidableEq

abbrev Result (α : Type) : Type := Except Failure α

def fail {α : Type} (code : String) (message : Text) : Result α := .error ⟨code, some message⟩

/-- What a schema has made of a value, or the failure. -/
def parsed {α : Type} (code : String) : Option α → Result α
  | some value => .ok value
  | none => .error ⟨code, none⟩

def decimal (n : ℕ) : Text := lit (toString n)

/-! ### Kinds and answers -/

inductive Kind where
  | boolean
  | singleChoice
  | multiChoice
  | text
  | number
  deriving DecidableEq

def Kind.name : Kind → String
  | .boolean => "boolean"
  | .singleChoice => "single_choice"
  | .multiChoice => "multi_choice"
  | .text => "text"
  | .number => "number"

inductive Importance where
  | required
  | important
  | optional
  deriving DecidableEq

def Importance.name : Importance → String
  | .required => "required"
  | .important => "important"
  | .optional => "optional"

/-- `AskUserQuestionAnswer`. -/
inductive Answer where
  | boolean (value : Bool)
  | singleChoice (choiceId : Text)
  | multiChoice (choiceIds : List Text)
  | text (value : Text)
  | number (value : Number)
  deriving DecidableEq

def Answer.kind : Answer → Kind
  | .boolean _ => .boolean
  | .singleChoice _ => .singleChoice
  | .multiChoice _ => .multiChoice
  | .text _ => .text
  | .number _ => .number

/-! ### Schemas -/

/-- A field that may be absent. -/
def optional {α : Type} (schema : Value → Option α) : Option Value → Option (Option α)
  | none => some none
  | some value => (schema value).map some

/-- `z.string().trim().min(1)`. -/
def trimmedString : Value → Option Text
  | .string s => if trim s = [] then none else some (trim s)
  | _ => none

/-- `z.boolean()`. -/
def boolean : Value → Option Bool
  | .bool b => some b
  | _ => none

/-- `z.number()`. -/
def anyNumber : Value → Option Number
  | .number n => some n
  | _ => none

/-- `z.number().positive()`. -/
def positiveNumber : Value → Option Number
  | .number n => if number 0 < n then some n else none
  | _ => none

def integerFrom (least : ℕ) : Value → Option ℕ
  | .number (some (some q)) => if q.den = 1 ∧ (least : ℤ) ≤ q.num then some q.num.toNat else none
  | _ => none

def enumeration {α : Type} (values : List α) (name : α → String) : Value → Option α
  | .string s => values.find? fun value => s = lit (name value)
  | _ => none

def kindSchema : Value → Option Kind :=
  enumeration [.boolean, .singleChoice, .multiChoice, .text, .number] Kind.name

def importanceSchema : Value → Option Importance :=
  enumeration [.required, .important, .optional] Importance.name

/-- `z.array`. -/
def arrayOf {α : Type} (schema : Value → Option α) : Value → Option (List α)
  | .array values => values.mapM schema
  | _ => none

structure RawChoice where
  choiceId : Option Text
  id : Option Text
  label : Text
  description : Option Text

def rawChoiceSchema : Value → Option RawChoice
  | .object fields => do
    let choiceId ← optional trimmedString (get fields "choice_id")
    let id ← optional trimmedString (get fields "id")
    let label ← (get fields "label").bind trimmedString
    let description ← optional trimmedString (get fields "description")
    return { choiceId, id, label, description }
  | _ => none

structure RawQuestion where
  questionId : Option Text
  id : Option Text
  kind : Kind
  label : Text
  helpText : Option Text
  importance : Option Importance
  choices : Option (List RawChoice)
  defaultAnswer : Option Value
  multiline : Option Bool
  placeholder : Option Text
  minLength : Option ℕ
  maxLength : Option ℕ
  min : Option Number
  max : Option Number
  step : Option Number
  unit : Option Text

def rawQuestionSchema : Value → Option RawQuestion
  | .object fields => do
    let questionId ← optional trimmedString (get fields "question_id")
    let id ← optional trimmedString (get fields "id")
    let kind ← (get fields "kind").bind kindSchema
    let label ← (get fields "label").bind trimmedString
    let helpText ← optional trimmedString (get fields "help_text")
    let importance ← optional importanceSchema (get fields "importance")
    let choices ← optional (arrayOf rawChoiceSchema) (get fields "choices")
    let multiline ← optional boolean (get fields "multiline")
    let placeholder ← optional trimmedString (get fields "placeholder")
    let minLength ← optional (integerFrom 0) (get fields "min_length")
    let maxLength ← optional (integerFrom 1) (get fields "max_length")
    let min ← optional anyNumber (get fields "min")
    let max ← optional anyNumber (get fields "max")
    let step ← optional positiveNumber (get fields "step")
    let unit ← optional trimmedString (get fields "unit")
    return {
      questionId, id, kind, label, helpText, importance, choices
      defaultAnswer := get fields "default_answer"
      multiline, placeholder, minLength, maxLength, min, max, step, unit }
  | _ => none

structure RawRequest where
  title : Option Text
  body : Option Text
  submitLabel : Option Text
  skipAllLabel : Option Text
  questions : List RawQuestion

def rawRequestSchema : Value → Option RawRequest
  | .object fields => do
    let title ← optional trimmedString (get fields "title")
    let body ← optional trimmedString (get fields "body")
    let submitLabel ← optional trimmedString (get fields "submit_label")
    let skipAllLabel ← optional trimmedString (get fields "skip_all_label")
    let questions ← (get fields "questions").bind (arrayOf rawQuestionSchema)
    if questions = [] then none
    else return { title, body, submitLabel, skipAllLabel, questions }
  | _ => none

/-- One of the alternatives of `ClientAnswerSchema`. -/
def clientAnswerOfKind (fields : Fields) : Kind → Option Answer
  | .boolean => ((get fields "value").bind boolean).map .boolean
  | .singleChoice => ((get fields "choice_id").bind trimmedString).map .singleChoice
  | .multiChoice => do
    let choiceIds ← (get fields "choice_ids").bind (arrayOf trimmedString)
    if choiceIds = [] then none else return .multiChoice choiceIds
  | .text => (asString (get fields "value")).map .text
  | .number => ((get fields "value").bind anyNumber).map .number

def clientAnswerSchema : Value → Option Answer
  | .object fields => ((get fields "kind").bind kindSchema).bind (clientAnswerOfKind fields)
  | _ => none

/-! ### Fields that are null -/

def isNull : Value → Bool
  | .null => true
  | _ => false

mutual

def stripNullFields : Value → Value
  | .array values => .array (stripNullElements values)
  | .object fields => .object (stripNullEntries fields)
  | value => value

def stripNullElements : List Value → List Value
  | [] => []
  | value :: values => stripNullFields value :: stripNullElements values

def stripNullEntries : List (String × Value) → List (String × Value)
  | [] => []
  | (name, value) :: fields =>
    if isNull value then stripNullEntries fields
    else (name, stripNullFields value) :: stripNullEntries fields

end

/-! ### Ids -/

def underscore : UInt16 := 95

/-- A letter, a digit, `_` or `-`. -/
def isIdUnit (u : UInt16) : Bool :=
  let n := u.toNat
  (97 ≤ n && n ≤ 122) || (65 ≤ n && n ≤ 90) || (48 ≤ n && n ≤ 57) || n == 95 || n == 45

/-- `.replace(/[^a-zA-Z0-9_-]+/g, "_")`, where the unit before was replaced or not. -/
def replaceRuns (inRun : Bool) : Text → Text
  | [] => []
  | u :: us =>
    if isIdUnit u then u :: replaceRuns false us
    else if inRun then replaceRuns true us
    else underscore :: replaceRuns true us

/-- `.replace(/^_+|_+$/g, "")`. -/
def stripUnderscores (s : Text) : Text :=
  ((s.dropWhile (· = underscore)).reverse.dropWhile (· = underscore)).reverse

def normalizeId (value : Text) : Text :=
  let id := stripUnderscores (replaceRuns false (trim value))
  if id = [] then lit "question" else id

/-! ### Requests -/

structure Choice where
  choiceId : Text
  label : Text
  description : Option Text
  deriving DecidableEq

/-- `AskUserQuestion`; it is always `skippable`. -/
structure Question where
  questionId : Text
  kind : Kind
  label : Text
  helpText : Option Text
  importance : Importance
  choices : Option (List Choice)
  defaultAnswer : Option Answer
  multiline : Bool
  placeholder : Option Text
  minLength : Option ℕ
  maxLength : Option ℕ
  min : Option Number
  max : Option Number
  step : Option Number
  unit : Option Text
  deriving DecidableEq

structure Request where
  requestId : Option Text
  title : Option Text
  body : Option Text
  submitLabel : Option Text
  skipAllLabel : Option Text
  questions : List Question
  deriving DecidableEq

def unseen (seen : List Text) (value : Text) (code : String) (message : Text) : Result Unit :=
  if value ∈ seen then fail code (message ++ value) else .ok ()

/-- The loop of `normalizeChoices`. -/
def normalizeChoicesFrom (seen : List Text) (index : ℕ) : List RawChoice → Result (List Choice)
  | [] => .ok []
  | choice :: choices => do
    let choiceId := normalizeId
      ((choice.choiceId.or choice.id).getD (lit "choice_" ++ decimal (index + 1)))
    unseen seen choiceId "duplicate_choice_id" (lit "Duplicate choice_id: ")
    let rest ← normalizeChoicesFrom (choiceId :: seen) (index + 1) choices
    return { choiceId, label := trim choice.label, description := choice.description.map trim } ::
      rest

def normalizeChoices (question : RawQuestion) : Result (Option (List Choice)) :=
  if question.kind ≠ .singleChoice ∧ question.kind ≠ .multiChoice then .ok none
  else
    match question.choices.getD [] with
    | [] =>
      fail "missing_choices"
        (lit question.kind.name ++ lit " questions require at least one choice")
    | choices => (normalizeChoicesFrom [] 0 choices).map some

def assertChoiceExists (question : Question) (choiceId : Text) (errorCode : String) :
    Result Unit :=
  if (question.choices.getD []).any fun choice => choice.choiceId = choiceId then .ok ()
  else
    fail errorCode
      (lit "Unknown choice_id " ++ choiceId ++ lit " for question " ++ question.questionId)

def defaultTextMaxLength : ℕ := 4000

/-- What is asked of an answer of the question's kind. -/
def checkAnswer (runtime : Runtime) (question : Question) (errorCode : String) :
    Answer → Result Unit
  | .boolean _ => .ok ()
  | .singleChoice choiceId => assertChoiceExists question choiceId errorCode
  | .multiChoice choiceIds => do
    if ¬ choiceIds.Nodup then fail errorCode (lit "Duplicate multi_choice ids are not allowed")
    choiceIds.forM fun choiceId => assertChoiceExists question choiceId errorCode
  | .text value =>
    let minLength := question.minLength.getD 0
    let maxLength := question.maxLength.getD defaultTextMaxLength
    if value.length < minLength ∨ maxLength < value.length then
      fail errorCode (lit "Text answer must be between " ++ decimal minLength ++ lit " and " ++
        decimal maxLength ++ lit " characters")
    else .ok ()
  | .number value => do
    if let some least := question.min then
      if value < least then
        fail errorCode (lit "Number answer must be >= " ++ runtime.numberText least)
    if let some most := question.max then
      if most < value then
        fail errorCode (lit "Number answer must be <= " ++ runtime.numberText most)

def validateAnswerForQuestion (runtime : Runtime) (question : Question) (input : Value)
    (errorCode : String) : Result Answer := do
  let answer ← parsed errorCode (clientAnswerSchema input)
  if answer.kind ≠ question.kind then
    fail errorCode (lit "Answer kind " ++ lit answer.kind.name ++
      lit " does not match question kind " ++ lit question.kind.name)
  else do
    checkAnswer runtime question errorCode answer
    return answer

/-- A question with its id, as it is before its default answer is looked at. -/
def RawQuestion.normalized (question : RawQuestion) (questionId : Text)
    (choices : Option (List Choice)) : Question where
  questionId := questionId
  kind := question.kind
  label := trim question.label
  helpText := question.helpText.map trim
  importance := question.importance.getD .optional
  choices := choices
  defaultAnswer := none
  multiline := question.multiline = some true
  placeholder := question.placeholder.map trim
  minLength := question.minLength
  maxLength :=
    question.maxLength.or (if question.kind = .text then some defaultTextMaxLength else none)
  min := question.min
  max := question.max
  step := question.step
  unit := question.unit.map trim

/-- `question.question_id ?? question.id ?? …`. -/
def RawQuestion.givenId (question : RawQuestion) (index : ℕ) : Text :=
  (question.questionId.or question.id).getD (lit "q_" ++ decimal (index + 1))

def normalizeQuestion (runtime : Runtime) (index : ℕ) (question : RawQuestion) :
    Result Question := do
  let choices ← normalizeChoices question
  let normalized := question.normalized (normalizeId (question.givenId index)) choices
  match question.defaultAnswer with
  | none => return normalized
  | some input =>
    let answer ← validateAnswerForQuestion runtime normalized input "invalid_default_answer"
    return { normalized with defaultAnswer := some answer }

def normalizeQuestionsFrom (runtime : Runtime) (seen : List Text) (index : ℕ) :
    List RawQuestion → Result (List Question)
  | [] => .ok []
  | question :: questions => do
    let questionId := normalizeId (question.givenId index)
    unseen seen questionId "duplicate_question_id" (lit "Duplicate question_id: ")
    let normalized ← normalizeQuestion runtime index question
    let rest ← normalizeQuestionsFrom runtime (questionId :: seen) (index + 1) questions
    return normalized :: rest

def normalizeAskUserQuestionsRequest (runtime : Runtime) (input : Value) : Result Request := do
  let raw ← parsed "invalid_question_request" (rawRequestSchema (stripNullFields input))
  let questions ← normalizeQuestionsFrom runtime [] 0 raw.questions
  return {
    requestId := none
    title := raw.title.map trim
    body := raw.body.map trim
    submitLabel := raw.submitLabel.map trim
    skipAllLabel := raw.skipAllLabel.map trim
    questions }

def attachRequestIdToAskUserQuestionsRequest (request : Request) (requestId : Text) : Request :=
  { request with requestId := some requestId }

def requestSchemaName : Text := lit "ask_user_questions_request_v1"

def parseStoredAskUserQuestionsRequest (runtime : Runtime) (input : Value) : Result Request :=
  match input with
  | .object fields =>
    if asString (get fields "schema") = some requestSchemaName then do
      let request ← normalizeAskUserQuestionsRequest runtime input
      match (asString (get fields "request_id")).filter (· ≠ []) with
      | some requestId => return { request with requestId := some requestId }
      | none => return request
    else
      fail "invalid_stored_question_request"
        (lit "Stored question request has an unsupported schema")
  | _ => fail "invalid_stored_question_request" (lit "Expected object")

/-! ### Responses -/

inductive SkipReason where
  | userSkipped
  | notApplicable
  | unknown
  deriving DecidableEq

def SkipReason.name : SkipReason → String
  | .userSkipped => "user_skipped"
  | .notApplicable => "not_applicable"
  | .unknown => "unknown"

inductive Status where
  | answered
  | skipped
  deriving DecidableEq

def Status.name : Status → String
  | .answered => "answered"
  | .skipped => "skipped"

structure ResponseAnswer where
  questionId : Text
  status : Status
  answer : Option Answer
  skipReason : Option SkipReason

structure Response where
  clientResponseId : Text
  answers : List ResponseAnswer

/-- A digit, or a letter from `a` to `f`. -/
def isHex (u : UInt16) : Bool :=
  let n := u.toNat
  (48 ≤ n && n ≤ 57) || (97 ≤ n && n ≤ 102) || (65 ≤ n && n ≤ 70)

/-- `z.string().uuid()`: five groups of digits, with `-` between them. -/
def uuid : Value → Option Text
  | .string s =>
    let groups := s.splitOn 45
    if groups.map List.length = [8, 4, 4, 4, 12] ∧ groups.all (·.all isHex) then some s else none
  | _ => none

def responseAnswerSchema : Value → Option ResponseAnswer
  | .object fields => do
    let questionId ← (get fields "question_id").bind trimmedString
    let status ← (get fields "status").bind (enumeration [.answered, .skipped] Status.name)
    let answer ← optional clientAnswerSchema (get fields "answer")
    let skipReason ← optional
      (enumeration [.userSkipped, .notApplicable, .unknown] SkipReason.name)
      (get fields "skip_reason")
    return { questionId, status, answer, skipReason }
  | _ => none

def responseSchemaName : Text := lit "ask_user_questions_response_v1"

def clientResponseSchema : Value → Option Response
  | .object fields =>
    if asString (get fields "schema") = some responseSchemaName then do
      let clientResponseId ← (get fields "client_response_id").bind uuid
      let answers ← (get fields "answers").bind (arrayOf responseAnswerSchema)
      return { clientResponseId, answers }
    else none
  | _ => none

def checkAnswersFrom (seen : List Text) : List ResponseAnswer → Result Unit
  | [] => .ok ()
  | answer :: answers => do
    unseen seen answer.questionId "duplicate_answer"
      (lit "Duplicate answer for question_id: ")
    checkAnswersFrom (answer.questionId :: seen) answers

def answerFor (answers : List ResponseAnswer) (questionId : Text) : Option ResponseAnswer :=
  answers.find? (·.questionId = questionId)

def Answer.value (answer : Answer) : Value :=
  .object (("kind", .string (lit answer.kind.name)) ::
    match answer with
    | .boolean value => [("value", .bool value)]
    | .singleChoice choiceId => [("choice_id", .string choiceId)]
    | .multiChoice choiceIds => [("choice_ids", .array (choiceIds.map .string))]
    | .text value => [("value", .string value)]
    | .number value => [("value", .number value)])

def normalizeAnswer (runtime : Runtime) (answers : List ResponseAnswer) (question : Question) :
    Result ResponseAnswer :=
  let skipped (reason : Option SkipReason) : ResponseAnswer :=
    { questionId := question.questionId
      status := .skipped
      answer := none
      skipReason := some (reason.getD .userSkipped) }
  match answerFor answers question.questionId with
  | none => return skipped none
  | some answer =>
    if answer.status = .skipped then return skipped answer.skipReason
    else
      match answer.answer with
      | none =>
        fail "missing_answer" (lit "Question " ++ question.questionId ++
          lit " is marked answered without an answer")
      | some given => do
        let validated ←
          validateAnswerForQuestion runtime question given.value "invalid_answer"
        return {
          questionId := question.questionId
          status := .answered
          answer := some validated
          skipReason := none }

def validateAskUserQuestionsResponse (runtime : Runtime) (input : Value) (request : Request) :
    Result Response := do
  let raw ← parsed "invalid_question_response" (clientResponseSchema input)
  checkAnswersFrom [] raw.answers
  raw.answers.forM fun answer =>
    if answer.questionId ∈ request.questions.map (·.questionId) then .ok ()
    else fail "unknown_question_id" (lit "Unknown question_id: " ++ answer.questionId)
  let answers ← request.questions.mapM (normalizeAnswer runtime raw.answers)
  return { clientResponseId := raw.clientResponseId, answers }

/-! ### The tool result -/

def choiceLabel (question : Question) (choiceId : Text) : Text :=
  match (question.choices.getD []).find? (·.choiceId = choiceId) with
  | some choice => choice.label
  | none => choiceId

def formatAnswer (runtime : Runtime) (question : Question) : Answer → Text
  | .boolean value => if value then lit "Yes" else lit "No"
  | .singleChoice choiceId => choiceLabel question choiceId
  | .multiChoice choiceIds => [44, 32].intercalate (choiceIds.map (choiceLabel question))
  | .text value => value
  | .number value =>
    runtime.numberText value ++
      match question.unit.filter (· ≠ []) with
      | some unit => 32 :: unit
      | none => []

/-- `AskUserQuestionsToolResultResponse`, with what it repeats of the question. -/
structure ToolResultResponse where
  questionId : Text
  kind : Kind
  label : Text
  helpText : Option Text
  choices : Option (List Choice)
  status : Status
  answer : Option Answer
  displayAnswer : Option Text
  skipReason : Option SkipReason

structure ToolResult where
  requestId : Text
  title : Option Text
  body : Option Text
  responses : List ToolResultResponse
  summaryMarkdown : Text

/-- `new Map(response.answers.map(…)).get(…)`: the last of several wins. -/
def lastAnswerFor (answers : List ResponseAnswer) (questionId : Text) : Option ResponseAnswer :=
  answers.reverse.find? (·.questionId = questionId)

def toolResultResponse (runtime : Runtime) (answers : List ResponseAnswer) (question : Question) :
    ToolResultResponse :=
  let answer := (lastAnswerFor answers question.questionId).getD
    { questionId := question.questionId
      status := .skipped
      answer := none
      skipReason := some .unknown }
  { questionId := question.questionId
    kind := question.kind
    label := question.label
    helpText := question.helpText
    choices := question.choices
    status := answer.status
    answer := answer.answer
    displayAnswer := answer.answer.map (formatAnswer runtime question)
    skipReason :=
      if answer.status = .skipped then some (answer.skipReason.getD .userSkipped) else none }

def summaryLines (index : ℕ) (response : ToolResultResponse) : List Text :=
  [[], decimal (index + 1) ++ lit ". " ++ response.label,
    match response.status with
    | .answered => lit "Answer: " ++ response.displayAnswer.getD (lit "(answered)")
    | .skipped =>
      lit "Answer: skipped (" ++ lit (response.skipReason.getD .userSkipped).name ++ lit ")"]

/-- A text that counts as there. -/
def given (text : Option Text) : Option Text := text.filter (· ≠ [])

def buildAskUserQuestionsSummaryMarkdown (title body : Option Text)
    (responses : List ToolResultResponse) : Text :=
  let head := match given title with
    | some title => lit "Question response: " ++ title
    | none => lit "Question response"
  let intro := match given body with
    | some body => [[], body]
    | none => []
  [10].intercalate
    (head :: intro ++ (responses.zipIdx.flatMap fun x => summaryLines x.2 x.1))

def buildAskUserQuestionsToolResult (runtime : Runtime) (request : Request) (response : Response)
    (requestId : Text) : ToolResult :=
  let responses := request.questions.map (toolResultResponse runtime response.answers)
  { requestId := requestId
    title := request.title
    body := request.body
    responses := responses
    summaryMarkdown := buildAskUserQuestionsSummaryMarkdown request.title request.body responses }

/-! ### Requests and responses as values -/

def field {α : Type} (name : String) (value : α → Value) (a : Option α) : Fields :=
  (a.map fun a => (name, value a)).toList

def Choice.value (choice : Choice) : Value :=
  .object ([("choice_id", .string choice.choiceId), ("label", .string choice.label)] ++
    field "description" .string choice.description)

def natural (n : ℕ) : Value := .number (number n)

def Question.value (question : Question) : Value :=
  .object ([("question_id", .string question.questionId),
      ("kind", .string (lit question.kind.name)), ("label", .string question.label)] ++
    field "help_text" .string question.helpText ++
    [("importance", .string (lit question.importance.name)), ("skippable", .bool true)] ++
    field "choices" (fun choices => .array (choices.map Choice.value)) question.choices ++
    (if question.multiline then [("multiline", .bool true)] else []) ++
    field "placeholder" .string question.placeholder ++
    field "min_length" natural question.minLength ++
    field "max_length" natural question.maxLength ++
    field "min" .number question.min ++ field "max" .number question.max ++
    field "step" .number question.step ++ field "unit" .string question.unit ++
    field "default_answer" Answer.value question.defaultAnswer)

def Request.value (request : Request) : Value :=
  .object ([("schema", .string requestSchemaName)] ++
    field "title" .string request.title ++ field "body" .string request.body ++
    field "submit_label" .string request.submitLabel ++
    field "skip_all_label" .string request.skipAllLabel ++
    [("questions", .array (request.questions.map Question.value))] ++
    field "request_id" .string request.requestId)

def ResponseAnswer.value (answer : ResponseAnswer) : Value :=
  .object ([("question_id", .string answer.questionId),
      ("status", .string (lit answer.status.name))] ++
    field "answer" Answer.value answer.answer ++
    field "skip_reason" (fun reason => .string (lit reason.name)) answer.skipReason)

def Response.value (response : Response) : Value :=
  .object [("schema", .string responseSchemaName),
    ("client_response_id", .string response.clientResponseId),
    ("answers", .array (response.answers.map ResponseAnswer.value))]

end Bud.Questions
