import Bud.Agent.QuestionNormalForm

/-!
# A stored question is read as it was asked

A request that has been accepted is stored as JSON, with an id, and normalised again when it is
read: after a restart, to validate the answers, and to tell the model. The second normalisation
finds every default, every trimmed text and every id as the first has left it, and changes nothing.

What JSON cannot keep is lost. A bound, a step or a default answer may be an infinite number, since
a JSON text may have one that is too large; it is stored as `null`, which is dropped.
-/

namespace Bud.Questions

open JsText JsValue Throws Trimming Option

/-! ### Stored values -/

/-- A value as it is after it has been stored, and its nulls dropped. -/
def stored (value : Value) : Value := stripNullFields (jsonCopy value)

def storedFields (fields : Fields) : Fields := stripNullEntries (jsonCopyFields fields)

def finitePart : Number → Option Number
  | some (some q) => some (number q)
  | some none => none
  | none => none

theorem finitePart_eq_some {n : Number} : finitePart n = some m ↔ n = m ∧ Finite n := by
  rcases n with _ | _ | q
  · exact ⟨nofun, fun ⟨_, q, hq⟩ => by contradiction⟩
  · exact ⟨nofun, fun ⟨_, q, hq⟩ => by cases hq⟩
  · constructor
    · intro h
      exact ⟨some.inj h, q, rfl⟩
    · rintro ⟨rfl, -⟩
      rfl

variable {a : Option Number} {name : String} {value : Value} {α : Type} {question : Question}
  {runtime : Runtime} {request : Request} {answer : ResponseAnswer} {answers : List ResponseAnswer}

theorem bind_finitePart_iff : a.bind finitePart = a ↔ ∀ n ∈ a, Finite n := by
  cases a with
  | none => simp
  | some n =>
    simp only [bind_some, mem_some_iff, forall_eq']
    exact ⟨fun h => (finitePart_eq_some.mp h).2, fun h => finitePart_eq_some.mpr ⟨rfl, h⟩⟩

theorem storedFields_append (fields more : Fields) :
    storedFields (fields ++ more) = storedFields fields ++ storedFields more := by
  induction fields with
  | nil => rfl
  | cons f fields ih =>
    obtain ⟨name, value⟩ := f
    simp only [storedFields, List.cons_append, jsonCopyFields, stripNullEntries] at ih ⊢
    rw [ih]
    split <;> rfl

theorem storedFields_cons (h : isNull (jsonCopy value) = false) (fields : Fields) :
    storedFields ((name, value) :: fields) = (name, stored value) :: storedFields fields := by
  rw [storedFields, jsonCopyFields, stripNullEntries, h, if_neg Bool.false_ne_true]
  rfl

theorem storedFields_field {value : α → Value} {a : Option α}
    (h : ∀ b ∈ a, isNull (jsonCopy (value b)) = false) :
    storedFields (field name value a) = field name (fun b => stored (value b)) a := by
  cases a with
  | none => rfl
  | some b => exact storedFields_cons (h b rfl) []

theorem storedFields_number :
    storedFields (field name .number a) = field name .number (a.bind finitePart) := by
  rcases a with _ | _ | _ | q <;> rfl

theorem get_append (fields more : Fields) (name : String) :
    get (fields ++ more) name = (get fields name).or (get more name) := List.lookup_append

theorem get_cons (key : String) (value : Value) (fields : Fields) (name : String) :
    get ((key, value) :: fields) name = if name = key then some value else get fields name := by
  rw [JsValue.get, List.lookup_cons]
  split
  next h => rw [if_pos (eq_of_beq h)]
  next h => rw [if_neg (ne_of_beq_false (Bool.not_eq_true _ ▸ h))]; rfl

theorem get_nil (name : String) : get [] name = none := rfl

theorem get_field (key : String) (value : α → Value) (a : Option α) (name : String) :
    get (field key value a) name = if name = key then a.map value else none := by
  cases a with
  | none => simp [field, get_nil]
  | some b => simp [field, get_cons, get_nil]

@[simp] theorem stored_string (s : Text) : stored (.string s) = .string s := rfl

theorem stored_object (fields : Fields) : stored (.object fields) = .object (storedFields fields) :=
  rfl

theorem stored_array (values : List Value) :
    stored (.array values) = .array (values.map stored) := by
  have h : ∀ values : List Value, stripNullElements (jsonCopyList values) = values.map stored := by
    intro values
    induction values with
    | nil => rfl
    | cons value values ih =>
      rw [jsonCopyList, stripNullElements, ih]
      rfl
  exact congrArg Value.array (h values)

/-! ### Schemas on stored values -/

theorem storedFields_nil : storedFields [] = [] := rfl

theorem optional_none (schema : Value → Option α) : optional schema none = some none :=
  rfl

theorem optional_some {schema : Value → Option α} {a : α} (h : schema value = some a) :
    optional schema (some value) = some (some a) := by
  rw [optional, h]
  rfl

theorem optional_trimmedString {a : Option Text} (h : ∀ t ∈ a, Trimmed t) :
    optional trimmedString (a.map .string) = some a := by
  cases a with
  | none => rfl
  | some t =>
    rw [map_some, optional, trimmedString_of_trimmed (h t rfl)]
    rfl

theorem optional_anyNumber (a : Option Number) :
    optional anyNumber (a.map .number) = some a := by
  cases a <;> rfl

theorem optional_positiveNumber (h : ∀ n ∈ a, number 0 < n) :
    optional positiveNumber (a.map .number) = some a := by
  cases a with
  | none => rfl
  | some n =>
    rw [map_some, optional, positiveNumber, if_pos (h n rfl)]
    rfl

theorem integerFrom_natural (h : least ≤ n) : integerFrom least (natural n) = some n := by
  have hden : (n : ℚ).den = 1 := Rat.den_natCast n
  have hnum : (n : ℚ).num = n := Rat.num_natCast n
  show (if (n : ℚ).den = 1 ∧ (least : ℤ) ≤ (n : ℚ).num then some (n : ℚ).num.toNat else none) = _
  rw [hden, hnum, if_pos ⟨rfl, by omega⟩, Int.toNat_natCast]

theorem optional_integerFrom {least : ℕ} {a : Option ℕ} (h : ∀ n ∈ a, least ≤ n) :
    optional (integerFrom least) (a.map natural) = some a := by
  cases a with
  | none => rfl
  | some n =>
    rw [map_some, optional, integerFrom_natural (h n rfl)]
    rfl

theorem kindSchema_name (kind : Kind) : kindSchema (.string (lit kind.name)) = some kind := by
  cases kind <;> decide

theorem importanceSchema_name (importance : Importance) :
    importanceSchema (.string (lit importance.name)) = some importance := by
  cases importance <;> decide

theorem arrayOf_map {β : Type} {schema : Value → Option β} {f : α → Value} {g : α → β} {as : List α}
    (h : ∀ a ∈ as, schema (f a) = some (g a)) :
    arrayOf schema (.array (as.map f)) = some (as.map g) := by
  refine arrayOf_eq_some.mpr ⟨_, rfl, ?_⟩
  induction as with
  | nil => exact .nil
  | cons a as ih =>
    exact .cons (h a List.mem_cons_self) (ih fun b hb => h b (List.mem_cons_of_mem _ hb))

/-! ### The questions of a stored request -/

def Choice.raw (choice : Choice) : RawChoice where
  choiceId := some choice.choiceId
  id := none
  label := choice.label
  description := choice.description

theorem rawChoiceSchema_stored {choice : Choice} (h : choice.WellFormed) :
    rawChoiceSchema (stored choice.value) = some choice.raw := by
  rw [Choice.value, stored_object, storedFields_append, storedFields_cons rfl,
    storedFields_cons rfl, storedFields_field fun _ _ => rfl]
  simp only [rawChoiceSchema, get_append, get_cons, get_nil, get_field, stored_string,
    String.reduceEq, if_true, if_false, some_or, none_or, storedFields_nil,
    bind_some, trimmedString_of_trimmed h.label, optional_none,
    optional_some (trimmedString_of_trimmed h.choiceId.trimmed),
    optional_trimmedString h.description, bind_eq_bind]
  rfl

theorem clientAnswerSchema_value {answer : Answer} (h : answer.WellFormed) :
    clientAnswerSchema answer.value = some answer := by
  have hkind (kind : Kind) (fields : Fields) :
      clientAnswerSchema (.object (("kind", .string (lit kind.name)) :: fields)) =
        clientAnswerOfKind (("kind", .string (lit kind.name)) :: fields) kind := by
    rw [clientAnswerSchema, get_cons, if_pos rfl, bind_some, kindSchema_name]
    rfl
  rw [Answer.value.eq_def, hkind]
  cases answer with
  | boolean value | text value | number value =>
    simp only [Answer.kind, clientAnswerOfKind, get_cons, String.reduceEq, if_true, if_false]
    rfl
  | singleChoice choiceId =>
    simp only [Answer.kind, clientAnswerOfKind, get_cons, String.reduceEq, if_true, if_false,
      bind_some, trimmedString_of_trimmed h, map_some]
  | multiChoice choiceIds =>
    have hids : arrayOf trimmedString (.array (choiceIds.map .string)) = some choiceIds := by
      rw [arrayOf_map fun id hid => trimmedString_of_trimmed (h.2 id hid), List.map_id']
    simp only [Answer.kind, clientAnswerOfKind, get_cons, String.reduceEq, if_true, if_false,
      bind_some, hids, bind_eq_bind, h.1]
    rfl

theorem stored_answer {answer : Answer} (h : ∀ value, answer = .number value → Finite value) :
    stored answer.value = answer.value := by
  rw [Answer.value.eq_def, stored_object, storedFields_cons rfl]
  cases answer with
  | multiChoice choiceIds =>
    rw [storedFields_cons rfl, stored_array, List.map_map]
    rfl
  | number value =>
    obtain ⟨q, rfl⟩ := h value rfl
    rfl
  | _ => rfl

theorem clientAnswerSchema_stored_infinite {value : Number} (h : ¬ Finite value) :
    clientAnswerSchema (stored (Answer.number value).value) = none := by
  rcases value with _ | _ | q
  · rfl
  · rfl
  · exact absurd ⟨q, rfl⟩ h

/-- A stored question, as the schema has it. -/
def Question.raw (question : Question) : RawQuestion where
  questionId := some question.questionId
  id := none
  kind := question.kind
  label := question.label
  helpText := question.helpText
  importance := some question.importance
  choices := question.choices.map (·.map Choice.raw)
  defaultAnswer := question.defaultAnswer.map fun answer => stored answer.value
  multiline := if question.multiline then some true else none
  placeholder := question.placeholder
  minLength := question.minLength
  maxLength := question.maxLength
  min := question.min.bind finitePart
  max := question.max.bind finitePart
  step := question.step.bind finitePart
  unit := question.unit

theorem Question.WellFormed.choice (h : question.WellFormed) {choices : List Choice}
    (hchoices : question.choices = some choices) : ∀ c ∈ choices, c.WellFormed := by
  rcases h.choices with ⟨hnone, -⟩ | ⟨_, hsome, -, -, -, hall⟩
  · rw [hchoices] at hnone
    contradiction
  · obtain rfl := some.inj (hchoices.symm.trans hsome)
    exact hall

theorem storedFields_question (question : Question) :
    stored question.value = .object ([("question_id", .string question.questionId),
      ("kind", .string (lit question.kind.name)), ("label", .string question.label)] ++
    field "help_text" .string question.helpText ++
    [("importance", .string (lit question.importance.name)), ("skippable", .bool true)] ++
    field "choices" (fun choices => .array (choices.map fun c => stored c.value))
      question.choices ++
    (if question.multiline then [("multiline", .bool true)] else []) ++
    field "placeholder" .string question.placeholder ++
    field "min_length" natural question.minLength ++
    field "max_length" natural question.maxLength ++
    field "min" .number (question.min.bind finitePart) ++
    field "max" .number (question.max.bind finitePart) ++
    field "step" .number (question.step.bind finitePart) ++
    field "unit" .string question.unit ++
    field "default_answer" (fun answer => stored answer.value) question.defaultAnswer) := by
  have hmultiline : storedFields (if question.multiline then [("multiline", .bool true)] else []) =
      if question.multiline then [("multiline", .bool true)] else [] := by
    cases question.multiline <;> rfl
  have hstrings (name : String) (a : Option Text) :
      storedFields (field name .string a) = field name .string a :=
    storedFields_field fun _ _ => rfl
  have hnaturals (name : String) (a : Option ℕ) :
      storedFields (field name natural a) = field name natural a :=
    storedFields_field fun _ _ => rfl
  have hchoices : storedFields (field "choices"
      (fun choices => .array (choices.map Choice.value)) question.choices) =
      field "choices" (fun choices => .array (choices.map fun c => stored c.value))
        question.choices := by
    rw [storedFields_field fun _ _ => rfl]
    simp only [stored_array, List.map_map, Function.comp_def]
  have hdefault : storedFields (field "default_answer" Answer.value question.defaultAnswer) =
      field "default_answer" (fun answer => stored answer.value) question.defaultAnswer :=
    storedFields_field fun _ _ => rfl
  simp only [Question.value, stored_object, storedFields_append, hstrings, hnaturals, hmultiline,
    hchoices, hdefault, storedFields_number]
  rfl

theorem rawQuestionSchema_stored (h : question.WellFormed) :
    rawQuestionSchema (stored question.value) = some question.raw := by
  have hchoices : optional (arrayOf rawChoiceSchema) (question.choices.map fun choices =>
      .array (choices.map fun c => stored c.value)) =
      some (question.choices.map (·.map Choice.raw)) := by
    rcases hc : question.choices with _ | choices
    · rfl
    · exact optional_some (arrayOf_map fun c hmem => rawChoiceSchema_stored (h.choice hc c hmem))
  have hmultiline : optional boolean
      (get (if question.multiline then [("multiline", .bool true)] else []) "multiline") =
      some (if question.multiline then some true else none) := by
    cases question.multiline <;> rfl
  have hother (name : String) (hne : name ≠ "multiline") :
      get (if question.multiline then [("multiline", .bool true)] else []) name = none := by
    split
    next => rw [get_cons, if_neg hne, get_nil]
    next => rfl
  have hstep : ∀ n ∈ question.step.bind finitePart, number 0 < n := by
    intro n hn
    obtain ⟨m, hm, hmn⟩ := bind_eq_some_iff.mp hn
    obtain ⟨rfl, -⟩ := finitePart_eq_some.mp hmn
    exact h.step m hm
  rw [storedFields_question]
  simp only [rawQuestionSchema, get_append, get_cons, get_nil, get_field, String.reduceEq, ne_eq,
    not_false_eq_true, if_true, if_false, none_or, or_none, hother, hmultiline,
    hchoices, kindSchema_name, optional_none, bind_some,
    optional_some (trimmedString_of_trimmed h.questionId.trimmed),
    trimmedString_of_trimmed h.label, optional_some (importanceSchema_name question.importance),
    optional_trimmedString h.helpText, optional_trimmedString h.placeholder,
    optional_trimmedString h.unit, optional_anyNumber, optional_positiveNumber hstep,
    optional_integerFrom fun n (_ : n ∈ question.minLength) => Nat.zero_le n,
    optional_integerFrom h.maxLength, bind_eq_bind]
  rfl

theorem normalizeChoices_raw (h : question.WellFormed) :
    normalizeChoices question.raw = .ok question.choices := by
  rw [normalizeChoices_eq_ok]
  rcases h.choices with ⟨hnone, hkind⟩ | ⟨choices, hsome, hkind, hne, hnodup, hall⟩
  · exact .inl ⟨hkind, hnone⟩
  · have hnormalized : normalizedChoices (choices.map Choice.raw) 0 = choices := by
      rw [normalizedChoices, List.zipIdx_map, List.map_map]
      calc (choices.zipIdx 0).map _ = (choices.zipIdx 0).map Prod.fst := by
            refine List.map_congr_left fun x hx => ?_
            have hx := hall x.1 (List.fst_mem_of_mem_zipIdx hx)
            simp only [Function.comp_apply, Prod.map_fst, Choice.raw, RawChoice.normalized,
              RawChoice.givenId, some_or, getD_some, hx.choiceId.normalizeId,
              hx.label.2, map_trim_of_trimmed hx.description]
        _ = choices := List.zipIdx_map_fst 0 choices
    refine .inr ⟨hkind, choices.map Choice.raw, choices, ?_, ?_, hsome, hnormalized.symm, hnodup⟩
    · rw [Question.raw, hsome, map_some]
    · rwa [ne_eq, List.map_eq_nil_iff]

/-- None of the numbers of a question is infinite. -/
structure Question.FiniteNumbers (question : Question) : Prop where
  min : ∀ n ∈ question.min, Finite n
  max : ∀ n ∈ question.max, Finite n
  step : ∀ n ∈ question.step, Finite n
  defaultAnswer : ∀ value, question.defaultAnswer = some (.number value) → Finite value

/-- The default answer is read back if it has no infinite number. -/
theorem Question.WellFormed.defaultAnswer_raw (h : question.WellFormed) :
    (match question.raw.defaultAnswer with
      | none => question.defaultAnswer = none
      | some input => ∃ answer, question.defaultAnswer = some answer ∧
          clientAnswerSchema input = some answer ∧ answer.kind = question.kind ∧
          question.Takes answer) ↔
      ∀ value, question.defaultAnswer = some (.number value) → Finite value := by
  rcases hanswer : question.defaultAnswer with _ | answer
  · simp [Question.raw, hanswer]
  · obtain ⟨hwell, hkind, htakes⟩ := h.defaultAnswer answer hanswer
    simp only [Question.raw, hanswer, map_some, some.injEq, exists_eq_left', hkind,
      htakes, and_true]
    constructor
    · rintro hread value rfl
      by_contra hvalue
      rw [clientAnswerSchema_stored_infinite hvalue] at hread
      contradiction
    · intro hfinite
      rw [stored_answer hfinite, clientAnswerSchema_value hwell]

/-- **A question is read as it was stored** exactly if its numbers are finite. -/
theorem normalizeQuestion_raw_iff (h : question.WellFormed) :
    normalizeQuestion runtime index question.raw = .ok question ↔ question.FiniteNumbers := by
  have hid : normalizeId (question.raw.givenId index) = question.questionId :=
    h.questionId.normalizeId
  have hmaxLength : question.maxLength.or
      (if question.kind = .text then some defaultTextMaxLength else none) =
      question.maxLength := by
    rcases hmax : question.maxLength with _ | n
    · rw [if_neg fun htext => h.textLength htext hmax]
      rfl
    · rfl
  -- everything but the numbers is as it was
  have hfields : question.raw.normalized question.questionId question.choices =
      { question with
        defaultAnswer := none
        min := question.min.bind finitePart
        max := question.max.bind finitePart
        step := question.step.bind finitePart } := by
    simp only [RawQuestion.normalized, Question.raw, h.label.2, map_trim_of_trimmed h.helpText,
      map_trim_of_trimmed h.placeholder, map_trim_of_trimmed h.unit, getD_some]
    congr 1
    simp
  have hnumbers : question =
      { { question with
          defaultAnswer := none
          min := question.min.bind finitePart
          max := question.max.bind finitePart
          step := question.step.bind finitePart } with
        defaultAnswer := question.defaultAnswer } ↔
      (∀ n ∈ question.min, Finite n) ∧ (∀ n ∈ question.max, Finite n) ∧
        ∀ n ∈ question.step, Finite n := by
    rw [← bind_finitePart_iff, ← bind_finitePart_iff, ← bind_finitePart_iff]
    constructor
    · intro heq
      exact ⟨(congrArg Question.min heq).symm, (congrArg Question.max heq).symm,
        (congrArg Question.step heq).symm⟩
    · rintro ⟨hmin, hmax, hstep⟩
      rw [hmin, hmax, hstep]
  rw [normalizeQuestion_eq_ok]
  simp only [normalizeChoices_raw h, Except.ok.injEq, exists_eq_left', hid, hfields]
  refine (and_congr hnumbers h.defaultAnswer_raw).trans ⟨?_, ?_⟩
  · rintro ⟨⟨hmin, hmax, hstep⟩, hanswer⟩
    exact ⟨hmin, hmax, hstep, hanswer⟩
  · intro hfinite
    exact ⟨⟨hfinite.min, hfinite.max, hfinite.step⟩, hfinite.defaultAnswer⟩

/-! ### Stored requests -/

theorem rawRequestSchema_stored (h : request.WellFormed) :
    rawRequestSchema (stored request.value) = some {
      title := request.title
      body := request.body
      submitLabel := request.submitLabel
      skipAllLabel := request.skipAllLabel
      questions := request.questions.map Question.raw } := by
  have hstrings (name : String) (a : Option Text) :
      storedFields (field name .string a) = field name .string a :=
    storedFields_field fun _ _ => rfl
  have hquestions : arrayOf rawQuestionSchema
      (stored (.array (request.questions.map Question.value))) =
      some (request.questions.map Question.raw) := by
    rw [stored_array, List.map_map]
    exact arrayOf_map fun q hq => rawQuestionSchema_stored (h.questions q hq)
  have hne : request.questions.map Question.raw ≠ [] := by
    rw [ne_eq, List.map_eq_nil_iff]
    exact h.ne_nil
  have hhead : storedFields [("schema", .string requestSchemaName)] =
      [("schema", .string requestSchemaName)] := rfl
  have hrest : storedFields [("questions", .array (request.questions.map Question.value))] =
      [("questions", stored (.array (request.questions.map Question.value)))] := rfl
  rw [Request.value, stored_object]
  simp only [storedFields_append, hstrings, hhead, hrest]
  simp only [rawRequestSchema, get_append, get_cons, get_nil, get_field, String.reduceEq, if_true,
    if_false, none_or, or_none, optional_trimmedString h.title,
    optional_trimmedString h.body, optional_trimmedString h.submitLabel,
    optional_trimmedString h.skipAllLabel, hquestions, if_neg hne, bind_some,
    bind_eq_bind]
  rfl

def Request.FiniteNumbers (request : Request) : Prop :=
  ∀ question ∈ request.questions, question.FiniteNumbers

theorem normalize_stored_iff (h : request.WellFormed) (hid : request.requestId = none)
    (requestId : Text) : normalizeAskUserQuestionsRequest runtime
        (jsonCopy (attachRequestIdToAskUserQuestionsRequest request requestId).value) =
      .ok request ↔ request.FiniteNumbers := by
  have hattached : (attachRequestIdToAskUserQuestionsRequest request requestId).WellFormed :=
    { h with }
  have hquestions : List.Forall₂
      (fun x question => normalizeQuestion runtime x.2 x.1 = .ok question)
      ((request.questions.map Question.raw).zipIdx 0) request.questions ↔
      request.FiniteNumbers := by
    have hplace : ∀ (questions : List Question) (index : ℕ), (∀ q ∈ questions, q.WellFormed) →
        (List.Forall₂ (fun x question => normalizeQuestion runtime x.2 x.1 = .ok question)
          ((questions.map Question.raw).zipIdx index) questions ↔
          ∀ q ∈ questions, q.FiniteNumbers) := by
      intro questions
      induction questions with
      | nil => simp
      | cons q questions ih =>
        intro index hall
        rw [List.map_cons, List.zipIdx_cons, List.forall₂_cons, List.forall_mem_cons,
          normalizeQuestion_raw_iff (hall q List.mem_cons_self),
          ih (index + 1) fun p hp => hall p (List.mem_cons_of_mem q hp)]
    exact hplace request.questions 0 h.questions
  rw [normalize_eq_ok]
  change (∃ raw, rawRequestSchema (stored _) = some raw ∧ _) ↔ _
  simp only [rawRequestSchema_stored hattached, some.injEq, exists_eq_left']
  simp only [attachRequestIdToAskUserQuestionsRequest, hquestions, map_trim_of_trimmed h.title,
    map_trim_of_trimmed h.body, map_trim_of_trimmed h.submitLabel,
    map_trim_of_trimmed h.skipAllLabel, h.nodup, hid, and_true]

/-- **A request is read as it was stored** exactly if its numbers are finite. -/
theorem parseStored_iff (h : request.WellFormed) (hid : request.requestId = none)
    (hne : requestId ≠ []) : parseStoredAskUserQuestionsRequest runtime
        (jsonCopy (attachRequestIdToAskUserQuestionsRequest request requestId).value) =
      .ok (attachRequestIdToAskUserQuestionsRequest request requestId) ↔
        request.FiniteNumbers := by
  rw [← @normalize_stored_iff runtime request h hid requestId]
  set input := jsonCopy (attachRequestIdToAskUserQuestionsRequest request requestId).value
    with hinput
  obtain ⟨fields, hfields, hschema, hrequestId⟩ : ∃ fields, input = .object fields ∧
      get fields "schema" = some (.string requestSchemaName) ∧
      get fields "request_id" = some (.string requestId) := by
    refine ⟨_, rfl, ?_, ?_⟩
    · simp [get_jsonCopyFields, get_cons, jsonCopy]
    · simp [get_jsonCopyFields, get_append, get_cons, get_field, jsonCopy,
        attachRequestIdToAskUserQuestionsRequest]
  have hkept : (asString (some (.string requestId))).filter (· ≠ []) = some requestId := by
    simp [asString, hne]
  have hasked : asString (some (.string requestSchemaName)) = some requestSchemaName := rfl
  rw [hfields, parseStoredAskUserQuestionsRequest, hschema, hrequestId, if_pos hasked, hkept,
    bind_eq_ok, ← hfields]
  constructor
  · rintro ⟨read, hread, heq⟩
    obtain ⟨_, -, -, -, hnone, -⟩ := normalize_eq_ok.mp hread
    have hsame : { read with requestId := some requestId } =
        { request with requestId := some requestId } := Except.ok.inj heq
    have hread' : read = request := by
      obtain ⟨_, _, _, _, _, _⟩ := read
      obtain ⟨_, _, _, _, _, _⟩ := request
      simp_all
    rw [hread, hread']
  · intro hread
    exact ⟨request, hread, rfl⟩

/-! ### The numbers of the arguments -/

def FiniteAt (fields : Fields) (name : String) : Prop :=
  ∀ n, get fields name = some (.number n) → Finite n

theorem finiteAt_of_none (h : get fields name = none) : FiniteAt fields name := by
  intro n hn
  rw [h] at hn
  contradiction

structure FiniteQuestionFields (fields : Fields) : Prop where
  min : FiniteAt fields "min"
  max : FiniteAt fields "max"
  step : FiniteAt fields "step"
  defaultAnswer : ∀ answer, get fields "default_answer" = some (.object answer) →
    get answer "kind" = some (.string (lit "number")) → FiniteAt answer "value"

/-- No bound, no step and no default answer of the arguments is an infinite number. -/
def FiniteNumbers (input : Value) : Prop :=
  ∀ fields questions, stripNullFields input = .object fields →
    get fields "questions" = some (.array questions) →
      ∀ question, .object question ∈ questions → FiniteQuestionFields question

theorem number_of_optional {value : Option Value}
    (hschema : ∀ v n, schema v = some n → v = .number n) (h : optional schema value = some a) :
    (∀ n ∈ a, Finite n) ↔
      ∀ n, value = some (.number n) → Finite n := by
  rcases optional_eq_some.mp h with ⟨rfl, rfl⟩ | ⟨v, n, rfl, hn, rfl⟩
  · simp
  · obtain rfl := hschema v n hn
    simp

theorem anyNumber_eq_some (h : anyNumber value = some n) : value = .number n := by
  cases value with
  | number m => exact congrArg Value.number (some.inj h)
  | _ => contradiction

theorem number_of_positiveNumber (h : positiveNumber value = some n) : value = .number n := by
  cases value with
  | number m =>
    rw [positiveNumber] at h
    split at h
    next => exact congrArg Value.number (some.inj h)
    next => contradiction
  | _ => contradiction

theorem numbers_of_rawQuestionSchema (h : rawQuestionSchema value = some raw) :
    ∃ fields, value = .object fields ∧
      ((∀ n ∈ raw.min, Finite n) ↔ FiniteAt fields "min") ∧
      ((∀ n ∈ raw.max, Finite n) ↔ FiniteAt fields "max") ∧
      ((∀ n ∈ raw.step, Finite n) ↔ FiniteAt fields "step") ∧
      raw.defaultAnswer = get fields "default_answer" := by
  cases value with
  | object fields =>
    rw [rawQuestionSchema] at h
    iterate 11 obtain ⟨_, -, h⟩ := bind_eq_some_iff.mp h
    obtain ⟨min, hmin, h⟩ := bind_eq_some_iff.mp h
    obtain ⟨max, hmax, h⟩ := bind_eq_some_iff.mp h
    obtain ⟨step, hstep, h⟩ := bind_eq_some_iff.mp h
    obtain ⟨_, -, h⟩ := bind_eq_some_iff.mp h
    obtain rfl := some.inj h
    exact ⟨fields, rfl, number_of_optional (fun _ _ => anyNumber_eq_some) hmin,
      number_of_optional (fun _ _ => anyNumber_eq_some) hmax,
      number_of_optional (fun _ _ => number_of_positiveNumber) hstep, rfl⟩
  | _ => contradiction

theorem kindSchema_eq_some : kindSchema value = some kind ↔ value = .string (lit kind.name) := by
  constructor
  · intro h
    cases value with
    | string s =>
      have hname := List.find?_some h
      rw [decide_eq_true_eq] at hname
      rw [hname]
    | _ => contradiction
  · rintro rfl
    exact kindSchema_name kind

theorem clientAnswerSchema_number {answer : Answer} (h : clientAnswerSchema value = some answer)
    (n : Number) : answer = .number n ↔ ∃ fields, value = .object fields ∧
      get fields "kind" = some (.string (lit "number")) ∧
      get fields "value" = some (.number n) := by
  cases value with
  | object fields =>
    obtain ⟨kind, hkind, h⟩ := bind_eq_some_iff.mp h
    obtain ⟨kindValue, hget, hkind⟩ := bind_eq_some_iff.mp hkind
    rw [kindSchema_eq_some.mp hkind] at hget
    have hname : lit kind.name = lit "number" ↔ kind = .number := by
      cases kind <;> decide
    simp only [Value.object.injEq, exists_eq_left', hget, some.injEq, Value.string.injEq, hname]
    cases kind with
    | number =>
      obtain ⟨m, hm, rfl⟩ := map_eq_some_iff.mp h
      obtain ⟨v, hv, hm⟩ := bind_eq_some_iff.mp hm
      rw [anyNumber_eq_some hm] at hv
      simp [hv]
    | boolean | text | singleChoice =>
      obtain ⟨_, -, rfl⟩ := map_eq_some_iff.mp h
      simp
    | multiChoice =>
      obtain ⟨_, -, h⟩ := bind_eq_some_iff.mp h
      split at h
      next => contradiction
      next =>
        obtain rfl := some.inj h
        simp
  | _ => contradiction

theorem finiteNumbers_question_iff (hraw : rawQuestionSchema value = some raw)
    (h : normalizeQuestion runtime index raw = .ok question) :
    (∀ fields, value = .object fields → FiniteQuestionFields fields) ↔
      question.FiniteNumbers := by
  obtain ⟨fields, rfl, hmin, hmax, hstep, hanswer⟩ := numbers_of_rawQuestionSchema hraw
  obtain ⟨choices, -, heq, hdefault⟩ := normalizeQuestion_eq_ok.mp h
  have hsame : question.min = raw.min ∧ question.max = raw.max ∧ question.step = raw.step := by
    rw [heq]
    exact ⟨rfl, rfl, rfl⟩
  have hnumber : (∀ n, question.defaultAnswer = some (.number n) → Finite n) ↔
      ∀ answer, get fields "default_answer" = some (.object answer) →
        get answer "kind" = some (.string (lit "number")) → FiniteAt answer "value" := by
    rcases hinput : raw.defaultAnswer with _ | input
    · rw [hinput] at hdefault hanswer
      have hnone : question.defaultAnswer = none := hdefault
      simp [hnone, ← hanswer]
    · rw [hinput] at hdefault hanswer
      obtain ⟨answer, hsome, hschema, -⟩ := hdefault
      simp only [hsome, some.injEq, clientAnswerSchema_number hschema, ← hanswer]
      exact ⟨fun h answer hin hk n hn => h n ⟨answer, hin, hk, hn⟩,
        fun h n ⟨answer, hin, hk, hn⟩ => h answer hin hk n hn⟩
  simp only [Value.object.injEq, forall_eq']
  constructor
  · intro hfinite
    exact ⟨hsame.1 ▸ hmin.mpr hfinite.min, hsame.2.1 ▸ hmax.mpr hfinite.max,
      hsame.2.2 ▸ hstep.mpr hfinite.step, hnumber.mpr hfinite.defaultAnswer⟩
  · intro hfinite
    exact ⟨hmin.mp (hsame.1 ▸ hfinite.min), hmax.mp (hsame.2.1 ▸ hfinite.max),
      hstep.mp (hsame.2.2 ▸ hfinite.step), hnumber.mp hfinite.defaultAnswer⟩

theorem finiteNumbers_iff (h : normalizeAskUserQuestionsRequest runtime input = .ok request) :
    FiniteNumbers input ↔ request.FiniteNumbers := by
  obtain ⟨raw, hraw, hall, -⟩ := normalize_eq_ok.mp h
  obtain ⟨fields, values, hstrip, hget, hvalues⟩ : ∃ fields values,
      stripNullFields input = .object fields ∧ get fields "questions" = some (.array values) ∧
        List.Forall₂ (fun v q => rawQuestionSchema v = some q) values raw.questions := by
    rcases hstrip : stripNullFields input with _ | _ | _ | _ | _ | fields <;> rw [hstrip] at hraw
    case object =>
      rw [rawRequestSchema] at hraw
      obtain ⟨_, -, hraw⟩ := bind_eq_some_iff.mp hraw
      obtain ⟨_, -, hraw⟩ := bind_eq_some_iff.mp hraw
      obtain ⟨_, -, hraw⟩ := bind_eq_some_iff.mp hraw
      obtain ⟨_, -, hraw⟩ := bind_eq_some_iff.mp hraw
      obtain ⟨questions, hquestions, hraw⟩ := bind_eq_some_iff.mp hraw
      obtain ⟨_, hget, hquestions⟩ := bind_eq_some_iff.mp hquestions
      obtain ⟨values, rfl, hvalues⟩ := arrayOf_eq_some.mp hquestions
      split at hraw
      next => contradiction
      next =>
        obtain rfl := some.inj hraw
        exact ⟨fields, values, rfl, hget, hvalues⟩
    all_goals contradiction
  have hstep : ∀ {values : List Value} {raws : List RawQuestion} {questions : List Question}
      {index : ℕ}, List.Forall₂ (fun v q => rawQuestionSchema v = some q) values raws →
      List.Forall₂ (fun x question => normalizeQuestion runtime x.2 x.1 = .ok question)
        (raws.zipIdx index) questions →
      ((∀ v ∈ values, ∀ fields, v = .object fields → FiniteQuestionFields fields) ↔
        ∀ q ∈ questions, q.FiniteNumbers) := by
    intro values raws questions index hvalues
    induction hvalues generalizing questions index with
    | nil =>
      intro hquestions
      obtain rfl := List.forall₂_nil_left_iff.mp hquestions
      simp
    | cons hv _ ih =>
      intro hquestions
      rw [List.zipIdx_cons] at hquestions
      obtain ⟨q, rest, hq, hrest, rfl⟩ := List.forall₂_cons_left_iff.mp hquestions
      rw [List.forall_mem_cons, List.forall_mem_cons, ih hrest, finiteNumbers_question_iff hv hq]
  rw [Request.FiniteNumbers, ← hstep hvalues hall]
  constructor
  · rintro hfinite _ hv question rfl
    exact hfinite fields values hstrip hget question hv
  · intro hfinite fields' values' hstrip' hget' question hv
    obtain rfl := Value.object.inj (hstrip.symm.trans hstrip')
    obtain rfl := Value.array.inj (some.inj (hget.symm.trans hget'))
    exact hfinite _ hv question rfl

/-! ### Responses -/

/-- The answers to a question that a response is made of. -/
inductive ResponseAnswer.Settles (question : Question) : ResponseAnswer → Prop where
  | skipped (reason : SkipReason) :
      Settles question ⟨question.questionId, .skipped, none, some reason⟩
  | answered {answer : Answer} (hwell : answer.WellFormed) (hkind : answer.kind = question.kind)
      (htakes : question.Takes answer) :
      Settles question ⟨question.questionId, .answered, some answer, none⟩

theorem ResponseAnswer.Settles.questionId (h : answer.Settles question) :
    answer.questionId = question.questionId := by
  cases h <;> rfl

theorem questionIds_of_settles
    (h : List.Forall₂ (fun q a => ResponseAnswer.Settles q a) questions answers) :
    answers.map (·.questionId) = questions.map (·.questionId) := by
  induction h with
  | nil => rfl
  | cons hsettle _ ih => rw [List.map_cons, List.map_cons, ih, hsettle.questionId]

theorem settles_of_normalizeAnswer (h : normalizeAnswer runtime answers question = .ok answer) :
    answer.Settles question := by
  simp only [normalizeAnswer] at h
  rcases hfound : answerFor answers question.questionId with _ | found <;> rw [hfound] at h
  · obtain rfl := Except.ok.inj h
    exact .skipped .userSkipped
  · dsimp only at h
    split at h
    next =>
      obtain rfl := Except.ok.inj h
      exact .skipped _
    next =>
      rcases hgiven : found.answer with _ | given <;> rw [hgiven] at h
      · contradiction
      · obtain ⟨validated, hvalidated, h⟩ := ok_of_bind h
        obtain ⟨hschema, hkind, htakes⟩ := validateAnswerForQuestion_eq_ok.mp hvalidated
        obtain rfl := Except.ok.inj h
        exact .answered (wellFormed_of_clientAnswerSchema hschema) hkind htakes

theorem normalizeAnswer_of_settles (h : answer.Settles question)
    (hfound : answerFor answers question.questionId = some answer) :
    normalizeAnswer runtime answers question = .ok answer := by
  rw [normalizeAnswer, hfound]
  cases h with
  | skipped reason => rfl
  | @answered given hwell hkind htakes =>
    have hvalid : validateAnswerForQuestion runtime question given.value "invalid_answer" =
        .ok given :=
      validateAnswerForQuestion_eq_ok.mpr ⟨clientAnswerSchema_value hwell, hkind, htakes⟩
    simp [hvalid, bind, Except.bind, pure, Except.pure]

theorem responseAnswerSchema_value (h : answer.Settles question)
    (hid : Trimmed question.questionId) : responseAnswerSchema answer.value = some answer := by
  have hstatus (status : Status) :
      enumeration [.answered, .skipped] Status.name (.string (lit status.name)) = some status := by
    cases status <;> decide
  have hreason (reason : SkipReason) :
      enumeration [.userSkipped, .notApplicable, .unknown] SkipReason.name
        (.string (lit reason.name)) = some reason := by
    cases reason <;> decide
  rw [ResponseAnswer.value]
  simp only [responseAnswerSchema, get_append, get_cons, get_nil, get_field, String.reduceEq,
    if_true, if_false, none_or, or_none, bind_some, bind_eq_bind,
    hstatus]
  cases h with
  | skipped reason =>
    simp only [trimmedString_of_trimmed hid, map_none, map_some, optional_none,
      optional_some (hreason reason), bind_some]
    rfl
  | answered hwell hkind htakes =>
    simp only [trimmedString_of_trimmed hid, map_none, map_some, optional_none,
      optional_some (clientAnswerSchema_value hwell), bind_some]
    rfl

theorem checkAnswersFrom_eq_ok : checkAnswersFrom seen answers = .ok () ↔
      (answers.map (·.questionId)).Nodup ∧ ∀ a ∈ answers, a.questionId ∉ seen := by
  induction answers generalizing seen with
  | nil => simp [checkAnswersFrom]
  | cons answer answers ih =>
    rw [checkAnswersFrom, check_bind_eq_ok, unseen_eq_ok, ih]
    simp only [List.map_cons, List.nodup_cons, List.mem_map, List.mem_cons, not_or,
      forall_eq_or_imp]
    constructor
    · rintro ⟨hnew, hnodup, hrest⟩
      exact ⟨⟨fun ⟨a, ha, hid⟩ => (hrest a ha).1 hid, hnodup⟩, hnew, fun a ha => (hrest a ha).2⟩
    · rintro ⟨⟨hhead, hnodup⟩, hnew, hrest⟩
      exact ⟨hnew, hnodup, fun a ha => ⟨fun hid => hhead ⟨a, ha, hid⟩, hrest a ha⟩⟩

theorem answerFor_of_mem (hnodup : (answers.map (·.questionId)).Nodup) (h : answer ∈ answers) :
    answerFor answers answer.questionId = some answer := by
  induction answers with
  | nil => exact absurd h List.not_mem_nil
  | cons head answers ih =>
    obtain ⟨hhead, hnodup⟩ := List.nodup_cons.mp hnodup
    rw [answerFor, List.find?_cons]
    rcases List.mem_cons.mp h with rfl | h
    · simp
    · have hne : head.questionId ≠ answer.questionId :=
        fun heq => hhead (List.mem_map.mpr ⟨answer, h, heq.symm⟩)
      simp only [hne, decide_false]
      exact ih hnodup h

theorem uuid_of_clientResponseSchema (h : clientResponseSchema value = some response) :
    uuid (.string response.clientResponseId) = some response.clientResponseId := by
  cases value with
  | object fields =>
    rw [clientResponseSchema] at h
    split at h
    next =>
      obtain ⟨id, hid, h⟩ := bind_eq_some_iff.mp h
      obtain ⟨answers, -, h⟩ := bind_eq_some_iff.mp h
      obtain rfl := some.inj h
      obtain ⟨idValue, -, hid⟩ := bind_eq_some_iff.mp hid
      cases idValue with
      | string s =>
        have hs : s = id := by
          rw [uuid] at hid
          split at hid
          next => exact some.inj hid
          next => contradiction
        rwa [hs] at hid
      | _ => contradiction
    next => contradiction
  | _ => contradiction

/-- **Responses are stable**: what has been validated is validated again as it is. -/
theorem validate_value (hrequest : request.WellFormed)
    (h : validateAskUserQuestionsResponse runtime input request = .ok response) :
    validateAskUserQuestionsResponse runtime response.value request = .ok response := by
  obtain ⟨raw, hraw, h⟩ := ok_of_bind h
  obtain ⟨-, h⟩ := check_bind_eq_ok.mp h
  obtain ⟨-, h⟩ := check_bind_eq_ok.mp h
  obtain ⟨answers, hanswers, h⟩ := ok_of_bind h
  obtain rfl := Except.ok.inj h
  have hsettles : List.Forall₂ (fun q a => ResponseAnswer.Settles q a) request.questions answers :=
    (mapM_eq_ok.mp hanswers).imp fun _ _ => settles_of_normalizeAnswer
  have hids : answers.map (·.questionId) = request.questions.map (·.questionId) :=
    questionIds_of_settles hsettles
  have huuid : uuid (.string raw.clientResponseId) = some raw.clientResponseId := by
    rcases hschema : clientResponseSchema input with _ | read <;> rw [hschema] at hraw
    · contradiction
    · obtain rfl := Except.ok.inj hraw
      exact uuid_of_clientResponseSchema hschema
  have hschemas : arrayOf responseAnswerSchema (.array (answers.map ResponseAnswer.value)) =
      some answers := by
    rw [arrayOf_map (g := id), List.map_id]
    intro a ha
    obtain ⟨q, hq, hsettle⟩ := Pointwise.mem_right hsettles ha
    exact responseAnswerSchema_value hsettle (hrequest.questions q hq).questionId.trimmed
  have hread : clientResponseSchema (Response.value ⟨raw.clientResponseId, answers⟩) =
      some ⟨raw.clientResponseId, answers⟩ := by
    simp only [Response.value, clientResponseSchema, get_cons, get_nil, String.reduceEq, if_true,
      if_false, asString, bind_some, huuid, hschemas, bind_eq_bind]
    rfl
  have hnodup : (answers.map (·.questionId)).Nodup := hids ▸ hrequest.nodup
  rw [validateAskUserQuestionsResponse, hread, parsed, bind_eq_ok]
  refine ⟨_, rfl, ?_⟩
  rw [check_bind_eq_ok, check_bind_eq_ok, bind_eq_ok]
  refine ⟨checkAnswersFrom_eq_ok.mpr ⟨hnodup, fun _ _ => List.not_mem_nil⟩, ?_, answers, ?_, rfl⟩
  · refine (forM_eq_ok answers).mpr fun a ha => ?_
    rw [if_pos (hids ▸ List.mem_map_of_mem ha)]
  · rw [mapM_eq_ok]
    have hall : ∀ {questions : List Question} {part : List ResponseAnswer},
        List.Forall₂ (fun q a => ResponseAnswer.Settles q a) questions part → part ⊆ answers →
        List.Forall₂ (fun q a => normalizeAnswer runtime answers q = .ok a) questions part := by
      intro questions part hpart
      induction hpart with
      | nil => exact fun _ => .nil
      | cons hsettle _ ih =>
        intro hsub
        obtain ⟨hmem, hsub⟩ := List.cons_subset.mp hsub
        refine .cons (normalizeAnswer_of_settles hsettle ?_) (ih hsub)
        rw [← hsettle.questionId]
        exact answerFor_of_mem hnodup hmem
    exact hall hsettles (List.Subset.refl answers)

/-! ### The contract -/

/-- What becomes of a request that is stored, of the responses to it, and of what the model is told
of them. -/
structure Stable (runtime : Runtime) (request : Request) : Prop where
  stored : ∀ requestId, requestId ≠ [] →
    parseStoredAskUserQuestionsRequest runtime
      (jsonCopy (attachRequestIdToAskUserQuestionsRequest request requestId).value) =
        .ok (attachRequestIdToAskUserQuestionsRequest request requestId)
  response : ∀ input response,
    validateAskUserQuestionsResponse runtime input request = .ok response →
      validateAskUserQuestionsResponse runtime response.value request = .ok response
  toolResult : ∀ response requestId,
    (buildAskUserQuestionsToolResult runtime request response requestId).responses.map
      (·.questionId) = request.questions.map (·.questionId)

/-- **The contract is stable** exactly if the arguments have no infinite number. -/
theorem question_contract_stable_iff {runtime : Runtime} {input : Value} {request : Request}
    (h : normalizeAskUserQuestionsRequest runtime input = .ok request) :
    Stable runtime request ↔ FiniteNumbers input := by
  have hwell := wellFormed_of_normalize h
  obtain ⟨_, -, -, -, hid, -⟩ := normalize_eq_ok.mp h
  rw [finiteNumbers_iff h]
  constructor
  · intro hstable
    have hne : lit "request" ≠ [] := by decide
    exact (parseStored_iff hwell hid hne).mp (hstable.stored _ hne)
  · intro hfinite
    refine ⟨fun requestId hne => (parseStored_iff hwell hid hne).mpr hfinite,
      fun _ _ => validate_value hwell, fun response requestId => ?_⟩
    rw [buildAskUserQuestionsToolResult, List.map_map]
    rfl

/-- The arguments with a single question, that asks for a number and has a default answer. -/
def numberQuestion (value : Number) : Value :=
  .object [("questions", .array [.object [("kind", .string (lit "number")),
    ("label", .string (lit "How many?")),
    ("default_answer", .object [("kind", .string (lit "number")), ("value", .number value)])]])]

/-- A default answer that is infinite is accepted. It is stored as `null`, and the request cannot
be read any more. -/
theorem infinite_default_is_lost :
    ∃ request, normalizeAskUserQuestionsRequest ⟨fun _ => lit "Infinity"⟩ (numberQuestion ⊤) =
        .ok request ∧
      parseStoredAskUserQuestionsRequest ⟨fun _ => lit "Infinity"⟩
        (jsonCopy (attachRequestIdToAskUserQuestionsRequest request (lit "r1")).value) =
          .error ⟨"invalid_default_answer", none⟩ :=
  ⟨_, rfl, by decide +kernel⟩

theorem question_contract_stable_seven :
    ∃ request, normalizeAskUserQuestionsRequest ⟨fun _ => lit "7"⟩ (numberQuestion (number 7)) =
        .ok request ∧
      (Stable ⟨fun _ => lit "7"⟩ request ↔ FiniteNumbers (numberQuestion (number 7))) ∧
      FiniteNumbers (numberQuestion (number 7)) := by
  refine ⟨_, rfl, question_contract_stable_iff rfl, ?_⟩
  rintro _ _ ⟨⟩ ⟨⟩ question hmem
  obtain rfl := Value.object.inj (List.mem_singleton.mp hmem)
  refine ⟨finiteAt_of_none rfl, finiteAt_of_none rfl, finiteAt_of_none rfl, ?_⟩
  rintro _ ⟨⟩ - n ⟨⟩
  exact ⟨7, rfl⟩

end Bud.Questions
