import Bud.Agent.QuestionContracts
import Bud.Lib.Pointwise
import Bud.Lib.Throws
import Bud.Lib.Trimming

/-!
# What a normalised request looks like

An id is in normal form if it is made of letters, digits, `-` and `_` and has no `_` at its ends.
Those are the ids that `normalizeId` leaves alone, and all that it returns. The other texts of a
normalised request are trimmed, the ids of its questions are distinct, and so are those of the
choices of a question, and a default answer is one that the question takes.
-/

namespace Bud.Questions

open JsText JsValue Throws Trimming List Option

/-! ### Texts -/

/-- A text as `z.string().trim().min(1)` returns it. -/
def Trimmed (s : Text) : Prop := s ≠ [] ∧ trim s = s

theorem trim_trim (s : Text) : trim (trim s) = trim s := trimBy_trimBy isSpace s

theorem trimmedString_string : trimmedString (.string s) = some t ↔ trim s ≠ [] ∧ trim s = t := by
  rw [trimmedString]
  split
  next h => simp [h]
  next h => simp [h]

variable {value input : Value} {α : Type} {schema : Value → Option α} {id : Text} {seen : List Text}
  {code : String} {index : ℕ} {question : Question} {runtime : Runtime} {answer : Answer}
  {raw : RawQuestion}

theorem trimmed_of_trimmedString (h : trimmedString value = some t) : Trimmed t := by
  cases value with
  | string s =>
    obtain ⟨hne, rfl⟩ := trimmedString_string.mp h
    exact ⟨hne, trim_trim s⟩
  | _ => contradiction

theorem trimmedString_of_trimmed (h : Trimmed s) : trimmedString (.string s) = some s :=
  trimmedString_string.mpr ⟨h.2.symm ▸ h.1, h.2⟩

theorem optional_eq_some {value : Option Value} : optional schema value = some a ↔
      (value = none ∧ a = none) ∨ ∃ v b, value = some v ∧ schema v = some b ∧ a = some b := by
  cases value with
  | none | some v => simp [optional, eq_comm]

theorem trimmed_of_optional {value : Option Value} (h : optional trimmedString value = some a) :
    ∀ t ∈ a, Trimmed t := by
  rcases optional_eq_some.mp h with ⟨-, rfl⟩ | ⟨v, b, -, hb, rfl⟩
  · exact fun t ht => absurd ht (not_mem_none t)
  · rintro t ⟨⟩
    exact trimmed_of_trimmedString hb

theorem map_trim_of_trimmed {a : Option Text} (h : ∀ t ∈ a, Trimmed t) : a.map trim = a := by
  cases a with
  | none => rfl
  | some t => exact congrArg some (h t rfl).2

/-! ### Ids -/

structure IsNormalId (id : Text) : Prop where
  ne_nil : id ≠ []
  units : ∀ u ∈ id, isIdUnit u = true
  tight : Tight (· = underscore) id

theorem not_isSpace_of_isIdUnit (h : isIdUnit u = true) : isSpace u = false := by
  simp only [isIdUnit, Bool.or_eq_true, Bool.and_eq_true, decide_eq_true_eq, beq_iff_eq] at h
  simp only [isSpace, Bool.or_eq_false_iff, Bool.and_eq_false_iff, decide_eq_false_iff_not,
    beq_eq_false_iff_ne, ne_eq]
  omega

theorem isIdUnit_of_mem_replaceRuns (s : Text) (h : u ∈ replaceRuns inRun s) :
    isIdUnit u = true := by
  induction s generalizing inRun with
  | nil => exact absurd h not_mem_nil
  | cons v s ih =>
    rw [replaceRuns] at h
    split at h
    next hv =>
      rcases mem_cons.mp h with rfl | h
      · exact hv
      · exact ih h
    next =>
      split at h
      next => exact ih h
      next =>
        rcases mem_cons.mp h with rfl | h
        · rfl
        · exact ih h

theorem replaceRuns_of_units (h : ∀ u ∈ s, isIdUnit u = true) (inRun : Bool) :
    replaceRuns inRun s = s := by
  induction s generalizing inRun with
  | nil => rfl
  | cons u s ih =>
    rw [replaceRuns, if_pos (h u mem_cons_self), ih fun v hv => h v (mem_cons_of_mem _ hv)]

theorem isNormalId_normalizeId (value : Text) : IsNormalId (normalizeId value) := by
  rw [normalizeId]
  split
  next =>
    exact ⟨by decide, all_eq_true.mp (by decide), by rintro _ ⟨⟩; decide, by rintro _ ⟨⟩; decide⟩
  next hne =>
    exact ⟨hne, fun u hu => isIdUnit_of_mem_replaceRuns _ (mem_of_mem_trimBy hu), tight_trimBy _ _⟩

theorem IsNormalId.trim_eq (h : IsNormalId id) : trim id = id :=
  trimBy_of_tight ⟨fun u hu => not_isSpace_of_isIdUnit (h.units u (mem_of_head? hu)),
    fun u hu => not_isSpace_of_isIdUnit (h.units u (mem_of_getLast? hu))⟩

theorem IsNormalId.trimmed (h : IsNormalId id) : Trimmed id := ⟨h.ne_nil, h.trim_eq⟩

theorem IsNormalId.normalizeId (h : IsNormalId id) : normalizeId id = id := by
  have hstrip : stripUnderscores id = id := trimBy_of_tight h.tight
  rw [Questions.normalizeId, h.trim_eq, replaceRuns_of_units h.units, hstrip]
  exact if_neg h.ne_nil

theorem normalizeId_eq_self_iff : normalizeId id = id ↔ IsNormalId id :=
  ⟨fun h => h ▸ isNormalId_normalizeId id, IsNormalId.normalizeId⟩

/-! ### Choices -/

theorem unseen_eq_ok {value : Text} : unseen seen value code message = .ok () ↔ value ∉ seen := by
  rw [unseen]
  split
  next h => simp [fail, h]
  next h => simp [h]

/-- `choice.choice_id ?? choice.id ?? …`. -/
def RawChoice.givenId (choice : RawChoice) (index : ℕ) : Text :=
  (choice.choiceId.or choice.id).getD (lit "choice_" ++ decimal (index + 1))

def RawChoice.normalized (choice : RawChoice) (index : ℕ) : Choice where
  choiceId := normalizeId (choice.givenId index)
  label := trim choice.label
  description := choice.description.map trim

def normalizedChoices (choices : List RawChoice) (index : ℕ) : List Choice :=
  (choices.zipIdx index).map fun x => x.1.normalized x.2

theorem normalizeChoicesFrom_eq_ok :
    normalizeChoicesFrom seen index choices = .ok normalized ↔
      normalized = normalizedChoices choices index ∧
        (normalized.map (·.choiceId)).Nodup ∧ ∀ c ∈ normalized, c.choiceId ∉ seen := by
  induction choices generalizing seen index normalized with
  | nil =>
    constructor
    · intro h
      obtain rfl := Except.ok.inj h
      exact ⟨rfl, nodup_nil, fun c hc => absurd hc not_mem_nil⟩
    · rintro ⟨rfl, -⟩
      rfl
  | cons choice choices ih =>
    have hcons : normalizedChoices (choice :: choices) index =
        choice.normalized index :: normalizedChoices choices (index + 1) := rfl
    rw [normalizeChoicesFrom, check_bind_eq_ok, unseen_eq_ok, hcons]
    simp only [bind_eq_ok, ih]
    constructor
    · rintro ⟨hnew, rest, ⟨rfl, hnodup, hseen⟩, ⟨⟩⟩
      refine ⟨rfl, nodup_cons.mpr ⟨fun hmem => ?_, hnodup⟩, fun c hc => ?_⟩
      · obtain ⟨c, hc, hid⟩ := mem_map.mp hmem
        exact hseen c hc (hid ▸ mem_cons_self)
      · rcases mem_cons.mp hc with rfl | hc
        · exact hnew
        · exact fun h => hseen c hc (mem_cons_of_mem _ h)
    · rintro ⟨rfl, hnodup, hseen⟩
      obtain ⟨hhead, hnodup⟩ := nodup_cons.mp hnodup
      refine ⟨hseen _ mem_cons_self, _, ⟨rfl, hnodup, fun c hc h => ?_⟩, rfl⟩
      rcases mem_cons.mp h with heq | h
      · exact hhead (mem_map.mpr ⟨c, hc, heq⟩)
      · exact hseen c (mem_cons_of_mem _ hc) h

def Kind.choosing : Kind → Bool
  | .singleChoice | .multiChoice => true
  | .boolean | .text | .number => false

theorem normalizeChoices_eq_ok {question : RawQuestion} {choices : Option (List Choice)} :
    normalizeChoices question = .ok choices ↔
      (question.kind.choosing = false ∧ choices = none) ∨
        question.kind.choosing = true ∧ ∃ given normalized, question.choices = some given ∧
          given ≠ [] ∧ choices = some normalized ∧
          normalized = normalizedChoices given 0 ∧ (normalized.map (·.choiceId)).Nodup := by
  have hkind : question.kind.choosing = true ↔
      ¬(question.kind ≠ .singleChoice ∧ question.kind ≠ .multiChoice) := by
    cases question.kind <;> simp [Kind.choosing]
  rw [normalizeChoices]
  split
  next h =>
    have hfalse : question.kind.choosing = false := by
      rw [← Bool.not_eq_true, hkind, not_not]
      exact h
    simp [hfalse, eq_comm]
  next h =>
    have htrue := hkind.mpr h
    rcases hgiven : question.choices with _ | _ | ⟨choice, rest⟩
    · simp [htrue, fail]
    · simp [htrue, fail]
    · simp only [htrue, Bool.true_eq_false, false_and, true_and, false_or, getD_some]
      constructor
      · intro hok
        obtain ⟨normalized, hfrom, rfl⟩ := ok_of_map hok
        obtain ⟨hnormalized, hnodup, -⟩ := normalizeChoicesFrom_eq_ok.mp hfrom
        exact ⟨_, normalized, rfl, cons_ne_nil _ _, rfl, hnormalized, hnodup⟩
      · rintro ⟨_, normalized, ⟨⟩, -, rfl, hnormalized, hnodup⟩
        rw [normalizeChoicesFrom_eq_ok.mpr ⟨hnormalized, hnodup, fun c _ => not_mem_nil⟩]
        rfl

/-! ### Answers -/

def Question.choiceIds (question : Question) : List Text :=
  (question.choices.getD []).map (·.choiceId)

def Question.Takes (question : Question) : Answer → Prop
  | .boolean _ => True
  | .singleChoice choiceId => choiceId ∈ question.choiceIds
  | .multiChoice choiceIds => choiceIds.Nodup ∧ ∀ id ∈ choiceIds, id ∈ question.choiceIds
  | .text value => question.minLength.getD 0 ≤ value.length ∧
      value.length ≤ question.maxLength.getD defaultTextMaxLength
  | .number value => (∀ least ∈ question.min, least ≤ value) ∧ ∀ most ∈ question.max, value ≤ most

theorem assertChoiceExists_eq_ok :
    assertChoiceExists question choiceId code = .ok () ↔ choiceId ∈ question.choiceIds := by
  rw [assertChoiceExists, Question.choiceIds]
  split
  next h => simpa using h
  next h => simpa [fail] using h

theorem checkAnswer_eq_ok : checkAnswer runtime question code answer = .ok () ↔
      question.Takes answer := by
  cases answer with
  | boolean => simp [checkAnswer, Question.Takes]
  | singleChoice choiceId => exact assertChoiceExists_eq_ok
  | multiChoice choiceIds =>
    rw [checkAnswer, Question.Takes]
    by_cases hnodup : choiceIds.Nodup
    · simp [hnodup, forM_eq_ok, assertChoiceExists_eq_ok]
    · simp [hnodup, fail, bind, Except.bind]
  | text value =>
    simp only [checkAnswer, Question.Takes]
    split
    next h => simp only [fail, reduceCtorEq, false_iff]; omega
    next h => simp only [true_iff]; omega
  | number value =>
    rw [checkAnswer, Question.Takes]
    cases question.max with
    | none =>
      cases question.min with
      | none => simp [pure, Except.pure]
      | some least =>
        by_cases hleast : value < least
        · simp [fail, hleast, bind, Except.bind]
        · simp [hleast, not_lt.mp hleast, pure, Except.pure]
    | some most =>
      by_cases hmost : value ≤ most
      · cases question.min with
        | none => simp [hmost, pure, Except.pure]
        | some least =>
          by_cases hleast : value < least
          · simp [fail, hleast, bind, Except.bind]
          · simp [hmost, hleast, not_lt.mp hleast, pure, Except.pure]
      · cases question.min with
        | none => simp [fail, hmost, not_le.mp hmost]
        | some least =>
          by_cases hleast : value < least
          · simp [fail, hleast, bind, Except.bind]
          · simp [fail, hmost, not_le.mp hmost, hleast]

theorem validateAnswerForQuestion_eq_ok :
    validateAnswerForQuestion runtime question input code = .ok answer ↔
      clientAnswerSchema input = some answer ∧ answer.kind = question.kind ∧
        question.Takes answer := by
  rw [validateAnswerForQuestion]
  rcases clientAnswerSchema input with _ | parsedAnswer
  · simp [parsed, bind, Except.bind]
  · by_cases hkind : parsedAnswer.kind = question.kind
    · rw [parsed, bind_eq_ok]
      constructor
      · rintro ⟨_, ⟨⟩, h⟩
        rw [if_neg (not_not_intro hkind), check_bind_eq_ok, checkAnswer_eq_ok] at h
        obtain ⟨htakes, ⟨⟩⟩ := h
        exact ⟨rfl, hkind, htakes⟩
      · rintro ⟨⟨⟩, -, htakes⟩
        refine ⟨_, rfl, ?_⟩
        rw [if_neg (not_not_intro hkind), check_bind_eq_ok, checkAnswer_eq_ok]
        exact ⟨htakes, rfl⟩
    · rw [parsed, bind_eq_ok]
      constructor
      · rintro ⟨_, ⟨⟩, h⟩
        rw [if_pos hkind] at h
        contradiction
      · rintro ⟨⟨⟩, h, -⟩
        exact absurd h hkind

/-! ### Questions -/

/-- What has been checked of a question that is accepted. -/
theorem normalizeQuestion_eq_ok : normalizeQuestion runtime index raw = .ok question ↔
      ∃ choices, normalizeChoices raw = .ok choices ∧
        question = { raw.normalized (normalizeId (raw.givenId index)) choices with
          defaultAnswer := question.defaultAnswer } ∧
        match raw.defaultAnswer with
        | none => question.defaultAnswer = none
        | some input => ∃ answer, question.defaultAnswer = some answer ∧
            clientAnswerSchema input = some answer ∧ answer.kind = question.kind ∧
            question.Takes answer := by
  rw [normalizeQuestion, bind_eq_ok]
  refine exists_congr fun choices => and_congr_right fun _ => ?_
  rcases raw.defaultAnswer with _ | input
  · constructor
    · rintro ⟨⟩
      exact ⟨rfl, rfl⟩
    · rintro ⟨heq, hnone⟩
      rw [hnone] at heq
      rw [heq]
      rfl
  · simp only [bind_eq_ok, validateAnswerForQuestion_eq_ok]
    constructor
    · rintro ⟨answer, ⟨hschema, hkind, htakes⟩, ⟨⟩⟩
      exact ⟨rfl, answer, rfl, hschema, hkind, htakes⟩
    · rintro ⟨heq, answer, hsome, hschema, hkind, htakes⟩
      rw [hsome] at heq
      subst heq
      exact ⟨answer, ⟨hschema, hkind, htakes⟩, rfl⟩

/-- The id of a question does not depend on its default answer, nor on its choices. -/
theorem questionId_of_normalizeQuestion (h : normalizeQuestion runtime index raw = .ok question) :
    question.questionId = normalizeId (raw.givenId index) := by
  obtain ⟨choices, -, heq, -⟩ := normalizeQuestion_eq_ok.mp h
  rw [heq]
  rfl

theorem normalizeQuestionsFrom_eq_ok :
    normalizeQuestionsFrom runtime seen index raws = .ok questions ↔
      Forall₂ (fun x question => normalizeQuestion runtime x.2 x.1 = .ok question)
        (raws.zipIdx index) questions ∧
        (questions.map (·.questionId)).Nodup ∧ ∀ q ∈ questions, q.questionId ∉ seen := by
  induction raws generalizing seen index questions with
  | nil =>
    constructor
    · intro h
      obtain rfl := Except.ok.inj h
      exact ⟨.nil, nodup_nil, fun q hq => absurd hq not_mem_nil⟩
    · rintro ⟨h, -⟩
      obtain rfl := forall₂_nil_left_iff.mp h
      rfl
  | cons raw raws ih =>
    rw [normalizeQuestionsFrom, check_bind_eq_ok, unseen_eq_ok, zipIdx_cons]
    simp only [bind_eq_ok, ih]
    constructor
    · rintro ⟨hnew, question, hquestion, rest, ⟨hall, hnodup, hseen⟩, ⟨⟩⟩
      have hid := questionId_of_normalizeQuestion hquestion
      refine ⟨.cons hquestion hall, nodup_cons.mpr ⟨fun hmem => ?_, hnodup⟩, fun q hq => ?_⟩
      · obtain ⟨q, hq, heq⟩ := mem_map.mp hmem
        exact hseen q hq (mem_cons.mpr (.inl (Eq.trans heq hid)))
      · rcases mem_cons.mp hq with rfl | hq
        · rw [hid]
          exact hnew
        · exact fun h => hseen q hq (mem_cons_of_mem _ h)
    · rintro ⟨hall, hnodup, hseen⟩
      obtain ⟨question, rest, hquestion, hrest, rfl⟩ := forall₂_cons_left_iff.mp hall
      have hid := questionId_of_normalizeQuestion hquestion
      obtain ⟨hhead, hnodup⟩ := nodup_cons.mp hnodup
      refine ⟨hid ▸ hseen _ mem_cons_self, question, hquestion, rest,
        ⟨hrest, hnodup, fun q hq h => ?_⟩, rfl⟩
      rcases mem_cons.mp h with heq | h
      · exact hhead (mem_map.mpr ⟨q, hq, heq.trans hid.symm⟩)
      · exact hseen q (mem_cons_of_mem _ hq) h

/-! ### What the schemas guarantee -/

theorem arrayOf_eq_some : arrayOf schema value = some as ↔
      ∃ values, value = .array values ∧ Forall₂ (fun v a => schema v = some a) values as := by
  cases value with
  | array values => simp [arrayOf, Pointwise.mapM_eq_some]
  | _ => simp [arrayOf]

theorem forall_of_forall₂ {β : Type} {R : α → β → Prop} {p : β → Prop} {bs : List β}
    (h : Forall₂ R as bs) (hp : ∀ a b, R a b → p b) : ∀ b ∈ bs, p b := by
  intro b hb
  obtain ⟨a, -, hab⟩ := Pointwise.mem_right h hb
  exact hp a b hab

structure RawChoice.WellFormed (raw : RawChoice) : Prop where
  label : Trimmed raw.label
  description : ∀ t ∈ raw.description, Trimmed t

theorem wellFormed_of_rawChoiceSchema {raw : RawChoice} (h : rawChoiceSchema value = some raw) :
    raw.WellFormed := by
  cases value with
  | object fields =>
    simp only [rawChoiceSchema, Option.bind_eq_bind, Option.bind_eq_some_iff, Option.pure_def,
      Option.some.injEq] at h
    obtain ⟨_, -, _, -, label, ⟨_, -, hlabel⟩, description, hdescription, rfl⟩ := h
    exact ⟨trimmed_of_trimmedString hlabel, trimmed_of_optional hdescription⟩
  | _ => contradiction

structure RawQuestion.WellFormed (raw : RawQuestion) : Prop where
  label : Trimmed raw.label
  helpText : ∀ t ∈ raw.helpText, Trimmed t
  placeholder : ∀ t ∈ raw.placeholder, Trimmed t
  unit : ∀ t ∈ raw.unit, Trimmed t
  choices : ∀ given ∈ raw.choices, ∀ choice ∈ given, choice.WellFormed
  maxLength : ∀ n ∈ raw.maxLength, 1 ≤ n
  step : ∀ n ∈ raw.step, number 0 < n

theorem integerFrom_eq_some {n : ℕ} (h : integerFrom least value = some n) : least ≤ n := by
  rw [integerFrom.eq_def] at h
  split at h
  next q =>
    split at h
    next hq =>
      obtain rfl := some.inj h
      omega
    next => contradiction
  next => contradiction

theorem positiveNumber_eq_some (h : positiveNumber value = some n) : number 0 < n := by
  cases value with
  | number m =>
    rw [positiveNumber] at h
    split at h
    next hm => exact some.inj h ▸ hm
    next => contradiction
  | _ => contradiction

theorem forall_of_optional {value : Option Value} {p : α → Prop}
    (h : optional schema value = some a) (hp : ∀ v b, schema v = some b → p b) : ∀ b ∈ a, p b := by
  rcases optional_eq_some.mp h with ⟨-, rfl⟩ | ⟨v, b, -, hb, rfl⟩
  · exact fun b hb => absurd hb (not_mem_none b)
  · rintro _ ⟨⟩
    exact hp v b hb

theorem wellFormed_of_rawQuestionSchema (h : rawQuestionSchema value = some raw) :
    raw.WellFormed := by
  cases value with
  | object fields =>
    rw [rawQuestionSchema] at h
    obtain ⟨_, -, h⟩ := bind_eq_some_iff.mp h
    obtain ⟨_, -, h⟩ := bind_eq_some_iff.mp h
    obtain ⟨_, -, h⟩ := bind_eq_some_iff.mp h
    obtain ⟨label, hlabel, h⟩ := bind_eq_some_iff.mp h
    obtain ⟨_, -, hlabel⟩ := bind_eq_some_iff.mp hlabel
    obtain ⟨helpText, hhelpText, h⟩ := bind_eq_some_iff.mp h
    obtain ⟨_, -, h⟩ := bind_eq_some_iff.mp h
    obtain ⟨choices, hchoices, h⟩ := bind_eq_some_iff.mp h
    obtain ⟨_, -, h⟩ := bind_eq_some_iff.mp h
    obtain ⟨placeholder, hplaceholder, h⟩ := bind_eq_some_iff.mp h
    obtain ⟨_, -, h⟩ := bind_eq_some_iff.mp h
    obtain ⟨maxLength, hmaxLength, h⟩ := bind_eq_some_iff.mp h
    obtain ⟨_, -, h⟩ := bind_eq_some_iff.mp h
    obtain ⟨_, -, h⟩ := bind_eq_some_iff.mp h
    obtain ⟨step, hstep, h⟩ := bind_eq_some_iff.mp h
    obtain ⟨unit, hunit, h⟩ := bind_eq_some_iff.mp h
    obtain rfl := some.inj h
    refine ⟨trimmed_of_trimmedString hlabel, trimmed_of_optional hhelpText,
      trimmed_of_optional hplaceholder, trimmed_of_optional hunit,
      forall_of_optional hchoices fun v given hgiven => ?_,
      forall_of_optional hmaxLength fun _ _ => integerFrom_eq_some,
      forall_of_optional hstep fun _ _ => positiveNumber_eq_some⟩
    obtain ⟨values, -, hall⟩ := arrayOf_eq_some.mp hgiven
    exact forall_of_forall₂ hall fun _ _ => wellFormed_of_rawChoiceSchema
  | _ => contradiction

/-- An answer as its schema returns it. -/
def Answer.WellFormed : Answer → Prop
  | .singleChoice choiceId => Trimmed choiceId
  | .multiChoice choiceIds => choiceIds ≠ [] ∧ ∀ id ∈ choiceIds, Trimmed id
  | .boolean _ | .text _ | .number _ => True

theorem wellFormed_of_clientAnswerSchema (h : clientAnswerSchema value = some answer) :
    answer.WellFormed := by
  cases value with
  | object fields =>
    obtain ⟨kind, -, h⟩ := bind_eq_some_iff.mp h
    cases kind with
    | boolean | number | text =>
      obtain ⟨_, -, rfl⟩ := map_eq_some_iff.mp h
      trivial
    | singleChoice =>
      obtain ⟨id, hid, rfl⟩ := map_eq_some_iff.mp h
      obtain ⟨_, -, hid⟩ := bind_eq_some_iff.mp hid
      exact trimmed_of_trimmedString hid
    | multiChoice =>
      obtain ⟨ids, hids, h⟩ := bind_eq_some_iff.mp h
      obtain ⟨_, -, hids⟩ := bind_eq_some_iff.mp hids
      obtain ⟨_, -, hall⟩ := arrayOf_eq_some.mp hids
      split at h
      next => contradiction
      next hne =>
        obtain rfl := some.inj h
        exact ⟨hne, forall_of_forall₂ hall fun _ _ => trimmed_of_trimmedString⟩
  | _ => contradiction

/-! ### Well-formed requests -/

structure Choice.WellFormed (choice : Choice) : Prop where
  choiceId : IsNormalId choice.choiceId
  label : Trimmed choice.label
  description : ∀ t ∈ choice.description, Trimmed t

structure Question.WellFormed (question : Question) : Prop where
  questionId : IsNormalId question.questionId
  label : Trimmed question.label
  helpText : ∀ t ∈ question.helpText, Trimmed t
  placeholder : ∀ t ∈ question.placeholder, Trimmed t
  unit : ∀ t ∈ question.unit, Trimmed t
  /-- A question has choices exactly if it asks for some. -/
  choices : question.choices = none ∧ question.kind.choosing = false ∨
    ∃ choices, question.choices = some choices ∧ question.kind.choosing = true ∧ choices ≠ [] ∧
      (choices.map (·.choiceId)).Nodup ∧ ∀ c ∈ choices, c.WellFormed
  maxLength : ∀ n ∈ question.maxLength, 1 ≤ n
  textLength : question.kind = .text → question.maxLength ≠ none
  step : ∀ n ∈ question.step, number 0 < n
  defaultAnswer : ∀ answer ∈ question.defaultAnswer,
    answer.WellFormed ∧ answer.kind = question.kind ∧ question.Takes answer

structure Request.WellFormed (request : Request) : Prop where
  title : ∀ t ∈ request.title, Trimmed t
  body : ∀ t ∈ request.body, Trimmed t
  submitLabel : ∀ t ∈ request.submitLabel, Trimmed t
  skipAllLabel : ∀ t ∈ request.skipAllLabel, Trimmed t
  ne_nil : request.questions ≠ []
  nodup : (request.questions.map (·.questionId)).Nodup
  questions : ∀ q ∈ request.questions, q.WellFormed

theorem RawChoice.WellFormed.normalized {raw : RawChoice} (h : raw.WellFormed) (index : ℕ) :
    (raw.normalized index).WellFormed where
  choiceId := isNormalId_normalizeId _
  label := by
    rw [RawChoice.normalized, h.label.2]
    exact h.label
  description := by
    rw [RawChoice.normalized, map_trim_of_trimmed h.description]
    exact h.description

theorem wellFormed_of_normalizeQuestion (hraw : raw.WellFormed)
    (h : normalizeQuestion runtime index raw = .ok question) : question.WellFormed := by
  obtain ⟨choices, hchoices, heq, hdefault⟩ := normalizeQuestion_eq_ok.mp h
  have hfields : question.choices = choices ∧ question.kind = raw.kind ∧
      question.label = raw.label ∧ question.helpText = raw.helpText ∧
      question.placeholder = raw.placeholder ∧ question.unit = raw.unit ∧
      question.step = raw.step ∧ question.maxLength = raw.maxLength.or
        (if raw.kind = .text then some defaultTextMaxLength else none) := by
    rw [heq]
    exact ⟨rfl, rfl, hraw.label.2, map_trim_of_trimmed hraw.helpText,
      map_trim_of_trimmed hraw.placeholder, map_trim_of_trimmed hraw.unit, rfl, rfl⟩
  obtain ⟨hc, hkind, hlabel, hhelpText, hplaceholder, hunit, hstep, hmaxLength⟩ := hfields
  refine
    { questionId := questionId_of_normalizeQuestion h ▸ isNormalId_normalizeId _
      label := hlabel ▸ hraw.label
      helpText := hhelpText ▸ hraw.helpText
      placeholder := hplaceholder ▸ hraw.placeholder
      unit := hunit ▸ hraw.unit
      choices := ?_
      maxLength := ?_
      textLength := ?_
      step := hstep ▸ hraw.step
      defaultAnswer := ?_ }
  · rw [hc, hkind]
    rcases normalizeChoices_eq_ok.mp hchoices with
      ⟨hfalse, rfl⟩ | ⟨htrue, given, normalized, hgiven, hne, rfl, rfl, hnodup⟩
    · exact .inl ⟨rfl, hfalse⟩
    · refine .inr ⟨_, rfl, htrue, ?_, hnodup, fun c hc => ?_⟩
      · cases given with
        | nil => exact absurd rfl hne
        | cons => exact cons_ne_nil _ _
      · obtain ⟨x, hx, rfl⟩ := mem_map.mp hc
        exact (hraw.choices given hgiven x.1 (fst_mem_of_mem_zipIdx hx)).normalized x.2
  · intro n hn
    rw [hmaxLength] at hn
    rcases hmax : raw.maxLength with _ | m
    · rw [hmax, none_or] at hn
      split at hn
      next =>
        obtain rfl := some.inj hn
        decide
      next => exact absurd hn (not_mem_none n)
    · rw [hmax] at hn
      exact hraw.maxLength n (hmax ▸ hn)
  · intro htext
    rw [hmaxLength, ← hkind, if_pos htext]
    cases raw.maxLength <;> exact some_ne_none _
  · intro answer hanswer
    rcases hraw' : raw.defaultAnswer with _ | input
    · rw [hraw'] at hdefault
      rw [show question.defaultAnswer = none from hdefault] at hanswer
      exact absurd hanswer (not_mem_none answer)
    · rw [hraw'] at hdefault
      obtain ⟨a, ha, hschema, hkinds, htakes⟩ := hdefault
      obtain rfl := some.inj (ha.symm.trans hanswer)
      exact ⟨wellFormed_of_clientAnswerSchema hschema, hkinds, htakes⟩

structure RawRequest.WellFormed (raw : RawRequest) : Prop where
  title : ∀ t ∈ raw.title, Trimmed t
  body : ∀ t ∈ raw.body, Trimmed t
  submitLabel : ∀ t ∈ raw.submitLabel, Trimmed t
  skipAllLabel : ∀ t ∈ raw.skipAllLabel, Trimmed t
  ne_nil : raw.questions ≠ []
  questions : ∀ q ∈ raw.questions, q.WellFormed

theorem wellFormed_of_rawRequestSchema {raw : RawRequest} (h : rawRequestSchema value = some raw) :
    raw.WellFormed := by
  cases value with
  | object fields =>
    rw [rawRequestSchema] at h
    obtain ⟨title, htitle, h⟩ := bind_eq_some_iff.mp h
    obtain ⟨body, hbody, h⟩ := bind_eq_some_iff.mp h
    obtain ⟨submitLabel, hsubmitLabel, h⟩ := bind_eq_some_iff.mp h
    obtain ⟨skipAllLabel, hskipAllLabel, h⟩ := bind_eq_some_iff.mp h
    obtain ⟨questions, hquestions, h⟩ := bind_eq_some_iff.mp h
    obtain ⟨_, -, hquestions⟩ := bind_eq_some_iff.mp hquestions
    obtain ⟨_, -, hall⟩ := arrayOf_eq_some.mp hquestions
    split at h
    next => contradiction
    next hne =>
      obtain rfl := some.inj h
      exact ⟨trimmed_of_optional htitle, trimmed_of_optional hbody,
        trimmed_of_optional hsubmitLabel, trimmed_of_optional hskipAllLabel, hne,
        forall_of_forall₂ hall fun _ _ => wellFormed_of_rawQuestionSchema⟩
  | _ => contradiction

/-- What has been checked of a request that is accepted. -/
theorem normalize_eq_ok :
    normalizeAskUserQuestionsRequest runtime input = .ok request ↔
      ∃ raw, rawRequestSchema (stripNullFields input) = some raw ∧
        Forall₂ (fun x question => normalizeQuestion runtime x.2 x.1 = .ok question)
          (raw.questions.zipIdx 0) request.questions ∧
        (request.questions.map (·.questionId)).Nodup ∧ request.requestId = none ∧
        request.title = raw.title.map trim ∧ request.body = raw.body.map trim ∧
        request.submitLabel = raw.submitLabel.map trim ∧
        request.skipAllLabel = raw.skipAllLabel.map trim := by
  rw [normalizeAskUserQuestionsRequest]
  rcases rawRequestSchema (stripNullFields input) with _ | raw
  · simp [parsed, bind, Except.bind]
  · simp only [parsed, bind_eq_ok, normalizeQuestionsFrom_eq_ok]
    constructor
    · rintro ⟨_, ⟨⟩, questions, ⟨hall, hnodup, -⟩, ⟨⟩⟩
      exact ⟨raw, rfl, hall, hnodup, rfl, rfl, rfl, rfl, rfl⟩
    · rintro ⟨_, ⟨⟩, hall, hnodup, hid, htitle, hbody, hsubmit, hskip⟩
      refine ⟨raw, rfl, _, ⟨hall, hnodup, fun _ _ => not_mem_nil⟩, ?_⟩
      rw [← htitle, ← hbody, ← hsubmit, ← hskip, ← hid]
      rfl

/-- **Requests that are accepted are well formed.** -/
theorem wellFormed_of_normalize {request : Request}
    (h : normalizeAskUserQuestionsRequest runtime input = .ok request) : request.WellFormed := by
  obtain ⟨raw, hraw, hall, hnodup, -, htitle, hbody, hsubmit, hskip⟩ := normalize_eq_ok.mp h
  have hwell := wellFormed_of_rawRequestSchema hraw
  rw [map_trim_of_trimmed hwell.title] at htitle
  rw [map_trim_of_trimmed hwell.body] at hbody
  rw [map_trim_of_trimmed hwell.submitLabel] at hsubmit
  rw [map_trim_of_trimmed hwell.skipAllLabel] at hskip
  refine ⟨htitle ▸ hwell.title, hbody ▸ hwell.body, hsubmit ▸ hwell.submitLabel,
    hskip ▸ hwell.skipAllLabel, fun hnil => hwell.ne_nil ?_, hnodup, ?_⟩
  · rw [hnil] at hall
    have := forall₂_nil_right_iff.mp hall
    simpa using this
  · -- the raw questions are well formed, whatever their places
    have hraws : ∀ x ∈ raw.questions.zipIdx 0, x.1.WellFormed :=
      fun x hx => hwell.questions x.1 (fst_mem_of_mem_zipIdx hx)
    intro q hq
    obtain ⟨x, hx, hxq⟩ := Pointwise.mem_right hall hq
    exact wellFormed_of_normalizeQuestion (hraws x hx) hxq

end Bud.Questions
