import Bud.Agent.QuestionNormalForm

/-!
# Default answers and the ids of choices

The ids of the choices of a question are normalised, whatever the model has made of them. The ids
that a default answer names are only trimmed, and are then looked for among the normalised ones. A
default answer that names a choice by an id with a blank in it names a choice that is not there any
more, and the request is refused.
-/

namespace Bud.Questions

open JsText JsValue Throws Trimming List Option

def Answer.named : Answer → List Text
  | .singleChoice choiceId => [choiceId]
  | .multiChoice choiceIds => choiceIds
  | .boolean _ | .text _ | .number _ => []

/-- The answer that names the same choices by their normalised ids. -/
def Answer.renamed : Answer → Answer
  | .singleChoice choiceId => .singleChoice (normalizeId choiceId)
  | .multiChoice choiceIds => .multiChoice (choiceIds.map normalizeId)
  | .boolean value => .boolean value
  | .text value => .text value
  | .number value => .number value

theorem renamed_eq_self_iff {answer : Answer} :
    answer.renamed = answer ↔ ∀ id ∈ answer.named, IsNormalId id := by
  simp only [← normalizeId_eq_self_iff]
  cases answer with
  | multiChoice choiceIds =>
    simp only [Answer.renamed, Answer.named, Answer.multiChoice.injEq]
    calc choiceIds.map normalizeId = choiceIds
        ↔ choiceIds.map normalizeId = choiceIds.map id := by rw [List.map_id]
      _ ↔ ∀ id ∈ choiceIds, normalizeId id = id := List.map_inj_left
  | _ => simp [Answer.renamed, Answer.named]

def RawChoice.declared (choice : RawChoice) : Option Text := choice.choiceId.or choice.id

/-- The answers that a question asks for, were they named as they were declared. -/
def RawQuestion.Declares (question : RawQuestion) : Answer → Prop
  | .singleChoice choiceId =>
    ∃ choice ∈ question.choices.getD [], choice.declared = some choiceId
  | .multiChoice choiceIds => choiceIds.Nodup ∧
    ∀ id ∈ choiceIds, ∃ choice ∈ question.choices.getD [], choice.declared = some id
  | answer => (question.normalized [] none).Takes answer

/-- A question that has distinct choices if it needs any, and whose default answer, if it has one,
is of its kind and names declared choices. -/
structure RawQuestion.Sound (question : RawQuestion) : Prop where
  choices : question.kind.choosing = true → ∃ given, question.choices = some given ∧ given ≠ [] ∧
    ((normalizedChoices given 0).map (·.choiceId)).Nodup
  defaultAnswer : ∀ input ∈ question.defaultAnswer, ∃ answer,
    clientAnswerSchema input = some answer ∧ answer.kind = question.kind ∧ question.Declares answer

def RawQuestion.givenDefault (question : RawQuestion) : Option Answer :=
  question.defaultAnswer.bind clientAnswerSchema

def RawQuestion.named (question : RawQuestion) : List Text :=
  (question.givenDefault.map Answer.named).getD []

theorem normalizeId_mem_choiceIds {given : List RawChoice} {id : Text}
    (h : ∃ choice ∈ given, choice.declared = some id) :
    normalizeId id ∈ (normalizedChoices given 0).map (·.choiceId) := by
  obtain ⟨choice, hchoice, hid⟩ := h
  obtain ⟨i, hi⟩ := getElem?_of_mem hchoice
  refine mem_map.mpr ⟨choice.normalized i, mem_map.mpr ⟨(choice, i), ?_, rfl⟩, ?_⟩
  · simpa [mem_zipIdx_iff_getElem?] using hi
  · rw [RawChoice.normalized, RawChoice.givenId]
    rw [RawChoice.declared] at hid
    rw [hid, getD_some]

theorem RawQuestion.Sound.normalizeChoices (h : question.Sound) :
    ∃ choices, Questions.normalizeChoices question = .ok choices ∧
      (question.kind.choosing = true → ∃ given, question.choices = some given ∧
        choices = some (normalizedChoices given 0)) := by
  rcases hkind : question.kind.choosing with _ | _
  · exact ⟨none, normalizeChoices_eq_ok.mpr (.inl ⟨hkind, rfl⟩), nofun⟩
  · obtain ⟨given, hgiven, hne, hnodup⟩ := h.choices hkind
    exact ⟨_, normalizeChoices_eq_ok.mpr
      (.inr ⟨hkind, given, _, hgiven, hne, rfl, rfl, hnodup⟩), fun _ => ⟨given, hgiven, rfl⟩⟩

/-- A declared answer is taken if the ids that it names stay as they are. -/
theorem takes_of_declares {question : RawQuestion} (hkind : answer.kind = question.kind)
    (hdeclares : question.Declares answer) (hnormal : ∀ id ∈ answer.named, IsNormalId id)
    (hchoices : question.kind.choosing = true → ∃ given, question.choices = some given ∧ choices =
      some (normalizedChoices given 0)) :
    (question.normalized questionId choices).Takes answer := by
  have hmem (hchoosing : question.kind.choosing = true) (id : Text) (hid : IsNormalId id)
      (h : ∃ choice ∈ question.choices.getD [], choice.declared = some id) :
      id ∈ (question.normalized questionId choices).choiceIds := by
    obtain ⟨given, hgiven, rfl⟩ := hchoices hchoosing
    rw [hgiven, getD_some] at h
    have hrenamed := normalizeId_mem_choiceIds h
    rwa [hid.normalizeId] at hrenamed
  cases answer with
  | boolean value | text value | number value => exact hdeclares
  | singleChoice choiceId =>
    exact hmem (by rw [← hkind]; rfl) choiceId (hnormal choiceId (mem_singleton.mpr rfl))
      hdeclares
  | multiChoice choiceIds =>
    exact ⟨hdeclares.1, fun id hid =>
      hmem (by rw [← hkind]; rfl) id (hnormal id hid) (hdeclares.2 id hid)⟩

/-- **A default answer survives** exactly if the ids that it names are in normal form. -/
theorem default_survives_iff {runtime : Runtime} (h : raw.Sound) :
    (∃ question, normalizeQuestion runtime index raw = .ok question ∧
      question.defaultAnswer = raw.givenDefault.map Answer.renamed) ↔
      ∀ id ∈ raw.named, IsNormalId id := by
  obtain ⟨choices, hchoices, hgiven⟩ := h.normalizeChoices
  rw [RawQuestion.named, RawQuestion.givenDefault]
  rcases hinput : raw.defaultAnswer with _ | input
  · -- there is nothing to survive
    simp only [bind_none, map_none, getD_none, not_mem_nil,
      IsEmpty.forall_iff, implies_true, iff_true]
    refine ⟨raw.normalized (normalizeId (raw.givenId index)) choices,
      normalizeQuestion_eq_ok.mpr ⟨choices, hchoices, rfl, ?_⟩, rfl⟩
    rw [hinput]
    rfl
  · obtain ⟨answer, hschema, hkind, hdeclares⟩ := h.defaultAnswer input hinput
    simp only [bind_some, hschema, map_some, getD_some]
    rw [← renamed_eq_self_iff]
    constructor
    · rintro ⟨question, hquestion, hdefault⟩
      obtain ⟨_, -, -, htaken⟩ := normalizeQuestion_eq_ok.mp hquestion
      rw [hinput] at htaken
      obtain ⟨taken, htaken, hsame, -⟩ := htaken
      obtain rfl := some.inj (hschema.symm.trans hsame)
      exact some.inj (hdefault.symm.trans htaken)
    · intro hrenamed
      have htakes : (raw.normalized (normalizeId (raw.givenId index)) choices).Takes answer :=
        takes_of_declares hkind hdeclares (renamed_eq_self_iff.mp hrenamed) hgiven
      refine ⟨{ raw.normalized (normalizeId (raw.givenId index)) choices with
        defaultAnswer := some answer }, normalizeQuestion_eq_ok.mpr ⟨choices, hchoices, rfl, ?_⟩,
        congrArg some hrenamed.symm⟩
      rw [hinput]
      refine ⟨answer, rfl, hschema, hkind, ?_⟩
      cases answer <;> exact htakes

def RawRequest.questionIds (raw : RawRequest) : List Text :=
  (raw.questions.zipIdx 0).map fun x => normalizeId (x.1.givenId x.2)

/-- **Default answers survive the normalisation of ids** exactly if the ids that they name are in
normal form. -/
theorem defaults_survive_iff {runtime : Runtime} {input : Value} {raw : RawRequest}
    (hraw : rawRequestSchema (stripNullFields input) = some raw) (hnodup : raw.questionIds.Nodup)
    (hsound : ∀ question ∈ raw.questions, question.Sound) :
    (∃ request, normalizeAskUserQuestionsRequest runtime input = .ok request ∧
      request.questions.map (·.defaultAnswer) =
        raw.questions.map fun question => question.givenDefault.map Answer.renamed) ↔
      ∀ question ∈ raw.questions, ∀ id ∈ question.named, IsNormalId id := by
  have hplace {x : RawQuestion × ℕ} (hx : x ∈ raw.questions.zipIdx 0) : x.1.Sound :=
    hsound x.1 (fst_mem_of_mem_zipIdx hx)
  have hfst {α : Type} (f : RawQuestion → α) :
      (raw.questions.zipIdx 0).map (fun x => f x.1) = raw.questions.map f := by
    rw [← Function.comp_def, ← List.map_map, zipIdx_map_fst]
  constructor
  · rintro ⟨request, hrequest, hdefaults⟩ question hquestion id hid
    obtain ⟨raw', hraw', hall, -⟩ := normalize_eq_ok.mp hrequest
    obtain rfl := some.inj (hraw.symm.trans hraw')
    rw [← hfst] at hdefaults
    obtain ⟨x, hx, rfl⟩ : ∃ x ∈ raw.questions.zipIdx 0, x.1 = question := by
      rw [← zipIdx_map_fst 0 raw.questions] at hquestion
      exact mem_map.mp hquestion
    have hpairs : Forall₂ (fun x question =>
        normalizeQuestion runtime x.2 x.1 = .ok question ∧
          question.defaultAnswer = x.1.givenDefault.map Answer.renamed)
        (raw.questions.zipIdx 0) request.questions :=
      hall.mp (fun _ _ hok hdefault => ⟨hok, hdefault⟩) (Pointwise.of_map_eq_map hdefaults)
    obtain ⟨normalized, -, hboth⟩ := Pointwise.mem_left hpairs hx
    exact (default_survives_iff (hplace hx)).mp ⟨normalized, hboth⟩ id hid
  · intro hnormal
    have hsurvive : ∀ x ∈ raw.questions.zipIdx 0, ∃ question,
        normalizeQuestion runtime x.2 x.1 = .ok question ∧
          question.defaultAnswer = x.1.givenDefault.map Answer.renamed :=
      fun x hx => (default_survives_iff (hplace hx)).mpr (hnormal x.1 (fst_mem_of_mem_zipIdx hx))
    obtain ⟨questions, hpairs⟩ := Pointwise.exists_right hsurvive
    have hids : questions.map (·.questionId) = raw.questionIds :=
      Pointwise.map_eq_map (fun _ _ h => questionId_of_normalizeQuestion h.1) hpairs
    refine ⟨{ requestId := none, title := raw.title.map trim, body := raw.body.map trim,
              submitLabel := raw.submitLabel.map trim, skipAllLabel := raw.skipAllLabel.map trim,
              questions }, normalize_eq_ok.mpr ⟨raw, hraw, hpairs.imp fun _ _ h => h.1, ?_, rfl,
                rfl, rfl, rfl, rfl⟩, ?_⟩
    · exact hids ▸ hnodup
    · rw [← hfst]
      exact Pointwise.map_eq_map (fun _ _ h => h.2) hpairs

/-- The arguments with a single question, whose default answer names its only choice as it was
declared. -/
def choiceQuestion (choiceId : Text) : Value :=
  .object [("questions", .array [.object [("kind", .string (lit "single_choice")),
    ("label", .string (lit "Which one?")),
    ("choices", .array [.object [("choice_id", .string choiceId), ("label", .string choiceId)]]),
    ("default_answer", .object [("kind", .string (lit "single_choice")),
      ("choice_id", .string choiceId)])]])]

def rawChoiceQuestion (choiceId : Text) : RawQuestion where
  questionId := none
  id := none
  kind := .singleChoice
  label := lit "Which one?"
  helpText := none
  importance := none
  choices := some [⟨some choiceId, none, choiceId, none⟩]
  defaultAnswer := some (.object [("kind", .string (lit "single_choice")),
    ("choice_id", .string choiceId)])
  multiline := none
  placeholder := none
  minLength := none
  maxLength := none
  min := none
  max := none
  step := none
  unit := none

theorem sound_rawChoiceQuestion (h : Trimmed choiceId) : (rawChoiceQuestion choiceId).Sound where
  choices := fun _ => ⟨_, rfl, cons_ne_nil _ _, pairwise_singleton _ _⟩
  defaultAnswer := by
    rintro _ ⟨⟩
    refine ⟨.singleChoice choiceId, ?_, rfl, _, mem_singleton.mpr rfl, rfl⟩
    change ((some (.string choiceId)).bind trimmedString).map Answer.singleChoice = _
    rw [bind_some, trimmedString_of_trimmed h]
    rfl

/-- An id with a blank in it is not found again. -/
theorem blank_in_default_is_refused :
    normalizeAskUserQuestionsRequest ⟨fun _ => []⟩ (choiceQuestion (lit "Option A")) =
      .error ⟨"invalid_default_answer",
        some (lit "Unknown choice_id Option A for question q_1")⟩ := by
  decide

theorem defaults_survive_option_a :
    (∃ request, normalizeAskUserQuestionsRequest ⟨fun _ => []⟩ (choiceQuestion (lit "option_a")) =
        .ok request ∧
      request.questions.map (·.defaultAnswer) = [some (.singleChoice (lit "option_a"))]) ∧
      ¬∃ request, normalizeAskUserQuestionsRequest ⟨fun _ => []⟩ (choiceQuestion (lit "Option A")) =
        .ok request ∧
      request.questions.map (·.defaultAnswer) = [some (.singleChoice (lit "Option_A"))] := by
  have hnormal : IsNormalId (lit "option_a") := by
    rw [← normalizeId_eq_self_iff]
    decide
  have hnot : ¬IsNormalId (lit "Option A") := by
    rw [← normalizeId_eq_self_iff]
    decide
  have htrimmed : Trimmed (lit "option_a") ∧ Trimmed (lit "Option A") :=
    ⟨hnormal.trimmed, by decide, by decide⟩
  constructor
  · refine (@defaults_survive_iff _ _ ⟨none, none, none, none,
      [rawChoiceQuestion (lit "option_a")]⟩ rfl (pairwise_singleton _ _) ?_).mpr ?_
    · exact forall_mem_singleton.mpr (sound_rawChoiceQuestion htrimmed.1)
    · exact forall_mem_singleton.mpr (forall_mem_singleton.mpr hnormal)
  · intro haccepted
    have hall := (@defaults_survive_iff _ _ ⟨none, none, none, none,
      [rawChoiceQuestion (lit "Option A")]⟩ rfl (pairwise_singleton _ _)
      (forall_mem_singleton.mpr (sound_rawChoiceQuestion htrimmed.2))).mp haccepted
    exact hnot (hall _ mem_cons_self _ mem_cons_self)

end Bud.Questions
