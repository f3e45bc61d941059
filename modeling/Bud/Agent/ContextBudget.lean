import Bud.Llm.Types
import Mathlib.Algebra.BigOperators.Group.List.Basic

/-!
# Estimates of what a conversation costs

`context-budget.ts`: how many tokens a conversation is taken to be worth, split over ten kinds of
content. A text is worth a token for four units, a message and a block have an overhead, and an
image costs a fixed number. The screenshots that a tool result refers to are put in before the
conversation is sent, the newest first and no more than eight of them, so they are counted for the
conversation as a whole: two conversations are worth as much as both in one, or more.

## Modelling notes

`JSON.parse` and `JSON.stringify` are parameters; the first is `none` where it throws. The blocks of
a conversation are taken to be distinct objects, so that the table of the references is the list of
its entries.
-/

namespace Bud.ContextBudget

open JsText JsValue Llm List
open Conversation (CanonicalRole)

structure Runtime where
  /-- `JSON.parse`. -/
  parse : Text → Option Value
  /-- `JSON.stringify`. -/
  stringify : Value → Text

/-! ### Screenshots -/

def hydratedImageLimit : ℕ := 8

def imageTokenEstimate : ℕ := 1600

/-- The ids of the first two images of a result of `browser_exec`. -/
def imageArtifactIds (runtime : Runtime) : Block → List Text
  | .toolResult _ (.string text) _ =>
    match runtime.parse text with
    | none => []
    | some payload =>
      let data := member (some payload) "data"
      if ((member data "output_withheld").map truthy).getD false then []
      else if asString (member (some payload) "tool") = some (lit "browser_exec") then
        match member data "images" with
        | some (.array images) =>
          (images.take 2).filterMap fun image => asString (member (some image) "id")
        | _ => []
      else []
  | _ => []

/-- `ids.slice(-n)`. -/
def lastOf {α : Type} (n : ℕ) (l : List α) : List α := l.drop (l.length - n)

/-- The number of screenshots that may still be put in, and those that are. -/
abbrev Selection : Type := ℕ × List (List Text)

def selectBlock (runtime : Runtime) (selection : Selection) (block : Block) : Selection :=
  let ids := lastOf selection.1 (imageArtifactIds runtime block)
  if selection.1 = 0 ∨ ids = [] then selection
  else (selection.1 - ids.length, selection.2 ++ [ids])

def selectMessage (runtime : Runtime) (selection : Selection) (message : Message) : Selection :=
  if message.role = .user then message.blocks.reverse.foldl (selectBlock runtime) selection
  else selection

/-- The references of each block that has some, from the newest on. -/
def selectHydratedImageReferences (runtime : Runtime) (messages : List Message) :
    List (List Text) :=
  (messages.reverse.foldl (selectMessage runtime) (hydratedImageLimit, [])).2

/-! ### Estimates -/

def messageTokenOverhead : ℕ := 8

def contentBlockTokenOverhead : ℕ := 4

/-- `Math.max(1, Math.ceil(text.length / 4))`. -/
def estimateTextTokens (text : Text) : ℕ := max 1 ((text.length + 3) / 4)

/-- Data that are not there are written as an empty object. -/
def providerValue (providerData : Option ProviderData) : Value :=
  match providerData with
  | none => .object []
  | some data =>
    .object [("provider", .string (lit (match data.provider with
      | .openai => "openai"
      | .anthropic => "anthropic"
      | .ds4 => "ds4"
      | .budLocal => "bud_local"))), ("payload", data.payload)]

mutual

def estimateBlockTokens (runtime : Runtime) : Block → ℕ
  | .text text _ => estimateTextTokens text
  | .toolResult _ content _ => estimateContentTokens runtime content
  | .toolUse _ name input =>
    estimateTextTokens (runtime.stringify (.object input)) + estimateTextTokens name
  | .reasoning text _ => estimateTextTokens text
  | .reasoningRedacted providerData =>
    estimateTextTokens (runtime.stringify (providerValue providerData))
  | .image _ _ => imageTokenEstimate

def estimateContentTokens (runtime : Runtime) : Content → ℕ
  | .string text => estimateTextTokens text
  | .blocks blocks => estimateBlocksTokens runtime blocks

def estimateBlocksTokens (runtime : Runtime) : List Block → ℕ
  | [] => 0
  | block :: blocks =>
    contentBlockTokenOverhead + estimateBlockTokens runtime block +
      estimateBlocksTokens runtime blocks

end

/-! ### Where the tokens go -/

inductive ContextBreakdownKind where
  | systemPrompt
  | runtimeInstructions
  | compactionSummary
  | userMessages
  | assistantText
  | reasoning
  | toolCalls
  | toolOutput
  | images
  | toolSchemas
  deriving DecidableEq

def contextBreakdownKinds : List ContextBreakdownKind :=
  [.systemPrompt, .runtimeInstructions, .compactionSummary, .userMessages, .assistantText,
    .reasoning, .toolCalls, .toolOutput, .images, .toolSchemas]

abbrev ContextBreakdownTokens : Type := ContextBreakdownKind → ℕ

def emptyContextBreakdown : ContextBreakdownTokens := fun _ => 0

/-- `breakdown[kind] += tokens`. -/
def ContextBreakdownTokens.add (breakdown : ContextBreakdownTokens) (kind : ContextBreakdownKind)
    (tokens : ℕ) : ContextBreakdownTokens :=
  fun k => if k = kind then breakdown k + tokens else breakdown k

def checkpointSummaryPrefix : Text :=
  lit ("Another Bud Agent model compacted earlier context for this thread. Use this checkpoint " ++
    "to continue the task without repeating completed work. The visible transcript still exists " ++
    "in the product, but your model-visible context has been shortened. Summary:")

def compactionTerminalContextPrefix : Text := lit "Current terminal context at compaction time:"

/-- `String.prototype.trimStart`. -/
def trimStart (text : Text) : Text := text.dropWhile isSpace

/-- The content if it is a text, and its first text else. -/
def leadingText (message : Message) : Text :=
  match message.content with
  | .string text => text
  | .blocks blocks => (blocks.findSome? Block.asText).getD []

def isCompactionReplacementMessage (message : Message) : Bool :=
  let trimmed := trimStart (leadingText message)
  checkpointSummaryPrefix.isPrefixOf trimmed || compactionTerminalContextPrefix.isPrefixOf trimmed

def blockBreakdownKind (messageKind : ContextBreakdownKind) : Block → ContextBreakdownKind
  | .text _ _ => messageKind
  | .toolUse _ _ _ => .toolCalls
  | .toolResult _ _ _ => .toolOutput
  | .reasoning _ _ => .reasoning
  | .reasoningRedacted _ => .reasoning
  | .image _ _ => .images

def messageKind (systemPromptSeen : Bool) (message : Message) : ContextBreakdownKind :=
  match message.role with
  | .system => if systemPromptSeen then .runtimeInstructions else .systemPrompt
  | .user => if isCompactionReplacementMessage message then .compactionSummary else .userMessages
  | .assistant => .assistantText

def addMessage (runtime : Runtime) (systemPromptSeen : Bool) (breakdown : ContextBreakdownTokens)
    (message : Message) : ContextBreakdownTokens :=
  let kind := messageKind systemPromptSeen message
  let breakdown := breakdown.add kind messageTokenOverhead
  match message.content with
  | .string text => breakdown.add kind (estimateTextTokens text)
  | .blocks blocks =>
    blocks.foldl (fun breakdown block =>
      breakdown.add (blockBreakdownKind kind block)
        (contentBlockTokenOverhead + estimateBlockTokens runtime block)) breakdown

def addMessages (runtime : Runtime) (systemPromptSeen : Bool) (breakdown : ContextBreakdownTokens) :
    List Message → ContextBreakdownTokens
  | [] => breakdown
  | message :: messages =>
    addMessages runtime (systemPromptSeen || message.role = .system)
      (addMessage runtime systemPromptSeen breakdown message) messages

def estimateCanonicalMessagesBreakdown (runtime : Runtime) (messages : List Message) :
    ContextBreakdownTokens :=
  let hydrated := selectHydratedImageReferences runtime messages
  addMessages runtime false
    (emptyContextBreakdown.add .images ((hydrated.map List.length).sum * imageTokenEstimate))
    messages

def total (breakdown : ContextBreakdownTokens) : ℕ := (contextBreakdownKinds.map breakdown).sum

def estimateCanonicalMessagesTokens (runtime : Runtime) (messages : List Message) : ℕ :=
  total (estimateCanonicalMessagesBreakdown runtime messages)

/-! ### The estimate by messages -/

/-- What a message is worth, without screenshots. -/
def messageTokens (runtime : Runtime) (message : Message) : ℕ :=
  messageTokenOverhead + estimateContentTokens runtime message.content

def imageCount (runtime : Runtime) (message : Message) : ℕ :=
  if message.role = .user then
    (message.blocks.map fun block => (imageArtifactIds runtime block).length).sum
  else 0

variable {runtime : Runtime}

@[simp] theorem total_add (breakdown : ContextBreakdownTokens) (kind : ContextBreakdownKind)
    (tokens : ℕ) : total (breakdown.add kind tokens) = total breakdown + tokens := by
  cases kind <;> simp only [total, contextBreakdownKinds, ContextBreakdownTokens.add, map_cons,
      map_nil, sum_cons, sum_nil, reduceCtorEq, if_true, if_false] <;>
    omega

theorem total_foldl (kind : Block → ContextBreakdownKind) (blocks : List Block)
    (breakdown : ContextBreakdownTokens) :
    total (blocks.foldl (fun breakdown block =>
      breakdown.add (kind block)
        (contentBlockTokenOverhead + estimateBlockTokens runtime block)) breakdown) =
      total breakdown + estimateBlocksTokens runtime blocks := by
  induction blocks generalizing breakdown with
  | nil => rfl
  | cons block blocks ih =>
    rw [foldl_cons, ih, total_add, estimateBlocksTokens]
    omega

theorem total_addMessage (seen : Bool) (breakdown : ContextBreakdownTokens) (message : Message) :
    total (addMessage runtime seen breakdown message) =
      total breakdown + messageTokens runtime message := by
  rw [addMessage, messageTokens]
  rcases message.content with text | blocks
  · simp only [total_add, estimateContentTokens]
    omega
  · simp only [total_foldl, total_add, estimateContentTokens]
    omega

theorem total_addMessages (messages : List Message) (seen : Bool)
    (breakdown : ContextBreakdownTokens) :
    total (addMessages runtime seen breakdown messages) =
      total breakdown + (messages.map (messageTokens runtime)).sum := by
  induction messages generalizing seen breakdown with
  | nil => rfl
  | cons message messages ih =>
    rw [addMessages, ih, total_addMessage, map_cons, sum_cons]
    omega

/-- How far a selection has come: `n` screenshots were referred to so far. -/
def Counts (selection : Selection) (n : ℕ) : Prop :=
  selection.1 = hydratedImageLimit - n ∧
    (selection.2.map List.length).sum = min hydratedImageLimit n

theorem length_lastOf {α : Type} (n : ℕ) (l : List α) : (lastOf n l).length = min n l.length := by
  rw [lastOf, length_drop]
  omega

variable {selection : Selection}

theorem counts_selectBlock {n : ℕ} (h : Counts selection n) (block : Block) :
    Counts (selectBlock runtime selection block)
      (n + (imageArtifactIds runtime block).length) := by
  obtain ⟨hleft, hsum⟩ := h
  have hlength := length_lastOf selection.1 (imageArtifactIds runtime block)
  rw [selectBlock]
  split
  next hnone =>
    have hzero : min selection.1 (imageArtifactIds runtime block).length = 0 := by
      rw [← hlength]
      rcases hnone with hnone | hnone
      · rw [hlength, hnone, Nat.zero_min]
      · rw [hnone, length_nil]
    constructor <;> omega
  next =>
    refine ⟨?_, ?_⟩
    · simp only [hlength]
      omega
    · simp only [map_append, sum_append, map_cons, map_nil, sum_cons, sum_nil, hlength, hsum]
      omega

theorem counts_selectMessage {n : ℕ} (h : Counts selection n) (message : Message) :
    Counts (selectMessage runtime selection message) (n + imageCount runtime message) := by
  rw [selectMessage, imageCount]
  split
  next =>
    rw [← sum_reverse, ← map_reverse]
    generalize message.blocks.reverse = blocks
    induction blocks generalizing selection n with
    | nil => exact h
    | cons block blocks ih =>
      have hnext := ih (@counts_selectBlock runtime selection n h block)
      rwa [Nat.add_assoc, ← sum_cons] at hnext
  next => exact h

theorem sum_hydrated (messages : List Message) :
    ((selectHydratedImageReferences runtime messages).map length).sum =
      min hydratedImageLimit ((messages.map (imageCount runtime)).sum) := by
  have hcounts : ∀ (messages : List Message) {selection : Selection} {n : ℕ},
      Counts selection n → Counts (messages.foldl (selectMessage runtime) selection)
        (n + (messages.map (imageCount runtime)).sum) := by
    intro messages
    induction messages with
    | nil => exact fun h => h
    | cons message messages ih =>
      intro selection n h
      have hnext := ih (@counts_selectMessage runtime selection n h message)
      rwa [Nat.add_assoc, ← sum_cons, ← map_cons] at hnext
  have hstart : Counts (hydratedImageLimit, []) 0 := ⟨rfl, rfl⟩
  have h := (hcounts messages.reverse hstart).2
  rwa [Nat.zero_add, map_reverse, sum_reverse] at h

/-- **The estimate of a conversation**, by what its messages are worth and the screenshots that they
refer to. -/
theorem estimateCanonicalMessagesTokens_eq (messages : List Message) :
    estimateCanonicalMessagesTokens runtime messages =
      min hydratedImageLimit ((messages.map (imageCount runtime)).sum) * imageTokenEstimate +
        (messages.map (messageTokens runtime)).sum := by
  rw [estimateCanonicalMessagesTokens, estimateCanonicalMessagesBreakdown, total_addMessages,
    total_add, sum_hydrated]
  have hempty : total emptyContextBreakdown = 0 := rfl
  omega

theorem estimate_singleton (message : Message) :
    estimateCanonicalMessagesTokens runtime [message] =
      min hydratedImageLimit (imageCount runtime message) * imageTokenEstimate +
        messageTokens runtime message := by
  simp [estimateCanonicalMessagesTokens_eq]

def cost (runtime : Runtime) (messages : List Message) : ℕ :=
  (messages.map fun message => estimateCanonicalMessagesTokens runtime [message]).sum

theorem cost_append (messages more : List Message) :
    cost runtime (messages ++ more) = cost runtime messages + cost runtime more := by
  simp [cost]

theorem cost_cons (message : Message) (messages : List Message) :
    cost runtime (message :: messages) =
      estimateCanonicalMessagesTokens runtime [message] + cost runtime messages := by
  rw [cost, map_cons, sum_cons, ← cost]

/-- The screenshots of messages, counted for each by itself. -/
def singleImages (runtime : Runtime) (messages : List Message) : ℕ :=
  (messages.map fun message => min hydratedImageLimit (imageCount runtime message)).sum

theorem cost_eq (messages : List Message) : cost runtime messages =
    singleImages runtime messages * imageTokenEstimate +
      (messages.map (messageTokens runtime)).sum := by
  induction messages with
  | nil => simp [cost, singleImages]
  | cons message messages ih =>
    rw [cost_cons, ih, estimate_singleton, singleImages, singleImages, map_cons,
      map_cons, sum_cons, sum_cons, Nat.add_mul]
    omega

/-- The limit makes no difference to what it has been applied to already. -/
theorem min_sum_images (messages : List Message) :
    min hydratedImageLimit ((messages.map (imageCount runtime)).sum) =
      min hydratedImageLimit (singleImages runtime messages) := by
  induction messages with
  | nil => rfl
  | cons message messages ih =>
    rw [singleImages] at ih ⊢
    rw [map_cons, map_cons, sum_cons, sum_cons]
    omega

theorem estimate_le_cost (messages : List Message) :
    estimateCanonicalMessagesTokens runtime messages ≤ cost runtime messages := by
  rw [estimateCanonicalMessagesTokens_eq, cost_eq, min_sum_images]
  exact Nat.add_le_add_right (Nat.mul_le_mul_right _ (Nat.min_le_right _ _)) _

end Bud.ContextBudget
