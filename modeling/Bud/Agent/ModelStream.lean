import Bud.Lib.SortedMap
import Bud.Llm.Types
import Mathlib.Data.List.Dedup

/-!
# The stream of a model

`invokeModel` of `model-runner.ts`: an adapter turns what its provider streams into events, and the
events become two things. While they come in, the text is sent on to the clients piece by piece, as
the draft of a message. When they have all come in, the blocks are put together by their indexes
into the response of the model, whose text completes the draft.

The draft separates a block from the one before it as soon as the block starts to have text. What it
counts is the blocks that have been started, and the response has only those with a text.

## Modelling notes

An index is a natural number. What the stream is only told about is left out: the activity of the
turn, snapshots, clocks and the usage of tokens. A draft's client id and its times are set when it
is started, so `hasDraftText` stands for them. A stream that breaks off, or is aborted, ends in an
`error`.
-/

namespace Bud.ModelStream

open JsText JsValue Llm SortedMap List
open Conversation (Phase)

/-! ### Events -/

inductive ContentType where
  | text
  | toolUse
  | reasoning

/-- `CanonicalReasoningBlock`. -/
inductive ReasoningBlock where
  | reasoning (text : Text) (providerData : Option ProviderData)
  | redacted (providerData : Option ProviderData)

def ReasoningBlock.toBlock : ReasoningBlock → Block
  | .reasoning text providerData => .reasoning text providerData
  | .redacted providerData => .reasoningRedacted providerData

inductive StopReason where
  | endTurn
  | toolUse
  | maxTokens
  | stopSequence
  | error
  deriving DecidableEq

inductive CanonicalStreamEvent where
  | messageStart (id : Text)
  | messageDone (stopReason : StopReason) (providerData : Option ProviderData)
  | contentStart (index : ℕ) (contentType : ContentType) (assistantPhase : Option Phase)
  | textDelta (index : ℕ) (delta : Text) (assistantPhase : Option Phase)
  | contentDone (index : ℕ)
  | toolUseStart (index : ℕ) (id name : Text)
  | toolUseDelta (index : ℕ) (delta : Text)
  | toolUseDone (index : ℕ) (id name : Text) (input : Fields)
  | reasoningStart (index : ℕ) (id : Option Text)
  | reasoningDelta (index : ℕ) (delta : Text)
  | reasoningDone (index : ℕ) (block : ReasoningBlock)
  | reasoningRedacted (index : ℕ) (providerData : Option ProviderData)
  | error (message : Text)

/-! ### The state of the loop -/

inductive SegmentKind where
  | intermediate
  | final

/-- What the runtime is given to send on. -/
inductive Emitted where
  | messageStart
  | messageDelta (delta : Text)
  | messageDone (text : Text) (segmentKind : SegmentKind)
  | reasoningStart (index : ℕ)
  | reasoningDelta (index : ℕ) (delta : Text)

structure TextBlock where
  text : Text
  assistantPhase : Option Phase

abbrev ByIndex (α : Type) : Type := AList fun _ : ℕ => α

/-- The variables of `invokeModel`. -/
structure Stream where
  textBlocks : ByIndex TextBlock
  textPhases : ByIndex Phase
  reasoningBlocks : ByIndex ReasoningBlock
  reasoningDrafts : ByIndex Text
  reasoningSegments : ByIndex (Text × ReasoningBlock)
  toolCallsByIndex : ByIndex ToolCall
  pendingTextPrefixes : ByIndex Text
  seenTextIndexes : List ℕ
  responseId : Option Text
  stopReason : StopReason
  providerData : Option ProviderData
  draftText : Text
  hasDraftText : Bool
  textBlockCount : ℕ
  emitted : List Emitted

def Stream.empty : Stream :=
  { textBlocks := ∅
    textPhases := ∅
    reasoningBlocks := ∅
    reasoningDrafts := ∅
    reasoningSegments := ∅
    toolCallsByIndex := ∅
    pendingTextPrefixes := ∅
    seenTextIndexes := []
    responseId := none
    stopReason := .endTurn
    providerData := none
    draftText := []
    hasDraftText := false
    textBlockCount := 0
    emitted := [] }

/-! ### The loop -/

def Stream.emit (s : Stream) (event : Emitted) : Stream :=
  { s with emitted := s.emitted ++ [event] }

def Stream.emitAssistantDraftStart (s : Stream) : Stream :=
  if s.hasDraftText then s else { s.emit .messageStart with hasDraftText := true }

def Stream.emitAssistantDraftDelta (s : Stream) (delta : Text) : Stream :=
  if delta = [] then s
  else
    let s := s.emitAssistantDraftStart
    { s with draftText := s.draftText ++ delta }.emit (.messageDelta delta)

def Stream.ensureReasoningDraft (s : Stream) (index : ℕ) : Stream :=
  match s.reasoningDrafts.lookup index with
  | some _ => s
  | none =>
    { s with reasoningDrafts := s.reasoningDrafts.insert index [] }.emit (.reasoningStart index)

def Stream.reasoningDraft (s : Stream) (index : ℕ) : Text :=
  (s.reasoningDrafts.lookup index).getD []

def Stream.emitReasoningDelta (s : Stream) (index : ℕ) (delta : Text) : Stream :=
  if delta = [] then s
  else
    let s := s.ensureReasoningDraft index
    { s with
      reasoningDrafts :=
        s.reasoningDrafts.insert index (s.reasoningDraft index ++ delta) }.emit
      (.reasoningDelta index delta)

/-- What separates a block that is started now from those before it. -/
def Stream.nextPrefix (s : Stream) : Text := if 0 < s.textBlockCount then lit "\n" else []

def Stream.seeText (s : Stream) (index : ℕ) : Stream :=
  { s with
    seenTextIndexes := s.seenTextIndexes ++ [index]
    textBlockCount := s.textBlockCount + 1 }

def Stream.textStart (s : Stream) (index : ℕ) (assistantPhase : Option Phase) : Stream :=
  let s :=
    match assistantPhase with
    | some phase => { s with textPhases := s.textPhases.insert index phase }
    | none => s
  if index ∈ s.seenTextIndexes then s
  else
    { s with
      pendingTextPrefixes := s.pendingTextPrefixes.insert index s.nextPrefix }.seeText index

/-- Send what is to stand before the block, if that has not been done. -/
def Stream.sendPrefix (s : Stream) (index : ℕ) : Stream :=
  match s.pendingTextPrefixes.lookup index with
  | some text =>
    { s with
      pendingTextPrefixes := s.pendingTextPrefixes.erase index }.emitAssistantDraftDelta text
  | none =>
    if index ∈ s.seenTextIndexes then s
    else
      let text := s.nextPrefix
      let s := s.seeText index
      { s with
        pendingTextPrefixes := s.pendingTextPrefixes.erase index }.emitAssistantDraftDelta text

def Stream.textAt (s : Stream) (index : ℕ) : Text :=
  ((s.textBlocks.lookup index).map (·.text)).getD []

def Stream.appendText (s : Stream) (index : ℕ) (delta : Text) (assistantPhase : Option Phase) :
    Stream :=
  { s with
    textBlocks := s.textBlocks.insert index
      { text := s.textAt index ++ delta
        assistantPhase :=
          (((s.textBlocks.lookup index).bind (·.assistantPhase)).or assistantPhase).or
            (s.textPhases.lookup index) } }

def Stream.textDelta (s : Stream) (index : ℕ) (delta : Text) (assistantPhase : Option Phase) :
    Stream :=
  ((s.sendPrefix index).appendText index delta assistantPhase).emitAssistantDraftDelta delta

/-- The end of a reasoning brings the draft up to its text. -/
def Stream.reasoningDone (s : Stream) (index : ℕ) (block : ReasoningBlock) : Stream :=
  let s := { s with reasoningBlocks := s.reasoningBlocks.insert index block }
  match block with
  | .reasoning finalText _ =>
    if trim finalText = [] then s
    else
      let s := s.ensureReasoningDraft index
      let draft := s.reasoningDraft index
      let s :=
        if draft.isPrefixOf finalText ∧ draft.length < finalText.length then
          s.emitReasoningDelta index (finalText.drop draft.length)
        else { s with reasoningDrafts := s.reasoningDrafts.insert index finalText }
      { s with reasoningSegments := s.reasoningSegments.insert index (finalText, block) }
  | .redacted _ => s

/-- Take one event; an `error` is thrown. -/
def consume (s : Stream) : CanonicalStreamEvent → Option Stream
  | .messageStart id => some { s with responseId := some id }
  | .messageDone stopReason providerData => some { s with stopReason, providerData }
  | .contentStart index contentType assistantPhase =>
    match contentType with
    | .text => some (s.textStart index assistantPhase)
    | .toolUse | .reasoning => some s
  | .textDelta index delta assistantPhase => some (s.textDelta index delta assistantPhase)
  | .contentDone _ => some s
  | .toolUseStart _ _ _ => some s
  | .toolUseDelta _ _ => some s
  | .toolUseDone index id name input =>
    some { s with toolCallsByIndex := s.toolCallsByIndex.insert index ⟨id, name, input⟩ }
  | .reasoningStart _ _ => some s
  | .reasoningDelta index delta => some (s.emitReasoningDelta index delta)
  | .reasoningDone index block => some (s.reasoningDone index block)
  | .reasoningRedacted index providerData =>
    some { s with reasoningBlocks := s.reasoningBlocks.insert index (.redacted providerData) }
  | .error _ => none

/-! ### The response -/

def Stream.orderedIndexes (s : Stream) : List ℕ :=
  (s.textBlocks.keys ++ s.reasoningBlocks.keys ++ s.toolCallsByIndex.keys).dedup.insertionSort
    (· ≤ ·)

def TextBlock.toBlock (block : TextBlock) : Block := .text block.text block.assistantPhase

def Stream.blocksAt (s : Stream) (index : ℕ) : List Block :=
  ((s.reasoningBlocks.lookup index).map ReasoningBlock.toBlock).toList ++
    ((s.textBlocks.lookup index).map TextBlock.toBlock).toList ++
    ((s.toolCallsByIndex.lookup index).map ToolCall.toBlock).toList

/-- `CanonicalResponse`. -/
structure Response where
  id : Text
  content : List Block
  stopReason : StopReason
  toolCalls : List ToolCall
  providerData : Option ProviderData

/-- `newId` is for a stream that has not said what its response is called. -/
def Stream.response (s : Stream) (newId : Text) : Response :=
  { id := s.responseId.getD newId
    content := s.orderedIndexes.flatMap s.blocksAt
    stopReason := s.stopReason
    toolCalls := sortedValues s.toolCallsByIndex
    providerData := s.providerData }

/-- What is returned of a stream, and what it has sent by then. -/
structure StreamedModelResponse where
  response : Response
  /-- There are a client id and a timing of the draft. -/
  drafted : Bool
  reasoningSegments : List (Text × ReasoningBlock)
  emitted : List Emitted

def invokeModel (newId : Text) (events : List CanonicalStreamEvent) :
    Option StreamedModelResponse :=
  (Runs.run consume events Stream.empty).map fun s =>
    { response := s.response newId
      drafted := s.hasDraftText
      reasoningSegments := sortedValues s.reasoningSegments
      emitted := s.emitted }

/-- What `completeAssistantDraft` sends, if there is a draft to complete. -/
def completeAssistantDraft (result : StreamedModelResponse) (segmentKind : SegmentKind) :
    Option Emitted :=
  if result.drafted then some (.messageDone (collectText result.response.content) segmentKind)
  else none

/-! ### The blocks of a response -/

variable {s : Stream} {newId : Text}

theorem filterMap_content {α β : Type} {m : ByIndex α} {f : Block → Option β} {g : α → β}
    (hblocks : ∀ i, (s.blocksAt i).filterMap f = ((m.lookup i).map g).toList)
    (hkeys : ∀ i ∈ m.keys, i ∈ s.textBlocks.keys ++ s.reasoningBlocks.keys ++
      s.toolCallsByIndex.keys) :
    (s.response newId).content.filterMap f = (sortedValues m).map g := by
  have hindexes : s.orderedIndexes.filterMap m.lookup = sortedValues m :=
    filterMap_lookup (nodup_dedup _) fun i hi => mem_dedup.mpr (hkeys i hi)
  calc (s.response newId).content.filterMap f
      = s.orderedIndexes.flatMap fun i => (s.blocksAt i).filterMap f := filterMap_flatMap
    _ = s.orderedIndexes.flatMap fun i => ((m.lookup i).map g).toList :=
        flatMap_congr fun i _ => hblocks i
    _ = s.orderedIndexes.filterMap fun i => (m.lookup i).map g :=
        (filterMap_eq_flatMap_toList _ _).symm
    _ = (sortedValues m).map g := by rw [← hindexes, map_filterMap]

theorem filterMap_toList {α β : Type} {f : Block → Option β} {g : α → Block} (o : Option α) :
    (o.map g).toList.filterMap f = (o.bind fun a => f (g a)).toList := by
  cases o with
  | none => rfl
  | some a => cases h : f (g a) <;> simp [h]

/-- What is to be had of the blocks at an index, if it is not to be had of reasonings. -/
theorem filterMap_blocksAt {β : Type} {f : Block → Option β} (i : ℕ)
    (hreasoning : ∀ block : ReasoningBlock, f block.toBlock = none) :
    (s.blocksAt i).filterMap f =
      ((s.textBlocks.lookup i).bind fun block => f block.toBlock).toList ++
        ((s.toolCallsByIndex.lookup i).bind fun call => f call.toBlock).toList := by
  simp only [Stream.blocksAt, filterMap_append, filterMap_toList, hreasoning,
    Option.bind_fun_none, Option.toList_none, nil_append]

/-- **The calls of a response are those of its blocks.** -/
theorem toolCalls_response :
    (s.response newId).content.filterMap Block.asToolCall = (s.response newId).toolCalls := by
  have hblocks : ∀ i, (s.blocksAt i).filterMap Block.asToolCall =
      ((s.toolCallsByIndex.lookup i).map id).toList := by
    intro i
    rw [filterMap_blocksAt i fun block => by cases block <;> rfl]
    cases s.textBlocks.lookup i <;> cases s.toolCallsByIndex.lookup i <;> rfl
  exact (filterMap_content hblocks fun i hi => mem_append_right _ hi).trans (map_id _)

theorem collectText_response :
    collectText (s.response newId).content =
      [10].intercalate ((sortedValues s.textBlocks).map (·.text)) := by
  have hblocks : ∀ i, (s.blocksAt i).filterMap Block.asText =
      ((s.textBlocks.lookup i).map (·.text)).toList := by
    intro i
    rw [filterMap_blocksAt i fun block => by cases block <;> rfl]
    cases s.textBlocks.lookup i <;> cases s.toolCallsByIndex.lookup i <;> rfl
  rw [collectText, filterMap_content hblocks fun i hi =>
    mem_append_left _ (mem_append_left _ hi)]

end Bud.ModelStream
