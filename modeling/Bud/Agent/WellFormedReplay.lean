import Bud.Agent.Conversation
import Mathlib.Data.List.Flatten

/-!
# Well-formed conversations

A provider takes a conversation only if each tool call in it has its result, and no call is there
twice. The loader gives such a conversation when the rows and the ledger fit together
(`Coherent`): no id is in two answers of a model, no two rows are read under one, and the row of a
call that is replayed has its `llm_call_id` and a later time.
-/

namespace Bud.Conversation

open List

variable {runtime : Runtime} {options : LoadOptions} {messages : List CanonicalMessage}
  {rows : List Row} {calls : List LlmCall} {id : String}

/-! ### Conversations -/

/-- The id is called once, and has one result, which comes later. -/
def Answered (messages : List CanonicalMessage) (id : String) : Prop :=
  (uses messages).count id = 1 ∧ (results messages).count id = 1 ∧
    ∃ use result, [use, result].Sublist messages ∧ id ∈ use.uses ∧ id ∈ result.results

def WellFormed (messages : List CanonicalMessage) : Prop :=
  ∀ id ∈ uses messages, Answered messages id

/-- Tool calls are the assistant's and results the user's. -/
def CanonicalMessage.Placed (message : CanonicalMessage) : Prop :=
  (message.role ≠ .assistant → message.uses = []) ∧ (message.role ≠ .user → message.results = [])

@[simp] theorem uses_cons (message : CanonicalMessage) :
    uses (message :: messages) = message.uses ++ uses messages := rfl

@[simp] theorem results_cons (message : CanonicalMessage) :
    results (message :: messages) = message.results ++ results messages := rfl

theorem uses_append (other : List CanonicalMessage) :
    uses (messages ++ other) = uses messages ++ uses other := flatMap_append

theorem results_append (other : List CanonicalMessage) :
    results (messages ++ other) = results messages ++ results other := flatMap_append

theorem uses_flatMap {α : Type*} (l : List α) (f : α → List CanonicalMessage) :
    uses (l.flatMap f) = l.flatMap fun a => uses (f a) := flatMap_assoc

theorem results_flatMap {α : Type*} (l : List α) (f : α → List CanonicalMessage) :
    results (l.flatMap f) = l.flatMap fun a => results (f a) := flatMap_assoc

/-! ### The repair of orphaned calls -/

theorem uses_interrupted (ids : List String) : uses (interrupted ids) = [] := by
  unfold interrupted
  split
  · rfl
  · simp [CanonicalMessage.uses, Block.use, uses]

theorem results_interrupted (ids : List String) : results (interrupted ids) = ids := by
  unfold interrupted
  split
  · next hempty => rw [List.isEmpty_iff.mp hempty]; rfl
  · simp [CanonicalMessage.results, Block.resultId, results, filterMap_map, Function.comp_def]

theorem exists_interrupted (h : ids ≠ []) : ∃ result, interrupted ids = [result] := by
  rw [interrupted, if_neg (mt List.isEmpty_iff.mp h)]
  exact ⟨_, rfl⟩

theorem results_filter_user (h : ∀ message ∈ messages, message.Placed) :
    results (messages.filter fun message => message.role = .user) = results messages := by
  induction messages with
  | nil => rfl
  | cons message messages ih =>
    obtain ⟨hmessage, hrest⟩ := forall_mem_cons.mp h
    rw [filter_cons]
    split
    · rw [results_cons, results_cons, ih hrest]
    · next hrole =>
      rw [results_cons, hmessage.2 (by simpa using hrole), nil_append, ih hrest]

theorem flatMap_orphaned (known : List String) (h : ∀ message ∈ messages, message.Placed) :
    messages.flatMap (orphaned known) = (uses messages).filter fun id => id ∉ known := by
  induction messages with
  | nil => rfl
  | cons message messages ih =>
    obtain ⟨hmessage, hrest⟩ := forall_mem_cons.mp h
    rw [flatMap_cons, uses_cons, filter_append, ih hrest, orphaned]
    split
    · rfl
    · next hrole => rw [hmessage.1 hrole, filter_nil]

/-- **What the repair adds**: a result for each call that has none. -/
theorem repairOrphanedToolCalls_spec (h : ∀ message ∈ messages, message.Placed) (id : String) :
    uses (repairOrphanedToolCalls messages) = uses messages ∧
    (results (repairOrphanedToolCalls messages)).count id = (results messages).count id +
      (if id ∈ results messages then 0 else (uses messages).count id) ∧
    messages.Sublist (repairOrphanedToolCalls messages) := by
  unfold repairOrphanedToolCalls
  rw [results_filter_user h]
  generalize hknown : results messages = known
  refine ⟨?_, ?_, ?_⟩
  · rw [uses_flatMap]
    simp only [uses_cons, uses_interrupted, append_nil]
    rfl
  · have hcount : ∀ l : List CanonicalMessage,
        (results (l.flatMap fun message => message :: interrupted (orphaned known message))).count
          id = (results l).count id + (l.flatMap (orphaned known)).count id := by
      intro l
      induction l with
      | nil => rfl
      | cons message l ih =>
        rw [flatMap_cons, results_append, results_cons, results_interrupted, results_cons,
          flatMap_cons]
        simp only [count_append, ih]
        omega
    rw [hcount, flatMap_orphaned known h, hknown]
    split
    · next hmem =>
      rw [Nat.add_left_cancel_iff, count_eq_zero]
      simp [hmem]
    · next hmem => rw [count_filter]; simpa using hmem
  · clear h hknown
    induction messages with
    | nil => exact .slnil
    | cons message messages ih =>
      rw [flatMap_cons, cons_append]
      exact (ih.trans (sublist_append_right _ _)).cons_cons message

/-- The result of a call that has none comes right after the call. -/
theorem sublist_repairOrphanedToolCalls (h : ∀ message ∈ messages, message.Placed)
    (hmem : use ∈ messages) (hid : id ∈ use.uses) (hnone : id ∉ results messages) :
    ∃ result, [use, result].Sublist (repairOrphanedToolCalls messages) ∧ id ∈ result.results := by
  have hrole : use.role = .assistant := by
    by_contra hrole
    rw [(h use hmem).1 hrole] at hid
    cases hid
  have horphaned : id ∈ orphaned (results messages) use := by
    rw [orphaned, if_pos hrole, mem_filter]
    exact ⟨hid, by simpa using hnone⟩
  obtain ⟨result, hinterrupted⟩ := exists_interrupted (ne_nil_of_mem horphaned)
  refine ⟨result, ?_, ?_⟩
  · rw [← hinterrupted, repairOrphanedToolCalls, results_filter_user h]
    have hsub := (singleton_sublist.mpr hmem).flatMap fun message =>
      message :: interrupted (orphaned (results messages) message)
    rwa [flatMap_singleton] at hsub
  · have hresults := results_interrupted (orphaned (results messages) use)
    rw [hinterrupted, results_cons] at hresults
    rw [← append_nil result.results]
    exact hresults ▸ horphaned

/-! ### Rows -/

variable {row : Row} {call : LlmCall}

theorem readId_of_role (h : row.role ≠ .tool) : row.readId runtime = none := by
  unfold Row.readId Row.storedTool
  split
  · next hrole _ => exact absurd hrole h
  · rfl

theorem placed_textMessage (role : CanonicalRole) (text : String) (phase : Option Phase) :
    (createCanonicalTextMessage role text phase).uses = [] ∧
      (createCanonicalTextMessage role text phase).results = [] := ⟨rfl, rfl⟩

/-- What a row gives: its result, and its call unless that is replayed. -/
theorem emit_message (ledgerCallIds : List String) (row : Row) :
    uses (emit runtime ledgerCallIds (.message row)) =
      (if row.fromLedger ledgerCallIds then [] else (row.readId runtime).toList) ∧
    results (emit runtime ledgerCallIds (.message row)) = (row.readId runtime).toList ∧
    ∀ message ∈ emit runtime ledgerCallIds (.message row), message.Placed := by
  by_cases hrole : row.role = .tool
  · cases htool : row.storedTool runtime with
    | none =>
      simp [emit, appendStoredMessage, hrole, Row.readId, htool, uses, results]
    | some tool =>
      cases hledger : row.fromLedger ledgerCallIds with
      | false | true =>
        simp [emit, appendStoredMessage, hrole, Row.readId, htool, uses, results, hledger,
          CanonicalMessage.uses, CanonicalMessage.results, CanonicalMessage.Placed, Block.use,
          Block.resultId]
  · have hplain : ∀ message ∈ emit runtime ledgerCallIds (.message row),
        message.uses = [] ∧ message.results = [] := by
      intro message hmem
      unfold emit at hmem
      dsimp only at hmem
      split at hmem
      · cases hmem
      · unfold appendStoredMessage at hmem
        split at hmem
        · cases hmem
        · cases hmem
        · next htool => exact absurd htool hrole
        · rw [mem_singleton.mp hmem]
          exact placed_textMessage ..
        · rw [mem_singleton.mp hmem]
          exact placed_textMessage ..
        · split at hmem
          all_goals
            rw [mem_singleton.mp hmem]
            exact placed_textMessage ..
    rw [readId_of_role hrole]
    refine ⟨?_, ?_, fun message hmem => ?_⟩
    · rw [Option.toList_none, ite_self]
      exact flatMap_eq_nil_iff.mpr fun message hmem => (hplain message hmem).1
    · exact flatMap_eq_nil_iff.mpr fun message hmem => (hplain message hmem).2
    · exact ⟨fun _ => (hplain message hmem).1, fun _ => (hplain message hmem).2⟩

/-- A row whose call is not replayed gives the call, and then the result. -/
theorem emit_message_pair (hread : row.readId runtime = some id)
    (hledger : row.fromLedger ledgerCallIds = false) :
    ∃ use result, emit runtime ledgerCallIds (.message row) = [use, result] ∧ id ∈ use.uses ∧
      id ∈ result.results := by
  have hrole : row.role = .tool := by
    by_contra hrole
    rw [readId_of_role hrole] at hread
    cases hread
  obtain ⟨tool, htool, rfl⟩ := Option.map_eq_some_iff.mp hread
  exact ⟨{ role := .assistant, content := [.toolUse tool] },
    { role := .user, content := [.toolResult tool.id row.content] },
    by simp [emit, appendStoredMessage, hrole, htool, hledger],
    mem_singleton_self _, mem_singleton_self _⟩

/-! ### The ledger -/

theorem filterMap_blockFromPayload (output : List Block) :
    (output.filterMap blockFromPayload).filterMap Block.use = output.filterMap Block.use ∧
      (output.filterMap blockFromPayload).filterMap Block.resultId = [] := by
  rw [filterMap_filterMap, filterMap_filterMap]
  constructor
  · congr 1
    funext block
    unfold blockFromPayload
    split <;> rfl
  · rw [filterMap_eq_nil_iff]
    intro block _
    cases block with
    | reasoning text provider =>
      unfold blockFromPayload
      split <;> rfl
    | _ => rfl

theorem filterMap_deriveOpenAIAssistantPhases (content : List Block) :
    (deriveOpenAIAssistantPhases content).filterMap Block.use = content.filterMap Block.use ∧
      (deriveOpenAIAssistantPhases content).filterMap Block.resultId =
        content.filterMap Block.resultId := by
  unfold deriveOpenAIAssistantPhases
  rw [filterMap_map, filterMap_map]
  constructor
  all_goals
    congr 1
    funext block
    dsimp only [Function.comp_apply]
    split <;> rfl

/-- A call is replayed with its tool calls and nothing else of them. -/
theorem filterMap_ledgerMessage (call : LlmCall) :
    call.ledgerMessage.content.filterMap Block.use = call.toolUses ∧
      call.ledgerMessage.content.filterMap Block.resultId = [] := by
  obtain ⟨huse, hresult⟩ := filterMap_blockFromPayload call.output
  obtain ⟨huse', hresult'⟩ :=
    filterMap_deriveOpenAIAssistantPhases (call.output.filterMap blockFromPayload)
  unfold LlmCall.ledgerMessage
  dsimp only
  split
  · exact ⟨huse'.trans huse, hresult'.trans hresult⟩
  · exact ⟨huse, hresult⟩

theorem emit_ledger (ledgerCallIds : List String) (call : LlmCall) :
    uses (emit runtime ledgerCallIds (.ledger call.ledgerMessage)) = call.uses ∧
    results (emit runtime ledgerCallIds (.ledger call.ledgerMessage)) = [] ∧
    ∀ message ∈ emit runtime ledgerCallIds (.ledger call.ledgerMessage), message.Placed := by
  obtain ⟨huse, hresult⟩ := filterMap_ledgerMessage call
  refine ⟨?_, (append_nil _).trans hresult, ?_⟩
  · rw [LlmCall.uses, ← huse]
    exact append_nil _
  · rintro message (_ | ⟨_, hmem⟩)
    · exact ⟨fun hrole => absurd rfl hrole, fun _ => hresult⟩
    · cases hmem

/-- The provider's calls that the loader replays, up to what a checkpoint covers. -/
def LlmCall.replayed (runtime : Runtime) (options : LoadOptions) (call : LlmCall) : Bool :=
  call.provider = options.provider &&
    isProviderLedgerMessageCompatible runtime options call.ledgerMessage

def replayedCalls (runtime : Runtime) (options : LoadOptions) (after : Option LedgerBoundary)
    (calls : List LlmCall) : List LlmCall :=
  ((calls.filter fun call => call.provider = options.provider &&
    llmCallAfterBoundary after call).insertionSort fun a b => !b.before a).filter fun call =>
      isProviderLedgerMessageCompatible runtime options call.ledgerMessage &&
        !call.ledgerMessage.content.isEmpty

theorem filter_loadProviderLedgerMessages (after : Option LedgerBoundary) :
    (loadProviderLedgerMessages calls options.provider after).filter
      (isProviderLedgerMessageCompatible runtime options) =
    (replayedCalls runtime options after calls).map (·.ledgerMessage) := by
  unfold loadProviderLedgerMessages replayedCalls
  rw [filter_filter, filter_map]
  rfl

theorem perm_replayedCalls (after : Option LedgerBoundary) :
    (replayedCalls runtime options after calls).Perm (calls.filter fun call =>
      call.replayed runtime options && llmCallAfterBoundary after call &&
        !call.ledgerMessage.content.isEmpty) := by
  unfold replayedCalls
  refine ((perm_insertionSort _ _).filter _).trans (Perm.of_eq ?_)
  rw [filter_filter]
  refine filter_congr fun call _ => ?_
  unfold LlmCall.replayed
  ac_rfl

/-! ### The conversation -/

/-- The messages before the timeline have no tool calls in them. -/
def preamble (runtime : Runtime) (checkpoint : Option Checkpoint) : List CanonicalMessage :=
  createCanonicalTextMessage .system runtime.systemPrompt none ::
    ((checkpoint.map (·.replacementHistory)).getD []).filter fun message => message.role ≠ .system

theorem preamble_plain (checkpoint : Option Checkpoint) :
    ∀ message ∈ preamble runtime checkpoint, message.uses = [] ∧ message.results = [] := by
  rintro message (_ | ⟨_, hmem⟩)
  · exact placed_textMessage ..
  · cases checkpoint with
    | none => cases hmem
    | some checkpoint => exact checkpoint.noTools message (mem_filter.mp hmem).1

def entries (runtime : Runtime) (options : LoadOptions) (checkpoint : Option Checkpoint)
    (rows : List Row) (calls : List LlmCall) : List Entry :=
  timeline (loadStoredRows rows (checkpoint.bind (·.message)))
    ((replayedCalls runtime options (checkpoint.bind (·.call)) calls).map (·.ledgerMessage))

def replayedIds (runtime : Runtime) (options : LoadOptions) (checkpoint : Option Checkpoint)
    (calls : List LlmCall) : List String :=
  (replayedCalls runtime options (checkpoint.bind (·.call)) calls).map (·.llmCallId)

/-- The conversation before the repair. -/
def assembled (runtime : Runtime) (options : LoadOptions) (checkpoint : Option Checkpoint)
    (rows : List Row) (calls : List LlmCall) : List CanonicalMessage :=
  preamble runtime checkpoint ++ (entries runtime options checkpoint rows calls).flatMap
    (emit runtime (replayedIds runtime options checkpoint calls))

theorem load_eq (checkpoint : Option Checkpoint) :
    load runtime options checkpoint rows calls =
      repairOrphanedToolCalls (assembled runtime options checkpoint rows calls) := by
  unfold load assembled entries replayedIds
  dsimp only
  rw [filter_loadProviderLedgerMessages, map_map]
  rfl

variable (runtime options rows calls) in
theorem perm_entries (checkpoint : Option Checkpoint) :
    (entries runtime options checkpoint rows calls).Perm
      ((loadStoredRows rows (checkpoint.bind (·.message))).map Entry.message ++
        (replayedCalls runtime options (checkpoint.bind (·.call)) calls).map
          fun call => .ledger call.ledgerMessage) := by
  unfold entries timeline
  rw [map_map]
  exact perm_insertionSort _ _

variable (runtime options rows calls) in
theorem placed_assembled (checkpoint : Option Checkpoint) :
    ∀ message ∈ assembled runtime options checkpoint rows calls, message.Placed := by
  intro message hmem
  rcases mem_append.mp hmem with hmem | hmem
  · have hplain := preamble_plain checkpoint message hmem
    exact ⟨fun _ => hplain.1, fun _ => hplain.2⟩
  · obtain ⟨entry, hentry, hmem⟩ := mem_flatMap.mp hmem
    rcases mem_append.mp
      ((perm_entries runtime options rows calls checkpoint).subset hentry) with hentry | hentry
    · obtain ⟨row, _, rfl⟩ := mem_map.mp hentry
      exact (emit_message _ row).2.2 message hmem
    · obtain ⟨call, _, rfl⟩ := mem_map.mp hentry
      exact (emit_ledger _ call).2.2 message hmem

variable (runtime options rows calls) in
/-- **How often an id is called**: by the rows whose call is not replayed, and by the ledger. -/
theorem perm_uses_assembled (checkpoint : Option Checkpoint) :
    (uses (assembled runtime options checkpoint rows calls)).Perm
      ((loadStoredRows rows (checkpoint.bind (·.message))).flatMap (fun row =>
          if row.fromLedger (replayedIds runtime options checkpoint calls) then []
          else (row.readId runtime).toList) ++
        (replayedCalls runtime options (checkpoint.bind (·.call)) calls).flatMap (·.uses)) := by
  have hpreamble : uses (preamble runtime checkpoint) = [] :=
    flatMap_eq_nil_iff.mpr fun message hmem => (preamble_plain checkpoint message hmem).1
  rw [assembled, uses_append, hpreamble, nil_append, uses_flatMap]
  refine ((perm_entries runtime options rows calls checkpoint).flatMap_right _).trans
    (Perm.of_eq ?_)
  rw [flatMap_append, flatMap_map, flatMap_map]
  simp only [(emit_message _ _).1, (emit_ledger _ _).1]

variable (runtime options rows calls) in
/-- **How often an id has a result**: in the rows, before the repair. -/
theorem perm_results_assembled (checkpoint : Option Checkpoint) :
    (results (assembled runtime options checkpoint rows calls)).Perm
      ((loadStoredRows rows (checkpoint.bind (·.message))).filterMap (·.readId runtime)) := by
  have hpreamble : results (preamble runtime checkpoint) = [] :=
    flatMap_eq_nil_iff.mpr fun message hmem => (preamble_plain checkpoint message hmem).2
  rw [assembled, results_append, hpreamble, nil_append, results_flatMap]
  refine ((perm_entries runtime options rows calls checkpoint).flatMap_right _).trans
    (Perm.of_eq ?_)
  rw [flatMap_append, flatMap_map, flatMap_map]
  simp only [(emit_message _ _).2.1, (emit_ledger _ _).2.1]
  simp [filterMap_eq_flatMap_toList]

/-! ### Coherence -/

/-- The rows and the ledger fit together, for a provider. -/
structure Coherent (runtime : Runtime) (options : LoadOptions) (rows : List Row)
    (calls : List LlmCall) : Prop where
  uses : (calls.flatMap (·.uses)).Nodup
  reads : (rows.filterMap (·.readId runtime)).Nodup
  named : ∀ call ∈ calls, call.llmCallId ≠ ""
  results : ∀ row ∈ rows, ∀ id ∈ row.readId runtime, ∀ call ∈ calls,
    call.replayed runtime options = true → id ∈ call.uses →
      row.llmCallId = some call.llmCallId ∧ call.createdAt / 1000 < row.contextAt / 1000

theorem mem_loadStoredRows (h : row ∈ loadStoredRows rows boundary) : row ∈ rows := by
  rw [loadStoredRows, mem_insertionSort] at h
  exact (mem_filter.mp h).1

theorem mem_replayedCalls {after : Option LedgerBoundary} :
    call ∈ replayedCalls runtime options after calls ↔
      call ∈ calls ∧ call.replayed runtime options = true ∧
        llmCallAfterBoundary after call = true ∧ call.ledgerMessage.content ≠ [] := by
  rw [(perm_replayedCalls after).mem_iff, mem_filter]
  simp [and_assoc]

theorem Coherent.nodup_reads (h : Coherent runtime options rows calls)
    (boundary : Option ModelContext.Boundary) :
    ((loadStoredRows rows boundary).filterMap (·.readId runtime)).Nodup := by
  have hperm : (loadStoredRows rows boundary).Perm (rows.filter fun row =>
      row.visible && ModelContext.afterBoundary boundary row.toMessage) :=
    perm_insertionSort _ _
  rw [(hperm.filterMap _).nodup_iff]
  exact h.reads.sublist (filter_sublist.filterMap _)

theorem Coherent.nodup_replayed (h : Coherent runtime options rows calls)
    (after : Option LedgerBoundary) :
    ((replayedCalls runtime options after calls).flatMap (·.uses)).Nodup := by
  rw [((perm_replayedCalls after).flatMap_right _).nodup_iff]
  exact h.uses.sublist (filter_sublist.flatMap _)

theorem Coherent.fromLedger (h : Coherent runtime options rows calls)
    {checkpoint : Option Checkpoint} (hrow : row ∈ rows) (hread : row.readId runtime = some id)
    (hcall : call ∈ replayedCalls runtime options (checkpoint.bind (·.call)) calls)
    (hid : id ∈ call.uses) :
    row.fromLedger (replayedIds runtime options checkpoint calls) = true := by
  obtain ⟨hmem, hreplayed, _⟩ := mem_replayedCalls.mp hcall
  rw [Row.fromLedger, (h.results row hrow id hread call hmem hreplayed hid).1, Option.any_some]
  have hids : call.llmCallId ∈ replayedIds runtime options checkpoint calls :=
    mem_map_of_mem hcall
  simp [h.named call hmem, hids]

/-- What is earlier comes first in a list that is sorted by time. -/
theorem pair_sublist_of_lt {α : Type*} {time : α → ℕ} {l : List α} {a b : α}
    (hsorted : l.Pairwise fun a b => time a ≤ time b) (ha : a ∈ l) (hb : b ∈ l)
    (hlt : time a < time b) : [a, b].Sublist l := by
  induction hsorted with
  | nil => cases ha
  | cons hfirst _ ih =>
    rcases mem_cons.mp ha with rfl | ha
    · rcases mem_cons.mp hb with heq | hb
      · exact absurd hlt (heq ▸ Nat.lt_irrefl _)
      · exact (singleton_sublist.mpr hb).cons_cons _
    · rcases mem_cons.mp hb with heq | hb
      · exact absurd (hfirst a ha) (heq ▸ Nat.not_le.mpr hlt)
      · exact (ih ha hb).cons _

theorem pairwise_entries (checkpoint : Option Checkpoint) :
    (entries runtime options checkpoint rows calls).Pairwise fun a b => a.getTime ≤ b.getTime := by
  have : Std.Total fun a b : Entry => a.getTime ≤ b.getTime := ⟨fun a b => Nat.le_total _ _⟩
  have : IsTrans Entry fun a b => a.getTime ≤ b.getTime := ⟨fun a b c => Nat.le_trans⟩
  exact pairwise_insertionSort _ _

theorem Coherent.later (h : Coherent runtime options rows calls) {checkpoint : Option Checkpoint}
    (hrow : row ∈ loadStoredRows rows (checkpoint.bind (·.message)))
    (hread : row.readId runtime = some id)
    (hcall : call ∈ replayedCalls runtime options (checkpoint.bind (·.call)) calls)
    (hid : id ∈ call.uses) :
    ∃ use result, [use, result].Sublist (assembled runtime options checkpoint rows calls) ∧
      id ∈ use.uses ∧ id ∈ result.results := by
  obtain ⟨hmem, hreplayed, _⟩ := mem_replayedCalls.mp hcall
  have hlt := (h.results row (mem_loadStoredRows hrow) id hread call hmem hreplayed hid).2
  have hperm := perm_entries runtime options rows calls checkpoint
  have hledger : Entry.ledger call.ledgerMessage ∈ entries runtime options checkpoint rows calls :=
    hperm.mem_iff.mpr (mem_append_right _ (mem_map.mpr ⟨call, hcall, rfl⟩))
  have hmessage : Entry.message row ∈ entries runtime options checkpoint rows calls :=
    hperm.mem_iff.mpr (mem_append_left _ (mem_map.mpr ⟨row, hrow, rfl⟩))
  have hpair := pair_sublist_of_lt (pairwise_entries checkpoint) hledger hmessage hlt
  obtain ⟨result, hresult, hresultId⟩ : ∃ result ∈ emit runtime
      (replayedIds runtime options checkpoint calls) (.message row), id ∈ result.results := by
    refine mem_flatMap.mp ?_
    rw [show flatMap _ _ = _ from (emit_message _ row).2.1, hread]
    exact mem_singleton_self _
  refine ⟨{ role := .assistant, content := call.ledgerMessage.content }, result, ?_, ?_, hresultId⟩
  · refine .trans ?_ (sublist_append_right _ _)
    refine .trans ?_ (hpair.flatMap (emit runtime (replayedIds runtime options checkpoint calls)))
    rw [flatMap_cons, flatMap_singleton]
    exact (singleton_sublist.mpr hresult).cons_cons _
  · rw [CanonicalMessage.uses, (filterMap_ledgerMessage call).1]
    exact hid

/-- A call is answered after the repair if it was answered at most once before. -/
theorem answered_repairOrphanedToolCalls (h : ∀ message ∈ messages, message.Placed)
    (huse : (uses messages).count id = 1)
    (hresult : id ∈ results messages → (results messages).count id = 1 ∧
      ∃ use result, [use, result].Sublist messages ∧ id ∈ use.uses ∧ id ∈ result.results) :
    Answered (repairOrphanedToolCalls messages) id := by
  obtain ⟨huses, hresults, hsub⟩ := repairOrphanedToolCalls_spec h id
  by_cases hmem : id ∈ results messages
  · obtain ⟨hcount, use, result, hpair, hids⟩ := hresult hmem
    refine ⟨by rw [huses, huse], ?_, use, result, hpair.trans hsub, hids⟩
    rw [hresults, if_pos hmem, hcount]
  · have hpos : id ∈ uses messages := count_pos_iff.mp (huse ▸ Nat.one_pos)
    obtain ⟨use, huseMem, hid⟩ := mem_flatMap.mp hpos
    obtain ⟨result, hpair, hresultId⟩ := sublist_repairOrphanedToolCalls h huseMem hid hmem
    refine ⟨by rw [huses, huse], ?_, use, result, hpair, hid, hresultId⟩
    rw [hresults, if_neg hmem, huse, count_eq_zero.mpr hmem]

/-- **A coherent history gives a well-formed conversation**, whatever a checkpoint covers. -/
theorem Coherent.wellFormed (h : Coherent runtime options rows calls)
    (checkpoint : Option Checkpoint) : WellFormed (load runtime options checkpoint rows calls) := by
  rw [load_eq]
  intro id hid
  have hplaced := placed_assembled runtime options rows calls checkpoint
  rw [(repairOrphanedToolCalls_spec hplaced id).1] at hid
  have huses := perm_uses_assembled runtime options rows calls checkpoint
  have hresults := perm_results_assembled runtime options rows calls checkpoint
  have honce := h.nodup_reads (checkpoint.bind (·.message))
  by_cases hreplayed :
      id ∈ (replayedCalls runtime options (checkpoint.bind (·.call)) calls).flatMap (·.uses)
  · obtain ⟨call, hcall, hcallId⟩ := mem_flatMap.mp hreplayed
    refine answered_repairOrphanedToolCalls hplaced ?_ fun hresult => ⟨?_, ?_⟩
    · rw [huses.count_eq, count_append,
        count_eq_one_of_mem (h.nodup_replayed _) hreplayed, count_eq_zero.mpr]
      intro hrows
      obtain ⟨row, hrow, hread⟩ := mem_flatMap.mp hrows
      split at hread
      · cases hread
      · next hledger =>
        exact hledger (h.fromLedger (mem_loadStoredRows hrow) (Option.mem_toList.mp hread) hcall
          hcallId)
    · rw [hresults.count_eq]
      exact count_eq_one_of_mem honce (hresults.mem_iff.mp hresult)
    · obtain ⟨row, hrow, hread⟩ := mem_filterMap.mp (hresults.mem_iff.mp hresult)
      exact h.later hrow hread hcall hcallId
  · have hown := (mem_append.mp (huses.mem_iff.mp hid)).resolve_right hreplayed
    refine answered_repairOrphanedToolCalls hplaced ?_ fun hresult => ⟨?_, ?_⟩
    · rw [huses.count_eq, count_append, count_eq_zero.mpr hreplayed]
      refine count_eq_one_of_mem (honce.sublist ?_) hown
      rw [filterMap_eq_flatMap_toList]
      refine List.Sublist.flatMap_right _ fun row _ => ?_
      split
      · exact nil_sublist _
      · exact .refl _
    · rw [hresults.count_eq]
      exact count_eq_one_of_mem honce (hresults.mem_iff.mp hresult)
    · obtain ⟨row, hrow, hread⟩ := mem_flatMap.mp hown
      split at hread
      · cases hread
      · next hledger =>
        obtain ⟨use, result, hemit, hids⟩ :=
          emit_message_pair (Option.mem_toList.mp hread) (Bool.eq_false_of_not_eq_true hledger)
        refine ⟨use, result, .trans ?_ (sublist_append_right _ _), hids⟩
        have hentry : Entry.message row ∈ entries runtime options checkpoint rows calls :=
          (perm_entries runtime options rows calls checkpoint).mem_iff.mpr
            (mem_append_left _ (mem_map.mpr ⟨row, hrow, rfl⟩))
        have hsub := (singleton_sublist.mpr hentry).flatMap
          (emit runtime (replayedIds runtime options checkpoint calls))
        rwa [flatMap_singleton, hemit] at hsub

/-- A tool call that is replayed, and that no checkpoint covers, is in the conversation. -/
theorem mem_uses_load (checkpoint : Option Checkpoint) (hcall : call ∈ calls)
    (hreplayed : call.replayed runtime options = true)
    (hafter : llmCallAfterBoundary (checkpoint.bind (·.call)) call = true) (hid : id ∈ call.uses) :
    id ∈ uses (load runtime options checkpoint rows calls) := by
  have hplaced := placed_assembled runtime options rows calls checkpoint
  rw [load_eq, (repairOrphanedToolCalls_spec hplaced id).1,
    (perm_uses_assembled runtime options rows calls checkpoint).mem_iff]
  refine mem_append_right _ (mem_flatMap.mpr ⟨call, ?_, hid⟩)
  refine mem_replayedCalls.mpr ⟨hcall, hreplayed, hafter, fun hempty => ?_⟩
  rw [LlmCall.uses, ← (filterMap_ledgerMessage call).1, hempty] at hid
  cases hid

end Bud.Conversation
