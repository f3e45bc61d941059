import Bud.Llm.Types
import Mathlib.Data.List.Flatten

/-!
# Tool calls without a result

`repairOrphanedToolCalls` of `conversation-loader.ts`: a provider refuses a conversation in which a
tool call has no result. The results are collected from all the messages of the user first; then,
behind each message of the assistant, those of its calls that have none are given one that says that
the call was interrupted.

`Conversation` has the same function for messages with less in them. Here a message may be a text or
blocks, the list of what the messages come from is kept in step, and the results are counted.

## Modelling notes

`sources`, if it is given, is as long as the list of messages. A message of the assistant may hold
results and one of the user may hold calls; neither is looked at.
-/

namespace Bud.OrphanRepair

open JsText JsValue Llm List
open Conversation (CanonicalRole)

/-- Where a message comes from. -/
inductive MessageSource where
  | systemPrompt (scope version : Text)
  | runtimeInstruction
  | checkpointSummary (checkpointId : Text)
  | checkpointHistory (checkpointId : Text)
  | message (messageId clientId role : Text)
  | ledger (llmCallId : Text)
  | repair

def calls (message : Message) : List Text :=
  if message.role = .assistant then message.blocks.filterMap Block.useId else []

def results (message : Message) : List Text :=
  if message.role = .user then message.blocks.filterMap Block.resultId else []

/-- `JSON.stringify({ error: "interrupted", summary: … })`. -/
def interruptedText : Text :=
  lit ("\x7b\"error\":\"interrupted\",\"summary\":\"No tool result was recorded. The action may " ++
    "have executed or may still be running. Inspect available state and evidence before taking " ++
    "further action; do not assume repeating it is safe.\"\x7d")

/-- The results for calls that have none. -/
def interrupted (ids : List Text) : Message where
  role := .user
  content := .blocks (ids.map fun id => .toolResult id (.string interruptedText) none)

structure Repaired where
  messages : List Message
  sources : Option (List MessageSource)
  injectedResults : ℕ

def orphaned (resultIds : List Text) (message : Message) : List Text :=
  (calls message).filter (· ∉ resultIds)

def withRepair {α : Type} (resultIds : List Text) (message : Message) (a : α)
    (repair : List Text → α) : List α :=
  let ids := orphaned resultIds message
  if ids = [] then [a] else [a, repair ids]

def repairOrphanedToolCalls (messages : List Message) (sources : Option (List MessageSource)) :
    Repaired :=
  let resultIds := messages.flatMap results
  { messages := messages.flatMap fun message => withRepair resultIds message message interrupted
    sources := sources.map fun sources =>
      (messages.zip sources).flatMap fun x => withRepair resultIds x.1 x.2 fun _ => .repair
    injectedResults := (messages.map fun message => (orphaned resultIds message).length).sum }

/-! ### What is put behind a message -/

/-- Each call has a result behind it. -/
def Answered (messages : List Message) : Prop :=
  ∀ before message after, messages = before ++ message :: after →
    ∀ id ∈ calls message, id ∈ after.flatMap results

/-- A call that has a result has one behind it. -/
def Follow (messages : List Message) : Prop :=
  ∀ before message after, messages = before ++ message :: after →
    ∀ id ∈ calls message, id ∈ messages.flatMap results → id ∈ after.flatMap results

variable {messages : List Message} {resultIds : List Text}

variable {message : Message} {α : Type}

theorem mem_orphaned {id : Text} :
    id ∈ orphaned resultIds message ↔ id ∈ calls message ∧ id ∉ resultIds := by
  simp [orphaned]

@[simp] theorem calls_interrupted (ids : List Text) : calls (interrupted ids) = [] := rfl

@[simp] theorem results_interrupted (ids : List Text) : results (interrupted ids) = ids := by
  simp [results, interrupted, Message.blocks, filterMap_map, Function.comp_def, Block.resultId]

theorem withRepair_of_nil (h : orphaned resultIds message = []) (a : α) (repair : List Text → α) :
    withRepair resultIds message a repair = [a] := if_pos h

theorem calls_withRepair (message : Message) :
    (withRepair resultIds message message interrupted).flatMap calls = calls message := by
  rw [withRepair]
  split <;> simp

theorem results_withRepair (message : Message) :
    (withRepair resultIds message message interrupted).flatMap results =
      results message ++ orphaned resultIds message := by
  rw [withRepair]
  split
  next h => simp [h]
  next => simp

theorem singleton_sublist_withRepair (message : Message) (a : α) (repair : List Text → α) :
    [a].Sublist (withRepair resultIds message a repair) := by
  rw [withRepair]
  split <;> simp

theorem length_withRepair {β : Type} (message : Message) (a : α) (repair : List Text → α) (b : β)
    (repair' : List Text → β) : (withRepair resultIds message a repair).length =
      (withRepair resultIds message b repair').length := by
  rw [withRepair, withRepair]
  split <;> rfl

theorem zip_withRepair {β : Type} (message : Message) (a : α) (repair : List Text → α) (b : β)
    (repair' : List Text → β) :
    (withRepair resultIds message a repair).zip (withRepair resultIds message b repair') =
      withRepair resultIds message (a, b) fun ids => (repair ids, repair' ids) := by
  rw [withRepair, withRepair, withRepair]
  split <;> rfl

/-! ### The messages -/

def repaired (resultIds : List Text) (messages : List Message) : List Message :=
  messages.flatMap fun message => withRepair resultIds message message interrupted

theorem calls_repaired : (repaired resultIds messages).flatMap calls = messages.flatMap calls := by
  rw [repaired, flatMap_assoc]
  simp only [calls_withRepair]

theorem count_results_repaired (id : Text) :
    ((repaired resultIds messages).flatMap results).count id = (messages.flatMap results).count id +
        ((messages.flatMap calls).filter (· ∉ resultIds)).count id := by
  rw [repaired, flatMap_assoc]
  simp only [results_withRepair, orphaned]
  induction messages with
  | nil => rfl
  | cons message messages ih =>
    simp only [flatMap_cons, count_append, filter_append, ih]
    omega

theorem mem_results_repaired {id : Text} : id ∈ (repaired resultIds messages).flatMap results ↔
    id ∈ messages.flatMap results ∨ id ∈ messages.flatMap calls ∧ id ∉ resultIds := by
  rw [← count_pos_iff, count_results_repaired, Nat.add_pos_iff_pos_or_pos,
    count_pos_iff, count_pos_iff]
  simp

theorem sublist_repaired : messages.Sublist (repaired resultIds messages) := by
  conv_lhs => rw [← flatMap_singleton' messages]
  exact List.Sublist.flatMap_right _ fun m _ => singleton_sublist_withRepair m m interrupted

theorem answered_nil : Answered [] := by
  intro before message after h
  simp at h

theorem answered_cons : Answered (message :: messages) ↔
    (∀ id ∈ calls message, id ∈ messages.flatMap results) ∧ Answered messages := by
  constructor
  · intro h
    refine ⟨h [] message messages rfl, fun before m after heq => ?_⟩
    exact h (message :: before) m after (by rw [heq, cons_append])
  · rintro ⟨hhead, htail⟩ before m after heq
    cases before with
    | nil =>
      obtain ⟨rfl, rfl⟩ := cons.inj heq
      exact hhead
    | cons b before => exact htail before m after (cons.inj heq).2

/-- The calls of a part of the messages are answered, if those that have a result have one behind
them. -/
theorem answered_repaired (h : ∀ before message after, messages = before ++ message :: after →
    ∀ id ∈ calls message, id ∈ resultIds → id ∈ after.flatMap results) :
    Answered (repaired resultIds messages) := by
  induction messages with
  | nil => exact answered_nil
  | cons message messages ih =>
    have hrest : Answered (repaired resultIds messages) := by
      refine ih fun before m after heq => ?_
      exact h (message :: before) m after (by rw [heq, cons_append])
    have hhead : ∀ id ∈ calls message, id ∉ orphaned resultIds message →
        id ∈ (repaired resultIds messages).flatMap results := by
      intro id hid hnot
      have hresult : id ∈ resultIds := by
        by_contra hresult
        exact hnot (mem_orphaned.mpr ⟨hid, hresult⟩)
      exact mem_results_repaired.mpr (.inl (h [] message messages rfl id hid hresult))
    rw [repaired, flatMap_cons, withRepair, ← repaired]
    split
    next hnil =>
      rw [singleton_append, answered_cons]
      refine ⟨fun id hid => hhead id hid ?_, hrest⟩
      rw [hnil]
      exact not_mem_nil
    next =>
      rw [cons_append, singleton_append, answered_cons, answered_cons]
      refine ⟨fun id hid => ?_, fun id hid => absurd hid not_mem_nil, hrest⟩
      rw [flatMap_cons, results_interrupted, mem_append]
      by_cases hid' : id ∈ orphaned resultIds message
      · exact .inl hid'
      · exact .inr (hhead id hid hid')

theorem orphaned_repaired (h : message ∈ repaired (messages.flatMap results) messages) :
    orphaned ((repaired (messages.flatMap results) messages).flatMap results) message = [] := by
  rw [eq_nil_iff_forall_not_mem]
  intro id hid
  obtain ⟨hcall, hnone⟩ := mem_orphaned.mp hid
  refine hnone (mem_results_repaired.mpr ?_)
  have hmem : id ∈ messages.flatMap calls := by
    rw [← @calls_repaired messages (messages.flatMap results)]
    exact mem_flatMap.mpr ⟨message, h, hcall⟩
  by_cases hresult : id ∈ messages.flatMap results
  · exact .inl hresult
  · exact .inr ⟨hmem, hresult⟩

theorem sum_length_orphaned : (messages.map fun m => (orphaned resultIds m).length).sum =
    ((messages.flatMap calls).filter (· ∉ resultIds)).length := by
  rw [filter_flatMap, length_flatMap]
  rfl

/-! ### The sources -/

def repairedSources (resultIds : List Text) (messages : List Message)
    (sources : List MessageSource) : List MessageSource :=
  (messages.zip sources).flatMap fun x => withRepair resultIds x.1 x.2 fun _ => .repair

/-- Each message has its source beside it, and what is put behind it has one that says so. -/
theorem zip_repaired {sources : List MessageSource} (h : sources.length = messages.length) :
    (repairedSources resultIds messages sources).length = (repaired resultIds messages).length ∧
      (repaired resultIds messages).zip (repairedSources resultIds messages sources) =
        (messages.zip sources).flatMap fun x =>
          withRepair resultIds x.1 x fun ids => (interrupted ids, .repair) := by
  induction messages generalizing sources with
  | nil => exact ⟨rfl, rfl⟩
  | cons message messages ih =>
    cases sources with
    | nil => simp at h
    | cons source sources =>
      obtain ⟨hlength, hzip⟩ := ih (Nat.succ.inj h)
      have hone : (withRepair resultIds message message interrupted).length =
          (withRepair resultIds message source fun _ => .repair).length :=
        length_withRepair message message interrupted source _
      simp only [repaired, repairedSources, zip_cons_cons, flatMap_cons] at hlength hzip ⊢
      refine ⟨?_, ?_⟩
      · rw [length_append, length_append, hlength, hone]
      · rw [zip_append hone, hzip, zip_withRepair]

/-! ### The repair -/

/-- What the repair makes of a conversation. -/
structure Repairs (messages : List Message) (sources : Option (List MessageSource))
    (result : Repaired) : Prop where
  /-- The messages are there, as they were and in their order. -/
  kept : messages.Sublist result.messages
  parallel : ∀ given ∈ sources, ∃ kept, result.sources = some kept ∧
    kept.length = result.messages.length ∧ (messages.zip given).Sublist (result.messages.zip kept)
  answered : Follow messages → Answered result.messages
  /-- A call that had no result has one now. -/
  injected : (messages.flatMap calls).Nodup →
    result.injectedResults =
      ((messages.flatMap calls).filter (· ∉ messages.flatMap results)).length ∧
    ∀ id, (result.messages.flatMap results).count id = (messages.flatMap results).count id +
      if id ∈ messages.flatMap calls ∧ id ∉ messages.flatMap results then 1 else 0
  idempotent : repairOrphanedToolCalls result.messages result.sources =
    { result with injectedResults := 0 }

theorem repair_of_orphaned_eq_nil (hparallel : ∀ given ∈ sources, given.length = messages.length)
    (h : ∀ message ∈ messages, orphaned (messages.flatMap results) message = []) :
    repairOrphanedToolCalls messages sources = ⟨messages, sources, 0⟩ := by
  have hmessages : (messages.flatMap fun message =>
      withRepair (messages.flatMap results) message message interrupted) = messages := by
    calc _ = messages.flatMap fun message => [message] :=
          flatMap_congr fun m hm => withRepair_of_nil (h m hm) m interrupted
      _ = messages := flatMap_singleton' messages
  have hsources : (sources.map fun sources => (messages.zip sources).flatMap fun x =>
      withRepair (messages.flatMap results) x.1 x.2 fun _ => .repair) = sources := by
    rcases sources with _ | given
    · rfl
    · refine congrArg some ?_
      calc _ = (messages.zip given).flatMap fun x => [x.2] :=
            flatMap_congr fun x hx =>
              withRepair_of_nil (h x.1 (of_mem_zip hx).1) x.2 _
        _ = (messages.zip given).map Prod.snd := flatMap_pure_eq_map _ _
        _ = given := map_snd_zip (hparallel given rfl).le
  have hnone : (messages.map fun m => (orphaned (messages.flatMap results) m).length).sum = 0 := by
    rw [sum_length_orphaned, length_eq_zero_iff, filter_flatMap, flatMap_eq_nil_iff]
    exact h
  rw [repairOrphanedToolCalls, hmessages, hsources, hnone]

/-- **The repair of orphans.** -/
theorem orphan_repair (messages : List Message) (sources : Option (List MessageSource))
    (hparallel : ∀ given ∈ sources, given.length = messages.length) :
    Repairs messages sources (repairOrphanedToolCalls messages sources) where
  kept := sublist_repaired
  parallel := by
    rintro given hgiven
    obtain rfl := Option.mem_def.mp hgiven
    obtain ⟨hlength, hzip⟩ :=
      @zip_repaired messages (messages.flatMap results) given (hparallel given rfl)
    refine ⟨_, rfl, hlength, ?_⟩
    change (messages.zip given).Sublist
      ((repaired _ messages).zip (repairedSources _ messages given))
    rw [hzip]
    conv_lhs => rw [← flatMap_singleton' (messages.zip given)]
    exact List.Sublist.flatMap_right _ fun x _ => singleton_sublist_withRepair x.1 x _
  answered := fun hfollow => answered_repaired hfollow
  injected := by
    intro hnodup
    refine ⟨sum_length_orphaned, fun id => ?_⟩
    change ((repaired _ messages).flatMap results).count id = _
    rw [count_results_repaired, (hnodup.filter _).count]
    simp
  idempotent := by
    refine repair_of_orphaned_eq_nil ?_ fun message hmessage => orphaned_repaired hmessage
    intro kept hkept
    obtain ⟨given, hgiven, rfl⟩ := Option.map_eq_some_iff.mp hkept
    exact (zip_repaired (hparallel given hgiven)).1

/-- Two calls of which one has its result. -/
def halfAnswered : List Message :=
  [{ role := .assistant
     content := .blocks
       [.toolUse (lit "a") (lit "web_read") [], .toolUse (lit "b") (lit "wait") []] },
    { role := .user, content := .blocks [.toolResult (lit "a") (.string (lit "done")) none] }]

theorem orphan_repair_halfAnswered :
    Repairs halfAnswered (some [.ledger (lit "c1"), .message (lit "m1") (lit "m1") (lit "tool")])
        (repairOrphanedToolCalls halfAnswered
          (some [.ledger (lit "c1"), .message (lit "m1") (lit "m1") (lit "tool")])) ∧
      Follow halfAnswered ∧
      (repairOrphanedToolCalls halfAnswered none).injectedResults = 1 := by
  refine ⟨orphan_repair _ _ ?_, ?_, by decide⟩
  · rintro _ ⟨⟩
    rfl
  · intro before message after heq id hid hresult
    rcases before with _ | ⟨first, _ | ⟨second, before⟩⟩
    · obtain ⟨rfl, rfl⟩ := cons.inj heq
      exact hresult
    · obtain ⟨-, heq⟩ := cons.inj heq
      obtain ⟨rfl, rfl⟩ := cons.inj heq
      exact absurd hid not_mem_nil
    · simp [halfAnswered] at heq

end Bud.OrphanRepair
