import Bud.Agent.ContextBudget
import Bud.Lib.Trimming
import Mathlib.Data.List.Infix

/-!
# The messages of the user that survive a compaction

`collectRecentUserMessages` of `context-compactor.ts` goes through a conversation from its end and
keeps the texts of the user while their estimates fit in a budget. The first that does not fit is
cut to what is left, and marked.

The cut leaves four units for each token that is left beside the marker, and forgets that a message
and a block have an overhead of their own. A message that is cut is therefore worth twelve tokens
more than what was left, unless its text was short and other blocks made it too large.
-/

namespace Bud.ContextBudget

open JsText JsValue Llm List
open Conversation (CanonicalRole)

/-! ### The choice -/

def recentUserMessageTokenBudget : ℕ := 20000

def messageText (message : Message) : Text := collectText (normalizeContent message.content)

def isRealUserTextMessage (message : Message) : Bool :=
  if message.role ≠ .user then false
  else if (normalizeContent message.content).all fun block => block.resultId.isSome then false
  else
    decide (trim (messageText message) ≠ []) &&
      !decide (checkpointSummaryPrefix <:+: messageText message)

def marker : Text := lit "\n\n[Earlier user message truncated during context compaction.]"

theorem length_marker : marker.length = 61 := congrArg length (lit_ofList _)

def truncateUserMessageToBudget (message : Message) (remainingBudget : ℕ) : Option Message :=
  if remainingBudget ≤ 16 then none
  else
    let maxChars := (remainingBudget - estimateTextTokens marker) * 4
    if maxChars = 0 then none
    else some (textMessage .user (lastOf maxChars (messageText message) ++ marker))

def collectFrom (runtime : Runtime) (remainingBudget : ℕ) : List Message → List Message
  | [] => []
  | message :: messages =>
    if isRealUserTextMessage message then
      let tokenEstimate := estimateCanonicalMessagesTokens runtime [message]
      if tokenEstimate ≤ remainingBudget then
        message :: collectFrom runtime (remainingBudget - tokenEstimate) messages
      else (truncateUserMessageToBudget message remainingBudget).toList
    else collectFrom runtime remainingBudget messages

def collectRecentUserMessages (runtime : Runtime) (conversation : List Message) : List Message :=
  (collectFrom runtime recentUserMessageTokenBudget conversation.reverse).reverse

/-! ### What is chosen -/

/-- The chosen messages are the last real ones, as they are, and perhaps the end of the one before
them, marked. -/
def Recent (conversation chosen : List Message) : Prop :=
  ∃ older whole, conversation.filter isRealUserTextMessage = older ++ whole ∧
    (chosen = whole ∨ ∃ message text, older.getLast? = some message ∧
      text <:+ messageText message ∧ chosen = textMessage .user (text ++ marker) :: whole)

variable {runtime : Runtime}

theorem collectFrom_filter (budget : ℕ) (messages : List Message) :
    collectFrom runtime budget messages =
      collectFrom runtime budget (messages.filter isRealUserTextMessage) := by
  induction messages generalizing budget with
  | nil => rfl
  | cons message messages ih =>
    rw [collectFrom]
    split
    next h =>
      rw [filter_cons_of_pos h, collectFrom, if_pos h]
      simp only [ih]
    next h => rw [filter_cons_of_neg h, ih]

/-- Where the loop stops: everything fits, or a message does not. -/
theorem collectFrom_eq {budget : ℕ} {messages : List Message}
    (hreal : ∀ message ∈ messages, isRealUserTextMessage message = true) :
    (cost runtime messages ≤ budget ∧ collectFrom runtime budget messages = messages) ∨
      ∃ kept message older, messages = kept ++ message :: older ∧ cost runtime kept ≤ budget ∧
        budget < cost runtime kept + estimateCanonicalMessagesTokens runtime [message] ∧
        collectFrom runtime budget messages = kept ++
          (truncateUserMessageToBudget message (budget - cost runtime kept)).toList := by
  induction messages generalizing budget with
  | nil => exact .inl ⟨Nat.zero_le _, rfl⟩
  | cons first messages ih =>
    obtain ⟨hfirst, hreal⟩ := forall_mem_cons.mp hreal
    rw [collectFrom, if_pos hfirst]
    by_cases hle : estimateCanonicalMessagesTokens runtime [first] ≤ budget
    · simp only [if_pos hle, cost_cons]
      rcases @ih (budget - estimateCanonicalMessagesTokens runtime [first]) hreal with
        ⟨hall, heq⟩ | ⟨kept, message, older, rfl, hkept, hover, heq⟩
      · exact .inl ⟨by omega, by rw [heq]⟩
      · refine .inr ⟨first :: kept, message, older, rfl, ?_, ?_, ?_⟩
        · rw [cost_cons]
          omega
        · rw [cost_cons]
          omega
        · rw [heq, cost_cons, cons_append, Nat.sub_sub]
    · refine .inr ⟨[], first, messages, rfl, Nat.zero_le _, ?_, ?_⟩
      · rw [cost, map_nil, sum_nil]
        omega
      · simp only [if_neg hle, cost, map_nil, sum_nil, Nat.sub_zero, nil_append]

theorem suffix_lastOf {α : Type} (n : ℕ) (l : List α) : lastOf n l <:+ l := drop_suffix _ l

variable {message : Message}

/-- A message that is cut is the end of its text and the marker. -/
theorem truncate_eq :
    (truncateUserMessageToBudget message budget).toList = if budget ≤ 16 then []
      else [textMessage .user (lastOf ((budget - 16) * 4) (messageText message) ++ marker)] := by
  have hmarker : estimateTextTokens marker = 16 := by
    rw [estimateTextTokens, length_marker]
    decide
  rw [truncateUserMessageToBudget, hmarker]
  by_cases hbudget : budget ≤ 16
  · simp [hbudget]
  · rw [if_neg hbudget, if_neg hbudget]
    simp only [show (budget - 16) * 4 ≠ 0 by omega, if_false, Option.toList_some]

theorem collectRecentUserMessages_eq (conversation : List Message) :
    (cost runtime (conversation.filter isRealUserTextMessage) ≤ recentUserMessageTokenBudget ∧
      collectRecentUserMessages runtime conversation = conversation.filter isRealUserTextMessage) ∨
    ∃ older message whole, conversation.filter isRealUserTextMessage = older ++ message :: whole ∧
      cost runtime whole ≤ recentUserMessageTokenBudget ∧
      recentUserMessageTokenBudget <
        cost runtime whole + estimateCanonicalMessagesTokens runtime [message] ∧
      collectRecentUserMessages runtime conversation = (truncateUserMessageToBudget message
          (recentUserMessageTokenBudget - cost runtime whole)).toList ++ whole := by
  have hcost (messages : List Message) : cost runtime messages.reverse = cost runtime messages := by
    rw [cost, cost, map_reverse, sum_reverse]
  have htoList {a : Option Message} : a.toList.reverse = a.toList := by
    cases a <;> rfl
  have hreal : ∀ message ∈ conversation.reverse.filter isRealUserTextMessage,
      isRealUserTextMessage message = true := fun message h => (mem_filter.mp h).2
  rw [collectRecentUserMessages, collectFrom_filter]
  rcases @collectFrom_eq runtime recentUserMessageTokenBudget _ hreal with
    ⟨hall, heq⟩ | ⟨kept, message, older, hsplit, hkept, hover, heq⟩
  · rw [filter_reverse] at hall heq
    refine .inl ⟨hcost _ ▸ hall, ?_⟩
    rw [filter_reverse, heq, reverse_reverse]
  · rw [filter_reverse] at hsplit
    refine .inr ⟨older.reverse, message, kept.reverse, ?_, ?_, ?_, ?_⟩
    · rw [← reverse_reverse (conversation.filter _), hsplit]
      simp
    · rwa [hcost]
    · rwa [hcost]
    · rw [heq, hcost, reverse_append, htoList]

/-- **The choice is of the right shape.** -/
theorem recent_collectRecentUserMessages (conversation : List Message) :
    Recent conversation (collectRecentUserMessages runtime conversation) := by
  rcases @collectRecentUserMessages_eq runtime conversation with
    ⟨-, heq⟩ | ⟨older, message, whole, hsplit, -, -, heq⟩
  · exact ⟨[], _, rfl, .inl heq⟩
  · refine ⟨older ++ [message], whole, by rw [hsplit, append_assoc]; rfl, ?_⟩
    rw [truncate_eq] at heq
    split at heq
    next => exact .inl heq
    next =>
      exact .inr ⟨message, _, getLast?_concat, suffix_lastOf _ _, heq⟩

/-! ### The budget -/

/-- A message that does not fit in what the messages behind it have left of the budget is left out,
or its text fits with its marker, or those messages have screenshots that were counted twice. -/
def Fits (runtime : Runtime) (conversation : List Message) : Prop :=
  ∀ older message whole, conversation.filter isRealUserTextMessage = older ++ message :: whole →
    cost runtime whole ≤ recentUserMessageTokenBudget →
    recentUserMessageTokenBudget <
      cost runtime whole + estimateCanonicalMessagesTokens runtime [message] →
    recentUserMessageTokenBudget - cost runtime whole ≤ 16 ∨
      (messageText message).length + 109 ≤
        4 * (recentUserMessageTokenBudget - cost runtime whole) ∨
      hydratedImageLimit < singleImages runtime whole

/-- A message further down, with those behind it, is among those behind one further up. -/
theorem cost_of_shorter {older older' newer newer' : List Message} {message' : Message}
    (hsplit : older ++ message :: newer = older' ++ message' :: newer')
    (hlt : newer.length < newer'.length) :
    cost runtime newer + estimateCanonicalMessagesTokens runtime [message] ≤
      cost runtime newer' := by
  have hnewer : message :: newer <:+ older ++ message :: newer := suffix_append _ _
  have hnewer' : newer' <:+ older ++ message :: newer := by
    rw [hsplit]
    exact ⟨older' ++ [message'], by simp⟩
  obtain ⟨front, rfl⟩ := suffix_of_suffix_length_le hnewer hnewer' hlt
  rw [cost_append, cost_cons]
  omega

/-- There is at most one place where the loop stops. -/
theorem stop_unique (hsplit : older ++ message :: whole = older' ++ message' :: whole')
    (hwhole : cost runtime whole ≤ budget) (hwhole' : cost runtime whole' ≤ budget)
    (hover : budget < cost runtime whole + estimateCanonicalMessagesTokens runtime [message])
    (hover' : budget < cost runtime whole' + estimateCanonicalMessagesTokens runtime [message']) :
    message = message' ∧ whole = whole' := by
  rcases Nat.lt_trichotomy whole.length whole'.length with hlt | heq | hgt
  · have := @cost_of_shorter runtime _ _ _ _ _ _ hsplit hlt
    omega
  · have htails : message :: whole = message' :: whole' :=
      (append_inj' hsplit (by simp [heq])).2
    exact cons.inj htails
  · have := @cost_of_shorter runtime _ _ _ _ _ _ hsplit.symm hgt
    omega

theorem estimate_cut (text : Text) (whole : List Message) :
    estimateCanonicalMessagesTokens runtime (textMessage .user text :: whole) =
      min hydratedImageLimit (singleImages runtime whole) * imageTokenEstimate +
        (12 + estimateTextTokens text + (whole.map (messageTokens runtime)).sum) := by
  have himages : imageCount runtime (textMessage .user text) = 0 := by
    simp [imageCount, textMessage, Message.blocks, imageArtifactIds]
  have htokens : messageTokens runtime (textMessage .user text) = 12 + estimateTextTokens text := by
    simp only [messageTokens, textMessage, estimateContentTokens, estimateBlocksTokens,
      estimateBlockTokens, messageTokenOverhead, contentBlockTokenOverhead]
    omega
  rw [estimateCanonicalMessagesTokens_eq, map_cons, map_cons, sum_cons,
    sum_cons, himages, htokens, Nat.zero_add, min_sum_images]

theorem estimate_marked {text : Text} {left : ℕ} (hleft : 16 < left) :
    estimateTextTokens (lastOf ((left - 16) * 4) text ++ marker) ≤ left ∧
      (12 + estimateTextTokens (lastOf ((left - 16) * 4) text ++ marker) ≤ left ↔
        text.length + 109 ≤ 4 * left) := by
  have hlength : (lastOf ((left - 16) * 4) text ++ marker).length =
      min ((left - 16) * 4) text.length + 61 := by
    rw [length_append, length_lastOf, length_marker]
  rw [estimateTextTokens, hlength]
  omega

/-- **The chosen messages are within the budget** exactly if nothing is cut badly. -/
theorem recent_within_budget_iff (runtime : Runtime) (conversation : List Message) :
    (Recent conversation (collectRecentUserMessages runtime conversation) ∧
      estimateCanonicalMessagesTokens runtime (collectRecentUserMessages runtime conversation) ≤
        recentUserMessageTokenBudget) ↔ Fits runtime conversation := by
  rw [and_iff_right (recent_collectRecentUserMessages conversation)]
  rcases @collectRecentUserMessages_eq runtime conversation with
    ⟨hall, heq⟩ | ⟨older, message, whole, hsplit, hwhole, hover, heq⟩
  · -- everything fits
    rw [heq]
    refine iff_of_true ((estimate_le_cost _).trans hall) ?_
    intro older message whole hsplit hwhole hover
    rw [hsplit, cost_append, cost_cons] at hall
    omega
  · have hfits : Fits runtime conversation ↔
        recentUserMessageTokenBudget - cost runtime whole ≤ 16 ∨
          (messageText message).length + 109 ≤
            4 * (recentUserMessageTokenBudget - cost runtime whole) ∨
          hydratedImageLimit < singleImages runtime whole := by
      constructor
      · intro h
        exact h older message whole hsplit hwhole hover
      · intro h older' message' whole' hsplit' hwhole' hover'
        obtain ⟨rfl, rfl⟩ :=
          stop_unique (hsplit.symm.trans hsplit') hwhole hwhole' hover hover'
        exact h
    rw [hfits, heq, truncate_eq]
    by_cases hleft : recentUserMessageTokenBudget - cost runtime whole ≤ 16
    · rw [if_pos hleft, nil_append]
      exact iff_of_true ((estimate_le_cost whole).trans hwhole) (.inl hleft)
    · rw [if_neg hleft, singleton_append, estimate_cut]
      obtain ⟨hle, hcut⟩ := @estimate_marked (messageText message) _ (Nat.lt_of_not_le hleft)
      have hcost := @cost_eq runtime whole
      rw [or_iff_right hleft, ← hcut]
      simp only [imageTokenEstimate, hydratedImageLimit] at hcost ⊢
      omega

theorem messageText_textMessage (role : CanonicalRole) (text : Text) :
    messageText (textMessage role text) = text := by
  simp [messageText, textMessage, normalizeContent, collectText, Block.asText, intercalate]

def word (n : ℕ) : Text := List.replicate n 97

theorem mem_checkpointSummaryPrefix : 65 ∈ checkpointSummaryPrefix := by
  have hfirst {a b c : String} {cs : List Char} (h : a = String.ofList ('A' :: cs)) :
      65 ∈ lit (a ++ b ++ c) := by
    simp [h, lit]
  exact hfirst rfl

/-- A text without a capital A is no summary of a checkpoint. -/
theorem isRealUserTextMessage_textMessage {text : Text} (htrim : trim text ≠ [])
    (hletter : 65 ∉ text) : isRealUserTextMessage (textMessage .user text) = true := by
  have hmarker : ¬checkpointSummaryPrefix <:+: text :=
    fun hpart => hletter (hpart.subset mem_checkpointSummaryPrefix)
  have hblocks : ((normalizeContent (textMessage .user text).content).all
      fun block => block.resultId.isSome) = false := rfl
  have hrole : (textMessage .user text).role = .user := rfl
  rw [isRealUserTextMessage, if_neg (not_not_intro hrole), hblocks, messageText_textMessage]
  simp [htrim, hmarker]

theorem isRealUserTextMessage_word (h : 0 < n) :
    isRealUserTextMessage (textMessage .user (word n)) = true := by
  have htrim : trim (word n) ≠ [] := by
    intro hnil
    have hspace := Trimming.trimBy_eq_nil_iff.mp hnil 97 (mem_replicate.mpr ⟨by omega, rfl⟩)
    exact absurd hspace (by decide)
  exact isRealUserTextMessage_textMessage htrim fun h =>
    absurd (eq_of_mem_replicate h) (by decide)

/-- A message of eighty thousand letters is cut to more than the budget. -/
theorem long_message_exceeds_budget :
    estimateCanonicalMessagesTokens ⟨fun _ => none, fun _ => []⟩
      (collectRecentUserMessages ⟨fun _ => none, fun _ => []⟩
        [textMessage .user (word 80000)]) = recentUserMessageTokenBudget + 12 := by
  have hfilter : [textMessage .user (word 80000)].filter isRealUserTextMessage =
      [textMessage .user (word 80000)] :=
    filter_cons_of_pos (isRealUserTextMessage_word (by decide))
  have htokens : estimateTextTokens (word 80000) = 20000 := by
    rw [estimateTextTokens, word, length_replicate]
    decide
  have hestimate (runtime : Runtime) : estimateCanonicalMessagesTokens runtime
      [textMessage .user (word 80000)] = 20012 := by
    rw [estimate_cut, htokens]
    simp [singleImages]
  rcases @collectRecentUserMessages_eq ⟨fun _ => none, fun _ => []⟩
    [textMessage .user (word 80000)] with
    ⟨hall, -⟩ | ⟨older, message, whole, hsplit, -, -, heq⟩
  · rw [hfilter, cost_cons, hestimate, recentUserMessageTokenBudget] at hall
    omega
  · rw [hfilter] at hsplit
    rcases older with _ | ⟨first, older⟩
    · obtain ⟨rfl, rfl⟩ := cons.inj hsplit
      have hcost : cost ⟨fun _ => none, fun _ => []⟩ [] = 0 := rfl
      have hcut : estimateTextTokens
          (lastOf ((recentUserMessageTokenBudget - 16) * 4) (word 80000) ++ marker) = 20000 := by
        rw [estimateTextTokens, length_append, length_lastOf, word, length_replicate, length_marker]
        decide
      rw [heq, hcost, Nat.sub_zero, truncate_eq, if_neg (by decide), messageText_textMessage,
        singleton_append, estimate_cut, hcut]
      simp [singleImages, recentUserMessageTokenBudget]
    · simp at hsplit

end Bud.ContextBudget
