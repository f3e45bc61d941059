import Bud.Agent.RecentMessages

/-!
# Histories that were compacted more than once

`buildReplacementHistory` of `context-compactor.ts` makes a new history of a conversation: a
summary, the last messages of the user, and what the terminal shows. The next compaction is made of
this history and the turns since. Both synthetic messages are messages of the user, so the next
compaction must not take them for texts that the user has written. It knows a summary by its prefix.
It does not know what the terminal showed: the earlier terminal context is kept like a text of the
user, until the messages behind it have used up the budget.

What a message is is kept beside it here (`Origin`), so that a text of the user may look like a
synthetic message without being one.
-/

namespace Bud.ContextBudget

open JsText JsValue Llm List Option
open Conversation (CanonicalRole)

/-! ### The code -/

def checkpointMessage (summary : Text) : Message :=
  textMessage .user (checkpointSummaryPrefix ++ lit "\n\n" ++ trim summary)

/-- The message with what the terminal shows, if it shows something. -/
def terminalContextMessage (currentTerminalContext : Option Text) : Option Message :=
  ((currentTerminalContext.map trim).filter (· ≠ [])).map fun context =>
    textMessage .user (compactionTerminalContextPrefix ++ lit "\n" ++ context)

def buildReplacementHistory (runtime : Runtime) (conversation : List Message) (summary : Text)
    (currentTerminalContext : Option Text) : List Message :=
  [checkpointMessage summary] ++ collectRecentUserMessages runtime conversation ++
    (terminalContextMessage currentTerminalContext).toList

/-! ### Origins -/

/-- Where a message comes from; a terminal context is of the compaction of that number. -/
inductive Origin where
  | turn
  | checkpoint
  | terminalContext (compaction : ℕ)
  deriving DecidableEq

def Origin.context : Origin → Option ℕ
  | .terminalContext compaction => some compaction
  | .turn | .checkpoint => none

structure Item where
  origin : Origin
  message : Message

/-- The real messages of the user, synthetic ones included that the code takes for real. -/
def realItems (items : List Item) : List Item :=
  items.filter fun item => isRealUserTextMessage item.message

/-- The messages that are collected, with the origins of those that they are. -/
def collectedItems (runtime : Runtime) (items : List Item) : List Item :=
  let collected := collectRecentUserMessages runtime (items.map (·.message))
  (lastOf collected.length (realItems items)).zipWith
    (fun item message => { item with message }) collected

def buildItems (runtime : Runtime) (compaction : ℕ) (items : List Item) (summary : Text)
    (currentTerminalContext : Option Text) : List Item :=
  [⟨.checkpoint, checkpointMessage summary⟩] ++ collectedItems runtime items ++
    ((terminalContextMessage currentTerminalContext).map (⟨.terminalContext compaction, ·⟩)).toList

structure History where
  items : List Item
  compactions : ℕ
  /-- The last of them that had a terminal context. -/
  latest : Option ℕ

inductive Op where
  /-- Messages in front, such as a prompt, and those of further turns. -/
  | extend (before after : List Message)
  | compact (summary : Text) (currentTerminalContext : Option Text)

def turns (messages : List Message) : List Item := messages.map (⟨.turn, ·⟩)

def start (messages : List Message) : History := ⟨turns messages, 0, none⟩

def apply (runtime : Runtime) (history : History) : Op → History
  | .extend before after => { history with items := turns before ++ history.items ++ turns after }
  | .compact summary currentTerminalContext =>
    { items := buildItems runtime history.compactions history.items summary currentTerminalContext
      compactions := history.compactions + 1
      latest := if (terminalContextMessage currentTerminalContext).isSome then
          some history.compactions
        else history.latest }

def step (runtime : Runtime) (history : History) (op : Op) : Option History :=
  some (apply runtime history op)

def contexts (items : List Item) : List ℕ := items.filterMap (·.origin.context)

def checkpoints (items : List Item) : ℕ := items.countP (·.origin = .checkpoint)

/-- Exactly one checkpoint after a compaction, and no terminal context but the latest. -/
structure History.Single (history : History) : Prop where
  checkpoint : history.compactions ≠ 0 → checkpoints history.items = 1
  once : (contexts history.items).length ≤ 1
  latest : ∀ compaction ∈ contexts history.items, history.latest = some compaction

/-- A compaction that has no terminal context, or in which the messages behind each earlier one have
used up the budget. -/
def Clear (runtime : Runtime) (history : History) : Op → Prop
  | .extend _ _ => True
  | .compact _ currentTerminalContext =>
    terminalContextMessage currentTerminalContext ≠ none →
      ∀ older item newer, realItems history.items = older ++ item :: newer →
        item.origin.context ≠ none →
          recentUserMessageTokenBudget < cost runtime (newer.map (·.message)) +
            min (estimateCanonicalMessagesTokens runtime [item.message]) 17

variable {runtime : Runtime}

/-! ### What a compaction keeps -/

theorem mem_lastOf_iff {α : Type} {l : List α} {a : α} :
    a ∈ lastOf n l ↔ ∃ older newer, l = older ++ a :: newer ∧ newer.length < n := by
  constructor
  · intro h
    obtain ⟨front, newer, hsplit⟩ := append_of_mem h
    refine ⟨l.take (l.length - n) ++ front, newer, ?_, ?_⟩
    · rw [append_assoc, ← hsplit, lastOf, take_append_drop]
    · have hlength := congrArg length hsplit
      rw [length_lastOf, length_append, length_cons] at hlength
      omega
  · rintro ⟨older, newer, rfl, hlt⟩
    have hdrop : (older ++ a :: newer).length - n ≤ older.length := by
      rw [length_append, length_cons]
      omega
    rw [lastOf, drop_append_of_le_length hdrop]
    exact mem_append_right _ mem_cons_self

/-- **The messages that a compaction keeps**: those that the ones behind them leave a bit of the
budget for. -/
theorem length_lt_collected_iff {conversation older newer : List Message} {message : Message}
    (hsplit : conversation.filter isRealUserTextMessage = older ++ message :: newer) :
    newer.length < (collectRecentUserMessages runtime conversation).length ↔
      cost runtime newer + min (estimateCanonicalMessagesTokens runtime [message]) 17 ≤
        recentUserMessageTokenBudget := by
  rcases @collectRecentUserMessages_eq runtime conversation with
    ⟨hall, heq⟩ | ⟨older', stop, whole, hsplit', hwhole, hover, heq⟩
  · rw [hsplit, cost_append, cost_cons] at hall
    rw [heq, hsplit, length_append, length_cons]
    omega
  · have hboth : older ++ message :: newer = older' ++ stop :: whole := hsplit.symm.trans hsplit'
    rw [heq, truncate_eq, length_append]
    rcases Nat.lt_trichotomy newer.length whole.length with hlt | hsame | hgt
    · have := @cost_of_shorter runtime _ _ _ _ _ _ hboth hlt
      omega
    · have htails : message :: newer = stop :: whole :=
        (append_inj' hboth (by simp [hsame])).2
      obtain ⟨rfl, rfl⟩ := cons.inj htails
      split
      · rw [length_nil]
        omega
      · rw [length_singleton]
        omega
    · have := @cost_of_shorter runtime _ _ _ _ _ _ hboth.symm hgt
      split
      · rw [length_nil]
        omega
      · rw [length_singleton]
        omega

theorem map_realItems (items : List Item) :
    (realItems items).map (·.message) = (items.map (·.message)).filter isRealUserTextMessage := by
  rw [realItems, List.filter_map]
  rfl

theorem length_collected_le (items : List Item) :
    (collectRecentUserMessages runtime (items.map (·.message))).length ≤
      (realItems items).length := by
  have hlength : (realItems items).length =
      ((items.map (·.message)).filter isRealUserTextMessage).length := by
    rw [← map_realItems, length_map]
  rw [hlength]
  rcases @collectRecentUserMessages_eq runtime (items.map (·.message)) with
    ⟨-, heq⟩ | ⟨older, stop, whole, hsplit, -, -, heq⟩
  · rw [heq]
  · rw [heq, hsplit, truncate_eq, length_append, length_append, length_cons]
    split <;> simp <;> omega

theorem map_zipWith_message (items : List Item) (messages : List Message)
    (h : items.length = messages.length) :
    (items.zipWith (fun item message => { item with message }) messages).map (·.message) =
        messages ∧
      (items.zipWith (fun item message => { item with message }) messages).map (·.origin) =
        items.map (·.origin) := by
  induction items generalizing messages with
  | nil =>
    rw [length_nil] at h
    rw [length_eq_zero_iff.mp h.symm]
    exact ⟨rfl, rfl⟩
  | cons item items ih =>
    cases messages with
    | nil => simp at h
    | cons message messages =>
      obtain ⟨hmessages, horigins⟩ := ih messages (Nat.succ.inj h)
      simp only [zipWith_cons_cons, map_cons, hmessages, horigins, and_self]

theorem collectedItems_eq (items : List Item) :
    (collectedItems runtime items).map (·.message) =
        collectRecentUserMessages runtime (items.map (·.message)) ∧
      (collectedItems runtime items).map (·.origin) =
        (lastOf (collectRecentUserMessages runtime (items.map (·.message))).length
          (realItems items)).map (·.origin) := by
  refine map_zipWith_message _ _ ?_
  rw [length_lastOf, Nat.min_eq_left (length_collected_le items)]

/-- **The origins are beside the messages that the code builds.** -/
theorem map_message_buildItems (compaction : ℕ) (items : List Item) (summary : Text)
    (currentTerminalContext : Option Text) :
    (buildItems runtime compaction items summary currentTerminalContext).map (·.message) =
      buildReplacementHistory runtime (items.map (·.message)) summary currentTerminalContext := by
  rw [buildItems, buildReplacementHistory, map_append, map_append, (collectedItems_eq items).1]
  cases terminalContextMessage currentTerminalContext <;> rfl

/-! ### What is kept of the synthetic messages -/

/-- A checkpoint is not taken for a text of the user. -/
def Marked (items : List Item) : Prop :=
  ∀ item ∈ items, item.origin = .checkpoint → isRealUserTextMessage item.message = false

theorem isRealUserTextMessage_checkpointMessage (summary : Text) :
    isRealUserTextMessage (checkpointMessage summary) = false := by
  have hmarker : checkpointSummaryPrefix <:+: messageText (checkpointMessage summary) := by
    rw [checkpointMessage, messageText_textMessage, append_assoc]
    exact (prefix_append _ _).isInfix
  rw [isRealUserTextMessage]
  simp [hmarker]

theorem contexts_eq (items : List Item) :
    contexts items = (items.map (·.origin)).filterMap Origin.context := by
  rw [contexts, filterMap_map]
  rfl

theorem contexts_append (items more : List Item) :
    contexts (items ++ more) = contexts items ++ contexts more := filterMap_append

theorem checkpoints_append (items more : List Item) :
    checkpoints (items ++ more) = checkpoints items + checkpoints more := countP_append

@[simp] theorem contexts_turns (messages : List Message) : contexts (turns messages) = [] := by
  simp [contexts, turns, Origin.context]

@[simp] theorem checkpoints_turns (messages : List Message) : checkpoints (turns messages) = 0 := by
  simp [checkpoints, turns]

theorem marked_turns (messages : List Message) : Marked (turns messages) := by
  intro item hitem hcheckpoint
  obtain ⟨message, -, rfl⟩ := mem_map.mp hitem
  contradiction

variable {items : List Item}

/-- The items that are collected come from real ones. -/
theorem origin_collected (h : item ∈ collectedItems runtime items) :
    ∃ source ∈ realItems items, source.origin = item.origin := by
  have horigin : item.origin ∈ (collectedItems runtime items).map (·.origin) :=
    mem_map_of_mem h
  rw [(collectedItems_eq items).2] at horigin
  obtain ⟨source, hsource, heq⟩ := mem_map.mp horigin
  exact ⟨source, mem_of_mem_drop hsource, heq⟩

theorem origin_ne_checkpoint (h : Marked items) (hitem : item ∈ collectedItems runtime items) :
    item.origin ≠ .checkpoint := by
  obtain ⟨source, hsource, heq⟩ := origin_collected hitem
  obtain ⟨hmem, hreal⟩ := mem_filter.mp hsource
  intro hcheckpoint
  rw [h source hmem (heq.trans hcheckpoint)] at hreal
  contradiction

theorem contexts_collected_sublist (items : List Item) :
    (contexts (collectedItems runtime items)).Sublist (contexts items) := by
  rw [contexts_eq, (collectedItems_eq items).2, ← contexts_eq]
  exact ((drop_sublist _ _).trans filter_sublist).filterMap _

/-- No terminal context is collected exactly if the budget is used up before each of them. -/
theorem contexts_collected_eq_nil_iff (items : List Item) :
    contexts (collectedItems runtime items) = [] ↔
      ∀ older item newer, realItems items = older ++ item :: newer →
        item.origin.context ≠ none →
          recentUserMessageTokenBudget < cost runtime (newer.map (·.message)) +
            min (estimateCanonicalMessagesTokens runtime [item.message]) 17 := by
  have hreached {older : List Item} {item : Item} {newer : List Item}
      (hsplit : realItems items = older ++ item :: newer) :
      newer.length < (collectRecentUserMessages runtime (items.map (·.message))).length ↔
        cost runtime (newer.map (·.message)) +
          min (estimateCanonicalMessagesTokens runtime [item.message]) 17 ≤
            recentUserMessageTokenBudget := by
    have hmessages := congrArg (List.map (·.message)) hsplit
    rw [map_realItems, map_append, map_cons] at hmessages
    have := @length_lt_collected_iff runtime _ _ _ _ hmessages
    rwa [length_map] at this
  rw [contexts_eq, (collectedItems_eq items).2, ← contexts_eq, contexts, filterMap_eq_nil_iff]
  constructor
  · intro hnone older item newer hsplit hcontext
    by_contra hle
    have hlt := (hreached hsplit).mpr (Nat.le_of_not_lt hle)
    exact hcontext (hnone item (mem_lastOf_iff.mpr ⟨older, newer, hsplit, hlt⟩))
  · intro hall item hitem
    obtain ⟨older, newer, hsplit, hlt⟩ := mem_lastOf_iff.mp hitem
    by_contra hcontext
    have := (hreached hsplit).mp hlt
    have := hall older item newer hsplit hcontext
    omega

/-- What a compaction leaves of the earlier synthetic messages, and what it adds. -/
theorem contexts_buildItems (compaction : ℕ) (items : List Item) (summary : Text)
    (currentTerminalContext : Option Text) :
    contexts (buildItems runtime compaction items summary currentTerminalContext) =
      contexts (collectedItems runtime items) ++
        if (terminalContextMessage currentTerminalContext).isSome then [compaction] else [] := by
  rw [buildItems, contexts_append, contexts_append]
  cases terminalContextMessage currentTerminalContext <;> rfl

theorem checkpoints_buildItems (h : Marked items) (compaction : ℕ) (summary : Text)
    (currentTerminalContext : Option Text) :
    checkpoints (buildItems runtime compaction items summary currentTerminalContext) = 1 := by
  have hnone : checkpoints (collectedItems runtime items) = 0 := by
    rw [checkpoints, countP_eq_zero]
    intro item hitem
    simpa using origin_ne_checkpoint h hitem
  rw [buildItems, checkpoints_append, checkpoints_append, hnone]
  cases terminalContextMessage currentTerminalContext <;> rfl

theorem marked_buildItems (h : Marked items) (compaction : ℕ) (summary : Text)
    (currentTerminalContext : Option Text) :
    Marked (buildItems runtime compaction items summary currentTerminalContext) := by
  intro item hitem hcheckpoint
  rcases mem_append.mp hitem with hitem | hitem
  · rcases mem_append.mp hitem with hitem | hitem
    · rw [mem_singleton.mp hitem]
      exact isRealUserTextMessage_checkpointMessage summary
    · exact absurd hcheckpoint (origin_ne_checkpoint h hitem)
  · obtain ⟨message, -, rfl⟩ := map_eq_some_iff.mp (mem_toList.mp hitem)
    contradiction

/-! ### Runs -/

theorem marked_apply (h : Marked history.items) (op : Op) :
    Marked (apply runtime history op).items := by
  cases op with
  | extend before after =>
    intro item hitem
    rcases mem_append.mp hitem with hitem | hitem
    · rcases mem_append.mp hitem with hitem | hitem
      · exact marked_turns before item hitem
      · exact h item hitem
    · exact marked_turns after item hitem
  | compact summary currentTerminalContext => exact marked_buildItems h _ summary _

/-- **One step.** From a history with one checkpoint and at most the latest terminal context, a step
leads to another exactly if it is clear. -/
theorem clear_iff_single {next : History} (h : history.Single ∧ Marked history.items)
    (hstep : step runtime history op = some next) :
    Clear runtime history op ↔ next.Single ∧ Marked next.items := by
  obtain rfl := some.inj hstep
  obtain ⟨hsingle, hmarked⟩ := h
  rw [and_iff_left (marked_apply hmarked op)]
  cases op with
  | extend before after =>
    refine iff_of_true trivial ⟨?_, ?_, ?_⟩
    · simpa [apply, checkpoints_append] using hsingle.checkpoint
    · simpa [apply, contexts_append] using hsingle.once
    · simpa [apply, contexts_append] using hsingle.latest
  | compact summary currentTerminalContext =>
    have hnext : (apply runtime history (.compact summary currentTerminalContext)).items =
        buildItems runtime history.compactions history.items summary currentTerminalContext := rfl
    have hcontexts := @contexts_buildItems runtime history.compactions history.items summary
      currentTerminalContext
    rw [Clear, ← contexts_collected_eq_nil_iff]
    rcases hterminal : terminalContextMessage currentTerminalContext with _ | message
    · -- nothing is added, and what is kept was there
      rw [hterminal] at hcontexts
      have hkept : contexts (apply runtime history (.compact summary currentTerminalContext)).items
          = contexts (collectedItems runtime history.items) := by
        rw [hnext, hcontexts]
        exact append_nil _
      have hsub := @contexts_collected_sublist runtime history.items
      refine iff_of_true (fun hne => absurd rfl hne) ⟨fun _ => ?_, ?_, ?_⟩
      · exact checkpoints_buildItems hmarked _ _ _
      · rw [hkept]
        exact hsub.length_le.trans hsingle.once
      · intro compaction hmem
        rw [hkept] at hmem
        have hlatest := hsingle.latest compaction (hsub.subset hmem)
        simpa [apply, hterminal] using hlatest
    · rw [hterminal] at hcontexts
      have hadded : contexts (apply runtime history (.compact summary currentTerminalContext)).items
          = contexts (collectedItems runtime history.items) ++ [history.compactions] := by
        rw [hnext, hcontexts]
        rfl
      constructor
      · intro hclear
        rw [hclear (some_ne_none message), nil_append] at hadded
        refine ⟨fun _ => checkpoints_buildItems hmarked _ _ _, ?_, ?_⟩
        · rw [hadded, length_singleton]
        · intro compaction hmem
          rw [hadded, mem_singleton] at hmem
          simp [apply, hterminal, hmem]
      · intro hsingle' _
        have honce := hsingle'.once
        rw [hadded, length_append, length_singleton] at honce
        exact eq_nil_of_length_eq_zero (by omega)

theorem single_start (messages : List Message) :
    (start messages).Single ∧ Marked (start messages).items := by
  refine ⟨⟨fun h => absurd rfl h, ?_, ?_⟩, marked_turns messages⟩
  · simp [start]
  · simp [start]

theorem exists_run (ops : List Op) (history : History) :
    ∃ last, Runs.run (step runtime) ops history = some last := by
  induction ops generalizing history with
  | nil => exact ⟨history, rfl⟩
  | cons op ops ih => exact ih (apply runtime history op)

/-- **Replacement messages do not accumulate** along exactly the runs whose compactions are clear:
every history has one checkpoint and no terminal context but the latest. -/
theorem replacement_messages_iff (runtime : Runtime) (messages : List Message) (ops : List Op) :
    Runs.Along (step runtime) (Clear runtime) ops (start messages) ↔
      ∀ before after history, ops = before ++ after →
        Runs.run (step runtime) before (start messages) = some history → history.Single := by
  obtain ⟨last, hlast⟩ := @exists_run runtime ops (start messages)
  rw [Runs.along_iff_forall_prefix (fun _ _ _ => clear_iff_single) hlast (single_start messages)]
  constructor
  · intro hgood before after history hops hrun
    exact (hgood before after history hops hrun).1
  · intro hsingle before after history hops hrun
    refine ⟨hsingle before after history hops hrun, ?_⟩
    have hmarked : ∀ (history : History) (op : Op) (next : History), Marked history.items →
        step runtime history op = some next → Marked next.items := by
      intro history op next hmarked hstep
      rw [← some.inj hstep]
      exact marked_apply hmarked op
    exact Runs.invariant hmarked hrun (single_start messages).2

/-- A terminal context at the end is collected, if the code takes it for real. -/
theorem contexts_collected_concat {front : List Item} {compaction : ℕ} {message : Message}
    (hreal : isRealUserTextMessage message = true) (hfront : contexts front = []) :
    contexts (collectedItems runtime (front ++ [⟨.terminalContext compaction, message⟩])) =
      [compaction] := by
  have hsub := @contexts_collected_sublist runtime
    (front ++ [⟨.terminalContext compaction, message⟩])
  rw [contexts_append, hfront, nil_append] at hsub
  refine (sublist_singleton.mp hsub).resolve_left fun hnil => ?_
  have hlast : realItems (front ++ [⟨.terminalContext compaction, message⟩]) =
      realItems front ++ [⟨.terminalContext compaction, message⟩] := by
    rw [realItems, filter_append]
    exact congrArg _ (filter_cons_of_pos hreal)
  have hover := (contexts_collected_eq_nil_iff _).mp hnil _ _ _ hlast (some_ne_none compaction)
  rw [recentUserMessageTokenBudget, map_nil, show cost runtime [] = 0 from rfl] at hover
  omega

/-- Two compactions with a terminal context each: the second history has both. -/
theorem terminal_contexts_accumulate :
    ∃ history, Runs.run (step ⟨fun _ => none, fun _ => []⟩)
        [.compact (lit "done") (some (lit "$ ls")), .compact (lit "done") (some (lit "$ cd"))]
        (start [textMessage .user (lit "hello")]) = some history ∧
      contexts history.items = [0, 1] ∧ ¬history.Single := by
  let runtime : Runtime := ⟨fun _ => none, fun _ => []⟩
  let begun := start [textMessage .user (lit "hello")]
  let once := apply runtime begun (.compact (lit "done") (some (lit "$ ls")))
  let shown := compactionTerminalContextPrefix ++ lit "\n" ++ lit "$ ls"
  have hshown : isRealUserTextMessage (textMessage .user shown) = true := by
    have hprefix : compactionTerminalContextPrefix = _ := lit_ofList _
    refine isRealUserTextMessage_textMessage ?_ ?_ <;> simp only [shown, hprefix] <;> decide +kernel
  have hterminal : terminalContextMessage (some (lit "$ ls")) = some (textMessage .user shown) := by
    have htrim : trim (lit "$ ls") = lit "$ ls" := by decide +kernel
    have hne : lit "$ ls" ≠ [] := by decide +kernel
    simp [terminalContextMessage, htrim, hne, shown]
  have hbegun : contexts ([⟨.checkpoint, checkpointMessage (lit "done")⟩] ++
      collectedItems runtime begun.items) = [] := by
    have hsub := @contexts_collected_sublist runtime begun.items
    rw [show contexts begun.items = [] from contexts_turns _] at hsub
    rw [contexts_append, sublist_nil.mp hsub]
    rfl
  have honce : once.items = [⟨.checkpoint, checkpointMessage (lit "done")⟩] ++
      collectedItems runtime begun.items ++ [⟨.terminalContext 0, textMessage .user shown⟩] := by
    simp only [once, apply, buildItems, hterminal]
    rfl
  have hadded : (terminalContextMessage (some (lit "$ cd"))).isSome = true := by decide +kernel
  have htwice : contexts (apply runtime once
      (.compact (lit "done") (some (lit "$ cd")))).items = [0, 1] := by
    rw [apply, contexts_buildItems, honce, contexts_collected_concat hshown hbegun, if_pos hadded]
    rfl
  refine ⟨_, rfl, htwice, fun hsingle => ?_⟩
  have hlength := hsingle.once
  rw [htwice] at hlength
  exact absurd hlength (by decide)

end Bud.ContextBudget
