import Bud.Agent.ThreadHistory
import Bud.Agent.WellFormedReplay
import Bud.Wire.CodecAgreement
import Mathlib.Data.List.Pairwise

/-!
# Replay over the history of a thread

The rows of a step have its `llm_call_id`, so they stay coherent with the ledger however the step
ends: each call is answered by at most one row, and one that is not is repaired when the
conversation is loaded. The rows that a restart writes have no `llm_call_id`. Then the loader takes
the call to be one that is not replayed and gives it again, beside the one from the ledger.
-/

namespace Bud.Conversation

open Option

open Wire (Json Fields get set asString)

variable {runtime : Runtime} {options : LoadOptions} {s t : State} {act : Act} {id : String}

/-! ### Conditions -/

def Act.recorded : Act → Option LlmCall
  | .call recorded => some recorded
  | _ => none

/-- What providers promise: the ids of tool calls are new. -/
def Promised (runtime : Runtime) (s : State) (act : Act) : Prop :=
  ∀ call ∈ act.recorded, call.uses.Nodup ∧ ∀ id ∈ call.uses, id ≠ "" ∧
    (∀ other ∈ s.calls, id ∉ other.uses) ∧ ∀ row ∈ s.rows, row.readId runtime ≠ some id

/-- The row is written by a step, or by its continuation. -/
def Act.ofStep : Act → Bool
  | .toolRow .. => true
  | .continuation .. => true
  | _ => false

def Timely (runtime : Runtime) (options : LoadOptions) (s : State) (row : Row) (id : String) :
    Prop :=
  ∀ call ∈ s.calls, call.replayed runtime options = true → id ∈ call.uses →
    call.createdAt / 1000 < row.contextAt / 1000

/-- The id is that of no call that is replayed, unless the row says so, nor of another row or a call
that a step has still to answer. -/
def Apart (runtime : Runtime) (options : LoadOptions) (s : State) (row : Row) (id : String) :
    Prop :=
  (∀ call ∈ s.calls, call.replayed runtime options = true → id ∈ call.uses →
    row.llmCallId = some call.llmCallId) ∧
  (∀ other ∈ s.rows, other.readId runtime ≠ some id) ∧
  ∀ turn ∈ s.turn, id ∉ turn.owed.map (·.id)

/-- The rows that are read are later than their calls, and those that no step writes are read under
ids of their own. -/
def Meets (runtime : Runtime) (options : LoadOptions) (s : State) (act : Act) : Prop :=
  ∀ row ∈ s.written act, ∀ id ∈ row.readId runtime, Timely runtime options s row id ∧
    (act.ofStep = false → Apart runtime options s row id)

instance : Decidable (Promised runtime s act) :=
  inferInstanceAs (Decidable (∀ call ∈ act.recorded, call.uses.Nodup ∧ ∀ id ∈ call.uses, id ≠ "" ∧
    (∀ other ∈ s.calls, id ∉ other.uses) ∧ ∀ row ∈ s.rows, row.readId runtime ≠ some id))

instance {row : Row} : Decidable (Timely runtime options s row id) :=
  inferInstanceAs (Decidable (∀ call ∈ s.calls, call.replayed runtime options = true →
    id ∈ call.uses → call.createdAt / 1000 < row.contextAt / 1000))

instance {row : Row} : Decidable (Apart runtime options s row id) :=
  inferInstanceAs (Decidable ((∀ call ∈ s.calls, call.replayed runtime options = true →
    id ∈ call.uses → row.llmCallId = some call.llmCallId) ∧
    (∀ other ∈ s.rows, other.readId runtime ≠ some id) ∧
    ∀ turn ∈ s.turn, id ∉ turn.owed.map (·.id)))

instance : Decidable (Meets runtime options s act) :=
  inferInstanceAs (Decidable (∀ row ∈ s.written act, ∀ id ∈ row.readId runtime,
    Timely runtime options s row id ∧ (act.ofStep = false → Apart runtime options s row id)))

/-! ### Steps -/

/-- What an action does to the calls, the rows and the step. -/
inductive Effect (s t : State) (act : Act) : Prop where
  /-- The step goes on, or ends. -/
  | turn (calls : t.calls = s.calls) (rows : t.rows = s.rows)
    (turn : ∀ later ∈ t.turn, ∃ turn ∈ s.turn, later.llmCallId = turn.llmCallId ∧
      later.owed.Sublist turn.owed)
  | message (row : Row) (role : row.role ≠ .tool) (calls : t.calls = s.calls)
    (rows : t.rows = s.rows ++ [row]) (turn : t.turn = s.turn)
  | call (call : LlmCall) (act : act = .call call) (named : call.llmCallId ≠ "")
    (calls : t.calls = s.calls ++ [call]) (rows : t.rows = s.rows) (turn : t.turn = some call.turn)
  | ofStep (turn later : Turn) (use : ToolUse) (messageId createdAt : ℕ) (payload : Fields)
    (ofStep : act.ofStep = true)
    (written : s.written act = some (turn.row messageId createdAt payload))
    (callId : asString (get payload "call_id") = some use.id) (before : s.turn = some turn)
    (owed : turn.owed = use :: later.owed) (llmCallId : later.llmCallId = turn.llmCallId)
    (calls : t.calls = s.calls) (rows : t.rows = s.rows ++ [turn.row messageId createdAt payload])
    (after : t.turn = some later)
  | apart (row : Row) (ofStep : act.ofStep = false) (written : s.written act = some row)
    (calls : t.calls = s.calls) (rows : t.rows = s.rows ++ [row]) (turn : t.turn = s.turn)

theorem insertRow_eq_some (h : s.insertRow row = some t) : t = { s with rows := s.rows ++ [row] } :=
  (some.inj (ite_none_left_eq_some.mp h).2).symm

theorem insertItem_eq_some (h : s.insertItem item = some t) :
    t = { s with items := s.items ++ [item] } :=
  (some.inj (ite_none_left_eq_some.mp h).2).symm

theorem dispatching_eq_some (h : s.dispatching = some (turn, use, rest)) :
    s.turn = some turn ∧ turn.calls = use :: rest ∧ turn.recorded = false := by
  obtain ⟨found, hturn, h⟩ := bind_eq_some_iff.mp h
  split at h
  · next hcalls =>
    obtain ⟨hrunning, h⟩ := ite_none_left_eq_some.mp h
    obtain ⟨rfl, rfl, rfl⟩ : found = turn ∧ _ = use ∧ _ = rest := by simpa using h
    exact ⟨hturn, hcalls, (Bool.or_eq_false_iff.mp (Bool.eq_false_of_not_eq_true hrunning)).1⟩
  · cases h

theorem continuing_eq_some (h : s.continuing = some (turn, use, rest)) :
    s.turn = some turn ∧ turn.calls = use :: rest ∧ turn.recorded = false := by
  obtain ⟨found, hturn, h⟩ := bind_eq_some_iff.mp h
  split at h
  · next hcalls =>
    obtain ⟨hparked, h⟩ := ite_none_right_eq_some.mp h
    obtain ⟨rfl, rfl, rfl⟩ : found = turn ∧ _ = use ∧ _ = rest := by simpa using h
    exact ⟨hturn, hcalls, by simpa using (Bool.and_eq_true_iff.mp hparked).2⟩
  · cases h

theorem Effect.of_same (calls : t.calls = s.calls) (rows : t.rows = s.rows)
    (turn : t.turn = s.turn) :
    Effect s t act :=
  .turn calls rows fun later hlater => ⟨later, turn ▸ hlater, rfl, .refl _⟩

/-- **What an action can do.** -/
theorem step_effect (h : step s act = some t) : Effect s t act := by
  cases act with
  | message row =>
    obtain ⟨hrole, h⟩ := ite_none_left_eq_some.mp h
    obtain rfl := insertRow_eq_some h
    exact .message row hrole rfl rfl rfl
  | call call =>
    obtain ⟨hguard, h⟩ := ite_none_right_eq_some.mp h
    obtain rfl := some.inj h
    simp only [Bool.and_eq_true, decide_eq_true_eq] at hguard
    exact .call call rfl hguard.1.2 rfl rfl rfl
  | question =>
    obtain ⟨⟨turn, use, rest⟩, _, h⟩ := bind_eq_some_iff.mp h
    obtain ⟨_, h⟩ := ite_none_right_eq_some.mp h
    obtain rfl := some.inj h
    exact .of_same rfl rfl rfl
  | answered question =>
    obtain rfl := some.inj h
    exact .of_same rfl rfl rfl
  | skip =>
    obtain ⟨⟨turn, use, rest⟩, hdispatching, h⟩ := bind_eq_some_iff.mp h
    obtain ⟨hturn, hcalls, hrecorded⟩ := dispatching_eq_some hdispatching
    obtain rfl := some.inj h
    refine .turn rfl rfl ?_
    rintro later hlater
    obtain rfl := some.inj hlater
    refine ⟨turn, hturn, rfl, ?_⟩
    simp only [Turn.owed, hrecorded, hcalls, Bool.false_eq_true, if_false]
    exact List.sublist_cons_self _ _
  | toolRow messageId createdAt payload =>
    obtain ⟨⟨turn, use, rest⟩, hdispatching, h⟩ := bind_eq_some_iff.mp h
    obtain ⟨hturn, hcalls, hrecorded⟩ := dispatching_eq_some hdispatching
    obtain ⟨hcallId, h⟩ := ite_none_right_eq_some.mp h
    obtain ⟨u, hinsert, h⟩ := bind_eq_some_iff.mp h
    obtain rfl := insertRow_eq_some hinsert
    obtain rfl := some.inj h
    refine .ofStep turn { turn with recorded := true } use messageId createdAt payload rfl ?_
      hcallId hturn ?_ rfl rfl rfl rfl
    · rw [State.written, hturn, map_some]
    · simp [Turn.owed, hrecorded, hcalls]
  | toolItem =>
    obtain ⟨turn, hturn, h⟩ := bind_eq_some_iff.mp h
    split at h
    · next use rest hcalls hrecorded =>
      dsimp only at h
      split at h
      · next u hinsert =>
        obtain rfl := insertItem_eq_some hinsert
        obtain rfl := some.inj h
        refine .turn rfl rfl ?_
        rintro later hlater
        obtain rfl := some.inj hlater
        exact ⟨turn, hturn, rfl, by simp [Turn.owed, hrecorded, hcalls]⟩
      · obtain rfl := some.inj h
        exact .turn rfl rfl fun later hlater => by cases hlater
    · cases h
  | park =>
    obtain ⟨⟨turn, use, rest⟩, hdispatching, h⟩ := bind_eq_some_iff.mp h
    obtain ⟨hturn, hcalls, hrecorded⟩ := dispatching_eq_some hdispatching
    obtain ⟨_, h⟩ := ite_none_right_eq_some.mp h
    obtain rfl := some.inj h
    refine .turn rfl rfl ?_
    rintro later hlater
    obtain rfl := some.inj hlater
    exact ⟨turn, hturn, rfl, .refl _⟩
  | continuation messageId createdAt payload =>
    obtain ⟨⟨turn, use, rest⟩, hcontinuing, h⟩ := bind_eq_some_iff.mp h
    obtain ⟨hturn, hcalls, hrecorded⟩ := continuing_eq_some hcontinuing
    dsimp only at h
    split at h
    · obtain rfl := some.inj h
      refine .turn rfl rfl ?_
      rintro later hlater
      obtain rfl := some.inj hlater
      refine ⟨turn, hturn, rfl, ?_⟩
      simp only [Turn.owed, hrecorded, hcalls, Bool.false_eq_true, if_false]
      exact List.sublist_cons_self _ _
    · obtain ⟨hcallId, h⟩ := ite_none_right_eq_some.mp h
      obtain ⟨u, hrow, h⟩ := bind_eq_some_iff.mp h
      obtain rfl := insertRow_eq_some hrow
      obtain ⟨v, hitem, h⟩ := bind_eq_some_iff.mp h
      obtain rfl := insertItem_eq_some hitem
      obtain rfl := some.inj h
      refine .ofStep turn { turn with calls := rest } use messageId createdAt payload rfl ?_
        hcallId hturn ?_ rfl rfl rfl rfl
      · rw [State.written, hturn, map_some]
      · simp [Turn.owed, hrecorded, hcalls]
  | stop =>
    obtain rfl := some.inj h
    exact .turn rfl rfl fun later hlater => by cases hlater
  | superseded question messageId createdAt payload =>
    simp only [step] at h
    obtain ⟨_, h⟩ := ite_none_right_eq_some.mp h
    obtain ⟨u, hrow, h⟩ := bind_eq_some_iff.mp h
    obtain rfl := insertRow_eq_some hrow
    obtain rfl := some.inj h
    exact .apart (question.row messageId createdAt payload) rfl rfl rfl rfl rfl
  | restart =>
    obtain rfl := some.inj h
    refine .turn rfl rfl fun later hlater => ⟨later, ?_, rfl, .refl _⟩
    exact (filter_eq_some_iff.mp hlater).1
  | repairRow messageId createdAt =>
    obtain ⟨repair, hrepair, h⟩ := bind_eq_some_iff.mp h
    split at h
    · next call rest hcalls _ =>
      obtain ⟨u, hrow, h⟩ := bind_eq_some_iff.mp h
      obtain rfl := insertRow_eq_some hrow
      obtain rfl := some.inj h
      refine .apart (call.row messageId createdAt) rfl ?_ rfl rfl rfl
      rw [State.written, hrepair, bind_some, hcalls, List.head?_cons, map_some]
    · cases h
  | repairItem =>
    obtain ⟨repair, hrepair, h⟩ := bind_eq_some_iff.mp h
    split at h
    · next call rest hcalls _ =>
      obtain rfl := some.inj h
      cases hinsert : s.insertItem
          ⟨call.llmCallId, repair.sequences.count call.llmCallId, call.toolCallId⟩ with
      | none => exact .of_same rfl rfl rfl
      | some u =>
        obtain rfl := insertItem_eq_some hinsert
        exact .of_same rfl rfl rfl
    · cases h
  | repairFailed =>
    obtain ⟨repair, hrepair, h⟩ := bind_eq_some_iff.mp h
    split at h
    · obtain rfl := some.inj h
      exact .of_same rfl rfl rfl
    · cases h
  | listening =>
    obtain ⟨repair, hrepair, h⟩ := bind_eq_some_iff.mp h
    obtain ⟨_, h⟩ := ite_none_right_eq_some.mp h
    obtain rfl := some.inj h
    exact .of_same rfl rfl rfl

/-! ### Rows of a step -/

theorem readId_toolMessage {createdAt : ℕ}
    (hcallId : asString (get payload "call_id") = some callId) (hne : callId ≠ "")
    (hread : (toolMessage messageId createdAt payload metadata).readId runtime = some id) :
    id = callId := by
  have hstored : storedCallId runtime messageId payload = callId := by
    rw [storedCallId, hcallId, filter_some, if_pos (by simpa using hne)]
  obtain ⟨tool, htool, rfl⟩ := map_eq_some_iff.mp hread
  rcases or_eq_some_iff.mp htool with htool | ⟨_, htool⟩
  · rcases or_eq_some_iff.mp htool with htool | ⟨_, htool⟩
    all_goals
      obtain ⟨name, _, htool⟩ := bind_eq_some_iff.mp htool
      rw [hcallId] at htool
      obtain ⟨_, htool⟩ := ite_none_right_eq_some.mp htool
      exact (congrArg ToolUse.id (some.inj htool)).symm
  · obtain ⟨directive, _, rfl⟩ := map_eq_some_iff.mp htool
    exact hstored

theorem llmCallId_row (turn : Turn) (messageId createdAt : ℕ) (payload : Fields) :
    (turn.row messageId createdAt payload).llmCallId = some turn.llmCallId := by
  simp [Row.llmCallId, Turn.row, toolMessage, asString]

/-! ### The invariant -/

/-- The history is coherent, and the calls that a step has still to answer have no row. -/
structure Inv (runtime : Runtime) (options : LoadOptions) (s : State) : Prop where
  coherent : Coherent runtime options s.rows s.calls
  nonempty : ∀ call ∈ s.calls, ∀ id ∈ call.uses, id ≠ ""
  owed : ∀ turn ∈ s.turn, ∃ call ∈ s.calls, call.llmCallId = turn.llmCallId ∧
    (turn.owed.map (·.id)).Sublist call.uses ∧
    ∀ id ∈ turn.owed.map (·.id), ∀ row ∈ s.rows, row.readId runtime ≠ some id

theorem inv_init : Inv runtime options init where
  coherent := ⟨List.nodup_nil, List.nodup_nil, by simp [init], by simp [init]⟩
  nonempty := by simp [init]
  owed := by simp [init]

variable {rows : List Row}

theorem Coherent.eq_of_mem (h : Coherent runtime options rows calls) {a : LlmCall} (ha : a ∈ calls)
    (hb : b ∈ calls) (hida : id ∈ a.uses) (hidb : id ∈ b.uses) : a = b := by
  have hdisjoint := (List.nodup_flatMap.mp h.uses).2
  have : Std.Symm (Function.onFun List.Disjoint LlmCall.uses) :=
    ⟨fun _ _ h id hid hid' => h hid' hid⟩
  by_contra hne
  exact hdisjoint.forall ha hb hne hida hidb

/-- A row that is read under a new id keeps the history coherent. -/
theorem Coherent.append_row (h : Coherent runtime options rows calls) {row : Row}
    (hnew : ∀ id ∈ row.readId runtime, ∀ other ∈ rows, other.readId runtime ≠ some id)
    (hresults : ∀ id ∈ row.readId runtime, ∀ call ∈ calls, call.replayed runtime options = true → id
      ∈ call.uses → row.llmCallId = some call.llmCallId ∧ call.createdAt / 1000 < row.contextAt /
      1000) : Coherent runtime options (rows ++ [row]) calls where
  uses := h.uses
  named := h.named
  reads := by
    rw [List.filterMap_append]
    refine List.nodup_append.mpr ⟨h.reads, ?_, ?_⟩
    · cases hread : row.readId runtime with
      | none | some id => simp [hread]
    · intro id hid id' hid'
      obtain ⟨other, hother, hread⟩ := List.mem_filterMap.mp hid
      obtain ⟨last, hlast, hread'⟩ := List.mem_filterMap.mp hid'
      obtain rfl := List.mem_singleton.mp hlast
      rintro rfl
      exact hnew id hread' other hother hread
  results := by
    exact List.forall_mem_append.mpr ⟨h.results, List.forall_mem_singleton.mpr hresults⟩

/-- A new row is none for what a step has still to answer. -/
theorem forall_append_row {ids : List String}
    (h : ∀ id ∈ ids, ∀ row ∈ rows, row.readId runtime ≠ some id)
    (hrow : ∀ id ∈ ids, row.readId runtime ≠ some id) :
    ∀ id ∈ ids, ∀ other ∈ rows ++ [row], other.readId runtime ≠ some id := by
  intro id hid
  exact List.forall_mem_append.mpr ⟨h id hid, List.forall_mem_singleton.mpr (hrow id hid)⟩

/-- **Every action keeps the invariant**, when it meets the conditions. -/
theorem Inv.step (hi : Inv runtime options s) (hpromised : Promised runtime s act)
    (hmeets : Meets runtime options s act) (h : Conversation.step s act = some t) :
    Inv runtime options t := by
  cases step_effect h with
  | turn hcalls hrows hturn =>
    refine ⟨by rw [hcalls, hrows]; exact hi.coherent, by rw [hcalls]; exact hi.nonempty, ?_⟩
    intro later hlater
    obtain ⟨turn, hmem, hid, hsub⟩ := hturn later hlater
    obtain ⟨call, hcall, hcallId, huses, hrow⟩ := hi.owed turn hmem
    rw [hcalls, hrows]
    refine ⟨call, hcall, hcallId.trans hid.symm, (hsub.map _).trans huses, ?_⟩
    exact fun id hid => hrow id ((hsub.map _).subset hid)
  | message row hrole hcalls hrows hturn =>
    have hread : row.readId runtime = none := readId_of_role hrole
    refine ⟨?_, by rw [hcalls]; exact hi.nonempty, ?_⟩
    · rw [hcalls, hrows]
      exact hi.coherent.append_row (by simp [hread]) (by simp [hread])
    · intro turn hmem
      obtain ⟨call, hcall, hcallId, huses, hrow⟩ := hi.owed turn (hturn ▸ hmem)
      rw [hcalls, hrows]
      exact ⟨call, hcall, hcallId, huses, forall_append_row hrow (by simp [hread])⟩
  | call call hact hnamed hcalls hrows hturn =>
    subst hact
    obtain ⟨hnodup, hnew⟩ := hpromised call rfl
    refine ⟨?_, ?_, ?_⟩
    · rw [hcalls, hrows]
      refine ⟨?_, hi.coherent.reads, ?_, ?_⟩
      · rw [List.flatMap_append, List.flatMap_singleton]
        refine List.nodup_append.mpr ⟨hi.coherent.uses, hnodup, ?_⟩
        rintro id hid _ hid' rfl
        obtain ⟨other, hother, hid⟩ := List.mem_flatMap.mp hid
        exact (hnew id hid').2.1 other hother hid
      · intro other hother
        rcases List.mem_append.mp hother with hother | hother
        · exact hi.coherent.named other hother
        · rw [List.mem_singleton.mp hother]
          exact hnamed
      · intro row hrow id hread other hother hreplayed hid
        rcases List.mem_append.mp hother with hother | hother
        · exact hi.coherent.results row hrow id hread other hother hreplayed hid
        · rw [List.mem_singleton.mp hother] at hid
          exact absurd hread ((hnew id hid).2.2 row hrow)
    · rw [hcalls]
      exact List.forall_mem_append.mpr
        ⟨hi.nonempty, List.forall_mem_singleton.mpr (fun id hid => (hnew id hid).1)⟩
    · intro turn hmem
      obtain rfl := some.inj (hturn ▸ hmem)
      rw [hcalls, hrows]
      exact ⟨call, List.mem_append_right _ List.mem_cons_self, rfl, .refl _,
        fun id hid => (hnew id hid).2.2⟩
  | ofStep turn later use messageId createdAt payload hofStep hwritten hcallId hbefore howed
      hlater hcalls hrows hafter =>
    obtain ⟨call, hcall, hturnId, huses, hfree⟩ := hi.owed turn hbefore
    rw [howed, List.map_cons] at huses hfree
    have huse : use.id ∈ call.uses := huses.subset List.mem_cons_self
    have hread : ∀ id ∈ (turn.row messageId createdAt payload).readId runtime, id = use.id :=
      fun id hid => readId_toolMessage hcallId (hi.nonempty call hcall _ huse) hid
    refine ⟨?_, by rw [hcalls]; exact hi.nonempty, ?_⟩
    · rw [hcalls, hrows]
      refine hi.coherent.append_row ?_ ?_
      · rintro id hid
        rw [hread id hid]
        exact hfree use.id List.mem_cons_self
      · intro id hid other hother hreplayed hidOther
        obtain rfl := hi.coherent.eq_of_mem hother hcall hidOther (hread id hid ▸ huse)
        rw [llmCallId_row, hturnId]
        exact ⟨rfl, (hmeets _ hwritten id hid).1 other hother hreplayed hidOther⟩
    · intro found hfound
      obtain rfl := some.inj (hafter ▸ hfound)
      rw [hcalls, hrows]
      refine ⟨call, hcall, hturnId.trans hlater.symm, (List.sublist_cons_self _ _).trans huses, ?_⟩
      refine forall_append_row (fun id hid => hfree id (List.mem_cons_of_mem _ hid)) ?_
      intro id hid heq
      -- The call that was answered is not among the rest: ids of one output are distinct.
      have hnodup : call.uses.Nodup := (List.nodup_flatMap.mp hi.coherent.uses).1 call hcall
      exact (List.nodup_cons.mp (hnodup.sublist huses)).1 (hread id heq ▸ hid)
  | apart row hofStep hwritten hcalls hrows hturn =>
    have hapart : ∀ id ∈ row.readId runtime, Apart runtime options s row id :=
      fun id hid => (hmeets row hwritten id hid).2 hofStep
    refine ⟨?_, by rw [hcalls]; exact hi.nonempty, ?_⟩
    · rw [hcalls, hrows]
      refine hi.coherent.append_row (fun id hid => (hapart id hid).2.1) ?_
      intro id hid call hcall hreplayed huse
      exact ⟨(hapart id hid).1 call hcall hreplayed huse,
        (hmeets row hwritten id hid).1 call hcall hreplayed huse⟩
    · intro turn hmem
      obtain ⟨call, hcall, hcallId, huses, hfree⟩ := hi.owed turn (hturn ▸ hmem)
      rw [hcalls, hrows]
      refine ⟨call, hcall, hcallId, huses, forall_append_row hfree fun id hid heq => ?_⟩
      exact (hapart id heq).2.2 turn (hturn ▸ hmem) hid

/-! ### Runs -/

/-- **Well-formed replay.** In every run in which no row that a restart or a late answer writes is
read under an id that is taken, and every row is later than its call, every conversation that is
loaded has each tool call that is replayed, and each once, with one result after it. -/
theorem wellFormed_replay {acts : List Act}
    (hpromised : Runs.Along Conversation.step (Promised runtime) acts init)
    (hmeets : Runs.Along Conversation.step (Meets runtime options) acts init)
    (hrun : Runs.run Conversation.step acts init = some s) (checkpoint : Option Checkpoint) :
    WellFormed (load runtime options checkpoint s.rows s.calls) ∧
      ∀ call ∈ s.calls, call.replayed runtime options = true →
        llmCallAfterBoundary (checkpoint.bind (·.call)) call = true →
          ∀ id ∈ call.uses, id ∈ uses (load runtime options checkpoint s.rows s.calls) := by
  have hinv : Inv runtime options s :=
    Runs.invariant_along (fun _ _ _ hi hok h => Inv.step hi hok.1 hok.2 h)
      (Runs.along_and hpromised hmeets) hrun inv_init
  refine ⟨hinv.coherent.wellFormed checkpoint, ?_⟩
  intro call hcall hreplayed hafter id hid
  exact mem_uses_load checkpoint hcall hreplayed hafter hid

/-! ### A restart -/

def exampleRuntime : Runtime where
  ulid := fun _ => "0"
  trim := fun text => text
  normalizeTerminalSendKeyName := fun text => text
  parseQuestions := some
  withoutReasoning := fun _ => false
  systemPrompt := "You are Bud."

def exampleOptions : LoadOptions :=
  { provider := .openai, targetModel := none, targetReasoning := none }

/-- A call of a model that waits for a terminal, and then uses another tool. -/
def exampleCall (other : String) : LlmCall where
  llmCallId := "llm_1"
  turnId := "turn_1"
  durable := false
  provider := .openai
  model := "gpt"
  requestMode := .openaiResponses
  createdAt := 1000
  output := [.toolUse ⟨"call_1", "terminal_wait", []⟩, .toolUse ⟨"call_2", other, []⟩]

/-- The service stops after the first tool call of a step, and the next one repairs the second. -/
def exampleRestart (other : String) : List Act :=
  [.call (exampleCall other),
    .toolRow 1 5000 [("tool", .string "terminal.wait"), ("call_id", .string "call_1")], .toolItem,
    .restart, .repairRow 2 9000, .repairItem, .listening]

/-- A tool that the loader does not know is repaired, and the conversation is well formed. -/
theorem wellFormed_replay_exampleRestart : ∃ s,
    Runs.run Conversation.step (exampleRestart "retired_tool") init = some s ∧
      WellFormed (load exampleRuntime exampleOptions none s.rows s.calls) :=
  ⟨_, rfl, (@wellFormed_replay exampleRuntime exampleOptions _ (exampleRestart "retired_tool")
    (by decide) (by decide) rfl none).1⟩

/-- **After a restart a call is there twice**, once from the ledger and once from the row that the
restart wrote. -/
theorem not_wellFormed_exampleRestart :
    Runs.Along Conversation.step (Promised exampleRuntime) (exampleRestart "terminal_wait") init ∧
    ∃ s, Runs.run Conversation.step (exampleRestart "terminal_wait") init = some s ∧
      ¬ WellFormed (load exampleRuntime exampleOptions none s.rows s.calls) := by
  refine ⟨by decide, _, rfl, fun h => ?_⟩
  have htwice := (h "call_2" (by decide)).1
  revert htwice
  decide

end Bud.Conversation
