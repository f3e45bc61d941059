import Bud.Lib.Runs
import Mathlib.Data.List.Sort

/-!
# The order of the model's context

A message is part of what a model is given once it is visible. The input of an invocation becomes
visible when the invocation is first started, and its place is then not when it was admitted but
`model_context_at`, a time that `start` makes later than all that is visible
(`model-context-order.ts`, `invocation-repository.ts`). A checkpoint replaces what is visible by a
summary, and remembers the newest message it covers (`context-checkpoint-repository.ts`); from then
on only messages after that one are loaded (`conversation-loader.ts`).

The database keeps microseconds. `start` works in milliseconds, and so does the boundary of a
checkpoint, which goes through a `Date`; the loader compares it with the database's own times. A
covered message with a fraction of a millisecond is after the boundary then, and is loaded beside
the summary.

## Modelling notes

One thread. Times are in microseconds, except `model_context_at` and boundaries, which are in
milliseconds. Ids are numbers in the order of the ids. Messages get any time: `now()` is when their
transaction began, and clocks differ. An invocation is started whenever its other checks allow, here
at any time, so every order of admissions and starts is a run.
-/

namespace Bud.ModelContext

open List Option

structure Message where
  messageId : ℕ
  createdAt : ℕ
  isInput : Bool
  /-- `model_context_at` of its metadata. -/
  modelContextAt : Option ℕ
  deriving DecidableEq

/-- `modelContextMessageVisible`. -/
def Message.visible (message : Message) : Bool :=
  !message.isInput || message.modelContextAt.isSome

/-- `modelContextMessageCreatedAt`, of a message that is visible. -/
def Message.contextAt (message : Message) : ℕ :=
  if message.isInput then message.modelContextAt.getD 0 * 1000 else message.createdAt

/-- Earlier in the order by time and then id. -/
def Message.before (a b : Message) : Bool :=
  a.contextAt < b.contextAt || a.contextAt = b.contextAt && a.messageId < b.messageId

/-- How far a checkpoint goes. -/
structure Boundary where
  messageCreatedAt : ℕ
  messageId : ℕ

structure State where
  messages : List Message
  /-- The boundaries of the checkpoints, in the order they were taken. -/
  checkpoints : List (Option Boundary)

def init : State := ⟨[], []⟩

def State.visible (s : State) : List Message := s.messages.filter (·.visible)

/-! ### Starting an invocation -/

/-- The time that `start` gives an input at `now`. -/
def State.contextClock (s : State) (now : ℕ) : ℕ :=
  match (s.visible.map (·.contextAt)).max? with
  | none => now / 1000
  | some newest => max (now / 1000) (newest / 1000 + 1)

/-- What `start` does to the input; a time that it has already is kept. -/
def State.start (s : State) (messageId now : ℕ) : State :=
  { s with
    messages := s.messages.map fun message =>
      if message.messageId = messageId then
        { message with modelContextAt := message.modelContextAt.or (some (s.contextClock now)) }
      else message }

/-! ### Checkpoints -/

/-- The last in the order. -/
def newest : List Message → Option Message
  | [] => none
  | message :: messages =>
    match newest messages with
    | none => some message
    | some last => if last.before message then some message else some last

/-- `getCurrentContextCheckpointBoundary`: the newest message, with its time as a `Date`. -/
def State.boundary (s : State) : Option Boundary :=
  (newest s.visible).map fun message =>
    { messageCreatedAt := message.contextAt / 1000, messageId := message.messageId }

/-- `messageAfterCheckpointBoundary`. -/
def afterBoundary (boundary : Option Boundary) (message : Message) : Bool :=
  match boundary with
  | none => true
  | some boundary =>
    boundary.messageCreatedAt * 1000 < message.contextAt ||
      message.contextAt = boundary.messageCreatedAt * 1000 &&
        boundary.messageId < message.messageId

def State.loadStoredRows (s : State) (boundary : Option Boundary) : List Message :=
  (s.visible.filter (afterBoundary boundary)).insertionSort fun a b => !b.before a

/-! ### Steps -/

inductive Act where
  | insert (messageId createdAt : ℕ) (modelContextAt : Option ℕ)
  /-- `admit` writes an input; a time that came with its metadata is dropped. -/
  | admission (messageId createdAt : ℕ)
  | start (messageId now : ℕ)
  | checkpoint

def State.add (s : State) (message : Message) : Option State :=
  if s.messages.any (·.messageId = message.messageId) then none
  else some { s with messages := s.messages ++ [message] }

def step (s : State) : Act → Option State
  | .insert messageId createdAt modelContextAt =>
    s.add { messageId, createdAt, isInput := false, modelContextAt }
  | .admission messageId createdAt =>
    s.add { messageId, createdAt, isInput := true, modelContextAt := none }
  | .start messageId now =>
    if s.messages.any fun message => message.messageId = messageId && message.isInput then
      some (s.start messageId now)
    else none
  | .checkpoint => some { s with checkpoints := s.checkpoints ++ [s.boundary] }

/-! ### The newest message -/

theorem newest_eq_none (h : newest messages = none) : messages = [] := by
  cases messages with
  | nil => rfl
  | cons first messages =>
    rw [newest] at h
    split at h
    · cases h
    · split at h <;> cases h

theorem newest_spec (h : newest messages = some last) :
    last ∈ messages ∧ ∀ message ∈ messages, message.contextAt < last.contextAt ∨
      message.contextAt = last.contextAt ∧ message.messageId ≤ last.messageId := by
  induction messages generalizing last with
  | nil => cases h
  | cons first messages ih =>
    rw [newest] at h
    cases hrest : newest messages with
    | none =>
      obtain rfl : first = last := by simpa [hrest] using h
      obtain rfl := newest_eq_none hrest
      exact ⟨mem_cons_self, by simp⟩
    | some best =>
      obtain ⟨hmem, hbest⟩ := ih hrest
      simp only [hrest] at h
      split at h
      · next hbefore =>
        obtain rfl := some.inj h
        simp only [Message.before, Bool.or_eq_true, Bool.and_eq_true, decide_eq_true_eq] at hbefore
        refine ⟨mem_cons_self, ?_⟩
        rintro message (_ | ⟨_, hmessage⟩)
        · exact .inr ⟨rfl, Nat.le_refl _⟩
        · have hle := hbest message hmessage
          omega
      · next hbefore =>
        obtain rfl := some.inj h
        simp only [Message.before, Bool.or_eq_true, Bool.and_eq_true, decide_eq_true_eq] at hbefore
        refine ⟨mem_cons_of_mem _ hmem, ?_⟩
        rintro message (_ | ⟨_, hmessage⟩)
        · omega
        · exact hbest message hmessage

variable {s t u : State} {act : Act}

variable {message : Message} {messageId : ℕ}

theorem mem_visible : message ∈ s.visible ↔ message ∈ s.messages ∧ message.visible = true :=
  mem_filter

theorem mem_loadStoredRows : message ∈ s.loadStoredRows boundary ↔
      message ∈ s.visible ∧ afterBoundary boundary message = true := by
  rw [State.loadStoredRows, mem_insertionSort, mem_filter]

/-- **The time that a start gives is past all that is visible**, in milliseconds. -/
theorem lt_contextClock (h : message ∈ s.visible) (now : ℕ) :
    message.contextAt / 1000 < s.contextClock now := by
  unfold State.contextClock
  have hmem : message.contextAt ∈ s.visible.map (·.contextAt) := mem_map_of_mem h
  cases hmax : (s.visible.map (·.contextAt)).max? with
  | none =>
    rw [max?_eq_none_iff.mp hmax] at hmem
    cases hmem
  | some newest =>
    have hle : message.contextAt ≤ newest := (max?_eq_some_iff.mp hmax).2 _ hmem
    have hdiv : message.contextAt / 1000 ≤ newest / 1000 := Nat.div_le_div_right hle
    dsimp only
    omega

/-! ### Steps -/

def Distinct (s : State) : Prop := (s.messages.map (·.messageId)).Nodup

theorem Distinct.eq (h : Distinct s) (ha : a ∈ s.messages) (hb : b ∈ s.messages)
    (heq : a.messageId = b.messageId) : a = b :=
  inj_on_of_nodup_map h ha hb heq

/-- A message of the state after a start was there before, or is the input, with a time. -/
theorem mem_start (h : message ∈ (s.start messageId now).messages) :
    message ∈ s.messages ∨ ∃ before ∈ s.messages, before.messageId = messageId ∧
      before.modelContextAt = none ∧
      message = { before with modelContextAt := some (s.contextClock now) } := by
  obtain ⟨before, hbefore, rfl⟩ := mem_map.mp h
  split
  · next heq =>
    cases hcontext : before.modelContextAt with
    | none => exact .inr ⟨before, hbefore, heq, hcontext, rfl⟩
    | some at' =>
      left
      rw [some_or, ← hcontext]
      exact hbefore
  · exact .inl hbefore

theorem mem_start_of_visible (h : message ∈ s.messages) (hvisible : message.visible = true)
    (hinput : message.messageId = messageId → message.isInput = true) :
    message ∈ (s.start messageId now).messages := by
  refine mem_map.mpr ⟨message, h, ?_⟩
  split
  · next heq =>
    simp only [Message.visible, hinput heq, Bool.not_true, Bool.false_or,
      isSome_iff_exists] at hvisible
    obtain ⟨at', hcontext⟩ := hvisible
    rw [hcontext, some_or, ← hcontext]
  · rfl

theorem step_cases (h : step s act = some t) :
    (∃ message, (message.isInput = true → message.modelContextAt = none) ∧
      (∀ other ∈ s.messages, other.messageId ≠ message.messageId) ∧
      t.messages = s.messages ++ [message]) ∨
    (∃ input ∈ s.messages, ∃ now, act = .start input.messageId now ∧ input.isInput = true ∧
      t = s.start input.messageId now) ∨
    t.messages = s.messages := by
  have hadd : ∀ message, s.add message = some t →
      (∀ other ∈ s.messages, other.messageId ≠ message.messageId) ∧
        t.messages = s.messages ++ [message] := by
    intro message h
    obtain ⟨hnew, h⟩ := ite_none_left_eq_some.mp h
    obtain rfl := some.inj h
    refine ⟨fun other hother heq => hnew ?_, rfl⟩
    exact List.any_eq_true.mpr ⟨other, hother, by simpa using heq⟩
  cases act with
  | insert messageId createdAt modelContextAt | admission messageId createdAt =>
    exact .inl ⟨_, by simp, hadd _ h⟩
  | start messageId now =>
    obtain ⟨hany, h⟩ := ite_none_right_eq_some.mp h
    obtain ⟨input, hmem, hfound⟩ := List.any_eq_true.mp hany
    obtain ⟨rfl, hinput⟩ : input.messageId = messageId ∧ input.isInput = true := by
      simpa using hfound
    exact .inr (.inl ⟨input, hmem, now, rfl, hinput, (some.inj h).symm⟩)
  | checkpoint =>
    obtain rfl := some.inj h
    exact .inr (.inr rfl)

theorem mem_of_start (hs : Distinct s) (h : step s (.start messageId now) = some t)
    (hmem : input ∈ s.messages) (hid : input.messageId = messageId) :
    input.isInput = true ∧ (input.modelContextAt = none →
      { input with modelContextAt := some (s.contextClock now) } ∈ t.messages) := by
  obtain ⟨hany, h⟩ := ite_none_right_eq_some.mp h
  obtain ⟨found, hfound, hinput⟩ := List.any_eq_true.mp hany
  simp only [Bool.and_eq_true, decide_eq_true_eq] at hinput
  obtain rfl := hs.eq hfound hmem (hinput.1.trans hid.symm)
  refine ⟨hinput.2, fun hnone => ?_⟩
  obtain rfl := some.inj h
  exact mem_map.mpr ⟨found, hmem, by rw [if_pos hid, hnone, none_or]⟩

theorem Distinct.step (hs : Distinct s) (h : step s act = some t) : Distinct t := by
  rcases step_cases h with ⟨message, _, hnew, ht⟩ | ⟨input, _, now, _, _, rfl⟩ | ht
  · rw [Distinct, ht, map_append]
    refine nodup_append.mpr ⟨hs, nodup_singleton _, ?_⟩
    intro id hid other hother
    obtain ⟨before, hbefore, rfl⟩ := mem_map.mp hid
    obtain rfl := mem_singleton.mp hother
    exact hnew before hbefore
  · have hids : (s.start input.messageId now).messages.map (·.messageId) =
        s.messages.map (·.messageId) := by
      rw [State.start, List.map_map]
      refine map_congr_left fun message _ => ?_
      simp only [Function.comp_apply]
      split <;> rfl
    rw [Distinct, hids]
    exact hs
  · rw [Distinct, ht]
    exact hs

/-- What holds of every state `u` that comes after `t`: what was visible is still there as it was,
and an input that has been started since has a time past all of it. -/
structure Since (t u : State) : Prop where
  distinct : Distinct u
  kept : ∀ message ∈ t.messages, message.visible = true → message ∈ u.messages
  later : ∀ message ∈ u.messages, message.isInput = true →
    ∀ at', message.modelContextAt = some at' →
    message ∈ t.messages ∨
      ∀ covered ∈ t.messages, covered.visible = true → covered.contextAt / 1000 < at'

theorem Since.refl (h : Distinct t) : Since t t :=
  ⟨h, fun _ hmem _ => hmem, fun _ hmem _ _ _ => .inl hmem⟩

theorem Since.step (h : Since t s) (hstep : step s act = some u) : Since t u := by
  refine ⟨h.distinct.step hstep, ?_, ?_⟩
  · intro message hmem hvisible
    have hkept := h.kept message hmem hvisible
    rcases step_cases hstep with ⟨_, _, _, hu⟩ | ⟨input, hinput, now, _, hinput', rfl⟩ | hu
    · rw [hu]
      exact mem_append_left _ hkept
    · refine mem_start_of_visible hkept hvisible fun heq => ?_
      rw [h.distinct.eq hkept hinput heq]
      exact hinput'
    · rw [hu]
      exact hkept
  · intro message hmem hinput at' hat
    rcases step_cases hstep with ⟨new, hnone, _, hu⟩ | ⟨input, _, now, _, _, rfl⟩ | hu
    · rw [hu] at hmem
      rcases mem_append.mp hmem with hmem | hmem
      · exact h.later message hmem hinput at' hat
      · obtain rfl := mem_singleton.mp hmem
        rw [hnone hinput] at hat
        cases hat
    · rcases mem_start hmem with hmem | ⟨before, _, _, _, rfl⟩
      · exact h.later message hmem hinput at' hat
      · right
        intro covered hcovered hvisible
        obtain rfl := some.inj hat
        exact lt_contextClock (mem_visible.mpr ⟨h.kept covered hcovered hvisible, hvisible⟩) now
    · rw [hu] at hmem
      exact h.later message hmem hinput at' hat

theorem Since.of_run (ht : Distinct t) (h : Runs.run ModelContext.step acts t = some u) :
    Since t u :=
  Runs.invariant (fun _ _ _ hs hstep => hs.step hstep) h (.refl ht)

theorem Distinct.of_run (h : Runs.run ModelContext.step acts init = some s) : Distinct s :=
  Runs.invariant (fun _ _ _ hs hstep => hs.step hstep) h nodup_nil

/-! ### Boundaries -/

/-- The newest message that a checkpoint covers has no fraction of a millisecond. -/
def Whole (s : State) : Act → Bool
  | .checkpoint => (newest s.visible).all (·.contextAt % 1000 = 0)
  | _ => true

theorem boundary_eq (h : newest t.visible = some last) :
    t.boundary = some
      { messageCreatedAt := last.contextAt / 1000, messageId := last.messageId } := by
  rw [State.boundary, h, map_some]

/-- **An input that is started after a checkpoint is loaded.** -/
theorem Since.started_loaded (h : Since t s) (hmem : message ∈ s.messages)
    (hinput : message.isInput = true) (hvisible : message.visible = true)
    (hsince : ∀ covered ∈ t.messages, covered.messageId = message.messageId → covered.visible =
      false) : message ∈ s.loadStoredRows t.boundary := by
  refine mem_loadStoredRows.mpr ⟨mem_visible.mpr ⟨hmem, hvisible⟩, ?_⟩
  obtain ⟨at', hat⟩ : ∃ at', message.modelContextAt = some at' := by
    simpa [Message.visible, hinput, isSome_iff_exists] using hvisible
  rcases h.later message hmem hinput at' hat with hold | hlater
  · rw [hsince message hold rfl] at hvisible
    cases hvisible
  · cases hnewest : newest t.visible with
    | none => simp [State.boundary, hnewest, afterBoundary]
    | some last =>
      obtain ⟨hlast, hvisible'⟩ := mem_visible.mp (newest_spec hnewest).1
      have hlt := hlater last hlast hvisible'
      have hcontext : message.contextAt = at' * 1000 := by simp [Message.contextAt, hinput, hat]
      have hafter : last.contextAt / 1000 * 1000 < message.contextAt := by omega
      rw [boundary_eq hnewest]
      simp [afterBoundary, hafter]

/-- What is covered is not loaded again exactly when the boundary is at a whole millisecond. -/
theorem Since.covered_iff (h : Since t s) :
    Whole t .checkpoint = true ↔ ∀ covered ∈ t.messages, covered.visible = true →
      ∀ message ∈ s.loadStoredRows t.boundary, message.messageId ≠ covered.messageId := by
  constructor
  · intro hwhole covered hcovered hvisible message hloaded heq
    obtain ⟨hmem, hafter⟩ := mem_loadStoredRows.mp hloaded
    obtain rfl := h.distinct.eq (mem_visible.mp hmem).1 (h.kept covered hcovered hvisible) heq
    have hcovered' := mem_visible.mpr ⟨hcovered, hvisible⟩
    cases hnewest : newest t.visible with
    | none =>
      rw [newest_eq_none hnewest] at hcovered'
      cases hcovered'
    | some last =>
      have hle := (newest_spec hnewest).2 message hcovered'
      have hzero : last.contextAt % 1000 = 0 := by simpa [Whole, hnewest] using hwhole
      simp only [boundary_eq hnewest, afterBoundary, Bool.or_eq_true, Bool.and_eq_true,
        decide_eq_true_eq] at hafter
      omega
  · intro hnot
    unfold Whole
    rw [Option.all_eq_true]
    intro last hnewest
    obtain ⟨hlast, hvisible⟩ := mem_visible.mp (newest_spec hnewest).1
    by_contra hfraction
    have hfraction : ¬ last.contextAt % 1000 = 0 := by simpa using hfraction
    refine hnot last hlast hvisible last ?_ rfl
    refine mem_loadStoredRows.mpr ⟨mem_visible.mpr ⟨h.kept last hlast hvisible, hvisible⟩, ?_⟩
    have hafter : last.contextAt / 1000 * 1000 < last.contextAt := by omega
    rw [boundary_eq hnewest]
    simp [afterBoundary, hafter]

/-! ### Runs -/

/-- **The order of the model's context.** In every sequence of messages, admissions, starts and
checkpoints: a first start gives the input a time past all that is visible then, in milliseconds,
which nothing changes afterwards; an input that is first started after a checkpoint is loaded after
it; and nothing that the checkpoint covers is: all of it exactly when the newest message that each
checkpoint covers has no fraction of a millisecond. -/
theorem model_context_iff (acts : List Act) (s : State) (h : Runs.run step acts init = some s) :
    Runs.Along step (fun t act => Whole t act = true) acts init ↔
      (∀ bs cs messageId now t, acts = bs ++ .start messageId now :: cs →
        Runs.run step bs init = some t → ∀ input ∈ t.messages, input.messageId = messageId →
          (input.modelContextAt = none → ∃ at',
            { input with modelContextAt := some at' } ∈ s.messages ∧
            ∀ message ∈ t.messages, message.visible = true → message.contextAt / 1000 < at') ∧
          (input.modelContextAt ≠ none → input ∈ s.messages)) ∧
      ∀ bs cs t, acts = bs ++ .checkpoint :: cs → Runs.run step bs init = some t →
        (∀ message ∈ s.messages, message.isInput = true → message.visible = true →
          (∀ covered ∈ t.messages, covered.messageId = message.messageId →
            covered.visible = false) → message ∈ s.loadStoredRows t.boundary) ∧
        ∀ covered ∈ t.messages, covered.visible = true →
          ∀ message ∈ s.loadStoredRows t.boundary, message.messageId ≠ covered.messageId := by
  have hsince : ∀ bs cs t, acts = bs ++ cs → Runs.run step bs init = some t →
      Distinct t ∧ Runs.run step cs t = some s ∧ Since t s := by
    intro bs cs t heq hrun
    have hrest : Runs.run step cs t = some s := by
      rw [heq, Runs.run_append, hrun] at h
      exact h
    exact ⟨.of_run hrun, hrest, .of_run (.of_run hrun) hrest⟩
  rw [Runs.along_iff_forall_split]
  constructor
  · intro hwhole
    refine ⟨fun bs cs messageId now t heq hrun input hinput hid => ?_, fun bs cs t heq hrun => ?_⟩
    · obtain ⟨ht, hrest, hsince⟩ := hsince bs _ t heq hrun
      obtain ⟨u, hstart, hrest⟩ := Runs.run_cons_eq_some.mp hrest
      obtain ⟨hisInput, hgiven⟩ := mem_of_start ht hstart hinput hid
      constructor
      · intro hnone
        refine ⟨t.contextClock now, ?_, fun message hmem hvisible =>
          lt_contextClock (mem_visible.mpr ⟨hmem, hvisible⟩) now⟩
        exact (Since.of_run (ht.step hstart) hrest).kept _ (hgiven hnone)
          (by simp [Message.visible])
      · intro hsome
        refine hsince.kept input hinput ?_
        simp [Message.visible, isSome_iff_ne_none.mpr hsome]
    · obtain ⟨_, _, hsince⟩ := hsince bs _ t heq hrun
      refine ⟨fun message => hsince.started_loaded, ?_⟩
      exact hsince.covered_iff.mp (hwhole bs _ cs t heq hrun)
  · rintro ⟨_, hloaded⟩ bs act cs t heq hrun
    cases act with
    | checkpoint => exact (hsince bs _ t heq hrun).2.2.covered_iff.mpr (hloaded bs cs t heq hrun).2
    | _ => rfl

/-- An answer, an input that waits, a checkpoint, and the start of the input. -/
def exampleActs (answeredAt : ℕ) : List Act :=
  [.insert 1 answeredAt none, .admission 0 4000, .checkpoint, .start 0 5000]

theorem model_context_iff_whole :
    ∃ t s, Runs.run step ((exampleActs 7000).take 2) init = some t ∧
      Runs.run step (exampleActs 7000) init = some s ∧
      s.loadStoredRows t.boundary = [⟨0, 4000, true, some 8⟩] ∧
      ∀ message ∈ s.loadStoredRows t.boundary, message.messageId ≠ 1 := by
  refine ⟨_, _, rfl, rfl, by decide, ?_⟩
  exact (((model_context_iff (exampleActs 7000) _ rfl).mp (by decide)).2
    ((exampleActs 7000).take 2) [.start 0 5000] _ rfl rfl).2
    ⟨1, 7000, false, none⟩ (by decide) rfl

/-- An answer that the database has put at 7.123 ms is covered by the checkpoint, and loaded again
after it. -/
theorem covered_exampleAnswer_loaded :
    ∃ t s, Runs.run step ((exampleActs 7123).take 2) init = some t ∧
      Runs.run step (exampleActs 7123) init = some s ∧
      (⟨1, 7123, false, none⟩ : Message) ∈ t.visible ∧
      (⟨1, 7123, false, none⟩ : Message) ∈ s.loadStoredRows t.boundary := by
  refine ⟨_, _, rfl, rfl, by decide, by decide⟩

end Bud.ModelContext
