import Bud.PersonalData.RunMembers

/-!
# One location run at a time

"One location run at a time per conversation: what arrives meanwhile forms the next one." Whether a
run is under way is asked by the target of the rules in it (`locationRunActive`), where the other
questions about a conversation, what it has been told and which run a straggler may join, go by the
thread of the run. A run that a rule opened a conversation for is not found that way, so a rule that
writes to that conversation starts another one beside it.
-/

namespace Bud.Admission

open Invocation List Option

def LocationRun (revisions : String → ℕ → Option Revision) (s : State) (id : ℕ) : Prop :=
  ∃ automationId revision, s.Member revisions id automationId revision ∧
    isLocationTrigger revision.definition = true

/-- The run is about locations, goes to this conversation and is active. -/
def Occupies (revisions : String → ℕ → Option Revision) (s : State) (threadId : String)
    (id : ℕ) : Prop :=
  (∃ run, s.runs[id]? = some run ∧ run.threadId = threadId ∧ run.row.status ∈ active) ∧
    LocationRun revisions s id

/-- At most one run about locations is active in a conversation. -/
def Serial (revisions : String → ℕ → Option Revision) (s : State) : Prop :=
  ∀ threadId i j, Occupies revisions s threadId i → Occupies revisions s threadId j → i = j

def State.openedRunActive (revisions : String → ℕ → Option Revision) (s : State)
    (threadId : String) : Bool :=
  s.deliveries.any fun delivery =>
    (s.runOf delivery).any (fun run => run.threadId = threadId && run.row.status ∈ active) &&
      (definitionOf revisions delivery).any fun definition =>
        isLocationTrigger definition && definition.target = .newThread

/-- A run about locations is not started in a conversation while the run that it was opened for is
active. -/
def Plan.apart (revisions : String → ℕ → Option Revision) (s : State) : Plan → Bool
  | .start first =>
    !isLocationTrigger first.definition ||
      match first.definition.target with
      | .existingThread threadId => !s.openedRunActive revisions threadId
      | .newThread => true
  | _ => true

def Apart (revisions : String → ℕ → Option Revision) (s : State) : Act → Prop
  | .admitNext env => (s.plan revisions env).apart revisions s = true
  | _ => True

instance (revisions : String → ℕ → Option Revision) (s : State) :
    ∀ act : Act, Decidable (Apart revisions s act)
  | .admitNext env => inferInstanceAs (Decidable ((s.plan revisions env).apart revisions s = true))
  | .deliver _ | .cancelPending _ | .progress _ _ => .isTrue trivial

variable {revisions : String → ℕ → Option Revision} {owner : String} {s t : State} {env : Env}
  {act : Act} {threadId : String}

/-! ### Runs that are overlooked -/

theorem mem_runOf (h : s.runOf delivery = some run) :
    ∃ id, delivery.invocationId = some id ∧ s.runs[id]? = some run :=
  bind_eq_some_iff.mp h

theorem definitionOf_eq_some (h : definitionOf revisions delivery = some definition) :
    ∃ revision, revisions delivery.automationId delivery.revision = some revision ∧
      revision.definition = definition :=
  map_eq_some_iff.mp h

theorem openedRunActive_eq_true :
    s.openedRunActive revisions threadId = true ↔ ∃ id automationId revision run,
      s.Member revisions id automationId revision ∧ s.runs[id]? = some run ∧
      run.threadId = threadId ∧ run.row.status ∈ active ∧
      isLocationTrigger revision.definition = true ∧ revision.definition.target = .newThread := by
  simp only [State.openedRunActive, List.any_eq_true, Bool.and_eq_true, Option.any_eq_true,
    decide_eq_true_eq]
  constructor
  · rintro ⟨delivery, hdelivery, ⟨run, hrun, hthread, hactive⟩, definition, hdefinition, hlocation,
      htarget⟩
    obtain ⟨id, hid, hrun⟩ := mem_runOf hrun
    obtain ⟨revision, hrevision, rfl⟩ := definitionOf_eq_some hdefinition
    exact ⟨id, delivery.automationId, revision, run, ⟨delivery, hdelivery, hid, rfl, hrevision⟩,
      hrun, hthread, hactive, hlocation, htarget⟩
  · rintro ⟨id, _, revision, run, ⟨delivery, hdelivery, hid, rfl, hrevision⟩, hrun, hthread,
      hactive, hlocation, htarget⟩
    refine ⟨delivery, hdelivery, ⟨run, ?_, hthread, hactive⟩, revision.definition, ?_, hlocation,
      htarget⟩
    · rw [State.runOf, hid, bind_some, hrun]
    · rw [definitionOf, hrevision, map_some]

/-- When no run is found to be active, an active one in the conversation is the one that it was
opened for. -/
theorem openedRunActive_iff (hu : Uniform revisions s)
    (hfound : s.locationRunActive revisions (.thread threadId) = false) :
    s.openedRunActive revisions threadId = true ↔ ∃ id, Occupies revisions s threadId id := by
  rw [openedRunActive_eq_true]
  constructor
  · rintro ⟨id, automationId, revision, run, hmember, hrun, hthread, hactive, hlocation, _⟩
    exact ⟨id, ⟨run, hrun, hthread, hactive⟩, automationId, revision, hmember, hlocation⟩
  · rintro ⟨id, ⟨run, hrun, rfl, hactive⟩, automationId, revision, hmember, hlocation⟩
    refine ⟨id, automationId, revision, run, hmember, hrun, rfl, hactive, hlocation, ?_⟩
    obtain ⟨⟨_, htarget | htarget⟩, _⟩ := hu id run hrun automationId revision hmember hlocation
    · obtain ⟨delivery, hdelivery, hid, _, hrevision⟩ := hmember
      refine absurd (any_eq_false.mp hfound delivery hdelivery) (not_not.mpr ?_)
      simp [State.runOf, hid, hrun, hactive, definitionOf, hrevision, hlocation, groupKey, htarget]
    · exact htarget

/-! ### Steps -/

def StartsLocation (revisions : String → ℕ → Option Revision) (s : State) (act : Act) (env : Env)
    (first : Prepared) : Prop :=
  act = .admitNext env ∧ s.plan revisions env = .start first ∧
    isLocationTrigger first.definition = true

theorem StartsLocation.unique (h : StartsLocation revisions s act env first)
    (h' : StartsLocation revisions s act env' first') : env = env' ∧ first = first' := by
  obtain ⟨rfl, hplan, _⟩ := h
  obtain ⟨hact, hplan', _⟩ := h'
  cases hact
  rw [hplan] at hplan'
  cases hplan'
  exact ⟨rfl, rfl⟩

theorem locationRun_of_stepped (hs : Sound s) (h : Stepped revisions owner s act t) {id : ℕ}
    (hlocation : LocationRun revisions t id) :
    LocationRun revisions s id ∨
      id = s.runs.length ∧ ∃ env first, StartsLocation revisions s act env first := by
  obtain ⟨automationId, revision, hmember, hlocation⟩ := hlocation
  rcases member_of_stepped hs.distinct h hmember with
    hhad | ⟨item, hjoins, _⟩ | ⟨heq, env, first, hact, hplan, item, hitem, his⟩
  · exact .inl ⟨automationId, revision, hhad, hlocation⟩
  · obtain ⟨_, automationId', revision', _, _, hmember', hlocation', _⟩ := exists_of_joins hjoins
    exact .inl ⟨automationId', revision', hmember', hlocation'⟩
  · refine .inr ⟨heq, env, first, hact, hplan, ?_⟩
    by_contra hnot
    rw [mem_group_of_not_location (Bool.not_eq_true _ ▸ hnot) hitem] at his
    rw [← his.2.1] at hlocation
    exact hnot hlocation

/-- An active run was active before the step, or is started in it. -/
theorem occupies_of_stepped (hs : Sound s) (h : Stepped revisions owner s act t) {id : ℕ}
    (hoccupies : Occupies revisions t threadId id) :
    Occupies revisions s threadId id ∨ id = s.runs.length ∧
      ∃ env first, StartsLocation revisions s act env first ∧ threadOf env first = threadId := by
  obtain ⟨⟨run', hrun', hthread, hactive⟩, hlocation⟩ := hoccupies
  rcases run_of_stepped h hrun' with ⟨run, hrun, hkept⟩ | ⟨heq, first, env, hact, hplan, rfl⟩
  · left
    refine ⟨⟨run, hrun, hkept.threadId.symm.trans hthread, hkept.active hactive⟩, ?_⟩
    rcases locationRun_of_stepped hs h hlocation with hhad | ⟨heq, _⟩
    · exact hhad
    · exact absurd heq (Nat.ne_of_lt (List.getElem?_eq_some_iff.mp hrun).1)
  · right
    rcases locationRun_of_stepped hs h hlocation with ⟨_, _, hmember, _⟩ |
      ⟨_, env', first', hstarts⟩
    · rw [heq] at hmember
      exact absurd hmember hs.not_member
    · refine ⟨heq, env', first', hstarts, ?_⟩
      obtain ⟨hact', hplan', _⟩ := hstarts
      cases hact.symm.trans hact'
      rw [hplan] at hplan'
      cases hplan'
      exact hthread

/-- A step that starts a run about locations leaves the others as they are. -/
theorem occupies_of_starts (hs : Sound s) (h : Stepped revisions owner s act t)
    (hstarts : StartsLocation revisions s act env first) :
    Occupies revisions t (threadOf env first) s.runs.length ∧
      (∀ threadId id, Occupies revisions s threadId id → Occupies revisions t threadId id) ∧
      (first.definition.target = .newThread → ∀ run ∈ s.runs, run.threadId ≠ env.newThreadId) := by
  obtain ⟨rfl, hplan, hlocation⟩ := hstarts
  cases planned_of_plan hplan with
  | start hprepare hmem hpending =>
    cases h with
    | quiet _ _ hquiet => exact absurd hplan ((hquiet env rfl).2 first)
    | join hjoin =>
      rw [hplan] at hjoin
      cases hjoin
    | start hsame hfresh hassigned hruns =>
      rw [hplan] at hsame
      cases hsame
      have hgroup : ∀ delivery ∈ s.deliveries, delivery.id ∈
          (first :: siblings revisions env s first).map (·.delivery.id) →
          delivery.invocationId = none := by
        intro delivery hdelivery hid
        obtain ⟨item, hitem, heq⟩ := mem_map.mp hid
        have hitem := mem_group hmem hpending hitem
        rw [← hs.distinct.eq hitem.1 hdelivery heq]
        exact invocationId_of_pending hitem.2
      have hlast : t.runs[s.runs.length]? =
          some (newRun env first (first :: siblings revisions env s first)) := by
        rw [hruns, getElem?_concat_length]
      refine ⟨⟨⟨_, hlast, rfl, mem_cons_self⟩, ?_⟩, ?_, hfresh⟩
      · obtain ⟨_, revision, hrevision, hdefinition, _⟩ := prepare_eq_ok hprepare
        obtain ⟨after, hafter, hkept⟩ := hassigned.exists_after hmem
        refine ⟨after.automationId, revision, ⟨after, hafter, ?_, rfl, ?_⟩, hdefinition ▸ hlocation⟩
        · rw [hkept.invocationId, if_pos (by simp)]
        · rw [hkept.automationId, hkept.revision, hrevision]
      · rintro threadId id
          ⟨⟨run, hrun, hthread, hactive⟩, automationId, revision, hmember, hlocation⟩
        refine ⟨⟨run, ?_, hthread, hactive⟩, automationId, revision,
          hassigned.member hgroup hmember,
          hlocation⟩
        rw [hruns, getElem?_append_left (List.getElem?_eq_some_iff.mp hrun).1, hrun]

/-- **A step keeps the runs of a conversation apart exactly when it does not overlook one.** -/
theorem apart_iff_serial (hs : Sound s) (hu : Uniform revisions s) (hserial : Serial revisions s)
    (h : Stepped revisions owner s act t) : Apart revisions s act ↔ Serial revisions t := by
  by_cases hstarts : ∃ env first, StartsLocation revisions s act env first
  · obtain ⟨env, first, hstarts⟩ := hstarts
    obtain ⟨hnew, hold, hfresh⟩ := occupies_of_starts hs h hstarts
    have hfree : Serial revisions t ↔ ¬ ∃ id, Occupies revisions s (threadOf env first) id := by
      constructor
      · rintro hserial' ⟨id, hid⟩
        have heq := hserial' _ _ _ (hold _ _ hid) hnew
        obtain ⟨⟨run, hrun, _⟩, _⟩ := hid
        exact absurd heq (Nat.ne_of_lt (List.getElem?_eq_some_iff.mp hrun).1)
      · intro hnone threadId i j hi hj
        rcases occupies_of_stepped hs h hi with hi | ⟨rfl, env₁, first₁, hstarts₁, rfl⟩ <;>
          rcases occupies_of_stepped hs h hj with hj | ⟨rfl, env₂, first₂, hstarts₂, heq⟩
        · exact hserial threadId i j hi hj
        · obtain ⟨rfl, rfl⟩ := hstarts.unique hstarts₂
          exact absurd ⟨i, heq ▸ hi⟩ hnone
        · obtain ⟨rfl, rfl⟩ := hstarts.unique hstarts₁
          exact absurd ⟨j, hj⟩ hnone
        · rfl
    rw [hfree]
    obtain ⟨rfl, hplan, hlocation⟩ := hstarts
    cases planned_of_plan hplan with
    | start _ _ _ hactive =>
      have hactive := hactive hlocation
      simp only [Apart, hplan, Plan.apart, hlocation, Bool.not_true, Bool.false_or]
      cases htarget : first.definition.target with
      | newThread =>
        refine iff_of_true rfl ?_
        rintro ⟨id, ⟨run, hrun, hthread, _⟩, _⟩
        refine hfresh htarget run (mem_of_getElem? hrun) ?_
        simpa [threadOf, htarget] using hthread
      | existingThread threadId =>
        simp only [groupKey, htarget] at hactive
        simp only [threadOf, htarget, Bool.not_eq_true', ← openedRunActive_iff hu hactive,
          Bool.not_eq_true]
  · refine iff_of_true ?_ fun threadId i j hi hj => ?_
    · cases act with
      | admitNext env =>
        unfold Apart Plan.apart
        dsimp only
        split
        · next first hplan =>
          have hnot : isLocationTrigger first.definition = false := by
            by_contra hlocation
            exact hstarts ⟨env, first, rfl, hplan, by simpa using hlocation⟩
          simp [hnot]
        · rfl
      | _ => trivial
    · rcases occupies_of_stepped hs h hi with hi | ⟨_, env, first, hstarts', _⟩
      · rcases occupies_of_stepped hs h hj with hj | ⟨_, env, first, hstarts', _⟩
        · exact hserial threadId i j hi hj
        · exact absurd ⟨env, first, hstarts'⟩ hstarts
      · exact absurd ⟨env, first, hstarts'⟩ hstarts

/-! ### Runs -/

/-- Whichever delivery of a run about locations is read, what the run may read is the same. -/
def OneCeiling (revisions : String → ℕ → Option Revision) (s : State) : Prop :=
  ∀ id, LocationRun revisions s id → ∀ (env : Env) (pick pick' : ℕ) (ceiling ceiling' : Ceiling),
    s.loadAutomationDataCeiling revisions { env with pick := pick } id = .ok (some ceiling) →
    s.loadAutomationDataCeiling revisions { env with pick := pick' } id = .ok (some ceiling') →
    ceiling.scopes = ceiling'.scopes ∧ ceiling.historyDays = ceiling'.historyDays ∧
      (ceiling.scopes ≠ [] → ceiling.grantVersion = ceiling'.grantVersion)

def NoneJoined (id : ℕ) (s t : State) : Prop :=
  ∀ delivery ∈ t.deliveries, delivery.invocationId = some id →
    ∃ before ∈ s.deliveries, before.id = delivery.id ∧ before.invocationId = some id

theorem noneJoined_of_run {id : ℕ} (hs : Sound s) (hstarted : Started s id)
    (h : Runs.run (step revisions owner) acts s = some t) : NoneJoined id s t := by
  have hstep : ∀ u act u', (Sound u ∧ Started u id ∧ NoneJoined id s u) →
      step revisions owner u act = some u' → Sound u' ∧ Started u' id ∧ NoneJoined id s u' := by
    rintro u act u' ⟨hu, hstarted, hjoined⟩ hstep
    have hstepped := stepped_of_step hu.distinct hstep
    obtain ⟨hstarted', hadded⟩ := hstarted.step hstepped
    refine ⟨hu.step hstepped, hstarted', fun delivery hdelivery hid => ?_⟩
    obtain ⟨between, hbetween, heq, hid'⟩ := hadded delivery hdelivery hid
    obtain ⟨before, hbefore, heq', hid''⟩ := hjoined between hbetween hid'
    exact ⟨before, hbefore, heq'.trans heq, hid''⟩
  have hstart : NoneJoined id s s := fun delivery hdelivery hid => ⟨delivery, hdelivery, rfl, hid⟩
  exact (Runs.invariant hstep h ⟨hs, hstarted, hstart⟩).2.2

theorem started_of_start {id : ℕ} {choice : Choice}
    (h : step revisions owner s (.progress id (.method (.start lease) choice)) = some t) :
    Started t id := by
  obtain ⟨run, hrun, h⟩ := bind_eq_some_iff.mp h
  obtain ⟨run', hprogress, h⟩ := bind_eq_some_iff.mp h
  obtain rfl := some.inj h
  obtain ⟨_, hrun'⟩ := ite_none_right_eq_some.mp hprogress
  obtain rfl := some.inj hrun'
  refine ⟨_, getElem?_set_self (List.getElem?_eq_some_iff.mp hrun).1, ?_⟩
  simp [isStart]

theorem uniform_init : Uniform revisions init := by
  intro id run hrun
  simp [init] at hrun

theorem serial_init : Serial revisions init := by
  rintro threadId i j ⟨⟨run, hrun, _⟩, _⟩
  simp [init] at hrun

theorem uniform_of_run (h : Runs.run (step revisions owner) acts init = some s) :
    Uniform revisions s := by
  have hstep : ∀ u act u', (Sound u ∧ Uniform revisions u) →
      step revisions owner u act = some u' → Sound u' ∧ Uniform revisions u' := by
    rintro u act u' ⟨hu, huniform⟩ hstep
    have hstepped := stepped_of_step hu.distinct hstep
    exact ⟨hu.step hstepped, huniform.step hu hstepped⟩
  exact (Runs.invariant hstep h ⟨.init, uniform_init⟩).2

theorem Uniform.oneCeiling (hu : Uniform revisions s) : OneCeiling revisions s := by
  rintro id ⟨automationId, revision, hmember, hlocation⟩ env pick pick' ceiling ceiling' hc hc'
  exact hu.ceiling hmember hlocation hc hc'

/-- **The authority of a run.** In every sequence of steps, the deliveries of a run about locations
have its Bud and its conversation and one data access, whichever of them the ceiling is read from,
and none joins a run after it has been started. With that a conversation has at most one active run
in every state reached exactly when no run is started in a conversation while the run it was opened
for is active. -/
theorem run_authority_iff (revisions : String → ℕ → Option Revision) (owner : String)
    (acts : List Act) (s : State) (h : Runs.run (step revisions owner) acts init = some s) :
    (Runs.Along (step revisions owner) (Apart revisions) acts init ↔
      (∀ bs cs t, acts = bs ++ cs → Runs.run (step revisions owner) bs init = some t →
        Uniform revisions t ∧ OneCeiling revisions t ∧ Serial revisions t) ∧
      ∀ bs cs id lease choice t, acts = bs ++ .progress id (.method (.start lease) choice) :: cs →
        Runs.run (step revisions owner) (bs ++ [.progress id (.method (.start lease) choice)])
          init =
          some t → NoneJoined id t s) ∧
    (∀ bs cs t, acts = bs ++ cs → Runs.run (step revisions owner) bs init = some t →
      Uniform revisions t ∧ OneCeiling revisions t) ∧
    ∀ bs cs id lease choice t, acts = bs ++ .progress id (.method (.start lease) choice) :: cs →
      Runs.run (step revisions owner) (bs ++ [.progress id (.method (.start lease) choice)]) init =
        some t → NoneJoined id t s := by
  have huniform : ∀ bs cs t, acts = bs ++ cs → Runs.run (step revisions owner) bs init = some t →
      Uniform revisions t ∧ OneCeiling revisions t := fun _ _ _ _ hrun =>
    ⟨uniform_of_run hrun, (uniform_of_run hrun).oneCeiling⟩
  have hjoined : ∀ bs cs id lease choice t,
      acts = bs ++ .progress id (.method (.start lease) choice) :: cs →
      Runs.run (step revisions owner) (bs ++ [.progress id (.method (.start lease) choice)]) init =
        some t → NoneJoined id t s := by
    intro bs cs id lease choice t heq hrun
    have hrest : Runs.run (step revisions owner) cs t = some s := by
      rw [heq, ← singleton_append, ← append_assoc, Runs.run_append, hrun] at h
      exact h
    obtain ⟨u, hu, hlast⟩ := bind_eq_some_iff.mp (Runs.run_append ▸ hrun)
    obtain ⟨_, hstart, ⟨⟩⟩ := Runs.run_cons_eq_some.mp hlast
    exact noneJoined_of_run (.of_run hrun) (started_of_start hstart) hrest
  refine ⟨?_, huniform, hjoined⟩
  have hgood : ∀ s act t, (Sound s ∧ Uniform revisions s ∧ Serial revisions s) →
      step revisions owner s act = some t →
      (Apart revisions s act ↔ Sound t ∧ Uniform revisions t ∧ Serial revisions t) := by
    rintro s act t ⟨hs, hu, hserial⟩ hstep
    have hstepped := stepped_of_step hs.distinct hstep
    rw [apart_iff_serial hs hu hserial hstepped]
    exact ⟨fun hserial' => ⟨hs.step hstepped, hu.step hs hstepped, hserial'⟩, fun hall => hall.2.2⟩
  rw [Runs.along_iff_forall_prefix hgood h ⟨.init, uniform_init, serial_init⟩]
  constructor
  · intro hall
    refine ⟨fun bs cs t heq hrun => ?_, hjoined⟩
    obtain ⟨_, hu, hserial⟩ := hall bs cs t heq hrun
    exact ⟨hu, hu.oneCeiling, hserial⟩
  · rintro ⟨hall, _⟩ bs cs t heq hrun
    obtain ⟨hu, _, hserial⟩ := hall bs cs t heq hrun
    exact ⟨.of_run hrun, hu, hserial⟩

/-! ### A conversation that is opened and then written to -/

/-- One rule opens a conversation, and the other writes to it. -/
def exampleTwoRules : String → ℕ → Option Revision :=
  fun automationId _ =>
    some
      { definition :=
          { exampleDefinition with
            target := if automationId = "opens" then .newThread else .existingThread "new" }
        grantVersion := 1 }

/-- An arrival that opens a conversation, and a later one that goes to it. -/
def exampleTwoRuns : List Act :=
  [.deliver { exampleDelivery 0 with automationId := "opens" },
   .admitNext exampleEnv,
   .deliver { exampleDelivery 1 with automationId := "writes" },
   .admitNext exampleEnv]

theorem run_authority_iff_oneRun :
    ∃ s, Runs.run (step exampleTwoRules "owner") (exampleTwoRuns.take 2) init = some s ∧
      LocationRun exampleTwoRules s 0 ∧ Serial exampleTwoRules s := by
  refine ⟨_, rfl, ?_, ?_⟩
  · exact ⟨"opens", _, ⟨_, mem_cons_self, rfl, rfl, rfl⟩, rfl⟩
  · exact (((run_authority_iff exampleTwoRules "owner" (exampleTwoRuns.take 2) _ rfl).1.mp
      (by decide)).1 (exampleTwoRuns.take 2) [] _ rfl rfl).2.2

/-- Two runs about locations are active in one conversation. -/
theorem not_serial_exampleTwoRuns :
    ∃ s, Runs.run (step exampleTwoRules "owner") exampleTwoRuns init = some s ∧
      ¬ Serial exampleTwoRules s := by
  refine ⟨_, rfl, fun hserial => ?_⟩
  refine absurd (hserial "new" 0 1 ⟨⟨_, rfl, rfl, by decide⟩, ?_⟩ ⟨⟨_, rfl, rfl, by decide⟩, ?_⟩)
    (by decide)
  · exact ⟨"opens", _, ⟨_, mem_cons_self, rfl, rfl, rfl⟩, rfl⟩
  · exact ⟨"writes", _, ⟨_, mem_cons_of_mem _ mem_cons_self, rfl, rfl, rfl⟩, rfl⟩

end Bud.Admission
