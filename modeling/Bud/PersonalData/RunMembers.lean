import Bud.Agent.InvocationSteps
import Bud.PersonalData.AdmissionSteps

/-!
# The deliveries of a run

A run about a location speaks for all the rules whose deliveries it was admitted with or has been
joined by. They are compared at three places, each time with one of them: the one that starts the
run, when siblings are collected, and any of the run's, when a straggler joins. It follows that they
all have the Bud and the conversation of the run and the same data access, so that
`loadAutomationDataCeiling` may read any one of them.
-/

namespace Bud.Admission

open Invocation List Option

def State.Member (revisions : String → ℕ → Option Revision) (s : State) (id : ℕ)
    (automationId : String) (revision : Revision) : Prop :=
  ∃ delivery ∈ s.deliveries, delivery.invocationId = some id ∧
    delivery.automationId = automationId ∧
    revisions delivery.automationId delivery.revision = some revision

/-- The definition has the run's Bud, and its conversation unless it opens one. -/
def Run.Takes (run : Run) (definition : Definition) : Prop :=
  definition.budId = run.budId ∧
    (definition.target = .existingThread run.threadId ∨ definition.target = .newThread)

/-- If one of the members is about a location, all of them are, have the Bud and the conversation of
the run and the same data access; and those that open a conversation are of one rule, the one it was
opened for. -/
def Run.Uniform (run : Run) (Member : String → Revision → Prop) : Prop :=
  ∀ automationId revision, Member automationId revision →
    isLocationTrigger revision.definition = true →
    run.Takes revision.definition ∧
    ∀ automationId' revision', Member automationId' revision' →
      isLocationTrigger revision'.definition = true ∧
      revision'.definition.dataAccess = revision.definition.dataAccess ∧
      (revision.definition.target = .newThread → revision'.definition.target = .newThread →
        automationId' = automationId)

/-- **Uniform authority.** -/
def Uniform (revisions : String → ℕ → Option Revision) (s : State) : Prop :=
  ∀ (id : ℕ) (run : Run), s.runs[id]? = some run → run.Uniform (s.Member revisions id)

variable {revisions : String → ℕ → Option Revision} {owner : String} {s t : State} {env : Env}
  {act : Act}

/-! ### The members that a step adds -/

def Prepared.Is (revisions : String → ℕ → Option Revision) (item : Prepared)
    (automationId : String) (revision : Revision) : Prop :=
  item.delivery.automationId = automationId ∧ item.definition = revision.definition ∧
    revisions automationId item.delivery.revision = some revision

/-- The members of a run after deliveries have been given one: those it had, and those given. -/
theorem member_of_assigned {items : List Prepared} {id : ℕ}
    (h : Assigned (items.map (·.delivery.id)) r s t) (hs : Distinct s)
    (hitems : ∀ item ∈ items, item.delivery ∈ s.deliveries ∧ prepare revisions env s item.delivery =
      .ok item) (hmember : t.Member revisions id automationId revision) :
    s.Member revisions id automationId revision ∨
      id = r ∧ ∃ item ∈ items, item.Is revisions automationId revision := by
  obtain ⟨delivery, hdelivery, hid, rfl, hrevision⟩ := hmember
  obtain ⟨before, hbefore, hkept, hcase⟩ := h.invocationId_cases hdelivery hid
  rw [hkept.automationId, hkept.revision] at hrevision
  rw [hkept.automationId]
  rcases hcase with ⟨hids, rfl⟩ | ⟨_, hhad⟩
  · obtain ⟨item, hitem, heq⟩ := mem_map.mp hids
    obtain ⟨hmem, hprepare⟩ := hitems item hitem
    obtain rfl := hs.eq hmem hbefore heq
    obtain ⟨_, revision', hrevision', hdefinition, _⟩ := prepare_eq_ok hprepare
    obtain rfl : revision' = revision := some.inj (hrevision'.symm.trans hrevision)
    exact .inr ⟨rfl, item, hitem, rfl, hdefinition, hrevision⟩
  · exact .inl ⟨before, hbefore, hhad, rfl, hrevision⟩

theorem member_of_quiet {r id : ℕ} (h : Assigned [] r s t)
    (hmember : t.Member revisions id automationId revision) :
    s.Member revisions id automationId revision := by
  obtain ⟨delivery, hdelivery, hid, rfl, hrevision⟩ := hmember
  obtain ⟨before, hbefore, hkept, ⟨hids, _⟩ | ⟨_, hhad⟩⟩ := h.invocationId_cases hdelivery hid
  · exact absurd hids not_mem_nil
  · rw [hkept.automationId, hkept.revision] at hrevision
    exact ⟨before, hbefore, hhad, hkept.automationId.symm, hrevision⟩

theorem Assigned.member {ids : List ℕ} {id : ℕ} (h : Assigned ids r s t)
    (hids : ∀ delivery ∈ s.deliveries, delivery.id ∈ ids → delivery.invocationId = .none)
    (hmember : s.Member revisions id automationId revision) :
    t.Member revisions id automationId revision := by
  obtain ⟨delivery, hdelivery, hid, rfl, hrevision⟩ := hmember
  obtain ⟨after, hafter, hkept⟩ := h.exists_after hdelivery
  have hnot : delivery.id ∉ ids := fun hin => by
    rw [hids delivery hdelivery hin] at hid
    cases hid
  refine ⟨after, hafter, ?_, hkept.automationId, ?_⟩
  · rw [hkept.invocationId, if_neg hnot, hid]
  · rw [hkept.automationId, hkept.revision, hrevision]

/-! ### Members that are alike -/

section

variable {run run' : Run} {Member Member' : String → Revision → Prop}

variable {definition : Definition}

theorem Run.Takes.congr (h : run.Takes definition) (hthread : run'.threadId = run.threadId)
    (hbud : run'.budId = run.budId) : run'.Takes definition := by
  rw [Run.Takes, hthread, hbud]
  exact h

theorem Run.Uniform.mono (h : run.Uniform Member) (hthread : run'.threadId = run.threadId)
    (hbud : run'.budId = run.budId)
    (hsub : ∀ automationId revision, Member' automationId revision → Member automationId revision) :
    run'.Uniform Member' := by
  intro automationId revision hmember hlocation
  obtain ⟨htakes, halike⟩ := h automationId revision (hsub _ _ hmember) hlocation
  exact ⟨htakes.congr hthread hbud, fun automationId' revision' hmember' =>
    halike automationId' revision' (hsub _ _ hmember')⟩

/-- A delivery that writes to the run's conversation, has its Bud and the data access of one of its
members that is about a location may join. -/
theorem Run.Uniform.join (h : run.Uniform Member) {automationId : String} {revision : Revision}
    (hmember : Member automationId revision)
    (hlocation : isLocationTrigger revision.definition = true) {item : Definition}
    (hitem : isLocationTrigger item = true)
    (htarget : item.target = .existingThread run.threadId)
    (hbud : item.budId = revision.definition.budId)
    (haccess : item.dataAccess = revision.definition.dataAccess)
    (hsub : ∀ automationId revision, Member' automationId revision →
      Member automationId revision ∨ revision.definition = item) : run.Uniform Member' := by
  obtain ⟨htakes, halike⟩ := h automationId revision hmember hlocation
  have hold : ∀ automationId' revision', Member' automationId' revision' →
      run.Takes revision'.definition ∧ isLocationTrigger revision'.definition = true ∧
      revision'.definition.dataAccess = revision.definition.dataAccess ∧
      (revision'.definition.target = .newThread → Member automationId' revision') := by
    intro automationId' revision' hmember'
    rcases hsub _ _ hmember' with hmember' | rfl
    · obtain ⟨hlocation', haccess', _⟩ := halike _ _ hmember'
      exact ⟨(h _ _ hmember' hlocation').1, hlocation', haccess', fun _ => hmember'⟩
    · refine ⟨⟨hbud.trans htakes.1, .inl htarget⟩, hitem, haccess, fun hnew => ?_⟩
      rw [htarget] at hnew
      cases hnew
  intro a r ha hr
  obtain ⟨htakes', _, haccess', hnew'⟩ := hold a r ha
  refine ⟨htakes', fun b q hb => ?_⟩
  obtain ⟨_, hlocation'', haccess'', hnew''⟩ := hold b q hb
  refine ⟨hlocation'', haccess''.trans haccess'.symm, fun hopens hopens' => ?_⟩
  exact ((h a r (hnew' hopens) hr).2 b q (hnew'' hopens')).2.2 hopens hopens'

end

variable {first item : Prepared}

theorem takes_threadOf
    (hkey : groupKey definition automationId = groupKey first.definition
      first.delivery.automationId) (hbud : definition.budId = first.definition.budId) :
    (newRun env first group).Takes definition := by
  refine ⟨hbud, ?_⟩
  unfold groupKey at hkey
  simp only [newRun, threadOf]
  cases htarget : first.definition.target with
  | newThread =>
    right
    cases hdefinition : definition.target with
    | newThread => rfl
    | existingThread threadId => simp [htarget, hdefinition] at hkey
  | existingThread threadId =>
    left
    cases hdefinition : definition.target with
    | newThread => simp [htarget, hdefinition] at hkey
    | existingThread threadId' => simpa [htarget, hdefinition] using hkey

/-- A delivery of the group, as far as its run is concerned. -/
theorem alike_of_mem_group (hlocation : isLocationTrigger first.definition = true)
    (hitem : item ∈ first :: siblings revisions env s first) :
    isLocationTrigger item.definition = true ∧
      groupKey item.definition item.delivery.automationId =
        groupKey first.definition first.delivery.automationId ∧
      item.definition.budId = first.definition.budId ∧
      item.definition.dataAccess = first.definition.dataAccess := by
  rcases mem_cons.mp hitem with rfl | hitem
  · exact ⟨hlocation, rfl, rfl, rfl⟩
  · obtain ⟨_, hshare, _⟩ := mem_siblings hitem
    obtain ⟨_, _, _, hlocation', hkey, hshares⟩ := share_eq_some hshare
    simp only [Prepared.shares, Bool.and_eq_true, decide_eq_true_eq] at hshares
    exact ⟨hlocation', hkey, hshares.1.1, hshares.2⟩

theorem mem_group_of_not_location (hlocation : isLocationTrigger first.definition = false)
    (hitem : item ∈ first :: siblings revisions env s first) : item = first := by
  rcases mem_cons.mp hitem with rfl | hitem
  · rfl
  · rw [(mem_siblings hitem).1] at hlocation
    cases hlocation

theorem uniform_newRun {Member : String → Revision → Prop}
    (hsub : ∀ automationId revision, Member automationId revision → ∃ item ∈ first :: siblings
      revisions env s first, item.Is revisions automationId revision) :
    (newRun env first (first :: siblings revisions env s first)).Uniform Member := by
  intro automationId revision hmember hlocation
  obtain ⟨item, hitem, rfl, hdefinition, _⟩ := hsub _ _ hmember
  rw [← hdefinition] at hlocation ⊢
  have hfirst : isLocationTrigger first.definition = true := by
    by_contra hnot
    rw [mem_group_of_not_location (Bool.not_eq_true _ ▸ hnot) hitem] at hlocation
    exact hnot hlocation
  obtain ⟨_, hkey, hbud, haccess⟩ := alike_of_mem_group hfirst hitem
  refine ⟨takes_threadOf hkey hbud, ?_⟩
  intro automationId' revision' hmember'
  obtain ⟨item', hitem', rfl, hdefinition', _⟩ := hsub _ _ hmember'
  rw [← hdefinition']
  obtain ⟨hlocation', hkey', _, haccess'⟩ := alike_of_mem_group hfirst hitem'
  refine ⟨hlocation', haccess'.trans haccess.symm, fun hnew hnew' => ?_⟩
  have hrules := hkey'.trans hkey.symm
  simp only [groupKey, hnew, hnew', GroupKey.rule.injEq] at hrules
  exact hrules

/-! ### Steps -/

/-- The columns of a run that a step keeps, and that a run that is over stays over. -/
structure Run.Kept (run run' : Run) : Prop where
  threadId : run'.threadId = run.threadId
  budId : run'.budId = run.budId
  started : run.started = true → run'.started = true
  active : run'.row.status ∈ active → run.row.status ∈ Admission.active

theorem Run.Kept.refl (run : Run) : run.Kept run := ⟨rfl, rfl, id, id⟩

theorem active_of_update {method : Method} {choice : Choice}
    (hnext : method.next identity row choice = .write)
    (h : (method.update row row choice).status ∈ active) : row.status ∈ active := by
  have hlocked : ∀ {lease statuses allow next},
      lockedLease lease identity row choice.now statuses allow next = .write →
      (∀ status ∈ statuses, status ∈ active) → row.status ∈ active :=
    fun hwrite hall => hall _ (lockedLease_eq_write hwrite).1
  cases method with
  | heartbeat lease | start lease | defer lease status delaySeconds | recordAction lease
  | finish lease status outcomeCode | parkBrowserHandoff lease | parkQuestion lease =>
    exact hlocked hnext (by decide)
  | requestCancel owner =>
    simp only [Method.update] at h
    split at h
    · exact h
    · simp [active] at h
  | abandonReviewed owner expectedUpdatedAt | expireQueued | recoverEnded =>
    simp [Method.update, active] at h
  | recoverExpired =>
    have hswept := Bool.and_eq_true_iff.mp (swept_eq_write hnext)
    have hstatus : row.status = .leased ∨ row.status = .running := by simpa using hswept.1
    rcases hstatus with hstatus | hstatus <;> simp [hstatus, active]

theorem kept_of_progress {run run' : Run} {progress : Progress}
    (h : run.progress owner progress = some run') : run.Kept run' := by
  unfold Run.progress at h
  split at h <;> obtain ⟨hallowed, hrun⟩ := ite_none_right_eq_some.mp h <;>
    obtain rfl := some.inj hrun
  · exact ⟨rfl, rfl, fun hstarted => by simp [hstarted], active_of_update hallowed⟩
  · refine ⟨rfl, rfl, id, fun _ => ?_⟩
    have hall : ∀ status ∈ queued ++ [.waitingForUser], status ∈ active := by decide
    exact hall _ hallowed.1
  · exact ⟨rfl, rfl, id, fun hactive => by simp [Row.startElapsed, active] at hactive⟩

def Starts (revisions : String → ℕ → Option Revision) (s : State) (act : Act) (first : Prepared)
    (run : Run) : Prop :=
  ∃ env, act = .admitNext env ∧ s.plan revisions env = .start first ∧
    run = newRun env first (first :: siblings revisions env s first)

theorem run_of_stepped (h : Stepped revisions owner s act t) {id : ℕ} {run' : Run}
    (hrun : t.runs[id]? = some run') :
    (∃ run, s.runs[id]? = some run ∧ run.Kept run') ∨
      id = s.runs.length ∧ ∃ first, Starts revisions s act first run' := by
  cases h with
  | deliver => exact .inl ⟨run', hrun, .refl run'⟩
  | quiet _ hruns => exact .inl ⟨run', hruns ▸ hrun, .refl run'⟩
  | join _ _ hruns =>
    obtain ⟨update, hruns, hupdate⟩ := hruns
    rw [hruns, getElem?_modify] at hrun
    obtain ⟨run, hold, rfl⟩ := map_eq_some_iff.mp hrun
    refine .inl ⟨run, hold, ?_⟩
    split
    · obtain ⟨hthread, hbud, hstarted, hstatus⟩ := hupdate run
      exact ⟨hthread, hbud, fun h => hstarted.trans h, fun h => hstatus ▸ h⟩
    · exact .refl run
  | @start env first t hplan _ _ hruns =>
    rw [hruns, getElem?_append] at hrun
    split at hrun
    · exact .inl ⟨run', hrun, .refl run'⟩
    · next hge =>
      obtain ⟨hlt, hget⟩ := List.getElem?_eq_some_iff.mp hrun
      have hid : id - s.runs.length = 0 := by simpa using hlt
      refine .inr ⟨by omega, first, env, rfl, hplan, ?_⟩
      simpa [hid] using hget.symm
  | @progress r _ old new hold hprogress =>
    rw [getElem?_set] at hrun
    split at hrun
    · next heq =>
      subst heq
      split at hrun
      · obtain rfl := some.inj hrun
        exact .inl ⟨old, hold, kept_of_progress hprogress⟩
      · cases hrun
    · exact .inl ⟨run', hrun, .refl run'⟩

theorem exists_run_of_stepped (h : Stepped revisions owner s act t) {id : ℕ} {run : Run}
    (hrun : s.runs[id]? = some run) : ∃ run', t.runs[id]? = some run' ∧ run.Kept run' := by
  have hlt : id < s.runs.length := (List.getElem?_eq_some_iff.mp hrun).1
  have hlength : s.runs.length ≤ t.runs.length := by
    cases h with
    | deliver => exact Nat.le_refl _
    | quiet _ hruns => exact Nat.le_of_eq (congrArg _ hruns.symm)
    | join _ _ hruns =>
      obtain ⟨update, hruns, _⟩ := hruns
      rw [hruns, length_modify]
    | start _ _ _ hruns => simp [hruns]
    | progress => simp
  have hsome := getElem?_eq_getElem (Nat.lt_of_lt_of_le hlt hlength)
  rcases run_of_stepped h hsome with ⟨old, hold, hkept⟩ | ⟨heq, _⟩
  · obtain rfl := some.inj (hrun.symm.trans hold)
    exact ⟨_, hsome, hkept⟩
  · exact absurd heq (Nat.ne_of_lt hlt)

def Joins (revisions : String → ℕ → Option Revision) (s : State) (act : Act) (item : Prepared)
    (id : ℕ) : Prop :=
  ∃ env, act = .admitNext env ∧ s.plan revisions env = .join item id

theorem prepare_of_mem_group (hprepare : prepare revisions env s first.delivery = .ok first)
    (hmem : first.delivery ∈ s.deliveries)
    (hitem : item ∈ first :: siblings revisions env s first) :
    item.delivery ∈ s.deliveries ∧ prepare revisions env s item.delivery = .ok item := by
  rcases mem_cons.mp hitem with rfl | hitem
  · exact ⟨hmem, hprepare⟩
  · obtain ⟨_, hshare, hmem, _⟩ := mem_siblings hitem
    exact ⟨hmem, (share_eq_some hshare).2.2.1⟩

/-- **A member was one before the step, joins its run in it, or is of the group that starts it.** -/
theorem member_of_stepped (hs : Distinct s) (h : Stepped revisions owner s act t) {id : ℕ}
    {automationId : String} {revision : Revision}
    (hmember : t.Member revisions id automationId revision) :
    s.Member revisions id automationId revision ∨
      (∃ item, Joins revisions s act item id ∧ item.Is revisions automationId revision) ∨
      id = s.runs.length ∧ ∃ env first, act = .admitNext env ∧
        s.plan revisions env = .start first ∧
        ∃ item ∈ first :: siblings revisions env s first,
          item.Is revisions automationId revision := by
  cases h with
  | deliver hnone =>
    obtain ⟨other, hother, hid, hrule, hrevision⟩ := hmember
    rcases mem_append.mp hother with hother | hother
    · exact .inl ⟨other, hother, hid, hrule, hrevision⟩
    · obtain rfl := mem_singleton.mp hother
      rw [hnone] at hid
      cases hid
  | quiet hassigned => exact .inl (member_of_quiet (hassigned 0) hmember)
  | @join env item r t hplan hassigned =>
    cases planned_of_plan hplan with
    | join hprepare hmem =>
      have hitems : ∀ i ∈ [item], i.delivery ∈ s.deliveries ∧
          prepare revisions env s i.delivery = .ok i := by
        simpa using ⟨hmem, hprepare⟩
      have hone : Assigned ([item].map (·.delivery.id)) r s t := hassigned
      rcases member_of_assigned hone hs hitems hmember with hhad | ⟨rfl, i, hi, his⟩
      · exact .inl hhad
      · obtain rfl := mem_singleton.mp hi
        exact .inr (.inl ⟨i, ⟨env, rfl, hplan⟩, his⟩)
  | @start env first t hplan _ hassigned =>
    cases planned_of_plan hplan with
    | start hprepare hmem =>
      rcases member_of_assigned hassigned hs (fun _ => prepare_of_mem_group hprepare hmem) hmember
        with hhad | ⟨rfl, hgroup⟩
      · exact .inl hhad
      · exact .inr (.inr ⟨rfl, env, first, rfl, hplan, hgroup⟩)
  | progress => exact .inl hmember

/-- A run that a delivery joins, and the member that it has been compared with. -/
theorem exists_of_joins {id : ℕ} (h : Joins revisions s act item id) :
    ∃ run automationId revision, s.runs[id]? = some run ∧ run.started = false ∧
      s.Member revisions id automationId revision ∧
      isLocationTrigger revision.definition = true ∧
      isLocationTrigger item.definition = true ∧
      item.definition.target = .existingThread run.threadId ∧
      item.definition.budId = revision.definition.budId ∧
      item.definition.dataAccess = revision.definition.dataAccess := by
  obtain ⟨env, _, hplan⟩ := h
  cases planned_of_plan hplan with
  | @join _ _ threadId member hprepare hmem _ htarget hlocation hmember hid hcan =>
    simp only [State.canJoin, State.runOf, hid, bind_some, Option.any_eq_true, definitionOf,
      map_eq_some_iff, Bool.and_eq_true, decide_eq_true_eq, Bool.not_eq_true'] at hcan
    obtain ⟨run, hrun, ⟨⟨rfl, _⟩, hstarted⟩, _, ⟨revision, hrevision, rfl⟩,
      ⟨⟨⟨hlocation', hbud⟩, _⟩, _⟩, haccess⟩ := hcan
    exact ⟨run, member.automationId, revision, hrun, hstarted,
      ⟨member, hmember, hid, rfl, hrevision⟩, hlocation', hlocation, htarget, hbud.symm,
      haccess.symm⟩

theorem Sound.not_member (hs : Sound s) :
    ¬ s.Member revisions s.runs.length automationId revision := by
  rintro ⟨delivery, hdelivery, hid, _⟩
  exact absurd (hs.lt_length delivery hdelivery _ hid) (Nat.lt_irrefl _)

theorem Uniform.step (hu : Uniform revisions s) (hs : Sound s)
    (h : Stepped revisions owner s act t) : Uniform revisions t := by
  intro id run' hrun'
  have hmembers := fun automationId revision =>
    @member_of_stepped revisions owner s t act hs.distinct h id automationId revision
  rcases run_of_stepped h hrun' with ⟨run, hrun, hkept⟩ | ⟨rfl, first, env, hact, hplan, rfl⟩
  · have hlt : id ≠ s.runs.length := Nat.ne_of_lt (List.getElem?_eq_some_iff.mp hrun).1
    refine Run.Uniform.mono ?_ hkept.threadId hkept.budId fun _ _ hmember => hmember
    by_cases hjoins : ∃ item, Joins revisions s act item id
    · obtain ⟨item, hjoins⟩ := hjoins
      obtain ⟨_, automationId, revision, hsame, _, hmember, hlocation, hitem, htarget, hbud,
        haccess⟩ := exists_of_joins hjoins
      obtain rfl := some.inj (hrun.symm.trans hsame)
      refine (hu id run hrun).join hmember hlocation hitem htarget hbud haccess ?_
      intro automationId' revision' hnew
      rcases hmembers _ _ hnew with hhad | ⟨item', hjoins', his⟩ | ⟨heq, _⟩
      · exact .inl hhad
      · right
        obtain ⟨env, rfl, hplan⟩ := hjoins
        obtain ⟨env', hact, hplan'⟩ := hjoins'
        cases hact
        rw [hplan] at hplan'
        cases hplan'
        exact his.2.1.symm
      · exact absurd heq hlt
    · refine (hu id run hrun).mono rfl rfl fun automationId revision hnew => ?_
      rcases hmembers _ _ hnew with hhad | ⟨item, hjoins', _⟩ | ⟨heq, _⟩
      · exact hhad
      · exact absurd ⟨item, hjoins'⟩ hjoins
      · exact absurd heq hlt
  · refine uniform_newRun fun automationId revision hnew => ?_
    rcases hmembers _ _ hnew with hhad | ⟨item, hjoins, _⟩ |
      ⟨_, env', first', hact', hplan', hgroup⟩
    · exact absurd hhad hs.not_member
    · obtain ⟨env', hact', hplan'⟩ := hjoins
      cases hact.symm.trans hact'
      rw [hplan] at hplan'
      cases hplan'
    · cases hact.symm.trans hact'
      rw [hplan] at hplan'
      cases hplan'
      exact hgroup

/-! ### The data ceiling -/

/-- What a run may read. -/
structure Ceiling where
  scopes : List String
  historyDays : ℕ
  grantVersion : ℕ

/-- `checkAutomationPolicy`, less what it asks of the evidence: every delivery must still be
authorized. -/
def State.checkAutomationPolicy (revisions : String → ℕ → Option Revision) (s : State) (env : Env)
    (id : ℕ) (run : Run) : Bool :=
  s.deliveries.all fun delivery => delivery.invocationId ≠ some id ||
    (revisions delivery.automationId delivery.revision).all fun revision =>
      (env.rule delivery.automationId).all (· ≠ .deleted) &&
        revision.definition.budId = run.budId &&
        (revision.definition.target = .existingThread run.threadId ||
          revision.definition.target = .newThread) &&
        grantCoversDefinition env.grant revision.definition revision.grantVersion

/-- `loadAutomationDataCeiling`, of the run of a turn; it reads any one of the deliveries. -/
def State.loadAutomationDataCeiling (revisions : String → ℕ → Option Revision) (s : State)
    (env : Env) (id : ℕ) : Except String (Option Ceiling) := do
  let some run := s.runs[id]? | return none
  if run.row.status ≠ .running ∨ !run.row.leaseExpiresAt.any (env.now < ·) ∨
      run.row.cancelRequestedAt.isSome then
    throw "automation_not_running"
  if !s.checkAutomationPolicy revisions env id run then throw "automation_authority_lost"
  let members := s.deliveries.filter (·.invocationId = some id)
  let some revision := members[env.pick % members.length]?.bind fun delivery =>
      revisions delivery.automationId delivery.revision
    | throw "automation_authority_lost"
  return some
    { scopes := revision.definition.dataAccess.scopes
      historyDays := revision.definition.dataAccess.historyDays
      grantVersion := revision.grantVersion }

theorem loadAutomationDataCeiling_eq {id : ℕ}
    (h : s.loadAutomationDataCeiling revisions env id = .ok (some ceiling)) :
    ∃ run automationId revision, s.runs[id]? = some run ∧
      s.Member revisions id automationId revision ∧
      grantCoversDefinition env.grant revision.definition revision.grantVersion = true ∧
      ceiling = { scopes := revision.definition.dataAccess.scopes
                  historyDays := revision.definition.dataAccess.historyDays
                  grantVersion := revision.grantVersion } := by
  unfold State.loadAutomationDataCeiling at h
  cases hrun : s.runs[id]? with
  | none => simp [hrun, pure, Except.pure] at h
  | some run =>
    simp only [hrun, bind, Except.bind, pure, Except.pure, throw, throwThe, MonadExceptOf.throw,
      Throws.ite_throw_eq_ok] at h
    obtain ⟨_, hpolicy, h⟩ := h
    split at h
    · next revision hrevision =>
      obtain ⟨delivery, hdelivery, hrevision⟩ := bind_eq_some_iff.mp hrevision
      obtain ⟨hmem, hid⟩ := mem_filter.mp (mem_of_getElem? hdelivery)
      have hid : delivery.invocationId = some id := by simpa using hid
      have hcheck := List.all_eq_true.mp (by simpa using hpolicy :
        s.checkAutomationPolicy revisions env id run = true) delivery hmem
      simp only [hid, hrevision, ne_eq, not_true_eq_false, decide_false, Bool.false_or,
        all_some, Bool.and_eq_true] at hcheck
      refine ⟨run, delivery.automationId, revision, rfl, ⟨delivery, hmem, hid, rfl, hrevision⟩,
        hcheck.2, ?_⟩
      exact (some.inj (Except.ok.inj h)).symm
    · cases h

/-- **Whichever delivery is read, the ceiling is the same.** Without scopes nothing may be read, so
then the version does not matter. -/
theorem Uniform.ceiling (hu : Uniform revisions s) {id : ℕ}
    (hmember : s.Member revisions id automationId revision)
    (hlocation : isLocationTrigger revision.definition = true) {ceiling : Ceiling}
    (h : s.loadAutomationDataCeiling revisions { env with pick := pick } id = .ok (some ceiling))
    (h' : s.loadAutomationDataCeiling revisions { env with pick := pick' } id =
      .ok (some ceiling')) :
    ceiling.scopes = ceiling'.scopes ∧ ceiling.historyDays = ceiling'.historyDays ∧
      (ceiling.scopes ≠ [] → ceiling.grantVersion = ceiling'.grantVersion) := by
  obtain ⟨run, a, r, hrun, ha, hgrant, rfl⟩ := loadAutomationDataCeiling_eq h
  obtain ⟨_, b, q, _, hb, hgrant', rfl⟩ := loadAutomationDataCeiling_eq h'
  obtain ⟨_, halike⟩ := hu id run hrun automationId revision hmember hlocation
  have haccess : r.definition.dataAccess = q.definition.dataAccess :=
    (halike a r ha).2.1.trans (halike b q hb).2.1.symm
  refine ⟨congrArg DataAccess.scopes haccess, congrArg DataAccess.historyDays haccess,
    fun hscopes => ?_⟩
  have hpinned : ∀ {x : Revision}, x.definition.dataAccess.scopes ≠ [] →
      grantCoversDefinition env.grant x.definition x.grantVersion = true →
      ∃ grant, env.grant = some grant ∧ grant.version = x.grantVersion := by
    intro x hx hcovers
    simp only [grantCoversDefinition, Bool.or_eq_true, List.isEmpty_iff, hx, false_or,
      Option.any_eq_true, Bool.and_eq_true, decide_eq_true_eq] at hcovers
    obtain ⟨grant, hgrant, ⟨hversion, _⟩, _⟩ := hcovers
    exact ⟨grant, hgrant, hversion⟩
  obtain ⟨grant, hsome, hversion⟩ := hpinned hscopes hgrant
  obtain ⟨grant', hsome', hversion'⟩ := hpinned (haccess ▸ hscopes) hgrant'
  obtain rfl := some.inj (hsome.symm.trans hsome')
  exact hversion.symm.trans hversion'

/-! ### Runs that have been started -/

def Started (s : State) (id : ℕ) : Prop := ∃ run, s.runs[id]? = some run ∧ run.started = true

/-- **A run that has been started has all its members.** -/
theorem Started.step {id : ℕ} (hstarted : Started s id) (h : Stepped revisions owner s act t) :
    Started t id ∧ ∀ delivery ∈ t.deliveries, delivery.invocationId = some id →
      ∃ before ∈ s.deliveries, before.id = delivery.id ∧ before.invocationId = some id := by
  obtain ⟨run, hrun, hstarted⟩ := hstarted
  have hlt : id < s.runs.length := (List.getElem?_eq_some_iff.mp hrun).1
  constructor
  · obtain ⟨run', hrun', hkept⟩ := exists_run_of_stepped h hrun
    exact ⟨run', hrun', hkept.started hstarted⟩
  · intro delivery hdelivery hid
    cases h with
    | deliver hnone =>
      rcases mem_append.mp hdelivery with hdelivery | hnew
      · exact ⟨delivery, hdelivery, rfl, hid⟩
      · obtain rfl := mem_singleton.mp hnew
        rw [hnone] at hid
        cases hid
    | quiet hassigned =>
      obtain ⟨before, hbefore, hkept, ⟨hids, _⟩ | ⟨_, hhad⟩⟩ :=
        (hassigned 0).invocationId_cases hdelivery hid
      · exact absurd hids not_mem_nil
      · exact ⟨before, hbefore, hkept.id.symm, hhad⟩
    | @join env item r t hplan hassigned =>
      obtain ⟨before, hbefore, hkept, ⟨_, rfl⟩ | ⟨_, hhad⟩⟩ :=
        hassigned.invocationId_cases hdelivery hid
      · obtain ⟨old, _, _, hold, hnot, _⟩ := exists_of_joins ⟨env, rfl, hplan⟩
        obtain rfl := some.inj (hrun.symm.trans hold)
        rw [hstarted] at hnot
        cases hnot
      · exact ⟨before, hbefore, hkept.id.symm, hhad⟩
    | start _ _ hassigned =>
      obtain ⟨before, hbefore, hkept, ⟨_, rfl⟩ | ⟨_, hhad⟩⟩ :=
        hassigned.invocationId_cases hdelivery hid
      · exact absurd hlt (Nat.lt_irrefl _)
      · exact ⟨before, hbefore, hkept.id.symm, hhad⟩
    | progress => exact ⟨delivery, hdelivery, rfl, hid⟩

end Bud.Admission
