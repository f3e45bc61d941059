import Bud.Lib.Throws
import Bud.PersonalData.Admission

/-!
# What a step of admission does

Whatever a step writes to the deliveries, it only ever gives some of those that were pending a run:
all of them the same one (`Assigned`). A step either gives nothing a run, or lets one delivery join
a run, or starts a run with a group.
-/

namespace Bud.Admission

open Invocation List Option
open Throws (ite_throw_eq_ok)

variable {revisions : String → ℕ → Option Revision} {owner : String} {s t u : State} {env : Env}
  {act : Act}

/-! ### Checks -/

variable {delivery : Delivery} {item first : Prepared} {ids : List ℕ} {r : ℕ}

/-- A delivery that passes its checks has a revision, whose permission is still good and whose
thread is there. -/
theorem prepare_eq_ok (h : prepare revisions env s delivery = .ok item) :
    item.delivery = delivery ∧ ∃ revision,
      revisions delivery.automationId delivery.revision = some revision ∧
      item.definition = revision.definition ∧
      grantCoversDefinition env.grant revision.definition revision.grantVersion = true ∧
      env.reaches revision.definition = true := by
  simp only [prepare, bind, Except.bind, pure, Except.pure, throw, throwThe,
    MonadExceptOf.throw, ite_throw_eq_ok] at h
  obtain ⟨_, h⟩ := h
  cases hrule : env.rule delivery.automationId with
  | none => simp [hrule] at h
  | some state =>
    cases hrevision : revisions delivery.automationId delivery.revision with
    | none => simp [hrule, hrevision] at h
    | some revision =>
      simp only [hrule, hrevision, ite_throw_eq_ok] at h
      obtain ⟨_, hgrant, _, hreaches, _, h⟩ := h
      cases htrigger : env.trigger delivery.id with
      | error code => simp [htrigger, Except.mapError] at h
      | ok happenedAt =>
        simp only [htrigger, Except.mapError, ite_throw_eq_ok] at h
        obtain ⟨_, _, h⟩ := h
        cases hresolve : env.resolve revision.definition with
        | error code => simp [hresolve] at h
        | ok modelResolution =>
          simp only [hresolve, Except.ok.injEq] at h
          subst h
          exact ⟨rfl, revision, rfl, rfl, by simpa using hgrant, by simpa using hreaches⟩

/-- The checks read the other deliveries only to count today's work. -/
theorem prepare_congr (h : t.usage env delivery.automationId = s.usage env delivery.automationId) :
    prepare revisions env t delivery = prepare revisions env s delivery := by
  unfold prepare
  rw [h]

/-! ### Giving deliveries a run -/

/-- The delivery is the same one, and has been given the run `r` if it is one of `ids`. -/
structure Kept (ids : List ℕ) (r : ℕ) (delivery delivery' : Delivery) : Prop where
  id : delivery'.id = delivery.id
  automationId : delivery'.automationId = delivery.automationId
  revision : delivery'.revision = delivery.revision
  invocationId :
    delivery'.invocationId = if delivery.id ∈ ids then some r else delivery.invocationId

/-- The deliveries are the same ones, and `ids` have been given the run `r`. -/
def Assigned (ids : List ℕ) (r : ℕ) (s t : State) : Prop :=
  ∃ g, t.deliveries = s.deliveries.map g ∧
    ∀ delivery ∈ s.deliveries, Kept ids r delivery (g delivery)

theorem Kept.none (r : ℕ) (delivery : Delivery) : Kept [] r delivery delivery :=
  ⟨rfl, rfl, rfl, by simp⟩

theorem Assigned.none (r : ℕ) (s : State) : Assigned [] r s s :=
  ⟨id, by simp, fun delivery _ => .none r delivery⟩

theorem Kept.trans (h : Kept ids r a b) (h' : Kept ids' r b c) : Kept (ids ++ ids') r a c := by
  constructor
  · exact h'.id.trans h.id
  · exact h'.automationId.trans h.automationId
  · exact h'.revision.trans h.revision
  · rw [h'.invocationId, h.id, h.invocationId]
    by_cases hids' : a.id ∈ ids'
    all_goals simp [hids']

theorem Assigned.trans (h : Assigned ids r s t) (h' : Assigned ids' r t u) :
    Assigned (ids ++ ids') r s u := by
  obtain ⟨g, hg, hkept⟩ := h
  obtain ⟨g', hg', hkept'⟩ := h'
  refine ⟨g' ∘ g, by rw [hg', hg, List.map_map], fun delivery hmem => ?_⟩
  exact (hkept delivery hmem).trans (hkept' _ (hg ▸ mem_map_of_mem hmem))

theorem Assigned.exists_before (h : Assigned ids r s t) (hmem : delivery' ∈ t.deliveries) :
    ∃ delivery ∈ s.deliveries, Kept ids r delivery delivery' := by
  obtain ⟨g, hg, hkept⟩ := h
  rw [hg] at hmem
  obtain ⟨delivery, hdelivery, rfl⟩ := mem_map.mp hmem
  exact ⟨delivery, hdelivery, hkept delivery hdelivery⟩

theorem Assigned.exists_after (h : Assigned ids r s t) (hmem : delivery ∈ s.deliveries) :
    ∃ delivery' ∈ t.deliveries, Kept ids r delivery delivery' := by
  obtain ⟨g, hg, hkept⟩ := h
  exact ⟨g delivery, hg ▸ mem_map_of_mem hmem, hkept delivery hmem⟩

theorem Assigned.map_id (h : Assigned ids r s t) :
    t.deliveries.map (·.id) = s.deliveries.map (·.id) := by
  obtain ⟨g, hg, hkept⟩ := h
  rw [hg, List.map_map]
  exact map_congr_left fun delivery hmem => (hkept delivery hmem).id

def Distinct (s : State) : Prop := (s.deliveries.map (·.id)).Nodup

theorem Distinct.eq (h : Distinct s) (ha : a ∈ s.deliveries) (hb : b ∈ s.deliveries)
    (heq : a.id = b.id) : a = b :=
  inj_on_of_nodup_map h ha hb heq

theorem assigned_setDelivery (hdistinct : Distinct s) (hmem : delivery ∈ s.deliveries)
    (hkept : Kept ids r delivery (update delivery)) (hids : ∀ id ∈ ids, id = delivery.id) :
    Assigned ids r s (s.setDelivery delivery.id update) := by
  refine ⟨fun other => if other.id = delivery.id then update other else other, rfl, ?_⟩
  intro other hother
  by_cases heq : other.id = delivery.id
  · obtain rfl := hdistinct.eq hother hmem heq
    simpa using hkept
  · have hnot : other.id ∉ ids := fun hid => heq (hids _ hid)
    simp only [heq, if_false]
    exact ⟨rfl, rfl, rfl, by simp [hnot]⟩

theorem mem_due (h : delivery ∈ s.due now) :
    delivery ∈ s.deliveries ∧ delivery.status = .pending := by
  have hmem := mem_filter.mp ((perm_insertionSort _ _).mem_iff.mp h)
  exact ⟨hmem.1, by simpa using (Bool.and_eq_true_iff.mp hmem.2).1⟩

theorem invocationId_of_pending (h : delivery.status = .pending) :
    delivery.invocationId = none := by
  simp [Delivery.invocationId, h]

/-- What a failed check writes gives nothing a run. -/
theorem assigned_settle (hdistinct : Distinct s) (hmem : delivery ∈ s.deliveries)
    (hpending : delivery.status = .pending) (r : ℕ) :
    Assigned [] r s (s.settle env delivery outcome) := by
  have hnone := invocationId_of_pending hpending
  cases outcome with
  | finish status outcomeCode =>
    refine assigned_setDelivery hdistinct hmem ⟨rfl, rfl, rfl, ?_⟩ (by simp)
    cases status <;> simp [Delivery.invocationId, Finished.status, hpending]
  | wait outcomeCode seconds =>
    exact assigned_setDelivery hdistinct hmem ⟨rfl, rfl, rfl, by simp [Delivery.invocationId]⟩
      (by simp)

theorem Assigned.distinct (h : Assigned ids r s t) (hs : Distinct s) : Distinct t := by
  rw [Distinct, h.map_id]
  exact hs

theorem runs_settle : (s.settle env delivery outcome).runs = s.runs := by
  cases outcome <;> rfl

/-! ### Siblings -/

/-- What the delivery has to offer for the run that `first` starts. -/
def share (revisions : String → ℕ → Option Revision) (env : Env) (s : State) (first : Prepared)
    (delivery : Delivery) : Option Prepared :=
  match definitionOf revisions delivery with
  | none => none
  | some definition =>
    if !isLocationTrigger definition || groupKey definition delivery.automationId ≠
        groupKey first.definition first.delivery.automationId then none
    else
      match prepare revisions env s delivery with
      | .error _ => none
      | .ok item => if first.shares item then some item else none

theorem usage_eq (h : Assigned [] r s t) (hruns : t.runs = s.runs) (automationId : String) :
    t.usage env automationId = s.usage env automationId := by
  obtain ⟨g, hg, hkept⟩ := h
  have hinvocation : ∀ delivery ∈ s.deliveries,
      (g delivery).invocationId = delivery.invocationId := fun delivery hmem => by
    simpa using (hkept delivery hmem).invocationId
  have hcounts : ∀ delivery ∈ s.deliveries,
      t.counts env (g delivery) = s.counts env delivery := fun delivery hmem => by
    simp only [State.counts, State.runOf, hinvocation delivery hmem, hruns]
  have hrule : s.deliveries.countP ((fun delivery =>
        delivery.automationId = automationId && t.counts env delivery) ∘ g) =
      s.deliveries.countP fun delivery =>
        delivery.automationId = automationId && s.counts env delivery :=
    countP_congr fun delivery hmem => by
      simp only [Function.comp_apply, (hkept delivery hmem).automationId, hcounts delivery hmem]
  have hall : s.deliveries.countP (t.counts env ∘ g) = s.deliveries.countP (s.counts env) :=
    countP_congr fun delivery hmem => by simp only [Function.comp_apply, hcounts delivery hmem]
  simp only [State.usage, hg, countP_map, hrule, hall]

variable (revisions env) in
/-- A round of `locationSiblings` gives nothing a run, and adds what the delivery has to offer. -/
theorem collect_spec (first : Prepared) (siblings : List Prepared) (hdistinct : Distinct s)
    (hassigned : Assigned [] r s t) (hruns : t.runs = s.runs)
    (hpending : delivery.status = .pending) (hstill : delivery ∈ t.deliveries) :
    Assigned [] r s (collect revisions env first (t, siblings) delivery).1 ∧
      (collect revisions env first (t, siblings) delivery).1.runs = s.runs ∧
      (collect revisions env first (t, siblings) delivery).2 =
        siblings ++ (share revisions env s first delivery).toList ∧
      ∀ other ∈ t.deliveries, other.id ≠ delivery.id →
        other ∈ (collect revisions env first (t, siblings) delivery).1.deliveries := by
  unfold collect share
  rw [prepare_congr (usage_eq hassigned hruns delivery.automationId)]
  cases definitionOf revisions delivery with
  | none => exact ⟨hassigned, hruns, by simp, fun other hother _ => hother⟩
  | some definition =>
    dsimp only
    split
    · exact ⟨hassigned, hruns, by simp, fun other hother _ => hother⟩
    · cases prepare revisions env s delivery with
      | error outcome =>
        refine ⟨?_, ?_, by simp, ?_⟩
        · exact hassigned.trans (assigned_settle (hassigned.distinct hdistinct) hstill hpending r)
        · rw [runs_settle, hruns]
        · intro other hother hne
          cases outcome <;> exact mem_map.mpr ⟨other, hother, by simp [hne]⟩
      | ok item =>
        dsimp only
        split
        all_goals exact ⟨hassigned, hruns, by simp, fun other hother _ => hother⟩

theorem foldl_collect {deliveries : List Delivery} (hdistinct : Distinct s)
    (hassigned : Assigned [] r s t) (hruns : t.runs = s.runs)
    (hnodup : (deliveries.map (·.id)).Nodup)
    (hdeliveries : ∀ delivery ∈ deliveries, delivery.status = .pending ∧ delivery ∈ t.deliveries) :
    Assigned [] r s (deliveries.foldl (collect revisions env first) (t, siblings)).1 ∧
      (deliveries.foldl (collect revisions env first) (t, siblings)).1.runs = s.runs ∧
      (deliveries.foldl (collect revisions env first) (t, siblings)).2 =
        siblings ++ deliveries.filterMap (share revisions env s first) := by
  induction deliveries generalizing t siblings with
  | nil => exact ⟨hassigned, hruns, by simp⟩
  | cons delivery deliveries ih =>
    obtain ⟨hpending, hstill⟩ := hdeliveries delivery mem_cons_self
    obtain ⟨hid, hnodup⟩ := nodup_cons.mp hnodup
    obtain ⟨hassigned', hruns', hsiblings, hothers⟩ :=
      collect_spec revisions env first siblings hdistinct hassigned hruns hpending hstill
    rw [foldl_cons]
    generalize collect revisions env first (t, siblings) delivery = acc at *
    obtain ⟨t', siblings'⟩ := acc
    obtain rfl : siblings' = siblings ++ (share revisions env s first delivery).toList := hsiblings
    have hleft : ∀ other ∈ deliveries, other.status = .pending ∧ other ∈ t'.deliveries := by
      intro other hother
      have hbefore := hdeliveries other (mem_cons_of_mem _ hother)
      refine ⟨hbefore.1, hothers other hbefore.2 fun heq => hid ?_⟩
      exact mem_map.mpr ⟨other, hother, heq⟩
    refine ⟨(ih hassigned' hruns' hnodup hleft).1, (ih hassigned' hruns' hnodup hleft).2.1,
      (ih hassigned' hruns' hnodup hleft).2.2.trans ?_⟩
    cases hshare : share revisions env s first delivery with
    | none | some item => simp [hshare]

theorem nodup_others (hdistinct : Distinct s) : (s.others env first).map (·.id) |>.Nodup := by
  have hdue : ((s.due env.now).map (·.id)).Nodup := by
    refine ((perm_insertionSort _ _).map _).nodup_iff.mpr ?_
    exact hdistinct.sublist (filter_sublist.map _)
  exact hdue.sublist (((take_sublist _ _).trans filter_sublist).map _)

theorem mem_others (h : delivery ∈ s.others env first) :
    delivery ∈ s.deliveries ∧ delivery.status = .pending ∧ delivery.id ≠ first.delivery.id := by
  obtain ⟨hdue, hne⟩ := mem_filter.mp (mem_of_mem_take h)
  exact ⟨(mem_due hdue).1, (mem_due hdue).2, by simpa using hne⟩

variable (revisions env) in
/-- **The siblings are those of the others that can share the run**, whatever becomes of the ones
before them. -/
theorem locationSiblings_eq (first : Prepared) (hdistinct : Distinct s) (r : ℕ) :
    Assigned [] r s (locationSiblings revisions env s first).1 ∧
      (locationSiblings revisions env s first).1.runs = s.runs ∧
      (locationSiblings revisions env s first).2 =
        (s.others env first).filterMap (share revisions env s first) := by
  refine foldl_collect hdistinct (.none r s) rfl (nodup_others hdistinct) fun delivery hmem => ?_
  exact ⟨(mem_others hmem).2.1, (mem_others hmem).1⟩

theorem share_eq_some (h : share revisions env s first delivery = some item) :
    item.delivery = delivery ∧ definitionOf revisions delivery = some item.definition ∧
      prepare revisions env s delivery = .ok item ∧ isLocationTrigger item.definition = true ∧
      groupKey item.definition delivery.automationId =
        groupKey first.definition first.delivery.automationId ∧ first.shares item = true := by
  unfold share at h
  cases hdefinition : definitionOf revisions delivery with
  | none => simp [hdefinition] at h
  | some definition =>
    simp only [hdefinition] at h
    split at h
    · cases h
    · next hkey =>
      cases hprepare : prepare revisions env s delivery with
      | error => simp [hprepare] at h
      | ok found =>
        simp only [hprepare, ite_none_right_eq_some, some.injEq] at h
        obtain ⟨hshares, rfl⟩ := h
        obtain ⟨hdelivery, revision, hrevision, hfound, _⟩ := prepare_eq_ok hprepare
        have heq : definition = found.definition := by
          rw [definitionOf, hrevision, map_some] at hdefinition
          exact (some.inj hdefinition).symm.trans hfound.symm
        subst heq
        simp only [Bool.or_eq_true, not_or, decide_eq_true_eq, not_not, Bool.not_eq_true',
          Bool.not_eq_false] at hkey
        exact ⟨hdelivery, rfl, rfl, hkey.1, hkey.2, hshares⟩

/-! ### Groups -/

/-- The deliveries that share the run with the one that starts it. -/
def siblings (revisions : String → ℕ → Option Revision) (env : Env) (s : State)
    (first : Prepared) : List Prepared :=
  if isLocationTrigger first.definition then
    (s.others env first).filterMap (share revisions env s first)
  else []

variable (revisions env) in
theorem groupOf_eq (first : Prepared) (hdistinct : Distinct s) (r : ℕ) :
    Assigned [] r s (s.groupOf revisions env first).1 ∧
      (s.groupOf revisions env first).1.runs = s.runs ∧
      (s.groupOf revisions env first).2 = first :: siblings revisions env s first := by
  unfold State.groupOf siblings
  split
  · obtain ⟨hassigned, hruns, hsiblings⟩ :=
      locationSiblings_eq revisions env first hdistinct r
    exact ⟨hassigned, hruns, by rw [hsiblings]⟩
  · exact ⟨.none r s, rfl, rfl⟩

theorem assigned_mark {id : ℕ} :
    Assigned [id] r s (s.setDelivery id fun delivery =>
      { delivery with status := .admitted r, outcomeCode := outcomeCode }) := by
  refine ⟨_, rfl, fun delivery _ => ?_⟩
  by_cases heq : delivery.id = id
  · subst heq
    rw [if_pos rfl]
    exact ⟨rfl, rfl, rfl, by simp [Delivery.invocationId]⟩
  · rw [if_neg heq]
    exact ⟨rfl, rfl, rfl, by simp [heq]⟩

theorem assigned_markGroup : Assigned (group.map (·.delivery.id)) r s (s.markGroup r group) := by
  induction group generalizing s with
  | nil => exact .none r s
  | cons item group ih => exact assigned_mark.trans ih

theorem runs_markGroup : (s.markGroup r group).runs = s.runs := by
  induction group generalizing s with
  | nil => rfl
  | cons item group ih => exact ih

/-! ### Plans -/

variable (revisions env s) in
/-- What a plan goes by. The delivery it is about is one that is due; one that joins a run is about
a location and goes to the run's conversation, and one that starts a run about a location finds no
other one under way. -/
inductive Planned : Plan → Prop
  | idle : Planned .idle
  | settle {delivery : Delivery} {outcome : Outcome} (hmem : delivery ∈ s.deliveries)
      (hpending : delivery.status = .pending) : Planned (.settle delivery outcome)
  | fold {item : Prepared} (hmem : item.delivery ∈ s.deliveries)
      (hpending : item.delivery.status = .pending) : Planned (.fold item)
  | join {item : Prepared} {id : ℕ} {threadId : String} {member : Delivery}
      (hprepare : prepare revisions env s item.delivery = .ok item)
      (hmem : item.delivery ∈ s.deliveries) (hpending : item.delivery.status = .pending)
      (htarget : item.definition.target = .existingThread threadId)
      (hlocation : isLocationTrigger item.definition = true) (hmember : member ∈ s.deliveries)
      (hid : member.invocationId = some id)
      (hcan : s.canJoin revisions threadId item member = true) : Planned (.join item id)
  | start {first : Prepared} (hprepare : prepare revisions env s first.delivery = .ok first)
      (hmem : first.delivery ∈ s.deliveries) (hpending : first.delivery.status = .pending)
      (hactive : isLocationTrigger first.definition = true → s.locationRunActive revisions
        (groupKey first.definition first.delivery.automationId) = false) : Planned (.start first)

theorem straggles_eq_some (h : s.straggles env item = some threadId) :
    item.definition.target = .existingThread threadId ∧
      isLocationTrigger item.definition = true := by
  unfold State.straggles at h
  split at h
  · cases h
  · next htarget =>
    split at h
    · next hlate =>
      exact ⟨by rw [htarget, some.inj h], (Bool.and_eq_true_iff.mp hlate).1⟩
    · cases h

variable (revisions env s) in
theorem planned_plan : Planned revisions s env (s.plan revisions env) := by
  unfold State.plan
  cases hdue : (s.due env.now).head? with
  | none => exact .idle
  | some delivery =>
    obtain ⟨hmem, hpending⟩ := mem_due (mem_of_mem_head? hdue)
    dsimp only
    cases hprepare : prepare revisions env s delivery with
    | error outcome => exact .settle hmem hpending
    | ok first =>
      obtain ⟨rfl, _⟩ := prepare_eq_ok hprepare
      dsimp only
      cases hstraggles : s.straggles env first with
      | none =>
        dsimp only
        split
        · exact .settle hmem hpending
        · next hactive =>
          exact .start hprepare hmem hpending fun hlocation => by simpa [hlocation] using hactive
      | some threadId =>
        obtain ⟨htarget, hlocation⟩ := straggles_eq_some hstraggles
        dsimp only
        cases hrun : s.unstartedRun revisions env threadId first with
        | none => exact .fold hmem hpending
        | some id =>
          obtain ⟨member, hmember, hid⟩ := bind_eq_some_iff.mp hrun
          obtain ⟨hin, hcan⟩ := mem_filter.mp (mem_of_getElem? hmember)
          exact .join hprepare hmem hpending htarget hlocation hin hid hcan

theorem planned_of_plan (h : s.plan revisions env = plan) : Planned revisions s env plan :=
  h ▸ planned_plan revisions s env

/-! ### Steps -/

variable (revisions owner s) in
/-- What a step comes to. -/
inductive Stepped : Act → State → Prop
  | deliver {delivery : Delivery} (hnone : delivery.invocationId = none)
      (hdefinition : definitionOf revisions delivery ≠ none)
      (hnew : ∀ other ∈ s.deliveries, other.id ≠ delivery.id) :
      Stepped (.deliver delivery) { s with deliveries := s.deliveries ++ [delivery] }
  /-- Nothing is given a run. -/
  | quiet {act : Act} {t : State} (hassigned : ∀ r, Assigned [] r s t) (hruns : t.runs = s.runs)
      (hplan : ∀ env, act = .admitNext env → (∀ item id, s.plan revisions env ≠ .join item id) ∧
        ∀ first, s.plan revisions env ≠ .start first) : Stepped act t
  | join {env : Env} {item : Prepared} {id : ℕ} {t : State}
      (hplan : s.plan revisions env = .join item id)
      (hassigned : Assigned [item.delivery.id] id s t)
      (hruns : ∃ update : Run → Run, t.runs = s.runs.modify id update ∧
        ∀ run, (update run).threadId = run.threadId ∧ (update run).budId = run.budId ∧
          (update run).started = run.started ∧ (update run).row.status = run.row.status) :
      Stepped (.admitNext env) t
  | start {env : Env} {first : Prepared} {t : State}
      (hplan : s.plan revisions env = .start first)
      (hfresh : first.definition.target = .newThread →
        ∀ run ∈ s.runs, run.threadId ≠ env.newThreadId)
      (hassigned : Assigned
        ((first :: siblings revisions env s first).map (·.delivery.id)) s.runs.length s t)
      (hruns : t.runs = s.runs ++ [newRun env first (first :: siblings revisions env s first)]) :
      Stepped (.admitNext env) t
  | progress {id : ℕ} {progress : Progress} {run run' : Run} (hrun : s.runs[id]? = some run)
      (hprogress : run.progress owner progress = some run') :
      Stepped (.progress id progress) { s with runs := s.runs.set id run' }

theorem stepped_of_admitNext (hdistinct : Distinct s) (h : s.admitNext revisions env = some t) :
    Stepped revisions owner s (.admitNext env) t := by
  unfold State.admitNext at h
  have hplanned := planned_plan revisions s env
  cases hplan : s.plan revisions env with
  | idle =>
    simp only [hplan, some.injEq] at h
    subst h
    exact .quiet (fun r => .none r s) rfl fun _ heq => by cases heq; simp [hplan]
  | settle delivery outcome =>
    simp only [hplan, some.injEq] at h
    subst h
    rw [hplan] at hplanned
    cases hplanned with
    | settle hmem hpending =>
      exact .quiet (assigned_settle hdistinct hmem hpending) runs_settle
        fun _ heq => by cases heq; simp [hplan]
  | fold item =>
    simp only [hplan, some.injEq] at h
    subst h
    rw [hplan] at hplanned
    cases hplanned with
    | fold hmem hpending =>
      refine .quiet (fun r => ?_) rfl fun _ heq => by cases heq; simp [hplan]
      refine assigned_setDelivery hdistinct hmem ⟨rfl, rfl, rfl, ?_⟩ (by simp)
      simp [Delivery.invocationId, hpending]
  | join item id =>
    simp only [hplan, some.injEq] at h
    subst h
    exact .join hplan assigned_mark ⟨_, rfl, fun run => ⟨rfl, rfl, rfl, rfl⟩⟩
  | start first =>
    simp only [hplan, ite_none_left_eq_some, some.injEq] at h
    obtain ⟨hfresh, rfl⟩ := h
    obtain ⟨hassigned, hruns, hgroup⟩ := groupOf_eq revisions env first hdistinct s.runs.length
    refine .start hplan (fun hnew run hrun heq => hfresh ⟨hnew, ?_⟩) ?_ ?_
    · exact List.any_eq_true.mpr ⟨run, hrun, by simpa using heq⟩
    · rw [← hgroup]
      have hmarked : Assigned _ s.runs.length _ ((s.groupOf revisions env first).1.markGroup
        s.runs.length (s.groupOf revisions env first).2) := assigned_markGroup
      obtain ⟨g, hg, hkept⟩ := hassigned.trans hmarked
      exact ⟨g, by simpa [State.startRun, hruns] using hg, by simpa using hkept⟩
    · simp only [State.startRun, runs_markGroup, hruns, hgroup]

theorem stepped_of_step (hdistinct : Distinct s) (h : step revisions owner s act = some t) :
    Stepped revisions owner s act t := by
  cases act with
  | deliver delivery =>
    simp only [step, ite_none_left_eq_some, some.injEq, not_or] at h
    obtain ⟨⟨hnone, _, hdefinition, hnew⟩, rfl⟩ := h
    refine .deliver (by simpa using hnone) (by simpa using hdefinition) ?_
    intro other hother heq
    exact hnew (List.any_eq_true.mpr ⟨other, hother, by simpa using heq⟩)
  | cancelPending automationId =>
    obtain rfl := some.inj h
    refine .quiet (fun r => ⟨_, rfl, fun delivery _ => ?_⟩) rfl fun _ heq => by cases heq
    split
    · next hpending =>
      exact ⟨rfl, rfl, rfl, by simp [Delivery.invocationId, hpending.2]⟩
    · exact .none r delivery
  | admitNext env => exact stepped_of_admitNext hdistinct h
  | progress id progress =>
    obtain ⟨run, hrun, h⟩ := bind_eq_some_iff.mp h
    obtain ⟨run', hprogress, h⟩ := bind_eq_some_iff.mp h
    obtain rfl := some.inj h
    exact .progress hrun hprogress

/-- Every delivery has an id of its own, and a run that is there. -/
structure Sound (s : State) : Prop where
  distinct : Distinct s
  lt_length : ∀ delivery ∈ s.deliveries, ∀ id, delivery.invocationId = some id → id < s.runs.length

theorem Sound.init : Sound init := ⟨nodup_nil, fun _ h => absurd h not_mem_nil⟩

theorem Distinct.step (hdistinct : Distinct s) (h : Stepped revisions owner s act t) :
    Distinct t := by
  cases h with
  | deliver _ _ hnew =>
    rw [Distinct, map_append]
    refine nodup_append.mpr ⟨hdistinct, nodup_singleton _, ?_⟩
    intro id hid other hother heq
    obtain ⟨delivery, hdelivery, rfl⟩ := mem_map.mp hid
    obtain rfl := mem_singleton.mp hother
    exact hnew delivery hdelivery heq
  | quiet hassigned => exact (hassigned 0).distinct hdistinct
  | join _ hassigned | start _ _ hassigned => exact hassigned.distinct hdistinct
  | progress => exact hdistinct

/-- A delivery with a run has been given it, or had it before. -/
theorem Assigned.invocationId_cases {id : ℕ} (h : Assigned ids r s t)
    (hmem : delivery ∈ t.deliveries) (hid : delivery.invocationId = some id) :
    ∃ before ∈ s.deliveries, Kept ids r before delivery ∧
      (before.id ∈ ids ∧ id = r ∨ before.id ∉ ids ∧ before.invocationId = some id) := by
  obtain ⟨before, hbefore, hkept⟩ := h.exists_before hmem
  refine ⟨before, hbefore, hkept, ?_⟩
  have hcase := hkept.invocationId
  by_cases hids : before.id ∈ ids
  · rw [if_pos hids, hid] at hcase
    exact .inl ⟨hids, some.inj hcase⟩
  · rw [if_neg hids, hid] at hcase
    exact .inr ⟨hids, hcase.symm⟩

theorem Sound.step (hs : Sound s) (h : Stepped revisions owner s act t) : Sound t := by
  refine ⟨hs.distinct.step h, ?_⟩
  intro delivery hmem id hid
  cases h with
  | deliver hnone =>
    rcases mem_append.mp hmem with hmem | hmem
    · exact hs.lt_length delivery hmem id hid
    · obtain rfl := mem_singleton.mp hmem
      rw [hnone] at hid
      cases hid
  | quiet hassigned hruns =>
    obtain ⟨before, hbefore, _, ⟨hids, _⟩ | ⟨_, hhad⟩⟩ := (hassigned 0).invocationId_cases hmem hid
    · exact absurd hids not_mem_nil
    · rw [hruns]
      exact hs.lt_length before hbefore id hhad
  | @join env item run t hplan hassigned hruns =>
    obtain ⟨update, hruns, _⟩ := hruns
    rw [hruns, length_modify]
    obtain ⟨before, hbefore, _, ⟨_, rfl⟩ | ⟨_, hhad⟩⟩ := hassigned.invocationId_cases hmem hid
    · cases planned_of_plan hplan with
      | join _ _ _ _ _ hmember hid => exact hs.lt_length _ hmember _ hid
    · exact hs.lt_length before hbefore id hhad
  | start _ _ hassigned hruns =>
    rw [hruns, length_append, length_singleton]
    obtain ⟨before, hbefore, _, ⟨_, rfl⟩ | ⟨_, hhad⟩⟩ := hassigned.invocationId_cases hmem hid
    · exact Nat.lt_succ_self _
    · exact Nat.lt_succ_of_lt (hs.lt_length before hbefore id hhad)
  | progress =>
    rw [length_set]
    exact hs.lt_length delivery hmem id hid

theorem Sound.of_run (h : Runs.run (Admission.step revisions owner) acts Admission.init = some s) :
    Sound s :=
  Runs.invariant (fun _ _ _ hs hstep => hs.step (stepped_of_step hs.distinct hstep)) h .init

/-! ### The deliveries of a group -/

theorem nodup_group (hdistinct : Distinct s) :
    ((first :: siblings revisions env s first).map (·.delivery.id)).Nodup := by
  have hids : ((siblings revisions env s first).map (·.delivery.id)).Sublist
      ((s.others env first).map (·.id)) := by
    unfold siblings
    split
    · induction s.others env first with
      | nil => exact .slnil
      | cons delivery others ih =>
        rw [filterMap_cons]
        cases hshare : share revisions env s first delivery with
        | none => exact ih.cons _
        | some item =>
          simp only [map_cons, (share_eq_some hshare).1]
          exact ih.cons_cons _
    · exact nil_sublist _
  refine nodup_cons.mpr ⟨fun hmem => ?_, (nodup_others hdistinct).sublist hids⟩
  obtain ⟨delivery, hdelivery, heq⟩ := mem_map.mp (hids.subset hmem)
  exact (mem_others hdelivery).2.2 heq

theorem mem_siblings (h : item ∈ siblings revisions env s first) :
    isLocationTrigger first.definition = true ∧
      share revisions env s first item.delivery = some item ∧
      item.delivery ∈ s.deliveries ∧ item.delivery.status = .pending := by
  unfold siblings at h
  split at h
  · next hlocation =>
    obtain ⟨delivery, hdelivery, hshare⟩ := mem_filterMap.mp h
    obtain ⟨hmem, hpending, _⟩ := mem_others hdelivery
    obtain rfl := (share_eq_some hshare).1
    exact ⟨hlocation, hshare, hmem, hpending⟩
  · cases h

theorem mem_group (hmem : first.delivery ∈ s.deliveries)
    (hpending : first.delivery.status = .pending)
    (h : item ∈ first :: siblings revisions env s first) :
    item.delivery ∈ s.deliveries ∧ item.delivery.status = .pending := by
  rcases mem_cons.mp h with rfl | h
  · exact ⟨hmem, hpending⟩
  · exact (mem_siblings h).2.2

end Bud.Admission
