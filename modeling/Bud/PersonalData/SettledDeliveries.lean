import Bud.PersonalData.AdmissionSteps
import Bud.Lib.Pointwise

/-!
# Deliveries that are done with

Admission writes pending deliveries only, so that one which is done with stays as it is, whatever is
admitted. A delivery that is pending or admitted after a step was so before.
-/

namespace Bud.Admission

open Option

variable {revisions : String → ℕ → Option Revision} {s t u : State} {env : Env} {ids : List ℕ}

/-- The delivery is the same one, and untouched unless it is one of `ids`. -/
structure Same (ids : List ℕ) (delivery delivery' : Delivery) : Prop where
  id : delivery'.id = delivery.id
  automationId : delivery'.automationId = delivery.automationId
  revision : delivery'.revision = delivery.revision
  eq : delivery.id ∉ ids → delivery' = delivery

/-- The deliveries are the same ones, and only `ids` have been written. -/
def Touches (ids : List ℕ) (s t : State) : Prop :=
  List.Forall₂ (Same ids) s.deliveries t.deliveries

theorem Same.refl (ids : List ℕ) (delivery : Delivery) : Same ids delivery delivery :=
  ⟨rfl, rfl, rfl, fun _ => rfl⟩

theorem Touches.refl (ids : List ℕ) (s : State) : Touches ids s s :=
  Pointwise.refl (.refl ids) _

theorem Same.trans {a : Delivery} (h : Same ids a b) (h' : Same ids b c) : Same ids a c := by
  refine ⟨h'.id.trans h.id, h'.automationId.trans h.automationId, h'.revision.trans h.revision, ?_⟩
  intro hid
  rw [h'.eq (by rwa [h.id]), h.eq hid]

theorem Touches.trans (h : Touches ids s t) (h' : Touches ids t u) : Touches ids s u :=
  Pointwise.trans (fun _ _ _ hab hbc => hab.trans hbc) h h'

theorem touches_setDelivery {id : ℕ} (hid : id ∈ ids)
    (h : ∀ delivery, (update delivery).id = delivery.id ∧ (update delivery).automationId =
      delivery.automationId ∧ (update delivery).revision = delivery.revision) :
    Touches ids s (s.setDelivery id update) := by
  refine Pointwise.map fun delivery _ => ?_
  split
  · next heq =>
    obtain ⟨hid', hautomation, hrevision⟩ := h delivery
    exact ⟨hid', hautomation, hrevision, fun hnot => absurd (heq ▸ hid) hnot⟩
  · exact .refl ids delivery

variable {delivery : Delivery} {first : Prepared}

theorem touches_settle (hid : delivery.id ∈ ids) :
    Touches ids s (s.settle env delivery outcome) := by
  cases outcome with
  | finish | wait => exact touches_setDelivery hid fun _ => ⟨rfl, rfl, rfl⟩

theorem touches_collect (hid : delivery.id ∈ ids) :
    Touches ids acc.1 (collect revisions env first acc delivery).1 := by
  unfold collect
  cases definitionOf revisions delivery with
  | none => exact .refl ids _
  | some definition =>
    dsimp only
    split
    · exact .refl ids _
    · cases prepare revisions env acc.1 delivery with
      | error outcome => exact touches_settle hid
      | ok item =>
        dsimp only
        split
        all_goals exact .refl ids _

theorem touches_foldl_collect {deliveries : List Delivery}
    (h : ∀ delivery ∈ deliveries, delivery.id ∈ ids) (acc : State × List Prepared) :
    Touches ids acc.1 (deliveries.foldl (collect revisions env first) acc).1 := by
  induction deliveries generalizing acc with
  | nil => exact .refl ids _
  | cons delivery deliveries ih =>
    obtain ⟨hid, h⟩ := List.forall_mem_cons.mp h
    exact (touches_collect hid).trans (ih h _)

theorem touches_markGroup {r : ℕ} (h : ∀ item ∈ group, item.delivery.id ∈ ids) :
    Touches ids s (s.markGroup r group) := by
  induction group generalizing s with
  | nil => exact .refl ids s
  | cons item group ih =>
    obtain ⟨hid, h⟩ := List.forall_mem_cons.mp h
    have hmark : Touches ids s (s.setDelivery item.delivery.id fun delivery =>
        { delivery with status := .admitted r, outcomeCode := none }) :=
      touches_setDelivery hid fun _ => ⟨rfl, rfl, rfl⟩
    exact hmark.trans (ih h)

def State.pendingIds (s : State) : List ℕ :=
  (s.deliveries.filter (·.status = .pending)).map (·.id)

theorem mem_pendingIds (hmem : delivery ∈ s.deliveries) (hpending : delivery.status = .pending) :
    delivery.id ∈ s.pendingIds :=
  List.mem_map_of_mem (List.mem_filter.mpr ⟨hmem, by simpa using hpending⟩)

theorem touches_startRun (hdistinct : Distinct s) (hmem : first.delivery ∈ s.deliveries)
    (hpending : first.delivery.status = .pending) :
    Touches s.pendingIds s (s.startRun revisions env first) := by
  have hgroup : ∀ item ∈ (s.groupOf revisions env first).2, item.delivery.id ∈ s.pendingIds := by
    intro item hitem
    rw [(groupOf_eq revisions env first hdistinct 0).2.2] at hitem
    obtain ⟨hmem', hpending'⟩ := mem_group hmem hpending hitem
    exact mem_pendingIds hmem' hpending'
  have hfirst : Touches s.pendingIds s (s.groupOf revisions env first).1 := by
    unfold State.groupOf
    split
    · refine touches_foldl_collect (fun delivery hother => ?_) (s, [])
      exact mem_pendingIds (mem_others hother).1 (mem_others hother).2.1
    · exact .refl _ s
  exact hfirst.trans (touches_markGroup hgroup)

/-- **Admission writes pending deliveries only.** -/
theorem settles_admitNext (hdistinct : Distinct s) (h : s.admitNext revisions env = some t) :
    Touches s.pendingIds s t := by
  have hplanned := planned_plan revisions s env
  unfold State.admitNext at h
  cases hplan : s.plan revisions env with
  | idle =>
    simp only [hplan, some.injEq] at h
    exact h ▸ .refl _ s
  | settle delivery outcome =>
    simp only [hplan, some.injEq] at h
    rw [hplan] at hplanned
    cases hplanned with
    | settle hmem hpending => exact h ▸ touches_settle (mem_pendingIds hmem hpending)
  | fold item =>
    simp only [hplan, some.injEq] at h
    rw [hplan] at hplanned
    cases hplanned with
    | fold hmem hpending =>
      subst h
      exact touches_setDelivery (mem_pendingIds hmem hpending) fun _ => ⟨rfl, rfl, rfl⟩
  | join item id =>
    simp only [hplan, some.injEq] at h
    rw [hplan] at hplanned
    cases hplanned with
    | join _ hmem hpending =>
      subst h
      exact touches_setDelivery (mem_pendingIds hmem hpending) fun _ => ⟨rfl, rfl, rfl⟩
  | start first =>
    simp only [hplan, ite_none_left_eq_some, some.injEq] at h
    rw [hplan] at hplanned
    cases hplanned with
    | start _ hmem hpending => exact h.2 ▸ touches_startRun hdistinct hmem hpending

end Bud.Admission
