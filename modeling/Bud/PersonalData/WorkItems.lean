import Bud.PersonalData.Bootstraps
import Bud.PersonalData.ContactEvents
import Bud.PersonalData.SettledDeliveries

/-!
# What transactions do to work items

Most transactions only rewrite the statuses of deliveries and groups, and what is not live does not
become live by that (`Reduces`): this is so of everything but the publication of events, matching
and captures.
-/

namespace Bud.Automations

open List Pointwise

open Admission (RuleState)
open Throws (ok_of_bind ok_of_ite)

variable {F : Type} {parse : String → ℕ} {owner : String} {s t u : State F} {env : Env F}

/-! ### Statuses that are rewritten -/

/-- The delivery is the same one, and not live unless it was. -/
structure SameDelivery (delivery delivery' : Admission.Delivery) : Prop where
  id : delivery'.id = delivery.id
  automationId : delivery'.automationId = delivery.automationId
  revision : delivery'.revision = delivery.revision
  live : live delivery'.status = true → live delivery.status = true

structure SameGroup (group group' : Group) : Prop where
  groupIndex : group'.groupIndex = group.groupIndex
  live : group'.status.live = true → group.status.live = true

structure SameBootstrap (bootstrap bootstrap' : Bootstrap) : Prop where
  id : bootstrap'.id = bootstrap.id
  automationId : bootstrap'.automationId = bootstrap.automationId
  revision : bootstrap'.revision = bootstrap.revision
  request : bootstrap'.request = bootstrap.request
  publicationBoundary : bootstrap'.publicationBoundary = bootstrap.publicationBoundary
  members : bootstrap'.members = bootstrap.members
  groups : List.Forall₂ SameGroup bootstrap.groups bootstrap'.groups

/-- Only rules, their revisions and invocations have been written, and statuses of what there is. -/
structure Reduces (s t : State F) : Prop where
  publicationSequence : t.publicationSequence = s.publicationSequence
  sources : t.sources = s.sources
  events : t.events = s.events
  domainEventIds : t.domainEventIds = s.domainEventIds
  deliveries : List.Forall₂ SameDelivery s.admission.deliveries t.admission.deliveries
  bootstraps : List.Forall₂ SameBootstrap s.bootstraps t.bootstraps

theorem SameDelivery.refl (delivery : Admission.Delivery) : SameDelivery delivery delivery :=
  ⟨rfl, rfl, rfl, fun h => h⟩

theorem SameGroup.refl (group : Group) : SameGroup group group := ⟨rfl, fun h => h⟩

theorem SameBootstrap.refl (bootstrap : Bootstrap) : SameBootstrap bootstrap bootstrap :=
  ⟨rfl, rfl, rfl, rfl, rfl, rfl, Pointwise.refl .refl _⟩

theorem Reduces.refl (s : State F) : Reduces s s :=
  ⟨rfl, rfl, rfl, rfl, Pointwise.refl .refl _, Pointwise.refl .refl _⟩

theorem SameDelivery.trans (h : SameDelivery a b) (h' : SameDelivery b c) : SameDelivery a c :=
  ⟨h'.id.trans h.id, h'.automationId.trans h.automationId, h'.revision.trans h.revision,
    h.live ∘ h'.live⟩

theorem SameGroup.trans (h : SameGroup a b) (h' : SameGroup b c) : SameGroup a c :=
  ⟨h'.groupIndex.trans h.groupIndex, h.live ∘ h'.live⟩

theorem SameBootstrap.trans (h : SameBootstrap a b) (h' : SameBootstrap b c) : SameBootstrap a c :=
  ⟨h'.id.trans h.id, h'.automationId.trans h.automationId, h'.revision.trans h.revision,
    h'.request.trans h.request, h'.publicationBoundary.trans h.publicationBoundary,
    h'.members.trans h.members,
    Pointwise.trans (fun _ _ _ hab hbc => hab.trans hbc) h.groups h'.groups⟩

theorem Reduces.trans (h : Reduces s t) (h' : Reduces t u) : Reduces s u :=
  ⟨h'.publicationSequence.trans h.publicationSequence, h'.sources.trans h.sources,
    h'.events.trans h.events, h'.domainEventIds.trans h.domainEventIds,
    Pointwise.trans (fun _ _ _ hab hbc => hab.trans hbc) h.deliveries h'.deliveries,
    Pointwise.trans (fun _ _ _ hab hbc => hab.trans hbc) h.bootstraps h'.bootstraps⟩

theorem Reduces.contactOf (h : Reduces s t) (hid : delivery'.id = delivery.id) :
    t.contactOf delivery' = s.contactOf delivery := by
  rw [State.contactOf, State.contactOf, h.domainEventIds, h.events, hid]

theorem SameBootstrap.live_le (h : SameBootstrap a b) (automationId : String) (revision : ℕ)
    (contact : ContactKey) :
    b.live automationId revision contact ≤ a.live automationId revision contact := by
  unfold Bootstrap.live
  rw [h.automationId, h.revision, h.members]
  split
  · refine countP_mono_left fun member _ hholds => ?_
    simp only [Bootstrap.holds, Bool.and_eq_true, any_eq_true] at hholds ⊢
    obtain ⟨hcontact, group', hgroup', hindex, hlive⟩ := hholds
    obtain ⟨group, hgroup, hsame⟩ := mem_right h.groups hgroup'
    exact ⟨hcontact, group, hgroup, hsame.groupIndex ▸ hindex, hsame.live hlive⟩
  · exact Nat.le_refl 0

/-- **A contact has no more live items than before.** -/
theorem Reduces.live_le (h : Reduces s t) (automationId : String) (revision : ℕ)
    (contact : ContactKey) :
    t.live automationId revision contact ≤ s.live automationId revision contact := by
  refine Nat.add_le_add
    (countP_le (fun delivery delivery' hsame hlive => ?_) h.deliveries)
    (sum_le (fun _ _ hsame => hsame.live_le automationId revision contact) h.bootstraps)
  simp only [State.delivers, Bool.and_eq_true, decide_eq_true_eq] at hlive ⊢
  obtain ⟨⟨⟨hautomation, hrevision⟩, hlive⟩, hcontact⟩ := hlive
  exact ⟨⟨⟨hsame.automationId ▸ hautomation, hsame.revision ▸ hrevision⟩, hsame.live hlive⟩,
    h.contactOf hsame.id ▸ hcontact⟩

/-! ### Transactions -/

theorem Reduces.commit {ε : Type} {x : Except ε (State F)} (h : ∀ t, x = .ok t → Reduces s t) :
    Reduces s (s.commit x) := by
  cases x with
  | ok t => exact h t rfl
  | error => exact .refl s

theorem Reduces.of_rules (h : t = { s with rules := t.rules, revisions := t.revisions }) :
    Reduces s t := by
  rw [h]
  exact ⟨rfl, rfl, rfl, rfl, Pointwise.refl .refl _, Pointwise.refl .refl _⟩

variable {id : String} {expectedVersion : ℕ}

theorem reduces_create (h : s.createInTransaction env id definition = .ok t) : Reduces s t := by
  unfold State.createInTransaction at h
  split at h
  · obtain ⟨_, h⟩ := ok_of_ite h
    exact Except.ok.inj h ▸ .refl s
  · obtain ⟨_, h⟩ := ok_of_ite h
    obtain ⟨_, _, h⟩ := ok_of_bind h
    exact Except.ok.inj h ▸ .of_rules rfl

theorem reduces_update (h : s.updateInTransaction env id expectedVersion definition = .ok t) :
    Reduces s t := by
  obtain ⟨prior, _, h⟩ := ok_of_bind h
  obtain ⟨_, h⟩ := ok_of_ite h
  obtain ⟨_, _, h⟩ := ok_of_bind h
  exact Except.ok.inj h ▸ .of_rules rfl

theorem reduces_activate (h : s.activateInTransaction env id value = .ok t) : Reduces s t := by
  obtain ⟨prior, _, h⟩ := ok_of_bind h
  obtain ⟨_, h⟩ := ok_of_ite h
  obtain ⟨_, _, h⟩ := ok_of_bind h
  obtain ⟨_, h⟩ := ok_of_ite h
  obtain ⟨_, h⟩ := ok_of_ite h
  exact Except.ok.inj h ▸ .of_rules rfl

theorem sameBootstrap_cancelPending (bootstrap : Bootstrap) :
    SameBootstrap bootstrap bootstrap.cancelPending := by
  refine ⟨rfl, rfl, rfl, rfl, rfl, rfl, map fun group _ => ?_⟩
  split
  · exact ⟨rfl, fun h => Bool.noConfusion h⟩
  · exact .refl group

theorem reduces_cancelPending (id : String) : Reduces s (s.cancelPending id) := by
  refine ⟨rfl, rfl, rfl, rfl, map fun delivery _ => ?_,
    map fun bootstrap _ => ?_⟩
  · split
    · exact ⟨rfl, rfl, rfl, fun h => Bool.noConfusion h⟩
    · exact .refl delivery
  · split
    · exact sameBootstrap_cancelPending bootstrap
    · exact .refl bootstrap

theorem reduces_setRule (id : String) (update : Rule → Rule) : Reduces s (s.setRule id update) :=
  .of_rules rfl

theorem reduces_pause (h : s.pauseInTransaction id expectedVersion cancelPending = .ok t) :
    Reduces s t := by
  obtain ⟨prior, _, h⟩ := ok_of_bind h
  obtain ⟨_, h⟩ := ok_of_ite h
  obtain rfl := Except.ok.inj h
  cases cancelPending
  · exact reduces_setRule id _
  · exact (reduces_setRule id _).trans (reduces_cancelPending id)

theorem reduces_delete (h : s.delete id expectedVersion = .ok t) : Reduces s t := by
  unfold State.delete at h
  split at h
  · cases h
  · split at h
    · exact Except.ok.inj h ▸ .refl s
    · obtain ⟨_, h⟩ := ok_of_ite h
      obtain ⟨paused, hpaused, h⟩ := ok_of_bind h
      obtain rfl := Except.ok.inj h
      refine (reduces_pause hpaused).trans ?_
      refine ⟨rfl, rfl, rfl, rfl, refl .refl _, map fun bootstrap _ => ?_⟩
      split
      · exact ⟨rfl, rfl, rfl, rfl, rfl, rfl, refl .refl _⟩
      · exact .refl bootstrap

theorem reduces_setBootstrap {id : ℕ}
    (h : ∀ bootstrap, s.bootstraps[id]? = some bootstrap → SameBootstrap bootstrap (update
      bootstrap)) : Reduces s (s.setBootstrap id update) :=
  ⟨rfl, rfl, rfl, rfl, refl .refl _, modify .refl h⟩

theorem reduces_cancel {id : ℕ} (h : s.cancel automationId id = .ok t) : Reduces s t := by
  unfold State.cancel at h
  split at h
  · cases h
  · obtain ⟨_, h⟩ := ok_of_ite h
    split at h
    · exact Except.ok.inj h ▸ .refl s
    · refine Except.ok.inj h ▸ reduces_setBootstrap fun bootstrap _ => ?_
      obtain ⟨hid, hautomation, hrevision, hrequest, hboundary, hmembers, hgroups⟩ :=
        sameBootstrap_cancelPending bootstrap
      exact ⟨hid, hautomation, hrevision, hrequest, hboundary, hmembers, hgroups⟩

theorem reduces_admitDelivery (hdistinct : Admission.Distinct s.admission)
    (h : s.admitDelivery env = some t) : Reduces s t := by
  obtain ⟨admission, hadmission, rfl⟩ := Option.map_eq_some_iff.mp h
  refine ⟨rfl, rfl, rfl, rfl, ?_, refl .refl _⟩
  have htouches := Admission.settles_admitNext hdistinct hadmission
  refine imp_of_mem (fun delivery hmem delivery' hsame => ?_) htouches
  refine ⟨hsame.id, hsame.automationId, hsame.revision, fun hlive => ?_⟩
  by_cases hpending : delivery.id ∈ s.admission.pendingIds
  · obtain ⟨found, hfound, hid⟩ := mem_map.mp hpending
    obtain ⟨hin, hstatus⟩ := mem_filter.mp hfound
    rw [← hdistinct.eq hin hmem hid, of_decide_eq_true hstatus]
    rfl
  · rwa [← hsame.eq hpending]

theorem reduces_runs (runs : List Admission.Run) :
    Reduces s { s with admission := { s.admission with runs } } :=
  ⟨rfl, rfl, rfl, rfl, refl .refl _, refl .refl _⟩

theorem mem_dueGroups (h : (bootstrap, group) ∈ s.dueGroups now) :
    bootstrap ∈ s.bootstraps ∧ group ∈ bootstrap.groups ∧ group.status = .pending := by
  obtain ⟨found, hfound, hmem⟩ := mem_flatMap.mp ((perm_insertionSort _ _).mem_iff.mp h)
  obtain ⟨due, hdue, heq⟩ := mem_map.mp hmem
  obtain ⟨rfl, rfl⟩ := Prod.mk.inj heq
  obtain ⟨hgroup, hpending⟩ := mem_filter.mp hdue
  exact ⟨hfound, hgroup, of_decide_eq_true (Bool.and_eq_true_iff.mp hpending).1⟩

theorem sameBootstrap_setGroup (hnodup : (bootstrap.groups.map (·.groupIndex)).Nodup)
    (hgroup : group ∈ bootstrap.groups) (h : SameGroup group (update group)) :
    SameBootstrap bootstrap (bootstrap.setGroup group.groupIndex update) := by
  refine ⟨rfl, rfl, rfl, rfl, rfl, rfl, map fun other hother => ?_⟩
  split
  · next heq =>
    obtain rfl := inj_on_of_nodup_map hnodup hother hgroup heq
    exact h
  · exact .refl other

theorem reduces_admitGroup
    (hids : ∀ (i : ℕ) (bootstrap : Bootstrap), s.bootstraps[i]? = some bootstrap →
      bootstrap.id = i)
    (hnodup : ∀ bootstrap ∈ s.bootstraps, (bootstrap.groups.map (·.groupIndex)).Nodup) :
    Reduces s (s.admitGroup parse env) := by
  have hset : ∀ (r : State F) (bootstrap : Bootstrap) (group : Group) (update : Group → Group),
      r.bootstraps = s.bootstraps → bootstrap ∈ s.bootstraps → group ∈ bootstrap.groups →
        SameGroup group (update group) →
          Reduces r (r.setBootstrap bootstrap.id (·.setGroup group.groupIndex update)) := by
    intro r bootstrap group update hr hbootstrap hgroup hsame
    refine reduces_setBootstrap fun other hother => ?_
    obtain ⟨i, hi⟩ := getElem?_of_mem hbootstrap
    rw [hr, hids i bootstrap hi, hi] at hother
    obtain rfl := Option.some.inj hother
    exact sameBootstrap_setGroup (hnodup bootstrap hbootstrap) hgroup hsame
  unfold State.admitGroup
  cases hdue : (s.dueGroups env.now).head? with
  | none => exact .refl s
  | some due =>
    obtain ⟨bootstrap, group⟩ := due
    obtain ⟨hbootstrap, hgroup, hpending⟩ := mem_dueGroups (mem_of_mem_head? hdue)
    have hlive : group.status.live = true := by rw [hpending]; rfl
    dsimp only
    cases s.prepareGroup parse env bootstrap group with
    | error outcome =>
      cases outcome with
      | finish status outcomeCode | wait outcomeCode =>
        exact hset s _ _ _ rfl hbootstrap hgroup ⟨rfl, fun _ => hlive⟩
    | ok prepared =>
      refine (reduces_runs _).trans (hset _ _ _ _ rfl hbootstrap hgroup ?_)
      exact ⟨rfl, fun _ => hlive⟩

end Bud.Automations
