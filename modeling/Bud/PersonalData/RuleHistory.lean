import Bud.Lib.Versions
import Bud.PersonalData.HandledOnce

/-!
# The history of rules

Revisions are only ever added, by an activation, with the number of the rule's version and the
publication sequence as it is then. A rule is not renumbered and a deleted one does not come back,
so what has been activated before an event was published is there unchanged when it is matched.
-/

namespace Bud.Automations

open List Option Pointwise
open Throws (ok_of_bind ok_of_ite ok_of_map)

variable {F : Type} {sha256 : String → String} {parse : String → ℕ} {owner : String}
  {s t u : State F} {env : Env F}

/-! ### What a transaction can do -/

/-- The rule is the same one, and no older. -/
structure SameRule (rule rule' : Rule) : Prop where
  id : rule'.id = rule.id
  version : rule.version ≤ rule'.version
  deleted : rule.state = .deleted → rule'.state = .deleted

/-- What a transaction can do to rules: they are rewritten, one is created, or one is activated. -/
inductive RuleChange (s t : State F) : Prop where
  | kept (rules : Forall₂ SameRule s.rules t.rules) (revisions : t.revisions = s.revisions)
  | created (rule : Rule) (fresh : ∀ other ∈ s.rules, other.id ≠ rule.id)
      (limit : s.rules.countP (·.state ≠ .deleted) < rulesPerOwner)
      (rules : t.rules = s.rules ++ [rule]) (revisions : t.revisions = s.revisions)
  | activated (row : Revision) (prior : Rule) (mem : prior ∈ s.rules)
      (automationId : row.automationId = prior.id) (revision : prior.version < row.revision)
      (boundary : row.publicationBoundary = s.publicationSequence)
      (rules : Forall₂ SameRule s.rules t.rules)
      (version : ∀ rule ∈ t.rules, rule.id = prior.id → row.revision ≤ rule.version)
      (revisions : t.revisions = s.revisions ++ [row])

/-- No event has been published or matched. -/
structure Quiet (s t : State F) : Prop where
  publicationSequence : t.publicationSequence = s.publicationSequence
  events : t.events = s.events
  domainEventIds : t.domainEventIds = s.domainEventIds
  deliveries : Forall₂ SameDelivery s.admission.deliveries t.admission.deliveries

/-- Events have been published, with the next numbers, and nothing else. -/
structure Published (s t : State F) (new : List DomainEvent) : Prop where
  le : s.publicationSequence ≤ t.publicationSequence
  events : t.events = s.events ++ new
  ids : new.map (·.id) = List.range' s.events.length new.length
  pending : ∀ event ∈ new, event.pending = true
  eventType : ∀ event ∈ new, event.eventType ≠ .schedule
  sequence : ∀ event ∈ new, ∃ n, event.publicationSequence = some n ∧
    s.publicationSequence < n ∧ n ≤ t.publicationSequence
  rules : t.rules = s.rules
  revisions : t.revisions = s.revisions
  admission : t.admission = s.admission
  domainEventIds : t.domainEventIds = s.domainEventIds

/-- What a transaction can do. -/
inductive Effect (parse : String → ℕ) (s t : State F) : Prop where
  | rules (change : RuleChange s t) (quiet : Quiet s t)
  | published (new : List DomainEvent) (published : Published s t new)
  | matched (env : Env F) (matchNext : s.matchNext parse env = some t)

theorem SameRule.refl (rule : Rule) : SameRule rule rule := ⟨rfl, le_rfl, fun h => h⟩

theorem SameRule.trans (h : SameRule a b) (h' : SameRule b c) : SameRule a c :=
  ⟨h'.id.trans h.id, h.version.trans h'.version, h'.deleted ∘ h.deleted⟩

theorem Quiet.refl (s : State F) : Quiet s s := ⟨rfl, rfl, rfl, Pointwise.refl .refl _⟩

theorem Reduces.quiet (h : Reduces s t) : Quiet s t :=
  { h with }

theorem RuleChange.of_eq (hrules : t.rules = s.rules) (hrevisions : t.revisions = s.revisions) :
    RuleChange s t :=
  .kept (hrules ▸ refl .refl _) hrevisions

/-! ### Rules -/

variable {id : String} {expectedVersion : ℕ}

theorem load_eq_ok (h : s.load id = .ok rule) :
    rule ∈ s.rules ∧ rule.id = id ∧ rule.state ≠ .deleted := by
  rw [State.load] at h
  cases hfound : s.rule? id with
  | none =>
    rw [hfound] at h
    cases h
  | some found =>
    simp only [hfound] at h
    obtain ⟨hstate, h⟩ := ok_of_ite h
    obtain rfl := Except.ok.inj h
    exact ⟨mem_of_find?_eq_some hfound, by simpa using find?_some hfound, hstate⟩

theorem forall₂_setRule (hnodup : (s.rules.map (·.id)).Nodup) (hmem : prior ∈ s.rules)
    (hid : prior.id = id) (hsame : SameRule prior (update prior)) :
    Forall₂ SameRule s.rules (s.setRule id update).rules := by
  refine map fun rule hrule => ?_
  split
  · next heq =>
    obtain rfl := inj_on_of_nodup_map hnodup hrule hmem (heq.trans hid.symm)
    exact hsame
  · exact .refl rule

theorem change_create (h : s.createInTransaction env id definition = .ok t) : RuleChange s t := by
  rw [State.createInTransaction] at h
  cases hfound : s.rule? id with
  | some existing =>
    simp only [hfound] at h
    obtain ⟨_, h⟩ := ok_of_ite h
    exact .of_eq (by rw [Except.ok.inj h]) (by rw [Except.ok.inj h])
  | none =>
    simp only [hfound] at h
    obtain ⟨hlimit, h⟩ := ok_of_ite h
    obtain ⟨_, _, h⟩ := ok_of_bind h
    obtain rfl := Except.ok.inj h
    refine .created _ (fun other hother heq => ?_) (not_le.mp hlimit) rfl rfl
    rw [State.rule?, find?_eq_none] at hfound
    exact hfound other hother (decide_eq_true heq)

theorem change_update (hnodup : (s.rules.map (·.id)).Nodup)
    (h : s.updateInTransaction env id expectedVersion definition = .ok t) : RuleChange s t := by
  obtain ⟨prior, hload, h⟩ := ok_of_bind h
  obtain ⟨_, h⟩ := ok_of_ite h
  obtain ⟨_, _, h⟩ := ok_of_bind h
  obtain rfl := Except.ok.inj h
  obtain ⟨hmem, hid, _⟩ := load_eq_ok hload
  exact .kept (forall₂_setRule hnodup hmem hid ⟨rfl, Nat.le_succ _, fun h => h⟩) rfl

/-- **An activation.** The new revision is of the draft, under the grant as it is. -/
theorem activateInTransaction_eq_ok (h : s.activateInTransaction env id value = .ok t) :
    ∃ prior, s.load id = .ok prior ∧ prior.version = value.expectedVersion ∧
      (env.grant.map (·.version)).getD 0 = value.expectedGrantVersion ∧
      t = State.setRule
        { s with
          revisions := s.revisions ++
            [{ automationId := id
               revision := prior.version + 1
               definition := prior.draft
               publicationBoundary := s.publicationSequence
               grantVersion := value.expectedGrantVersion }] }
        id fun rule =>
          { rule with
            state := .enabled
            activeRevision := some (prior.version + 1)
            version := prior.version + 1 } := by
  obtain ⟨prior, hload, h⟩ := ok_of_bind h
  obtain ⟨hversion, h⟩ := ok_of_ite h
  obtain ⟨_, _, h⟩ := ok_of_bind h
  obtain ⟨hgrant, h⟩ := ok_of_ite h
  obtain ⟨_, h⟩ := ok_of_ite h
  rw [not_not] at hversion hgrant
  refine ⟨prior, hload, hversion, hgrant, ?_⟩
  rw [← hgrant]
  exact (Except.ok.inj h).symm

theorem change_activate (hnodup : (s.rules.map (·.id)).Nodup)
    (h : s.activateInTransaction env id value = .ok t) : RuleChange s t := by
  obtain ⟨prior, hload, _, _, rfl⟩ := activateInTransaction_eq_ok h
  obtain ⟨hmem, hid, hstate⟩ := load_eq_ok hload
  refine .activated _ prior hmem hid.symm (Nat.lt_succ_self _) rfl
    (forall₂_setRule hnodup hmem hid ⟨rfl, Nat.le_succ _, fun h => absurd h hstate⟩) ?_ rfl
  intro rule hrule heq
  obtain ⟨before, _, rfl⟩ := mem_map.mp hrule
  split at heq
  · next hbefore => rw [if_pos hbefore]
  · next hbefore => exact absurd (heq.trans hid) hbefore

theorem rules_pause (hnodup : (s.rules.map (·.id)).Nodup)
    (h : s.pauseInTransaction id expectedVersion cancelPending = .ok t) :
    Forall₂ SameRule s.rules t.rules ∧ t.revisions = s.revisions := by
  obtain ⟨prior, hload, h⟩ := ok_of_bind h
  obtain ⟨_, h⟩ := ok_of_ite h
  obtain rfl := Except.ok.inj h
  obtain ⟨hmem, hid, hstate⟩ := load_eq_ok hload
  have hrules : Forall₂ SameRule s.rules (s.setRule id fun rule =>
      { rule with state := .paused, version := prior.version + 1 }).rules :=
    forall₂_setRule hnodup hmem hid ⟨rfl, Nat.le_succ _, fun h => absurd h hstate⟩
  cases cancelPending <;> exact ⟨hrules, rfl⟩

theorem change_delete (hnodup : (s.rules.map (·.id)).Nodup)
    (h : s.delete id expectedVersion = .ok t) : RuleChange s t := by
  rw [State.delete] at h
  split at h
  · cases h
  · split at h
    · exact .of_eq (by rw [Except.ok.inj h]) (by rw [Except.ok.inj h])
    · obtain ⟨_, h⟩ := ok_of_ite h
      obtain ⟨paused, hpaused, h⟩ := ok_of_bind h
      obtain ⟨hrules, hrevisions⟩ := rules_pause hnodup hpaused
      obtain rfl := Except.ok.inj h
      refine .kept (trans (fun _ _ _ hab hbc => hab.trans hbc) hrules ?_) hrevisions
      refine map fun rule _ => ?_
      split
      · exact ⟨rfl, le_rfl, fun _ => rfl⟩
      · exact .refl rule

theorem effect_capture (hnodup : (s.rules.map (·.id)).Nodup)
    (h : s.captureInTransaction parse owner env automationId request = .ok (t, bootstrap)) :
    RuleChange s t ∧ Quiet s t := by
  have hinsert : ∀ (u : State F) (boundary : ℕ), RuleChange s u → Quiet s u →
      u.insertSnapshot parse owner env automationId request boundary = .ok (t, bootstrap) →
        RuleChange s t ∧ Quiet s t := by
    intro u boundary hchange hquiet hinserted
    obtain ⟨_, _, _, _, _, rfl⟩ := insertSnapshot_eq_ok hinserted
    refine ⟨?_, ⟨hquiet.1, hquiet.2, hquiet.3, hquiet.4⟩⟩
    cases hchange with
    | kept rules revisions => exact .kept rules revisions
    | created rule fresh limit rules revisions => exact .created rule fresh limit rules revisions
    | activated row prior mem automationId revision boundary rules version revisions =>
      exact .activated row prior mem automationId revision boundary rules version revisions
  obtain ⟨rfl, -⟩ | ⟨-, activated, ⟨-, rfl⟩ | ⟨activation, -, hactivated⟩, hinserted⟩ :=
    captureInTransaction_eq_ok h
  · exact ⟨.of_eq rfl rfl, .refl t⟩
  · exact hinsert activated _ (.of_eq rfl rfl) (.refl activated) hinserted
  · exact hinsert activated _ (change_activate hnodup hactivated)
      (reduces_activate hactivated).quiet hinserted

/-! ### Events -/

theorem published_publish (now : ℕ) {eventType : Admission.EventType}
    (hschedule : eventType ≠ .schedule) (subject : Subject) :
    ∃ event, Published s (s.publish now eventType subject) [event] :=
  ⟨_, Nat.le_succ _, rfl, rfl, forall_mem_singleton.mpr rfl, forall_mem_singleton.mpr hschedule,
    forall_mem_singleton.mpr ⟨_, rfl, Nat.lt_succ_self _, le_rfl⟩, rfl, rfl, rfl, rfl⟩

theorem Published.trans (h : Published s t new) (h' : Published t u new') :
    Published s u (new ++ new') where
  le := h.le.trans h'.le
  events := by rw [h'.events, h.events, append_assoc]
  ids := by
    rw [map_append, h.ids, h'.ids, h.events, length_append, length_append, range'_append_1]
  pending := forall_mem_append.mpr ⟨h.pending, h'.pending⟩
  eventType := forall_mem_append.mpr ⟨h.eventType, h'.eventType⟩
  sequence := forall_mem_append.mpr ⟨fun event hevent => by
      obtain ⟨n, hn, hlt, hle⟩ := h.sequence event hevent
      exact ⟨n, hn, hlt, hle.trans h'.le⟩,
    fun event hevent => by
      obtain ⟨n, hn, hlt, hle⟩ := h'.sequence event hevent
      exact ⟨n, hn, h.le.trans_lt hlt, hle⟩⟩
  rules := h'.rules.trans h.rules
  revisions := h'.revisions.trans h.revisions
  admission := h'.admission.trans h.admission
  domainEventIds := h'.domainEventIds.trans h.domainEventIds

theorem Published.nil (hevents : t.events = s.events)
    (hsequence : t.publicationSequence = s.publicationSequence) (hrules : t.rules = s.rules)
    (hrevisions : t.revisions = s.revisions) (hadmission : t.admission = s.admission)
    (hids : t.domainEventIds = s.domainEventIds) : Published s t [] where
  le := hsequence.ge
  events := hevents.trans (append_nil _).symm
  ids := rfl
  pending _ h := nomatch h
  eventType _ h := nomatch h
  sequence _ h := nomatch h
  rules := hrules
  revisions := hrevisions
  admission := hadmission
  domainEventIds := hids

theorem published_publishAdded (now : ℕ) (sourceId : String) (generation : ℕ) (ids : List String) :
    ∃ new, Published s (ids.foldl (State.publishAdded now sourceId generation) s) new := by
  induction ids generalizing s with
  | nil => exact ⟨[], .nil rfl rfl rfl rfl rfl rfl⟩
  | cons id ids ih =>
    have hschedule : Admission.EventType.contactAdded ≠ .schedule := by decide
    obtain ⟨event, hevent⟩ := published_publish (s := s) now hschedule <|
      .contact { contact := ⟨sourceId, id⟩, generation }
    obtain ⟨new, hnew⟩ := @ih (s.publishAdded now sourceId generation id)
    exact ⟨[event] ++ new, hevent.trans hnew⟩

theorem published_receive (sourceId : String) (event : Contacts.Event F) :
    Published s (s.receive sourceId event) [] := by
  rw [State.receive]
  split <;> exact .nil rfl rfl rfl rfl rfl rfl

theorem published_processContacts [DecidableEq F] [Inhabited F]
    (h : s.processContacts sha256 parse now sourceId act = some t) : ∃ new, Published s t new := by
  obtain ⟨contacts, _, h⟩ := bind_eq_some_iff.mp h
  obtain ⟨contacts', _, h⟩ := bind_eq_some_iff.mp h
  obtain rfl := some.inj h
  obtain ⟨new, hnew⟩ := published_publishAdded (s := s.setContacts sourceId contacts') now sourceId
    contacts'.generation (contacts'.added.drop contacts.added.length)
  have hset : Published s (s.setContacts sourceId contacts') [] := .nil rfl rfl rfl rfl rfl rfl
  exact ⟨[] ++ new, hset.trans hnew⟩

/-! ### Transactions -/

theorem effect_commit {ε : Type} {x : Except ε (State F)}
    (h : ∀ t, x = .ok t → RuleChange s t ∧ Quiet s t) : Effect parse s (s.commit x) := by
  cases x with
  | ok t => exact .rules (h t rfl).1 (h t rfl).2
  | error => exact .rules (.of_eq rfl rfl) (.refl s)

theorem effect_reduces (h : Reduces s t) (hrules : t.rules = s.rules)
    (hrevisions : t.revisions = s.revisions) : Effect parse s t :=
  .rules (.of_eq hrules hrevisions) h.quiet

theorem effect_admitGroup : Effect parse s (s.admitGroup parse env) := by
  refine .rules ?_ ?_ <;> rw [State.admitGroup]
  all_goals cases (s.dueGroups env.now).head? with
    | none => first | exact .of_eq rfl rfl | exact .refl s
    | some due =>
      obtain ⟨bootstrap, group⟩ := due
      dsimp only
      cases s.prepareGroup parse env bootstrap group with
      | error outcome =>
        cases outcome <;> first | exact .of_eq rfl rfl | exact ⟨rfl, rfl, rfl, (Quiet.refl s).4⟩
      | ok prepared => first | exact .of_eq rfl rfl | exact ⟨rfl, rfl, rfl, (Quiet.refl s).4⟩

/-- **Every transaction** changes rules, publishes events or matches one. -/
theorem effect_of_step [DecidableEq F] [Inhabited F] (hnodup : (s.rules.map (·.id)).Nodup)
    (hdistinct : Admission.Distinct s.admission) {act : Act F}
    (hstep : step sha256 parse owner s act = some t) : Effect parse s t := by
  cases act with
  | receive sourceId event =>
    exact some.inj hstep ▸ .published _ (published_receive sourceId event)
  | processContacts =>
    obtain ⟨new, hnew⟩ := published_processContacts hstep
    exact .published new hnew
  | publish now eventType subject =>
    obtain ⟨rfl, hschedule, _⟩ := publish_eq_some hstep
    obtain ⟨event, hevent⟩ := published_publish now hschedule subject
    exact .published _ hevent
  | create =>
    exact some.inj hstep ▸ effect_commit fun _ h =>
      ⟨change_create h, (reduces_create h).quiet⟩
  | update =>
    exact some.inj hstep ▸
      effect_commit fun _ h => ⟨change_update hnodup h, (reduces_update h).quiet⟩
  | activate =>
    exact some.inj hstep ▸
      effect_commit fun _ h => ⟨change_activate hnodup h, (reduces_activate h).quiet⟩
  | pause =>
    refine some.inj hstep ▸ effect_commit fun _ h => ⟨?_, (reduces_pause h).quiet⟩
    obtain ⟨hrules, hrevisions⟩ := rules_pause hnodup h
    exact .kept hrules hrevisions
  | delete =>
    exact some.inj hstep ▸
      effect_commit fun _ h => ⟨change_delete hnodup h, (reduces_delete h).quiet⟩
  | capture env automationId value activation =>
    refine some.inj hstep ▸ effect_commit fun u hu => ?_
    obtain ⟨⟨_, bootstrap⟩, hcapture, rfl⟩ := ok_of_map hu
    exact effect_capture hnodup hcapture
  | captureReviewed env reviewed idempotencyKey =>
    refine some.inj hstep ▸ effect_commit fun u hu => ?_
    obtain ⟨⟨_, bootstrap⟩, hcapture, rfl⟩ := ok_of_map hu
    obtain ⟨_, hcapture⟩ := ok_of_ite hcapture
    exact effect_capture hnodup hcapture
  | cancel automationId id =>
    refine some.inj hstep ▸ effect_commit fun u hu => ⟨?_, (reduces_cancel hu).quiet⟩
    rw [State.cancel] at hu
    split at hu
    · cases hu
    · obtain ⟨_, hu⟩ := ok_of_ite hu
      split at hu <;> exact Except.ok.inj hu ▸ .of_eq rfl rfl
  | matchNext env => exact .matched env hstep
  | admitDelivery env =>
    have hreduces := reduces_admitDelivery hdistinct hstep
    obtain ⟨admission, _, rfl⟩ := map_eq_some_iff.mp hstep
    exact effect_reduces hreduces rfl rfl
  | admitGroup => exact some.inj hstep ▸ effect_admitGroup
  | progress id progress =>
    obtain ⟨run, _, hstep⟩ := bind_eq_some_iff.mp hstep
    obtain ⟨run', _, hstep⟩ := bind_eq_some_iff.mp hstep
    exact some.inj hstep ▸ effect_reduces (reduces_runs _) rfl rfl

/-! ### What the rules keep to -/

/-- What the rules and their revisions keep to. -/
structure Ruled (s : State F) : Prop where
  ruleIds : (s.rules.map (·.id)).Nodup
  limit : s.rules.countP (·.state ≠ .deleted) ≤ rulesPerOwner
  owned : ∀ row ∈ s.revisions, ∃ rule ∈ s.rules, rule.id = row.automationId ∧
    row.revision ≤ rule.version
  numbered : Versions.Numbered Revision.automationId Revision.revision s.revisions
  boundary_le : ∀ row ∈ s.revisions, row.publicationBoundary ≤ s.publicationSequence

theorem ruled_init : Ruled (init : State F) where
  ruleIds := nodup_nil
  limit := Nat.zero_le _
  owned _ h := nomatch h
  numbered := Pairwise.nil
  boundary_le _ h := nomatch h

/-- Nothing of what rules keep to is lost as they are rewritten. -/
theorem Ruled.rules (h : Ruled s) (hrules : Forall₂ SameRule s.rules t.rules) :
    (t.rules.map (·.id)).Nodup ∧ t.rules.countP (·.state ≠ .deleted) ≤ rulesPerOwner ∧
      ∀ row ∈ s.revisions, ∃ rule ∈ t.rules, rule.id = row.automationId ∧
        row.revision ≤ rule.version := by
  refine ⟨?_, ?_, fun row hrow => ?_⟩
  · rw [map_eq (fun _ _ hsame => hsame.id) hrules]
    exact h.ruleIds
  · refine (countP_le (fun rule rule' hsame hstate => ?_) hrules).trans h.limit
    exact decide_eq_true fun hdeleted => of_decide_eq_true hstate (hsame.deleted hdeleted)
  · obtain ⟨rule, hrule, hid, hle⟩ := h.owned row hrow
    obtain ⟨rule', hrule', hsame⟩ := mem_left hrules hrule
    exact ⟨rule', hrule', hsame.id.trans hid, hle.trans hsame.version⟩

/-- **The rules keep to it.** -/
theorem Ruled.change (h : Ruled s) (hchange : RuleChange s t)
    (hsequence : s.publicationSequence ≤ t.publicationSequence) : Ruled t := by
  have hboundary := fun row hrow => (h.boundary_le row hrow).trans hsequence
  cases hchange with
  | kept rules revisions =>
    obtain ⟨hids, hlimit, howned⟩ := h.rules rules
    rw [← revisions] at howned hboundary
    exact ⟨hids, hlimit, howned, revisions ▸ h.numbered, hboundary⟩
  | created rule fresh limit rules revisions =>
    refine ⟨?_, ?_, ?_, revisions ▸ h.numbered, revisions ▸ hboundary⟩
    · rw [rules, map_append, nodup_append]
      refine ⟨h.ruleIds, nodup_singleton _, ?_⟩
      intro id hid other hother heq
      obtain ⟨before, hbefore, rfl⟩ := mem_map.mp hid
      obtain rfl := mem_singleton.mp hother
      exact fresh before hbefore heq
    · rw [rules, countP_append]
      exact (Nat.add_le_add_left countP_le_length _).trans limit
    · rw [rules, revisions]
      intro row hrow
      obtain ⟨before, hbefore, hof⟩ := h.owned row hrow
      exact ⟨before, mem_append_left _ hbefore, hof⟩
  | activated row prior mem automationId revision boundary rules version revisions =>
    obtain ⟨hids, hlimit, howned⟩ := h.rules rules
    refine ⟨hids, hlimit, ?_, ?_, ?_⟩
    · rw [revisions]
      refine forall_mem_append.mpr ⟨howned, forall_mem_singleton.mpr ?_⟩
      obtain ⟨rule, hrule, hsame⟩ := mem_left rules mem
      exact ⟨rule, hrule, hsame.id.trans automationId.symm, version rule hrule hsame.id⟩
    · rw [revisions]
      refine h.numbered.append fun before hbefore hkey => ?_
      obtain ⟨rule, hrule, hid, hle⟩ := h.owned before hbefore
      obtain rfl := inj_on_of_nodup_map h.ruleIds hrule mem (hid.trans (hkey.trans automationId))
      exact hle.trans_lt revision
    · rw [revisions]
      exact forall_mem_append.mpr
        ⟨hboundary, forall_mem_singleton.mpr (boundary.trans_le hsequence)⟩

end Bud.Automations
