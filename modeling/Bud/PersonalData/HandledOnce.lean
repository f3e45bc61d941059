import Bud.PersonalData.ContactConvergence
import Bud.PersonalData.Tracked

/-!
# A contact is handled once

For a revision of a rule, at most one work item about a contact is live: a delivery that is queued
or admitted, or the membership in such a group of a bootstrap.

The matcher finds whatever has captured the contact, since its boundary is at or after the event,
and a capture looks at what is live, under the lock. Neither has to know of the other's past, as
what is done with does not come back.
-/

namespace Bud.Automations

open List Option

open Throws (ok_of_bind ok_of_ite ok_of_map)

variable {F : Type} {sha256 : String → String} {parse : String → ℕ} {owner : String}
  {s t u : State F} {env : Env F}

/-- At most one work item is live, for each contact and each revision of a rule. -/
structure Once (s : State F) : Prop extends Tracked s where
  live_le : ∀ automationId revision contact, s.live automationId revision contact ≤ 1

theorem once_init : Once (init : State F) := ⟨tracked_init, fun _ _ _ => Nat.zero_le 1⟩

theorem Once.reduces (h : Once s) (hreduces : Reduces s t) : Once t :=
  ⟨h.toTracked.reduces hreduces, fun automationId revision contact =>
    (hreduces.live_le automationId revision contact).trans
      (h.live_le automationId revision contact)⟩

/-! ### Events -/

/-- Events that are added, or marked, do not change what deliveries are about. -/
theorem live_of_events (h : Tracked s) (hadmission : t.admission = s.admission)
    (hids : t.domainEventIds = s.domainEventIds) (hbootstraps : t.bootstraps = s.bootstraps)
    (hevents : ∀ id < s.events.length,
      (t.events[id]?).bind DomainEvent.contact? = (s.events[id]?).bind DomainEvent.contact?)
    (automationId : String) (revision : ℕ) (contact : ContactKey) :
    t.live automationId revision contact = s.live automationId revision contact := by
  have hcontact : ∀ delivery, t.contactOf delivery = s.contactOf delivery := by
    intro delivery
    rw [State.contactOf, State.contactOf, hids]
    cases hid : s.domainEventIds[delivery.id]? with
    | none => rfl
    | some id => exact hevents id (h.lt_length id (mem_of_getElem? hid))
  have hdelivers : t.delivers automationId revision contact =
      s.delivers automationId revision contact := by
    funext delivery
    rw [State.delivers, State.delivers, hcontact]
  rw [State.live, State.live, hadmission, hbootstraps, hdelivers]

theorem live_publish (h : Tracked s) (now : ℕ) (eventType : Admission.EventType)
    (subject : Subject) (automationId : String) (revision : ℕ) (contact : ContactKey) :
    (s.publish now eventType subject).live automationId revision contact =
      s.live automationId revision contact :=
  live_of_events (t := s.publish now eventType subject) h rfl rfl rfl (fun id hid => by
    show ((s.events ++ _)[id]?).bind _ = _
    rw [getElem?_append_left hid]) automationId revision contact

variable {subject : Subject} {now : ℕ} {revision : Revision} {notAfter : Option ℕ}
  {key : RevisionKey} {judge : Revision → Option (Outcome × Option ℕ)}

theorem Once.publish (h : Once s) (now : ℕ) (eventType : Admission.EventType)
    (hsubject : ∀ key, subject = .contact key → s.Has key.contact ∧ Unheard s key.contact) :
    Once (s.publish now eventType subject) :=
  ⟨h.toTracked.publish now eventType hsubject, fun automationId revision contact =>
    (live_publish h.toTracked ..).trans_le (h.live_le automationId revision contact)⟩

theorem foldl_publishAdded_keeps (now : ℕ) (sourceId : String) (generation : ℕ)
    (ids : List String) :
    let t := ids.foldl (State.publishAdded now sourceId generation) s
    t.admission = s.admission ∧ t.domainEventIds = s.domainEventIds ∧
      t.bootstraps = s.bootstraps ∧ ∃ new, t.events = s.events ++ new := by
  induction ids generalizing s with
  | nil => exact ⟨rfl, rfl, rfl, [], (append_nil _).symm⟩
  | cons id ids ih =>
    obtain ⟨hadmission, hids, hbootstraps, new, hnew⟩ :=
      @ih (s.publishAdded now sourceId generation id)
    exact ⟨hadmission, hids, hbootstraps, _, hnew.trans (append_assoc _ _ _)⟩

theorem Once.processContacts [DecidableEq F] [Inhabited F] (h : Once s)
    (hstep : s.processContacts sha256 parse now sourceId act = some t) : Once t := by
  refine ⟨h.toTracked.processContacts hstep, fun automationId revision contact => ?_⟩
  obtain ⟨contacts, _, hstep⟩ := bind_eq_some_iff.mp hstep
  obtain ⟨contacts', _, hstep⟩ := bind_eq_some_iff.mp hstep
  obtain ⟨hadmission, hids, hbootstraps, new, hnew⟩ := @foldl_publishAdded_keeps F
    (s.setContacts sourceId contacts') now sourceId contacts'.generation
      (contacts'.added.drop contacts.added.length)
  obtain rfl := some.inj hstep
  refine (live_of_events h.toTracked hadmission hids hbootstraps (fun id hid => ?_) _ _ _).trans_le
    (h.live_le automationId revision contact)
  rw [hnew]
  show ((s.events ++ new)[id]?).bind _ = _
  rw [getElem?_append_left hid]

theorem Once.receive (h : Once s) (sourceId : String) (event : Contacts.Event F) :
    Once (s.receive sourceId event) := by
  refine ⟨h.toTracked.receive sourceId event, fun automationId revision contact => ?_⟩
  refine le_of_eq_of_le ?_ (h.live_le automationId revision contact)
  unfold State.receive
  split <;> rfl

theorem Once.setMatched (h : Once s) (eventId : ℕ) : Once (s.setMatched eventId) := by
  refine ⟨h.toTracked.setMatched eventId, fun automationId revision contact => ?_⟩
  refine (live_of_events (t := s.setMatched eventId) h.toTracked rfl rfl rfl (fun id _ => ?_)
    _ _ _).trans_le (h.live_le automationId revision contact)
  rw [State.setMatched, getElem?_modify]
  cases s.events[id]? with
  | none => rfl
  | some event =>
    by_cases heq : eventId = id
    · simp [heq]
      rfl
    · simp [heq]

/-! ### Deliveries -/

theorem delivers_of_append (h : Tracked s) {id : ℕ}
    (hdelivery : delivery ∈ s.admission.deliveries) :
    (s.domainEventIds ++ [id])[delivery.id]? = s.domainEventIds[delivery.id]? := by
  refine getElem?_append_left ?_
  have hmem : delivery.id ∈ range s.admission.deliveries.length :=
    h.deliveryIds ▸ mem_map_of_mem hdelivery
  exact h.length_eq ▸ mem_range.mp hmem

theorem live_matchedDelivery (id now : ℕ) (revision : Revision) (outcome : Outcome) (deadline : ℕ) :
    (matchedDelivery id now revision outcome deadline).id = id ∧
      (matchedDelivery id now revision outcome deadline).automationId = revision.automationId ∧
      (matchedDelivery id now revision outcome deadline).revision = revision.revision ∧
      (live (matchedDelivery id now revision outcome deadline).status = true →
        outcome = .pending) := by
  refine ⟨rfl, rfl, rfl, fun hlive => ?_⟩
  cases outcome with
  | pending => rfl
  | suppressed => cases hlive

variable {event : DomainEvent} {evidence : Evidence F} {request : Request} {bootstrap : Bootstrap}

/-- **A delivery** of an event that is the only one about its contact. -/
theorem Once.insertDelivery (h : Once s) (now : ℕ) (hevent : event ∈ s.events)
    (hpending : ∀ contact, event.contact? = some contact → outcome = .pending → ∀ bootstrap ∈
      s.bootstraps, bootstrap.automationId = revision.automationId → bootstrap.revision =
      revision.revision →
      ∀ member ∈ bootstrap.members, member.contactRevisionId.contact ≠ contact) :
    Once (s.insertDelivery now event revision outcome notAfter) := by
  refine ⟨h.toTracked.insertDelivery now hevent revision outcome notAfter, ?_⟩
  intro automationId number contact
  unfold State.insertDelivery
  dsimp only
  split
  · exact h.live_le automationId number contact
  · next hdelivered =>
    generalize hdeadline : (notAfter.map _).getD _ = deadline
    obtain ⟨hid, hautomation, hrevision, hpendingOutcome⟩ :=
      live_matchedDelivery s.admission.deliveries.length now revision outcome deadline
    generalize matchedDelivery s.admission.deliveries.length now revision outcome deadline =
      delivery at hid hautomation hrevision hpendingOutcome ⊢
    have hold : s.admission.deliveries.countP (State.delivers
        { s with
          admission :=
            { s.admission with deliveries := s.admission.deliveries ++ [delivery] }
          domainEventIds := s.domainEventIds ++ [event.id] } automationId number contact) =
        s.admission.deliveries.countP (s.delivers automationId number contact) := by
      refine countP_congr fun other hother => ?_
      simp only [State.delivers, State.contactOf, delivers_of_append h.toTracked hother]
      exact Iff.rfl
    rw [State.live, countP_append, hold, countP_singleton]
    by_cases hlive : State.delivers
        { s with
          admission :=
            { s.admission with deliveries := s.admission.deliveries ++ [delivery] }
          domainEventIds := s.domainEventIds ++ [event.id] } automationId number contact delivery =
            true
    · rw [if_pos hlive]
      simp only [State.delivers, State.contactOf, Bool.and_eq_true, decide_eq_true_eq,
        hautomation, hrevision, hid] at hlive
      obtain ⟨⟨⟨rfl, rfl⟩, hstatus⟩, hcontact⟩ := hlive
      have houtcome := hpendingOutcome hstatus
      obtain ⟨i, hi⟩ := getElem?_of_mem hevent
      have hget : s.events[event.id]? = some event := by rw [h.eventIds i event hi, hi]
      rw [← h.length_eq, getElem?_concat_length, bind_some, hget, bind_some] at hcontact
      have hnone : s.admission.deliveries.countP
          (s.delivers revision.automationId revision.revision contact) = 0 := by
        refine countP_eq_zero.mpr fun other hother hdelivers => hdelivered ?_
        simp only [State.delivers, Bool.and_eq_true, decide_eq_true_eq] at hdelivers
        obtain ⟨⟨hsame, _⟩, habout⟩ := hdelivers
        obtain ⟨found, hfound, habout⟩ := bind_eq_some_iff.mp habout
        obtain ⟨id, hid, hfound⟩ := bind_eq_some_iff.mp hfound
        have heq : found = event :=
          eq_of_nodup_filterMap h.oneEvent (mem_of_getElem? hfound) hevent habout hcontact
        refine List.any_eq_true.mpr ⟨other, hother, ?_⟩
        have hfoundId := h.eventIds id found hfound
        simp [hsame, hid, ← heq, hfoundId]
      have hzero : (s.bootstraps.map
          (·.live revision.automationId revision.revision contact)).sum = 0 := by
        refine List.sum_eq_zero_iff_forall_eq_nat.mpr fun count hcount => ?_
        obtain ⟨bootstrap, hbootstrap, rfl⟩ := mem_map.mp hcount
        refine ite_eq_right_iff.mpr fun hof =>
          countP_eq_zero.mpr fun member hmember hholds => ?_
        refine hpending contact hcontact houtcome bootstrap hbootstrap hof.1 hof.2 member hmember ?_
        exact of_decide_eq_true (Bool.and_eq_true_iff.mp hholds).1
      rw [hnone, hzero]
    · rw [if_neg hlive]
      exact h.live_le automationId number contact

/-! ### Matching -/

theorem find?_evidence_contactKey (h : (s.evidence parse).find? (·.key = key) = some evidence) :
    evidence.contactKey = key.contact := by
  have hkey : evidence.key = key := by simpa using find?_some h
  exact congrArg RevisionKey.contact hkey

/-- What is to be queued as pending, for an event about a contact, has not been captured. -/
theorem judge_pending {sequence : ℕ} (hjudge : s.judge parse env event sequence = some judge)
    (hcontact : event.contact? = some contact)
    (hpending : judge revision = some (.pending, notAfter)) :
    s.captured revision contact sequence = false := by
  unfold State.judge at hjudge
  unfold DomainEvent.contact? at hcontact
  split at hcontact
  · next key hsubject =>
    obtain rfl := some.inj hcontact
    rw [hsubject] at hjudge
    cases heventType : event.eventType with
    | contactAdded =>
      rw [heventType] at hjudge
      obtain ⟨evidence, hevidence, hjudge⟩ := bind_eq_some_iff.mp hjudge
      obtain rfl := some.inj hjudge
      have houtcome := congrArg Prod.fst (some.inj hpending)
      rw [find?_evidence_contactKey hevidence, State.contactOutcome] at houtcome
      split at houtcome
      · cases houtcome
      · split at houtcome
        · cases houtcome
        · next hcaptured => exact Bool.not_eq_true _ ▸ hcaptured
    | schedule =>
      rw [heventType] at hjudge
      obtain rfl := some.inj hjudge
      cases hpending
    | workoutCompleted | placeArrived | placeDeparted | visitEnded =>
      rw [heventType] at hjudge; cases hjudge
  · cases hcontact

theorem deliver_keeps (now : ℕ) (event : DomainEvent)
    (judge : Revision → Option (Outcome × Option ℕ)) (revision : Revision) :
    (s.deliver now event judge revision).events = s.events ∧
      (s.deliver now event judge revision).bootstraps = s.bootstraps := by
  unfold State.deliver
  split
  · exact insertDelivery_keeps now event revision _ _
  · exact ⟨rfl, rfl⟩

/-- **The loop of a matcher.** -/
theorem Once.foldl_deliver (h : Once s) {sequence : ℕ} (hevent : event ∈ s.events)
    (hsequence : event.publicationSequence = some sequence)
    (hjudge : ∀ contact, event.contact? = some contact → ∀ revision notAfter, judge revision = some
      (.pending, notAfter) → s.captured revision contact sequence = false)
    (revisions : List Revision) : Once (revisions.foldl (State.deliver now event judge) s) := by
  induction revisions generalizing s with
  | nil => exact h
  | cons revision revisions ih =>
    obtain ⟨hevents, hbootstraps⟩ := deliver_keeps (s := s) now event judge revision
    refine ih ?_ (hevents ▸ hevent) ?_
    · unfold State.deliver
      split
      · next outcome notAfter hout =>
        refine h.insertDelivery now hevent ?_
        rintro contact hcontact rfl bootstrap hbootstrap hautomation hrevision member hmember rfl
        have hcaptured := hjudge _ hcontact revision notAfter hout
        refine Bool.false_ne_true
          (hcaptured.symm.trans (List.any_eq_true.mpr ⟨bootstrap, hbootstrap, ?_⟩))
        have hle := h.boundary bootstrap hbootstrap member hmember event hevent hcontact _ hsequence
        have hany : (bootstrap.members.any fun other =>
            decide (other.contactRevisionId.contact = member.contactRevisionId.contact)) = true :=
          List.any_eq_true.mpr ⟨member, hmember, decide_eq_true rfl⟩
        simp [hautomation, hrevision, hle, hany]
      · exact h
    · intro contact hcontact other notAfter hout
      rw [State.captured, hbootstraps]
      exact hjudge contact hcontact other notAfter hout

theorem Once.matchNext (h : Once s) (hstep : s.matchNext parse env = some t) : Once t := by
  unfold State.matchNext at hstep
  cases hnext : s.nextEvent with
  | none =>
    rw [hnext] at hstep
    exact some.inj hstep ▸ h
  | some event =>
    rw [hnext] at hstep
    obtain ⟨hevent, _⟩ := nextEvent_mem hnext
    cases hsequence : event.publicationSequence with
    | none =>
      simp only [hsequence] at hstep
      exact some.inj hstep ▸ h.setMatched event.id
    | some sequence =>
      simp only [hsequence] at hstep
      obtain ⟨judge, hjudge, hstep⟩ := bind_eq_some_iff.mp hstep
      obtain ⟨revisions, _, hstep⟩ := bind_eq_some_iff.mp hstep
      obtain rfl := some.inj hstep
      refine (h.foldl_deliver hevent hsequence ?_ revisions).setMatched event.id
      exact fun contact hcontact revision notAfter hout => judge_pending hjudge hcontact hout

/-! ### Snapshots -/

theorem mem_evidence (h : evidence ∈ s.evidence parse) :
    ∃ source ∈ s.sources, source.id = evidence.sourceId ∧
      evidence.contact ∈ source.contacts.contacts := by
  obtain ⟨source, hsource, h⟩ := mem_flatMap.mp h
  obtain ⟨contact, hcontact, h⟩ := mem_flatMap.mp h
  obtain ⟨revision, _, rfl⟩ := mem_map.mp h
  exact ⟨source, hsource, rfl, hcontact⟩

theorem Tracked.has_evidence (hs : Tracked s) (h : evidence ∈ s.evidence parse) :
    s.Has evidence.contactKey := by
  obtain ⟨source, hsource, hid, hcontact⟩ := mem_evidence h
  refine ⟨source.contacts, ?_, ?_⟩
  · obtain ⟨found, hfound⟩ : ∃ found, s.sources.find? (·.id = evidence.sourceId) = some found :=
      isSome_iff_exists.mp (find?_isSome.mpr ⟨source, hsource, by simpa using hid⟩)
    have heq : found = source :=
      inj_on_of_nodup_map hs.sourceIds (mem_of_find?_eq_some hfound) hsource
        ((by simpa using find?_some hfound : found.id = evidence.sourceId).trans hid.symm)
    show (s.sources.find? _).map _ = _
    rw [Evidence.contactKey, hfound, map_some, heq]
  · exact find?_isSome.mpr ⟨evidence.contact, hcontact, by simp [Evidence.contactKey]⟩

def Evidence.newest (evidence : Evidence F) : Bool :=
  evidence.revision.generation = evidence.contact.generation

/-- **A contact has one newest revision.** -/
theorem Tracked.nodup_newest (hs : Tracked s) :
    (((s.evidence parse).filter Evidence.newest).map Evidence.contactKey).Nodup := by
  have hone : ∀ source ∈ s.sources, ∀ contact : Contacts.Contact F,
      (source.contacts.revisions.filter fun revision =>
        revision.generation = contact.generation &&
          revision.sourceContactId = contact.sourceContactId).length ≤ 1 := by
    intro source hsource contact
    rw [← countP_eq_length_filter]
    exact (hs.recorded source hsource).once contact.generation contact.sourceContactId
  have hkeys : ((s.evidence parse).filter Evidence.newest).map Evidence.contactKey =
      s.sources.flatMap fun source => source.contacts.contacts.flatMap fun contact =>
        (source.contacts.revisions.filter fun revision =>
          revision.generation = contact.generation &&
            revision.sourceContactId = contact.sourceContactId).map fun _ =>
              (⟨source.id, contact.sourceContactId⟩ : ContactKey) := by
    simp only [State.evidence, Source.evidence, List.filter_flatMap, List.map_flatMap,
      List.filter_map, List.map_map, List.filter_filter]
    rfl
  rw [hkeys]
  refine nodup_flatMap.mpr ⟨fun source hsource => nodup_flatMap.mpr ⟨?_, ?_⟩, ?_⟩
  · intro contact _
    have hlength := hone source hsource contact
    generalize source.contacts.revisions.filter _ = revisions at hlength ⊢
    match revisions, hlength with
    | [], _ => exact nodup_nil
    | [_], _ => exact nodup_singleton _
  · refine (pairwise_map.mp (hs.recorded source hsource).oneEach).imp ?_
    intro a b hne key hkey hkey'
    obtain ⟨_, _, rfl⟩ := mem_map.mp hkey
    obtain ⟨_, _, heq⟩ := mem_map.mp hkey'
    exact hne (congrArg ContactKey.sourceContactId heq).symm
  · refine (pairwise_map.mp hs.sourceIds).imp ?_
    intro a b hne key hkey hkey'
    obtain ⟨_, _, hkey⟩ := mem_flatMap.mp hkey
    obtain ⟨_, _, rfl⟩ := mem_map.mp hkey
    obtain ⟨_, _, hkey'⟩ := mem_flatMap.mp hkey'
    obtain ⟨_, _, heq⟩ := mem_map.mp hkey'
    exact hne (congrArg ContactKey.sourceId heq).symm

variable {automationId : String} {revision : ℕ} {definition : Definition} {value : Selection}
  {reviewedIDs : Option (List RevisionKey)} {snapshot : List RevisionKey}

theorem selectSnapshot_eq_ok
    (h : s.selectSnapshot parse env automationId revision definition value reviewedIDs =
      .ok snapshot) :
    ∃ selected : List (Evidence F), snapshot = selected.map (·.key) ∧
      Subperm selected ((s.evidence parse).filter
        (s.selects env automationId revision definition value reviewedIDs)) := by
  obtain ⟨_, h⟩ := ok_of_ite h
  obtain rfl := Except.ok.inj h
  exact ⟨_, rfl, (take_sublist _ _).subperm.trans (perm_insertionSort _ _).subperm⟩

/-- **A snapshot has a contact once.** -/
theorem nodup_selectSnapshot (hs : Tracked s)
    (h : s.selectSnapshot parse env automationId revision definition value reviewedIDs =
      .ok snapshot) : (snapshot.map (·.contact)).Nodup := by
  obtain ⟨selected, rfl, hselected⟩ := selectSnapshot_eq_ok h
  have hsub : Sublist ((s.evidence parse).filter
      (s.selects env automationId revision definition value reviewedIDs))
        ((s.evidence parse).filter Evidence.newest) := by
    refine monotone_filter_right _ fun evidence hselects => ?_
    simp only [State.selects, Evidence.current, Bool.and_eq_true] at hselects
    exact hselects.1.1.1.1.1.1.1
  obtain ⟨found, hperm, hsublist⟩ := hselected
  rw [List.map_map]
  refine (hperm.map Evidence.contactKey).nodup_iff.mp ?_
  exact hs.nodup_newest.sublist ((hsublist.trans hsub).map _)

/-- **What a snapshot has is there**, and nothing of it is live if that is left out. -/
theorem not_live_selectSnapshot (hs : Tracked s)
    (h : s.selectSnapshot parse env automationId revision definition value reviewedIDs = .ok
      snapshot) (hkey : key ∈ snapshot) :
    s.Has key.contact ∧ (value.excludePreviouslyDelivered = true →
      s.live automationId revision key.contact = 0) := by
  obtain ⟨selected, rfl, hselected⟩ := selectSnapshot_eq_ok h
  obtain ⟨evidence, hevidence, rfl⟩ := mem_map.mp hkey
  obtain ⟨hmem, hselects⟩ := mem_filter.mp (hselected.subset hevidence)
  refine ⟨hs.has_evidence hmem, fun hexclude => ?_⟩
  simp only [State.selects, hexclude, Bool.not_true, Bool.false_or, Bool.and_eq_true,
    Bool.not_eq_true'] at hselects
  obtain ⟨_, hdelivering, hprocessing⟩ := hselects
  have hdeliveries : s.admission.deliveries.countP
      (s.delivers automationId revision evidence.contactKey) = 0 :=
    countP_eq_zero.mpr fun delivery hdelivery hdelivers =>
      Bool.false_ne_true
        (hdelivering.symm.trans (List.any_eq_true.mpr ⟨delivery, hdelivery, hdelivers⟩))
  have hbootstraps : (s.bootstraps.map
      (·.live automationId revision evidence.contactKey)).sum = 0 := by
    refine List.sum_eq_zero_iff_forall_eq_nat.mpr fun count hcount => ?_
    obtain ⟨bootstrap, hbootstrap, rfl⟩ := mem_map.mp hcount
    refine ite_eq_right_iff.mpr fun hof => countP_eq_zero.mpr fun member hmember hholds => ?_
    refine Bool.false_ne_true
      (hprocessing.symm.trans (List.any_eq_true.mpr ⟨bootstrap, hbootstrap, ?_⟩))
    have hany : bootstrap.members.any (bootstrap.holds evidence.contactKey) = true :=
      List.any_eq_true.mpr ⟨member, hmember, hholds⟩
    simp [hof.1, hof.2, hany]
  show _ + _ = 0
  rw [Evidence.key, hdeliveries, hbootstraps]

/-! ### Captures -/

theorem members_new (id now : ℕ) (automationId : String) (revision : Revision) (request : Request)
    (publicationBoundary : ℕ) (snapshot : List RevisionKey) :
    (Bootstrap.new id now automationId revision request publicationBoundary snapshot).members.map
      (·.contactRevisionId) = snapshot := by
  simp [Bootstrap.new, List.map_map, Function.comp_def]

theorem insertSnapshot_eq_ok
    (h : s.insertSnapshot parse owner env automationId request publicationBoundary = .ok (t,
      bootstrap)) : ∃ (row : Revision) (snapshot : List RevisionKey),
      s.selectSnapshot parse env automationId row.revision row.definition request.value.toSelection
        (request.reviewed.map (·.contactRevisionIds)) = .ok snapshot ∧
      bootstrap = Bootstrap.new s.bootstraps.length env.now automationId row request
        publicationBoundary snapshot ∧
      (row ∈ s.revisions ∧ row.automationId = automationId ∧
        ∀ review, request.reviewed = some review →
          review.current owner automationId row row.grantVersion = true ∧
            snapshot = review.contactRevisionIds) ∧
      t = { s with bootstraps := s.bootstraps ++ [bootstrap] } := by
  unfold State.insertSnapshot at h
  cases hactive : (s.rule? automationId).bind (·.activeRevision) with
  | none => simp only [hactive] at h; cases h
  | some activeRevision =>
    simp only [hactive] at h
    cases hfind : s.revisions.find? fun revision =>
        decide (revision.automationId = automationId) && decide (revision.revision = activeRevision)
        with
    | none => simp only [hfind] at h; cases h
    | some row =>
      simp only [hfind] at h
      obtain ⟨_, h⟩ := ok_of_ite h
      cases hgrant : row.granted env with
      | none => simp only [hgrant] at h; cases h
      | some grant =>
        simp only [hgrant] at h
        obtain ⟨hcurrent, h⟩ := ok_of_ite h
        obtain ⟨snapshot, hsnapshot, h⟩ := ok_of_bind h
        obtain ⟨hsame, h⟩ := ok_of_ite h
        obtain ⟨rfl, rfl⟩ := Prod.mk.inj (Except.ok.inj h)
        have hautomation := find?_some hfind
        simp only [Bool.and_eq_true, decide_eq_true_eq] at hautomation
        refine ⟨row, snapshot, hsnapshot, rfl, ⟨mem_of_find?_eq_some hfind, hautomation.1,
          fun review hreview => ?_⟩, rfl⟩
        have hversion := (filter_eq_some_iff.mp hgrant).2
        simp only [Bool.and_eq_true, decide_eq_true_eq] at hversion
        simp only [hreview, any_some, Bool.not_eq_true', decide_eq_true_eq, ne_eq, not_not,
          Bool.not_eq_false] at hcurrent hsame
        exact ⟨hversion.1.1 ▸ hcurrent, hsame⟩

/-- **A capture.** Nothing that it takes is live, and it takes a contact once. -/
theorem Once.insertSnapshot (h : Once s)
    (hexclude : request.value.excludePreviouslyDelivered = true)
    (hstep : s.insertSnapshot parse owner env automationId request s.publicationSequence = .ok (t,
      bootstrap)) : Once t := by
  obtain ⟨row, snapshot, hsnapshot, hbootstrap, _, rfl⟩ := insertSnapshot_eq_ok hstep
  have hkeys : bootstrap.members.map (·.contactRevisionId) = snapshot :=
    hbootstrap ▸ members_new ..
  have hnodup : (bootstrap.members.map (·.contactRevisionId.contact)).Nodup := by
    have hcontacts := nodup_selectSnapshot h.toTracked hsnapshot
    rw [← hkeys, List.map_map] at hcontacts
    exact hcontacts
  have hmember : ∀ member ∈ bootstrap.members, s.Has member.contactRevisionId.contact ∧
      s.live automationId row.revision member.contactRevisionId.contact = 0 := by
    intro member hmember
    have hin : member.contactRevisionId ∈ snapshot := hkeys ▸ mem_map_of_mem hmember
    obtain ⟨hhas, hlive⟩ := not_live_selectSnapshot h.toTracked hsnapshot hin
    exact ⟨hhas, hlive hexclude⟩
  have hof : bootstrap.automationId = automationId ∧ bootstrap.revision = row.revision ∧
      bootstrap.publicationBoundary = s.publicationSequence ∧ bootstrap.id = s.bootstraps.length ∧
      (bootstrap.groups.map (·.groupIndex)).Nodup := by
    subst hbootstrap
    refine ⟨rfl, rfl, rfl, rfl, ?_⟩
    simp only [Bootstrap.new, List.map_map, Function.comp_def, List.map_id']
    exact List.nodup_range
  obtain ⟨hautomation, hrevision, hboundary, hid, hgroups⟩ := hof
  refine ⟨{ h.toTracked with
    bootstrapIds := ?_, groupIndexes := ?_, members := ?_, hasMember := ?_, boundary := ?_ }, ?_⟩
  · intro i other hother
    rcases Nat.lt_or_ge i s.bootstraps.length with hlt | hge
    · rw [getElem?_append_left hlt] at hother
      exact h.bootstrapIds i other hother
    · have hlast : i = s.bootstraps.length := by
        have hlt := (List.getElem?_eq_some_iff.mp hother).1
        rw [length_append, length_singleton] at hlt
        omega
      rw [hlast, getElem?_concat_length] at hother
      rw [← some.inj hother, hid, hlast]
  · exact forall_mem_append.mpr ⟨h.groupIndexes, forall_mem_singleton.mpr hgroups⟩
  · exact forall_mem_append.mpr ⟨h.members, forall_mem_singleton.mpr hnodup⟩
  · exact forall_mem_append.mpr
      ⟨h.hasMember, forall_mem_singleton.mpr fun member hin => (hmember member hin).1⟩
  · refine forall_mem_append.mpr ⟨h.boundary, forall_mem_singleton.mpr ?_⟩
    intro member _ event hevent _ n hn
    exact hboundary ▸ h.sequence_le event hevent n hn
  · intro id number contact
    have hlive : State.live { s with bootstraps := s.bootstraps ++ [bootstrap] } id number contact =
        s.live id number contact + bootstrap.live id number contact := by
      simp only [State.live, map_append, map_singleton, sum_append, sum_singleton, Nat.add_assoc]
      rfl
    rw [hlive]
    by_cases hzero : bootstrap.live id number contact = 0
    · rw [hzero]
      exact h.live_le id number contact
    · have hone : bootstrap.live id number contact ≤ 1 := by
        have hcount := nodup_iff_count_le_one.mp hnodup contact
        rw [count, countP_map] at hcount
        unfold Bootstrap.live
        split
        · refine (countP_mono_left fun member _ hholds => ?_).trans hcount
          simpa using (Bool.and_eq_true_iff.mp hholds).1
        · exact Nat.zero_le 1
      obtain ⟨rfl, rfl, member, hin, rfl⟩ : bootstrap.automationId = id ∧
          bootstrap.revision = number ∧ ∃ member ∈ bootstrap.members,
            member.contactRevisionId.contact = contact := by
        unfold Bootstrap.live at hzero
        split at hzero
        · next hthis =>
          obtain ⟨member, hin, hholds⟩ := countP_pos_iff.mp (Nat.pos_of_ne_zero hzero)
          refine ⟨hthis.1, hthis.2, member, hin, ?_⟩
          exact of_decide_eq_true (Bool.and_eq_true_iff.mp hholds).1
        · exact absurd rfl hzero
      rw [hautomation, hrevision, (hmember member hin).2, Nat.zero_add, ← hautomation, ← hrevision]
      exact hone

/-- A capture gets the bootstrap that has its key, or inserts one, from the rule as it is or as the
request activates it. -/
theorem captureInTransaction_eq_ok
    (h : s.captureInTransaction parse owner env automationId request = .ok (t, bootstrap)) :
    t = s ∧ bootstrap ∈ s.bootstraps ∧ bootstrap.request = request ∨
      (∀ other ∈ s.bootstraps, other.request.value.idempotencyKey ≠ request.value.idempotencyKey) ∧
      ∃ activated, (request.activation = none ∧ activated = s ∨ ∃ activation,
          request.activation = some activation ∧
            s.activateInTransaction env automationId activation = .ok activated) ∧
        activated.insertSnapshot parse owner env automationId request s.publicationSequence =
          .ok (t, bootstrap) := by
  unfold State.captureInTransaction at h
  obtain ⟨_, h⟩ := ok_of_ite h
  cases hrule : s.rule? automationId with
  | none => simp only [hrule] at h; cases h
  | some rule =>
    simp only [hrule] at h
    cases hfound : s.bootstraps.find? fun other =>
        decide (other.request.value.idempotencyKey = request.value.idempotencyKey) with
    | some existing =>
      simp only [hfound] at h
      obtain ⟨hsame, h⟩ := ok_of_ite h
      obtain ⟨rfl, rfl⟩ := Prod.mk.inj (Except.ok.inj h)
      rw [not_or, not_not, not_not] at hsame
      exact .inl ⟨rfl, mem_of_find?_eq_some hfound, hsame.2⟩
    | none =>
      simp only [hfound] at h
      refine .inr ⟨fun other hother heq =>
        find?_eq_none.mp hfound other hother (decide_eq_true heq), ?_⟩
      obtain ⟨_, h⟩ := ok_of_ite h
      obtain ⟨_, h⟩ := ok_of_ite h
      cases hactivation : request.activation with
      | none =>
        simp only [hactivation] at h
        exact ⟨s, .inl ⟨rfl, rfl⟩, h⟩
      | some activation =>
        simp only [hactivation] at h
        obtain ⟨activated, hactivated, h⟩ := ok_of_bind h
        exact ⟨activated, .inr ⟨activation, rfl, hactivated⟩, h⟩

theorem Once.captureInTransaction (h : Once s)
    (hexclude : request.value.excludePreviouslyDelivered = true)
    (hstep : s.captureInTransaction parse owner env automationId request = .ok (t, bootstrap)) :
    Once t := by
  obtain ⟨rfl, -⟩ | ⟨-, activated, ⟨-, rfl⟩ | ⟨activation, -, hactivated⟩, hinserted⟩ :=
    captureInTransaction_eq_ok hstep
  · exact h
  · exact h.insertSnapshot hexclude hinserted
  · have hreduces := reduces_activate hactivated
    rw [← hreduces.publicationSequence] at hinserted
    exact (h.reduces hreduces).insertSnapshot hexclude hinserted

theorem Once.commit {ε : Type} (h : Once s) {x : Except ε (State F)}
    (hx : ∀ t, x = .ok t → Once t) : Once (s.commit x) := by
  cases x with
  | ok t => exact hx t rfl
  | error => exact h

/-! ### Runs -/

variable [DecidableEq F] [Inhabited F]

/-- What other components publish is not about contacts, and not about schedules. -/
theorem publish_eq_some (h : step sha256 parse owner s (.publish now eventType subject) = some t) :
    s.publish now eventType subject = t ∧ eventType ≠ .schedule ∧
      ∀ key, subject ≠ .contact key := by
  simp only [step] at h
  split at h
  · exact ⟨some.inj h, by decide, fun _ heq => nomatch heq⟩
  · exact ⟨some.inj h, by decide, fun _ heq => nomatch heq⟩
  · exact ⟨some.inj h, by decide, fun _ heq => nomatch heq⟩
  · exact ⟨some.inj h, by decide, fun _ heq => nomatch heq⟩
  · cases h

/-- **One transaction.** -/
theorem Once.step (h : Once s) {act : Act F} (hexclude : act.excludes = true)
    (hstep : step sha256 parse owner s act = some t) : Once t := by
  cases act with
  | receive sourceId event => exact some.inj hstep ▸ h.receive sourceId event
  | processContacts now sourceId act => exact h.processContacts hstep
  | publish now eventType subject =>
    obtain ⟨hstep, _, hsubject⟩ := publish_eq_some hstep
    exact hstep ▸ h.publish now eventType fun key heq => absurd heq (hsubject key)
  | create => exact some.inj hstep ▸ h.reduces (.commit fun _ => reduces_create)
  | update => exact some.inj hstep ▸ h.reduces (.commit fun _ => reduces_update)
  | activate => exact some.inj hstep ▸ h.reduces (.commit fun _ => reduces_activate)
  | pause => exact some.inj hstep ▸ h.reduces (.commit fun _ => reduces_pause)
  | delete => exact some.inj hstep ▸ h.reduces (.commit fun _ => reduces_delete)
  | capture env automationId value activation =>
    refine some.inj hstep ▸ h.commit fun u hu => ?_
    obtain ⟨⟨_, bootstrap⟩, hcapture, rfl⟩ := ok_of_map hu
    exact h.captureInTransaction hexclude hcapture
  | captureReviewed env reviewed idempotencyKey =>
    refine some.inj hstep ▸ h.commit fun u hu => ?_
    obtain ⟨⟨_, bootstrap⟩, hcapture, rfl⟩ := ok_of_map hu
    obtain ⟨_, hcapture⟩ := ok_of_ite hcapture
    exact h.captureInTransaction hexclude hcapture
  | cancel => exact some.inj hstep ▸ h.reduces (.commit fun _ => reduces_cancel)
  | matchNext => exact h.matchNext hstep
  | admitDelivery => exact h.reduces (reduces_admitDelivery h.distinct hstep)
  | admitGroup =>
    exact some.inj hstep ▸ h.reduces (reduces_admitGroup h.bootstrapIds h.groupIndexes)
  | progress id progress =>
    obtain ⟨run, _, hstep⟩ := bind_eq_some_iff.mp hstep
    obtain ⟨run', _, hstep⟩ := bind_eq_some_iff.mp hstep
    exact some.inj hstep ▸ h.reduces (reduces_runs _)

/-- **A contact is handled once for a revision of a rule**, in every run whose captures leave out
what has been delivered: at most one of its deliveries and memberships in groups is pending or
admitted. -/
theorem handled_once (sha256 : String → String) (parse : String → ℕ) (owner : String)
    (acts : List (Act F)) (s : State F) (hexclude : ∀ act ∈ acts, act.excludes = true)
    (h : Runs.run (Automations.step sha256 parse owner) acts init = some s)
    (automationId : String) (revision : ℕ) (contact : ContactKey) :
    s.live automationId revision contact ≤ 1 := by
  have halong : Runs.Along (Automations.step sha256 parse owner) (fun _ act => act.excludes = true)
      acts init :=
    Runs.along_iff_forall_split.mpr fun bs act cs t heq _ =>
      hexclude act (heq ▸ mem_append_right bs mem_cons_self)
  exact (Runs.invariant_along (fun _ _ _ hs hok hstep => hs.step hok hstep) halong h
    once_init).live_le automationId revision contact

/-! ### A contact that is captured before its event is matched -/

open Contacts (exampleSha256 exampleFirst exampleRow) in
def exampleScan : Contacts.Scan String :=
  let context := { exampleFirst with scanMode := .incremental }
  let row := exampleRow "0b9f6c1e-4d2a-4f57-9c3b-1a2b3c4d5e6f" context "ann" "Ann"
  { context
    manifestEventId := "2f1e0d9c-8b7a-4695-8473-625140302010"
    rows := [{ row with payload := { row.payload with newlyObserved := true } }] }

def exampleDefinition : Definition :=
  { Admission.exampleDefinition with
    eventType := .contactAdded
    dataAccess := { scopes := ["contacts.read"], historyDays := 30 }
    latestStartSeconds := 3600
    sourceIds := []
    placeIds := []
    workoutFilter := { activityTypes := [], minDurationMinutes := 0 }
    visitFilter := { placeIds := [], minDurationMinutes := 0 }
    maxEventAgeSeconds := 300 }

/-- Everything is in order, and nothing is found elsewhere. -/
def exampleEnv : Env String :=
  { Admission.exampleEnv with
    grant := some { version := 1, scopes := ["contacts.read"], historyDays := 365 }
    available := fun _ => true
    validateTargets := fun _ => .ok ()
    contactId := fun _ => 0
    ilike := fun _ _ => true
    workout := fun _ => none
    visit := fun _ => none
    occurredAt := fun _ => none
    placeDeleted := fun _ => false }

def exampleInput (idempotencyKey : String) : Input :=
  { expectedVersion := 1
    sourceIds := []
    search := ""
    maxContacts := 100
    mode := .batched
    excludePreviouslyDelivered := true
    idempotencyKey
    acknowledgeRepeatedActions := false }

/-- A rule is activated, a contact is added, and two captures come before its event is matched. -/
def exampleCaptures : List (Act String) :=
  [Act.create exampleEnv "rule" exampleDefinition,
   .activate exampleEnv "rule" { expectedVersion := 0, expectedGrantVersion := 1 }] ++
  (exampleScan.events Contacts.exampleSha256).flatMap (fun event =>
    [Act.receive "phone" event, .processContacts 100 "phone" (.process event)]) ++
  [Act.processContacts 100 "phone" (.publish false 1 exampleScan.rows),
   .capture exampleEnv "rule" (exampleInput "first") none,
   .capture exampleEnv "rule" (exampleInput "second") none,
   .matchNext exampleEnv,
   .admitGroup exampleEnv]

theorem handled_once_captured :
    ∃ s, Runs.run (step Contacts.exampleSha256 (fun _ => 100) "owner") exampleCaptures init =
        some s ∧
      s.bootstraps.map (·.memberCount) = [1, 0] ∧
      s.admission.deliveries.map (·.outcomeCode) = [some "bootstrap_snapshot_selected"] ∧
      0 < s.live "rule" 1 ⟨"phone", "ann"⟩ ∧ s.live "rule" 1 ⟨"phone", "ann"⟩ ≤ 1 := by
  obtain ⟨s, hrun, hcounts, hcodes, hlive⟩ :
      ∃ s, Runs.run (step Contacts.exampleSha256 (fun _ => 100) "owner") exampleCaptures init =
        some s ∧ s.bootstraps.map (·.memberCount) = [1, 0] ∧
          s.admission.deliveries.map (·.outcomeCode) = [some "bootstrap_snapshot_selected"] ∧
          0 < s.live "rule" 1 ⟨"phone", "ann"⟩ :=
    Runs.exists_end (by decide)
  exact ⟨s, hrun, hcounts, hcodes, hlive, handled_once Contacts.exampleSha256 (fun _ => 100) "owner"
    exampleCaptures s (by decide) hrun "rule" 1 ⟨"phone", "ann"⟩⟩

end Bud.Automations
