import Bud.PersonalData.WorkItems

/-!
# What the tables keep to

There is one event about a contact, since it is published with the contact, and a bootstrap can only
have captured the contact after that: its boundary is at or after the event's number (`Tracked`).
-/

namespace Bud.Automations

open List Option

variable {F : Type} {sha256 : String → String} {parse : String → ℕ} {owner : String}
  {s t u : State F} {env : Env F}

/-! ### The tables -/

def State.Has (s : State F) (contact : ContactKey) : Prop :=
  ∃ contacts, s.contacts? contact.sourceId = some contacts ∧ contacts.Has contact.sourceContactId

/-- What the tables keep to. There is one event about a contact, and what has captured the contact
has a boundary at or after it. -/
structure Tracked (s : State F) : Prop where
  sourceIds : (s.sources.map (·.id)).Nodup
  recorded : ∀ source ∈ s.sources, Contacts.Recorded source.contacts
  deliveryIds : s.admission.deliveries.map (·.id) = List.range s.admission.deliveries.length
  length_eq : s.domainEventIds.length = s.admission.deliveries.length
  lt_length : ∀ id ∈ s.domainEventIds, id < s.events.length
  eventIds : ∀ (i : ℕ) (event : DomainEvent), s.events[i]? = some event → event.id = i
  sequence_le : ∀ event ∈ s.events, ∀ n, event.publicationSequence = some n →
    n ≤ s.publicationSequence
  has : ∀ event ∈ s.events, ∀ contact, event.contact? = some contact → s.Has contact
  oneEvent : (s.events.filterMap DomainEvent.contact?).Nodup
  bootstrapIds : ∀ (i : ℕ) (bootstrap : Bootstrap), s.bootstraps[i]? = some bootstrap →
    bootstrap.id = i
  groupIndexes : ∀ bootstrap ∈ s.bootstraps, (bootstrap.groups.map (·.groupIndex)).Nodup
  members : ∀ bootstrap ∈ s.bootstraps,
    (bootstrap.members.map (·.contactRevisionId.contact)).Nodup
  hasMember : ∀ bootstrap ∈ s.bootstraps, ∀ member ∈ bootstrap.members,
    s.Has member.contactRevisionId.contact
  boundary : ∀ bootstrap ∈ s.bootstraps, ∀ member ∈ bootstrap.members, ∀ event ∈ s.events,
    event.contact? = some member.contactRevisionId.contact → ∀ n,
      event.publicationSequence = some n → n ≤ bootstrap.publicationBoundary

theorem tracked_init : Tracked (init : State F) where
  sourceIds := nodup_nil
  recorded _ h := nomatch h
  deliveryIds := rfl
  length_eq := rfl
  lt_length _ h := nomatch h
  eventIds _ _ h := nomatch h
  sequence_le _ h := nomatch h
  has _ h := nomatch h
  oneEvent := nodup_nil
  bootstrapIds _ _ h := nomatch h
  groupIndexes _ h := nomatch h
  members _ h := nomatch h
  hasMember _ h := nomatch h
  boundary _ h := nomatch h

theorem Tracked.distinct (h : Tracked s) : Admission.Distinct s.admission := by
  rw [Admission.Distinct, h.deliveryIds]
  exact nodup_range

theorem Tracked.reduces (h : Tracked s) (hreduces : Reduces s t) : Tracked t := by
  have hhas : ∀ contact, s.Has contact → t.Has contact := by
    rintro contact ⟨contacts, hcontacts, hin⟩
    exact ⟨contacts, by rw [State.contacts?, hreduces.sources]; exact hcontacts, hin⟩
  have hlength := hreduces.deliveries.length_eq
  constructor
  · rw [hreduces.sources]
    exact h.sourceIds
  · rw [hreduces.sources]
    exact h.recorded
  · rw [Pointwise.map_eq (fun _ _ hsame => hsame.id) hreduces.deliveries, ← hlength]
    exact h.deliveryIds
  · rw [hreduces.domainEventIds, ← hlength]
    exact h.length_eq
  · rw [hreduces.domainEventIds, hreduces.events]
    exact h.lt_length
  · rw [hreduces.events]
    exact h.eventIds
  · rw [hreduces.events, hreduces.publicationSequence]
    exact h.sequence_le
  · rw [hreduces.events]
    exact fun event hevent contact hcontact => hhas contact (h.has event hevent contact hcontact)
  · rw [hreduces.events]
    exact h.oneEvent
  · intro i bootstrap hbootstrap
    obtain ⟨before, hbefore, hsame⟩ := Pointwise.getElem?_right hreduces.bootstraps hbootstrap
    exact hsame.id.trans (h.bootstrapIds i before hbefore)
  · intro bootstrap hbootstrap
    obtain ⟨before, hbefore, hsame⟩ := Pointwise.mem_right hreduces.bootstraps hbootstrap
    rw [Pointwise.map_eq (fun _ _ hgroup => hgroup.groupIndex) hsame.groups]
    exact h.groupIndexes before hbefore
  · intro bootstrap hbootstrap
    obtain ⟨before, hbefore, hsame⟩ := Pointwise.mem_right hreduces.bootstraps hbootstrap
    rw [hsame.members]
    exact h.members before hbefore
  · intro bootstrap hbootstrap member hmember
    obtain ⟨before, hbefore, hsame⟩ := Pointwise.mem_right hreduces.bootstraps hbootstrap
    exact hhas _ (h.hasMember before hbefore member (hsame.members ▸ hmember))
  · intro bootstrap hbootstrap member hmember event hevent hcontact n hn
    obtain ⟨before, hbefore, hsame⟩ := Pointwise.mem_right hreduces.bootstraps hbootstrap
    rw [hsame.publicationBoundary]
    exact h.boundary before hbefore member (hsame.members ▸ hmember) event
      (hreduces.events ▸ hevent) hcontact n hn

/-! ### Contacts and events -/

/-- Nothing but the contacts of sources has been written, and none of them is gone. -/
theorem Tracked.of_sources (h : Tracked s) (ht : t = { s with sources := t.sources })
    (hids : (t.sources.map (·.id)).Nodup)
    (hrecorded : ∀ source ∈ t.sources, Contacts.Recorded source.contacts)
    (hhas : ∀ contact, s.Has contact → t.Has contact) : Tracked t := by
  rw [ht] at hhas ⊢
  exact { h with
    sourceIds := hids
    recorded := hrecorded
    has := fun event hevent contact hcontact => hhas contact (h.has event hevent contact hcontact)
    hasMember := fun bootstrap hbootstrap member hmember =>
      hhas _ (h.hasMember bootstrap hbootstrap member hmember) }

theorem ids_setContacts (sourceId : String) (contacts : Contacts.State F) :
    (s.setContacts sourceId contacts).sources.map (·.id) = s.sources.map (·.id) := by
  rw [State.setContacts, List.map_map]
  refine map_congr_left fun source _ => ?_
  simp only [Function.comp_apply]
  split <;> rfl

theorem contacts?_setContacts (sourceId other : String) (contacts : Contacts.State F) :
    (s.setContacts sourceId contacts).contacts? other =
      (s.contacts? other).map fun before => if other = sourceId then contacts else before := by
  rw [State.contacts?, State.contacts?, State.setContacts, find?_map, Option.map_map,
    Option.map_map]
  have hsame : ((fun source : Source F => decide (source.id = other)) ∘ fun source =>
      if source.id = sourceId then { source with contacts } else source) =
        fun source => decide (source.id = other) := by
    funext source
    simp only [Function.comp_apply]
    split <;> rfl
  rw [hsame]
  cases hfound : s.sources.find? fun source => decide (source.id = other) with
  | none => rfl
  | some source =>
    have hid : source.id = other := by simpa using find?_some hfound
    simp only [map_some, Function.comp_apply, hid]
    split <;> rfl

variable {sourceId : String} {contacts : Contacts.State F}

theorem has_setContacts (hget : s.contacts? sourceId = some contacts)
    (hkept : ∀ id, contacts.Has id → contacts'.Has id) (h : s.Has contact) :
    (s.setContacts sourceId contacts').Has contact := by
  obtain ⟨before, hbefore, hin⟩ := h
  by_cases heq : contact.sourceId = sourceId
  · refine ⟨contacts', by rw [contacts?_setContacts, hbefore, map_some, if_pos heq], ?_⟩
    rw [heq, hget] at hbefore
    exact hkept _ (some.inj hbefore ▸ hin)
  · exact ⟨before, by rw [contacts?_setContacts, hbefore, map_some, if_neg heq], hin⟩

theorem contacts?_eq_some (h : s.contacts? sourceId = some contacts) :
    ∃ source ∈ s.sources, source.id = sourceId ∧ source.contacts = contacts := by
  obtain ⟨source, hsource, rfl⟩ := map_eq_some_iff.mp h
  exact ⟨source, mem_of_find?_eq_some hsource, by simpa using find?_some hsource, rfl⟩

theorem Tracked.setContacts (h : Tracked s) (hget : s.contacts? sourceId = some contacts)
    (hrecorded : Contacts.Recorded contacts') (hkept : ∀ id, contacts.Has id → contacts'.Has id) :
    Tracked (s.setContacts sourceId contacts') := by
  refine h.of_sources rfl ?_ (fun source hsource => ?_) fun _ => has_setContacts hget hkept
  · rw [ids_setContacts]
    exact h.sourceIds
  · obtain ⟨before, hbefore, rfl⟩ := mem_map.mp hsource
    split
    · exact hrecorded
    · exact h.recorded before hbefore

theorem Tracked.receive (h : Tracked s) (sourceId : String) (event : Contacts.Event F) :
    Tracked (s.receive sourceId event) := by
  unfold State.receive
  cases hget : s.contacts? sourceId with
  | some contacts =>
    obtain ⟨source, hsource, _, rfl⟩ := contacts?_eq_some hget
    have hrecorded := h.recorded source hsource
    exact h.setContacts hget (hrecorded.of_scans rfl hrecorded.manifest) fun _ hin => hin
  | none =>
    have hnot : ∀ source ∈ s.sources, source.id ≠ sourceId := by
      intro source hsource heq
      rw [State.contacts?, map_eq_none_iff, find?_eq_none] at hget
      exact hget source hsource (by simpa using heq)
    refine h.of_sources rfl ?_ ?_ ?_
    · rw [map_append]
      refine nodup_append.mpr ⟨h.sourceIds, nodup_singleton _, ?_⟩
      intro id hid other hother heq
      obtain ⟨source, hsource, rfl⟩ := mem_map.mp hid
      obtain rfl := mem_singleton.mp hother
      exact hnot source hsource heq
    · exact forall_mem_append.mpr ⟨h.recorded, forall_mem_singleton.mpr (Contacts.recorded_init _)⟩
    · rintro contact ⟨contacts, hcontacts, hin⟩
      refine ⟨contacts, ?_, hin⟩
      obtain ⟨source, hsource, rfl⟩ := map_eq_some_iff.mp hcontacts
      rw [State.contacts?, find?_append, hsource]
      rfl

/-- A contact that has not been heard of by rules. -/
structure Unheard (s : State F) (contact : ContactKey) : Prop where
  event : ∀ event ∈ s.events, event.contact? ≠ some contact
  member : ∀ bootstrap ∈ s.bootstraps, ∀ member ∈ bootstrap.members,
    member.contactRevisionId.contact ≠ contact

theorem Tracked.unheard (h : Tracked s) (hnot : ¬ s.Has contact) : Unheard s contact := by
  constructor
  · exact fun event hevent hcontact => hnot (h.has event hevent contact hcontact)
  · rintro bootstrap hbootstrap member hmember rfl
    exact hnot (h.hasMember bootstrap hbootstrap member hmember)

/-- **The next event.** It is the only one about its contact, if it is about one. -/
theorem Tracked.publish (h : Tracked s) (now : ℕ) (eventType : Admission.EventType)
    (hsubject : ∀ key, subject = .contact key → s.Has key.contact ∧ Unheard s key.contact) :
    Tracked (s.publish now eventType subject) := by
  have hnew : ∀ contact, DomainEvent.contact?
      { id := s.events.length, eventType, subject, pending := true,
        publicationSequence := some (s.publicationSequence + 1), publishedAt := now } =
          some contact → s.Has contact ∧ Unheard s contact := by
    intro contact hcontact
    cases subject with
    | contact key => exact some.inj hcontact ▸ hsubject key rfl
    | workout | visit | presence => cases hcontact
  refine { h with
    lt_length := ?_, eventIds := ?_, sequence_le := ?_, has := ?_, oneEvent := ?_, boundary := ?_ }
  · intro id hid
    have hlt := h.lt_length id hid
    simp only [State.publish, length_append, length_singleton]
    omega
  · intro i event hevent
    rcases getElem?_append .. ▸ hevent with hevent
    split at hevent
    · exact h.eventIds i event hevent
    · next hge =>
      obtain ⟨hlt, rfl⟩ := List.getElem?_eq_some_iff.mp hevent
      have : i - s.events.length = 0 := by simpa using hlt
      simp only [getElem_singleton]
      omega
  · intro event hevent n hn
    rcases mem_append.mp hevent with hevent | hevent
    · exact (h.sequence_le event hevent n hn).trans (Nat.le_succ _)
    · obtain rfl := mem_singleton.mp hevent
      exact (some.inj hn).ge
  · intro event hevent contact hcontact
    rcases mem_append.mp hevent with hevent | hevent
    · exact h.has event hevent contact hcontact
    · obtain rfl := mem_singleton.mp hevent
      exact (hnew contact hcontact).1
  · simp only [State.publish, filterMap_append, nodup_append]
    refine ⟨h.oneEvent, ?_, ?_⟩
    · rw [filterMap_cons]
      split
      · exact nodup_nil
      · exact nodup_singleton _
    · rintro contact hcontact _ hother rfl
      obtain ⟨event, hevent, hcontact⟩ := mem_filterMap.mp hcontact
      obtain ⟨other, hother, hothercontact⟩ := mem_filterMap.mp hother
      obtain rfl := mem_singleton.mp hother
      exact (hnew contact hothercontact).2.event event hevent hcontact
  · intro bootstrap hbootstrap member hmember event hevent hcontact n hn
    rcases mem_append.mp hevent with hevent | hevent
    · exact h.boundary bootstrap hbootstrap member hmember event hevent hcontact n hn
    · obtain rfl := mem_singleton.mp hevent
      exact absurd rfl ((hnew _ hcontact).2.member bootstrap hbootstrap member hmember)

theorem Tracked.publishAdded (now : ℕ) (sourceId : String) (generation : ℕ) {ids : List String}
    (h : Tracked s) (hnodup : ids.Nodup)
    (hids : ∀ id ∈ ids, s.Has ⟨sourceId, id⟩ ∧ Unheard s ⟨sourceId, id⟩) :
    Tracked (ids.foldl (State.publishAdded now sourceId generation) s) := by
  induction ids generalizing s with
  | nil => exact h
  | cons id ids ih =>
    obtain ⟨hid, hnodup⟩ := nodup_cons.mp hnodup
    obtain ⟨hfirst, hids⟩ := forall_mem_cons.mp hids
    refine ih (h.publish now .contactAdded ?_) hnodup fun other hother => ?_
    · rintro key heq
      cases heq
      exact hfirst
    · refine ⟨(hids other hother).1, fun event hevent => ?_, (hids other hother).2.member⟩
      rcases mem_append.mp hevent with hevent | hevent
      · exact (hids other hother).2.event event hevent
      · obtain rfl := mem_singleton.mp hevent
        intro heq
        have hsame : id = other := congrArg ContactKey.sourceContactId (some.inj heq)
        exact hid (hsame ▸ hother)

/-- **A step of the contact processor.** A contact that it adds was not there, so no rule has heard
of it. -/
theorem Tracked.processContacts [DecidableEq F] [Inhabited F] (h : Tracked s) {now : ℕ}
    (hstep : s.processContacts sha256 parse now sourceId act = some t) : Tracked t := by
  obtain ⟨contacts, hget, hstep⟩ := bind_eq_some_iff.mp hstep
  obtain ⟨contacts', hcontacts', hstep⟩ := bind_eq_some_iff.mp hstep
  obtain rfl := some.inj hstep
  obtain ⟨source, hsource, hid, rfl⟩ := contacts?_eq_some hget
  obtain ⟨hrecorded, new, hnew⟩ := Contacts.step_keeps (h.recorded source hsource) hcontacts'
  have hdrop : contacts'.added.drop source.contacts.added.length = new := by
    rw [hnew.added]
    exact drop_left
  rw [hdrop]
  refine (h.setContacts hget hrecorded hnew.kept).publishAdded now sourceId _ hnew.nodup ?_
  intro id hid
  constructor
  · refine ⟨contacts', ?_, hnew.has id hid⟩
    rw [contacts?_setContacts, hget, map_some, if_pos rfl]
  · have hnot : ¬ s.Has ⟨sourceId, id⟩ := by
      rintro ⟨before, hbefore, hin⟩
      rw [hget] at hbefore
      exact hnew.fresh id hid (some.inj hbefore ▸ hin)
    exact ⟨(h.unheard hnot).event, (h.unheard hnot).member⟩

/-! ### Deliveries -/

theorem eq_of_nodup_filterMap {α β : Type} {f : α → Option β} {l : List α}
    (h : (l.filterMap f).Nodup) {a b : α} (ha : a ∈ l) (hb : b ∈ l) {c : β} (hfa : f a = some c)
    (hfb : f b = some c) : a = b := by
  induction l with
  | nil => cases ha
  | cons first l ih =>
    have htail : (l.filterMap f).Nodup :=
      h.sublist (List.Sublist.filterMap f (sublist_cons_self first l))
    have hhead : f first = some c → c ∉ l.filterMap f := by
      intro hfirst
      rw [filterMap_cons_some hfirst] at h
      exact (nodup_cons.mp h).1
    rcases mem_cons.mp ha with rfl | hina
    · rcases mem_cons.mp hb with rfl | hinb
      · rfl
      · exact absurd (mem_filterMap.mpr ⟨b, hinb, hfb⟩) (hhead hfa)
    · rcases mem_cons.mp hb with rfl | hinb
      · exact absurd (mem_filterMap.mpr ⟨a, hina, hfa⟩) (hhead hfb)
      · exact ih htail hina hinb

theorem Tracked.insertDelivery (h : Tracked s) (now : ℕ) (hevent : event ∈ s.events)
    (revision : Revision) (outcome : Outcome) (notAfter : Option ℕ) :
    Tracked (s.insertDelivery now event revision outcome notAfter) := by
  unfold State.insertDelivery
  dsimp only
  split
  · exact h
  · refine { h with deliveryIds := ?_, length_eq := ?_, lt_length := ?_ }
    · rw [map_append, h.deliveryIds, length_append, length_singleton, range_succ]
      rfl
    · rw [length_append, length_append, h.length_eq]
      rfl
    · intro id hid
      rcases mem_append.mp hid with hid | hid
      · exact h.lt_length id hid
      · obtain rfl := mem_singleton.mp hid
        obtain ⟨i, hi⟩ := getElem?_of_mem hevent
        rw [h.eventIds i event hi]
        exact (List.getElem?_eq_some_iff.mp hi).1

theorem insertDelivery_keeps (now : ℕ) (event : DomainEvent) (revision : Revision)
    (outcome : Outcome) (notAfter : Option ℕ) :
    (s.insertDelivery now event revision outcome notAfter).events = s.events ∧
      (s.insertDelivery now event revision outcome notAfter).bootstraps = s.bootstraps := by
  unfold State.insertDelivery
  dsimp only
  split <;> exact ⟨rfl, rfl⟩

theorem Tracked.setMatched (h : Tracked s) (eventId : ℕ) : Tracked (s.setMatched eventId) := by
  have hsame : Forall₂ (fun event event' : DomainEvent => event'.id = event.id ∧
      event'.publicationSequence = event.publicationSequence ∧ event'.contact? = event.contact?)
        s.events (s.setMatched eventId).events :=
    Pointwise.modify (fun _ => ⟨rfl, rfl, rfl⟩) fun _ _ => ⟨rfl, rfl, rfl⟩
  have hmap := Pointwise.map_eq (fun _ _ h => h.2.2) hsame
  refine { h with
    lt_length := ?_, eventIds := ?_, sequence_le := ?_, has := ?_, oneEvent := ?_, boundary := ?_ }
  · rw [← hsame.length_eq]
    exact h.lt_length
  · intro i event hevent
    obtain ⟨before, hbefore, hid, _⟩ := Pointwise.getElem?_right hsame hevent
    exact hid.trans (h.eventIds i before hbefore)
  · intro event hevent n hn
    obtain ⟨before, hbefore, _, hsequence, _⟩ := Pointwise.mem_right hsame hevent
    exact h.sequence_le before hbefore n (hsequence ▸ hn)
  · intro event hevent contact hcontact
    obtain ⟨before, hbefore, _, _, hsubject⟩ := Pointwise.mem_right hsame hevent
    exact h.has before hbefore contact (hsubject ▸ hcontact)
  · have hfilter : ∀ events : List DomainEvent,
        events.filterMap DomainEvent.contact? = (events.map DomainEvent.contact?).filterMap id :=
      fun events => by rw [filterMap_map]; rfl
    rw [hfilter, hmap, ← hfilter]
    exact h.oneEvent
  · intro bootstrap hbootstrap member hmember event hevent hcontact n hn
    obtain ⟨before, hbefore, _, hsequence, hsubject⟩ := Pointwise.mem_right hsame hevent
    exact h.boundary bootstrap hbootstrap member hmember before hbefore (hsubject ▸ hcontact) n
      (hsequence ▸ hn)

theorem nextEvent_mem (h : s.nextEvent = some event) : event ∈ s.events ∧ event.pending = true := by
  have hmem := (perm_insertionSort _ _).mem_iff.mp (mem_of_mem_head? h)
  exact mem_filter.mp hmem

end Bud.Automations
