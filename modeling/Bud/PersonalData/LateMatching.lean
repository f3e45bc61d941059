import Bud.PersonalData.RuleHistory

/-!
# Late matching

An event waits until it is matched, and rules go on changing meanwhile. What is delivered does not
depend on the wait: it is one delivery for each rule that has not been deleted, for the revision
that had been activated last when the event was published, if that one is for the event.

The matcher goes by revision numbers and boundaries (`Versions.inForce`). Whatever is activated
after the publication has a boundary at or after the event, and what was activated before does not.
-/

namespace Bud.Automations

open List Option Pointwise

variable {F : Type} {sha256 : String → String} {parse : String → ℕ} {owner : String}
  {s t u : State F} {env : Env F}

/-! ### Matching -/

variable (parse) in
def State.matchEvent (s : State F) (env : Env F) (event : DomainEvent) : Option (State F) :=
  match event.publicationSequence with
  | none => some (s.setMatched event.id)
  | some publicationSequence => do
    let judge ← s.judge parse env event publicationSequence
    let revisions ← s.applicable event publicationSequence
    return (revisions.foldl (State.deliver env.now event judge) s).setMatched event.id

theorem matchNext_eq : s.matchNext parse env =
    match s.nextEvent with
    | none => some s
    | some event => s.matchEvent parse env event := rfl

def DomainEvent.place? (event : DomainEvent) : Option String :=
  match event.subject with
  | .presence _ placeId => some placeId
  | _ => none

/-- The definition has the event's type, and for place triggers it names the event's place. -/
def DomainEvent.wants (event : DomainEvent) (definition : Definition) : Bool :=
  definition.eventType = event.eventType && event.place?.all (definition.placeIds.contains ·)

def State.Undeleted (s : State F) (automationId : String) : Prop :=
  ∃ rule ∈ s.rules, rule.id = automationId ∧ rule.state ≠ .deleted

def State.lastActivated (s : State F) (automationId : String) : Option Revision :=
  Versions.latest Revision.automationId s.revisions automationId

theorem inForce_eq (n : ℕ) : s.inForce n = Versions.inForce Revision.automationId Revision.revision
    Revision.publicationBoundary s.revisions n := rfl

variable {automationId : String} {n : ℕ} {judge : Revision → Option (Outcome × Option ℕ)}
  {event' : DomainEvent}

theorem undeleted_iff (h : Ruled s) :
    (s.rule? automationId).any (·.state ≠ .deleted) = true ↔ s.Undeleted automationId := by
  rw [State.rule?]
  constructor
  · intro hany
    obtain ⟨rule, hrule, hstate⟩ := (Option.any_eq_true _ _).mp hany
    exact ⟨rule, mem_of_find?_eq_some hrule, by simpa using find?_some hrule,
      of_decide_eq_true hstate⟩
  · rintro ⟨rule, hrule, rfl, hstate⟩
    cases hfound : s.rules.find? (fun other => decide (other.id = rule.id)) with
    | none => exact absurd (decide_eq_true rfl) (find?_eq_none.mp hfound rule hrule)
    | some found =>
      have hid : found.id = rule.id := by simpa using find?_some hfound
      obtain rfl := inj_on_of_nodup_map h.ruleIds (mem_of_find?_eq_some hfound) hrule hid
      exact decide_eq_true hstate

/-- The revisions that are in force, of rules that have not been deleted. -/
def State.rows (s : State F) (sequence : ℕ) : List Revision :=
  s.revisions.filter fun revision =>
    (s.rule? revision.automationId).any (·.state ≠ .deleted) && s.inForce sequence revision

variable {row : Revision} {event : DomainEvent} {delivery : Admission.Delivery} {eventId : ℕ}
  {new : List Admission.Delivery}

theorem mem_rows (h : Ruled s) : row ∈ s.rows n ↔
    (row ∈ s.revisions ∧ s.inForce n row = true) ∧ s.Undeleted row.automationId := by
  rw [State.rows, mem_filter, Bool.and_eq_true, undeleted_iff h, and_assoc]
  exact and_congr_right fun _ => and_comm

theorem nodup_rows (h : Ruled s) (n : ℕ) : ((s.rows n).map (·.automationId)).Nodup := by
  have hnodup := Versions.nodup_inForce Revision.publicationBoundary h.numbered n
  refine hnodup.sublist (List.Sublist.map _ ?_)
  have hrows : s.rows n = (s.revisions.filter (s.inForce n)).filter fun revision =>
      (s.rule? revision.automationId).any (·.state ≠ .deleted) := by
    rw [List.filter_filter]
    rfl
  rw [hrows]
  exact filter_sublist

/-- **The limit on rules is not reached.** -/
theorem applicable_eq (h : Ruled s) (event : DomainEvent) (n : ℕ) : s.applicable event n =
    some ((s.rows n).filter (·.definition.eventType = event.eventType)) := by
  have hle : (s.rows n).length ≤ rulesPerOwner := by
    refine le_trans ?_ h.limit
    rw [countP_eq_length_filter]
    have hsub : (s.rows n).map (·.automationId) ⊆
        (s.rules.filter (·.state ≠ .deleted)).map (·.id) := by
      intro id hid
      obtain ⟨row, hrow, rfl⟩ := mem_map.mp hid
      obtain ⟨rule, hrule, hid, hstate⟩ := ((mem_rows h).mp hrow).2
      exact mem_map.mpr ⟨rule, mem_filter.mpr ⟨hrule, decide_eq_true hstate⟩, hid⟩
    simpa using ((nodup_rows h n).subperm hsub).length_le
  exact if_neg (not_lt.mpr hle)

/-- Of the definitions of its type, an event is judged for those that it is for. -/
theorem judge_isSome {sequence : ℕ} (h : s.judge parse env event sequence = some judge)
    (hschedule : event.eventType ≠ .schedule) (row : Revision) :
    (judge row).isSome = event.place?.all (row.definition.placeIds.contains ·) := by
  rw [State.judge] at h
  rw [DomainEvent.place?]
  split at h
  · next hsubject =>
    obtain ⟨_, _, h⟩ := bind_eq_some_iff.mp h
    obtain rfl := some.inj h
    rw [hsubject]
    rfl
  · next hsubject =>
    obtain ⟨_, _, h⟩ := bind_eq_some_iff.mp h
    obtain rfl := some.inj h
    rw [hsubject]
    rfl
  · next hsubject =>
    obtain ⟨_, _, h⟩ := bind_eq_some_iff.mp h
    obtain rfl := some.inj h
    rw [hsubject]
    rfl
  · next hsubject =>
    obtain ⟨_, _, h⟩ := bind_eq_some_iff.mp h
    obtain rfl := some.inj h
    rw [hsubject]
    dsimp only
    rw [all_some]
    cases row.definition.placeIds.contains _ <;> rfl
  · next hsubject =>
    obtain ⟨_, _, h⟩ := bind_eq_some_iff.mp h
    obtain rfl := some.inj h
    rw [hsubject]
    dsimp only
    rw [all_some]
    cases row.definition.placeIds.contains _ <;> rfl
  · next heventType => exact absurd heventType hschedule
  · cases h

/-! ### What is inserted -/

/-- Deliveries are numbered as they come, each with its event. -/
structure Paired (s : State F) : Prop where
  deliveryIds : s.admission.deliveries.map (·.id) = List.range s.admission.deliveries.length
  length_eq : s.domainEventIds.length = s.admission.deliveries.length

theorem Paired.lt (h : Paired s) (hdelivery : delivery ∈ s.admission.deliveries) :
    delivery.id < s.domainEventIds.length := by
  have hid : delivery.id ∈ s.admission.deliveries.map (·.id) := mem_map_of_mem hdelivery
  rw [h.deliveryIds, mem_range] at hid
  exact h.length_eq ▸ hid

theorem delivered_iff : s.delivered row event = true ↔
    ∃ delivery ∈ s.admission.deliveries, delivery.automationId = row.automationId ∧
      delivery.revision = row.revision ∧ s.domainEventIds[delivery.id]? = some event.id := by
  simp only [State.delivered, List.any_eq_true, Bool.and_eq_true, decide_eq_true_eq, and_assoc]

/-- Deliveries for the event have been inserted, and nothing else. -/
structure Inserted (s t : State F) (eventId : ℕ) (new : List Admission.Delivery) : Prop where
  deliveries : t.admission.deliveries = s.admission.deliveries ++ new
  domainEventIds : t.domainEventIds = s.domainEventIds ++ new.map fun _ => eventId
  publicationSequence : t.publicationSequence = s.publicationSequence
  rules : t.rules = s.rules
  revisions : t.revisions = s.revisions
  events : t.events = s.events

theorem Inserted.nil (s : State F) (eventId : ℕ) : Inserted s s eventId [] :=
  ⟨(append_nil _).symm, (append_nil _).symm, rfl, rfl, rfl, rfl⟩

theorem Inserted.trans {new' : List Admission.Delivery} (h : Inserted s t eventId new)
    (h' : Inserted t u eventId new') : Inserted s u eventId (new ++ new') where
  deliveries := by rw [h'.deliveries, h.deliveries, append_assoc]
  domainEventIds := by rw [h'.domainEventIds, h.domainEventIds, map_append, append_assoc]
  publicationSequence := h'.publicationSequence.trans h.publicationSequence
  rules := h'.rules.trans h.rules
  revisions := h'.revisions.trans h.revisions
  events := h'.events.trans h.events

theorem Inserted.delivered (h : Inserted s t eventId new)
    (hdelivered : s.delivered row event = true) : t.delivered row event = true := by
  obtain ⟨delivery, hmem, hautomation, hrevision, hevent⟩ := delivered_iff.mp hdelivered
  refine delivered_iff.mpr ⟨delivery, ?_, hautomation, hrevision, ?_⟩
  · rw [h.deliveries]
    exact mem_append_left _ hmem
  · rw [h.domainEventIds, getElem?_append_left (List.getElem?_eq_some_iff.mp hevent).1]
    exact hevent

/-- **One delivery.** -/
theorem inserted_insertDelivery (hnot : s.delivered row event = false) (now : ℕ) (outcome : Outcome)
    (notAfter : Option ℕ) :
    ∃ delivery, Inserted s (s.insertDelivery now event row outcome notAfter) event.id [delivery] ∧
      delivery.automationId = row.automationId ∧ delivery.revision = row.revision ∧
      delivery.id = s.admission.deliveries.length := by
  rw [State.insertDelivery]
  dsimp only
  rw [if_neg (Bool.eq_false_iff.mp hnot)]
  exact ⟨_, ⟨rfl, rfl, rfl, rfl, rfl, rfl⟩, rfl, rfl, rfl⟩

theorem Paired.inserted (h : Paired s) (hinserted : Inserted s t eventId [delivery])
    (hid : delivery.id = s.admission.deliveries.length) : Paired t := by
  constructor
  · rw [hinserted.deliveries, map_append, h.deliveryIds, length_append,
      length_singleton, range_succ, map_singleton, hid]
  · rw [hinserted.deliveries, hinserted.domainEventIds, length_append, length_append,
      h.length_eq, length_map]

theorem delivered_of_ne (h : Paired s) (hinserted : Inserted s t eventId [delivery])
    (hne : delivery.automationId ≠ row.automationId) (hnot : s.delivered row event = false) :
    t.delivered row event = false := by
  refine Bool.eq_false_iff.mpr fun hdelivered => ?_
  obtain ⟨other, hmem, hautomation, hrevision, hevent⟩ := delivered_iff.mp hdelivered
  rw [hinserted.deliveries] at hmem
  rcases mem_append.mp hmem with hmem | hmem
  · rw [hinserted.domainEventIds, getElem?_append_left (h.lt hmem)] at hevent
    exact Bool.eq_false_iff.mp hnot
      (delivered_iff.mpr ⟨other, hmem, hautomation, hrevision, hevent⟩)
  · exact hne (mem_singleton.mp hmem ▸ hautomation)

/-- **The loop of a matcher** inserts a delivery for each of the revisions that are judged. -/
theorem inserted_foldl (h : Paired s) (now : ℕ) (judge : Revision → Option (Outcome × Option ℕ))
    {rows : List Revision} (hnodup : (rows.map (·.automationId)).Nodup)
    (hnot : ∀ row ∈ rows, s.delivered row event = false) :
    ∃ new, Inserted s (rows.foldl (State.deliver now event judge) s) event.id new ∧
      Paired (rows.foldl (State.deliver now event judge) s) ∧
      new.map (fun delivery => (delivery.automationId, delivery.revision)) =
        (rows.filter fun row => (judge row).isSome).map
          (fun row => (row.automationId, row.revision)) ∧
      ∀ row ∈ rows, (judge row).isSome = true →
        (rows.foldl (State.deliver now event judge) s).delivered row event = true := by
  induction rows generalizing s with
  | nil => exact ⟨[], .nil s _, h, rfl, fun _ hrow => nomatch hrow⟩
  | cons row rows ih =>
    obtain ⟨hother, hnodup⟩ := nodup_cons.mp hnodup
    obtain ⟨hrow, hnot⟩ := forall_mem_cons.mp hnot
    rw [foldl_cons]
    cases hjudge : judge row with
    | none =>
      have hsame : State.deliver now event judge s row = s := by rw [State.deliver, hjudge]
      rw [hsame]
      obtain ⟨new, hinserted, hpaired, hmap, hall⟩ := ih h hnodup hnot
      refine ⟨new, hinserted, hpaired, ?_, forall_mem_cons.mpr ⟨?_, hall⟩⟩
      · rw [filter_cons_of_neg (by rw [hjudge]; exact Bool.false_ne_true), hmap]
      · rw [hjudge]
        exact fun hsome => Bool.noConfusion hsome
    | some outcome =>
      obtain ⟨outcome, notAfter⟩ := outcome
      have hdeliver : State.deliver now event judge s row =
          s.insertDelivery now event row outcome notAfter := by rw [State.deliver, hjudge]
      rw [hdeliver]
      obtain ⟨delivery, hfirst, hautomation, hrevision, hid⟩ :=
        inserted_insertDelivery hrow now outcome notAfter
      obtain ⟨new, hinserted, hpaired, hmap, hall⟩ := ih (h.inserted hfirst hid) hnodup
        fun other hmem => delivered_of_ne h hfirst
          (fun heq => hother (mem_map.mpr ⟨other, hmem, heq.symm.trans hautomation⟩))
          (hnot other hmem)
      refine ⟨delivery :: new, hfirst.trans hinserted, hpaired, ?_,
        forall_mem_cons.mpr ⟨fun _ => ?_, hall⟩⟩
      · rw [filter_cons_of_pos (by rw [hjudge]; rfl), map_cons, map_cons, hmap,
          hautomation, hrevision]
      · refine hinserted.delivered (delivered_iff.mpr ⟨delivery, ?_, hautomation, hrevision, ?_⟩)
        · rw [hfirst.deliveries]
          exact mem_append_right _ mem_cons_self
        · rw [hfirst.domainEventIds, hid, ← h.length_eq]
          exact getElem?_concat_length

/-- Revisions that have a delivery for the event get no other. -/
theorem foldl_deliver_eq (now : ℕ) (judge : Revision → Option (Outcome × Option ℕ))
    {rows : List Revision}
    (hall : ∀ row ∈ rows, (judge row).isSome = true → s.delivered row event = true) :
    rows.foldl (State.deliver now event judge) s = s := by
  induction rows with
  | nil => rfl
  | cons row rows ih =>
    obtain ⟨hrow, hall⟩ := forall_mem_cons.mp hall
    have hsame : State.deliver now event judge s row = s := by
      rw [State.deliver]
      cases hjudge : judge row with
      | none => rfl
      | some outcome =>
        rw [hjudge] at hrow
        exact if_pos (hrow rfl)
    rw [foldl_cons, hsame, ih hall]

/-! ### What comes after a state -/

/-- The event is the same one, and has not become pending again. -/
structure SameEvent (event event' : DomainEvent) : Prop where
  id : event'.id = event.id
  eventType : event'.eventType = event.eventType
  subject : event'.subject = event.subject
  publicationSequence : event'.publicationSequence = event.publicationSequence
  pending : event.pending = false → event'.pending = false

theorem SameEvent.refl (event : DomainEvent) : SameEvent event event :=
  ⟨rfl, rfl, rfl, rfl, fun h => h⟩

theorem SameEvent.trans {a : DomainEvent} (h : SameEvent a b) (h' : SameEvent b c) :
    SameEvent a c :=
  ⟨h'.id.trans h.id, h'.eventType.trans h.eventType, h'.subject.trans h.subject,
    h'.publicationSequence.trans h.publicationSequence, h'.pending ∘ h.pending⟩

theorem SameEvent.wants (h : SameEvent event event') (definition : Definition) :
    event'.wants definition = event.wants definition := by
  rw [DomainEvent.wants, DomainEvent.wants, DomainEvent.place?, DomainEvent.place?, h.eventType,
    h.subject]

/-- A state that comes later: what has been activated since has a boundary at or after it. -/
structure Since (s t : State F) : Prop where
  le : s.publicationSequence ≤ t.publicationSequence
  revisions : ∃ later, t.revisions = s.revisions ++ later ∧
    ∀ row ∈ later, s.publicationSequence ≤ row.publicationBoundary
  undeleted : ∀ row ∈ s.revisions, t.Undeleted row.automationId → s.Undeleted row.automationId
  events : ∀ event ∈ s.events, ∃ event' ∈ t.events, SameEvent event event'

theorem Since.refl (s : State F) : Since s s :=
  ⟨le_rfl, ⟨[], (append_nil _).symm, fun _ h => nomatch h⟩, fun _ _ h => h,
    fun event hevent => ⟨event, hevent, .refl event⟩⟩

theorem Since.trans (h : Since s t) (h' : Since t u) : Since s u := by
  obtain ⟨later, hlater, hboundary⟩ := h.revisions
  obtain ⟨later', hlater', hboundary'⟩ := h'.revisions
  refine ⟨h.le.trans h'.le, ⟨later ++ later', ?_, ?_⟩, fun row hrow hundeleted => ?_,
    fun event hevent => ?_⟩
  · rw [hlater', hlater, append_assoc]
  · exact forall_mem_append.mpr ⟨hboundary, fun row hrow => h.le.trans (hboundary' row hrow)⟩
  · refine h.undeleted row hrow (h'.undeleted row ?_ hundeleted)
    rw [hlater]
    exact mem_append_left _ hrow
  · obtain ⟨event', hevent', hsame⟩ := h.events event hevent
    obtain ⟨event'', hevent'', hsame'⟩ := h'.events event' hevent'
    exact ⟨event'', hevent'', hsame.trans hsame'⟩

/-- What is in force below the sequence of a state was in force then. -/
theorem Since.inForce (h : Since s t) (hn : n ≤ s.publicationSequence) (hrow : row ∈ t.revisions)
    (hforce : t.inForce n row = true) : row ∈ s.revisions ∧ s.inForce n row = true := by
  obtain ⟨later, hlater, hboundary⟩ := h.revisions
  rw [inForce_eq, Versions.inForce_iff, hlater] at hforce
  rw [hlater] at hrow
  constructor
  · refine (mem_append.mp hrow).resolve_right fun hin => ?_
    exact absurd hforce.1 (not_lt.mpr (hn.trans (hboundary row hin)))
  · rw [inForce_eq, Versions.inForce_iff]
    exact ⟨hforce.1, fun newer hnewer => hforce.2 newer (mem_append_left _ hnewer)⟩

/-- Rules that are rewritten do not come back. -/
theorem undeleted_of_forall₂ (hrules : Forall₂ SameRule s.rules t.rules)
    (h : t.Undeleted automationId) : s.Undeleted automationId := by
  obtain ⟨rule', hrule', hid, hstate⟩ := h
  obtain ⟨rule, hrule, hsame⟩ := mem_right hrules hrule'
  exact ⟨rule, hrule, hsame.id.symm.trans hid, fun hdeleted => hstate (hsame.deleted hdeleted)⟩

theorem RuleChange.since (h : RuleChange s t) (hs : Ruled s) (hquiet : Quiet s t) : Since s t := by
  have hevents : ∀ event ∈ s.events, ∃ event' ∈ t.events, SameEvent event event' :=
    fun event hevent => ⟨event, hquiet.events ▸ hevent, .refl event⟩
  have hle := hquiet.publicationSequence.ge
  cases h with
  | kept rules revisions =>
    exact ⟨hle, ⟨[], by rw [revisions, append_nil], fun _ h => nomatch h⟩,
      fun _ _ => undeleted_of_forall₂ rules, hevents⟩
  | created rule fresh limit rules revisions =>
    refine ⟨hle, ⟨[], by rw [revisions, append_nil], fun _ h => nomatch h⟩, ?_, hevents⟩
    rintro row hrow ⟨rule', hrule', hid, hstate⟩
    rw [rules] at hrule'
    rcases mem_append.mp hrule' with hmem | hmem
    · exact ⟨rule', hmem, hid, hstate⟩
    · obtain ⟨owner, howner, howns, _⟩ := hs.owned row hrow
      obtain rfl := mem_singleton.mp hmem
      exact absurd (howns.trans hid.symm) (fresh owner howner)
  | activated row prior mem automationId revision boundary rules version revisions =>
    exact ⟨hle, ⟨[row], revisions, forall_mem_singleton.mpr boundary.ge⟩,
      fun _ _ => undeleted_of_forall₂ rules, hevents⟩

theorem Published.since {new : List DomainEvent} (h : Published s t new) : Since s t := by
  refine ⟨h.le, ⟨[], by rw [h.revisions, append_nil], fun _ h => nomatch h⟩, ?_, ?_⟩
  · rintro _ _ ⟨rule, hrule, hof⟩
    exact ⟨rule, h.rules ▸ hrule, hof⟩
  · intro event hevent
    exact ⟨event, h.events ▸ mem_append_left _ hevent, .refl event⟩

theorem Inserted.since (h : Inserted s t eventId new) : Since s t := by
  refine ⟨h.publicationSequence.ge,
    ⟨[], by rw [h.revisions, append_nil], fun _ h => nomatch h⟩, ?_, ?_⟩
  · rintro _ _ ⟨rule, hrule, hof⟩
    exact ⟨rule, h.rules ▸ hrule, hof⟩
  · intro event hevent
    exact ⟨event, h.events ▸ hevent, .refl event⟩

theorem forall₂_setMatched (id : ℕ) :
    Forall₂ SameEvent s.events (s.setMatched id).events :=
  modify .refl fun _ _ => ⟨rfl, rfl, rfl, rfl, fun _ => rfl⟩

theorem since_setMatched (id : ℕ) : Since s (s.setMatched id) := by
  refine ⟨le_rfl, ⟨[], (append_nil _).symm, fun _ h => nomatch h⟩, fun _ _ h => h, ?_⟩
  exact fun event hevent => mem_left (forall₂_setMatched id) hevent

/-! ### What the tables keep to -/

/-- What the tables keep to. An event that has been matched has a delivery for each revision in
force that it is for, and one that is pending has none. -/
structure Queued (s : State F) : Prop extends Ruled s, Paired s where
  eventIds : s.events.map (·.id) = List.range s.events.length
  lt_length : ∀ id ∈ s.domainEventIds, id < s.events.length
  eventType : ∀ event ∈ s.events, event.eventType ≠ .schedule
  sequence_le : ∀ event ∈ s.events, ∀ n, event.publicationSequence = some n →
    n ≤ s.publicationSequence
  fresh : ∀ event ∈ s.events, event.pending = true → event.id ∉ s.domainEventIds
  matched : ∀ event ∈ s.events, event.pending = false → ∀ n, event.publicationSequence = some n →
    ∀ row ∈ s.rows n, event.wants row.definition = true → s.delivered row event = true

theorem queued_init : Queued (init : State F) where
  toRuled := ruled_init
  toPaired := ⟨rfl, rfl⟩
  eventIds := rfl
  lt_length _ h := nomatch h
  eventType _ h := nomatch h
  sequence_le _ h := nomatch h
  fresh _ h := nomatch h
  matched _ h := nomatch h

theorem Queued.distinct (h : Queued s) : Admission.Distinct s.admission := by
  rw [Admission.Distinct, h.deliveryIds]
  exact nodup_range

theorem Queued.eq_of_id (h : Queued s) (hevent : event ∈ s.events) (hevent' : event' ∈ s.events)
    (hid : event.id = event'.id) : event = event' :=
  inj_on_of_nodup_map (h.eventIds ▸ nodup_range) hevent hevent' hid

theorem not_delivered_of_fresh (h : event.id ∉ s.domainEventIds) (row : Revision) :
    s.delivered row event = false := by
  refine Bool.eq_false_iff.mpr fun hdelivered => ?_
  obtain ⟨delivery, _, _, _, hget⟩ := delivered_iff.mp hdelivered
  exact h (mem_of_getElem? hget)

def State.wanted (s : State F) (event : DomainEvent) (sequence : ℕ) : List Revision :=
  (s.rows sequence).filter (event.wants ·.definition)

theorem filter_wants (event : DomainEvent)
    (hjudge : ∀ row, (judge row).isSome = event.place?.all (row.definition.placeIds.contains ·))
    (rows : List Revision) : (rows.filter (·.definition.eventType = event.eventType)).filter
      (fun row => (judge row).isSome) = rows.filter (event.wants ·.definition) := by
  rw [List.filter_filter]
  refine List.filter_congr fun row _ => ?_
  rw [hjudge, DomainEvent.wants, Bool.and_comm]

/-- **A matching** inserts deliveries for the revisions that the event is for. -/
theorem Queued.matchEvent_cases (h : Queued s) (hevent : event ∈ s.events)
    (hmatch : s.matchEvent parse env event = some t) :
    event.publicationSequence = none ∧ t = s.setMatched event.id ∨
      ∃ (n : ℕ) (rows : List Revision) (judge : Revision → Option (Outcome × Option ℕ)),
        event.publicationSequence = some n ∧
        rows.filter (fun row => (judge row).isSome) = s.wanted event n ∧
        (rows.map (·.automationId)).Nodup ∧
        t = (rows.foldl (State.deliver env.now event judge) s).setMatched event.id := by
  rw [State.matchEvent] at hmatch
  cases hsequence : event.publicationSequence with
  | none =>
    simp only [hsequence] at hmatch
    exact .inl ⟨rfl, (some.inj hmatch).symm⟩
  | some n =>
    simp only [hsequence] at hmatch
    obtain ⟨judge, hjudge, hmatch⟩ := bind_eq_some_iff.mp hmatch
    rw [applicable_eq h.toRuled] at hmatch
    refine .inr ⟨n, _, judge, rfl,
      filter_wants event (judge_isSome hjudge (h.eventType event hevent)) (s.rows n), ?_,
      (some.inj hmatch).symm⟩
    exact (nodup_rows h.toRuled n).sublist (List.Sublist.map _ filter_sublist)

theorem Queued.matchEvent_pending (h : Queued s) (hevent : event ∈ s.events)
    (hpending : event.pending = true) (hsequence : event.publicationSequence = some n)
    (hmatch : s.matchEvent parse env event = some t) :
    ∃ new u, Inserted s u event.id new ∧ Paired u ∧ t = u.setMatched event.id ∧
      new.map (fun delivery => (delivery.automationId, delivery.revision)) =
        (s.wanted event n).map (fun row => (row.automationId, row.revision)) ∧
      ∀ row ∈ s.wanted event n, u.delivered row event = true := by
  obtain ⟨hnone, _⟩ | ⟨m, rows, judge, hm, hwanted, hnodup, rfl⟩ := h.matchEvent_cases hevent hmatch
  · exact nomatch hnone.symm.trans hsequence
  · obtain rfl := some.inj (hm.symm.trans hsequence)
    obtain ⟨new, hinserted, hpaired, hmap, hall⟩ := inserted_foldl h.toPaired env.now judge hnodup
      fun row _ => not_delivered_of_fresh (h.fresh event hevent hpending) row
    refine ⟨new, _, hinserted, hpaired, rfl, hwanted ▸ hmap, fun row hrow => ?_⟩
    obtain ⟨hrow, hsome⟩ := mem_filter.mp (hwanted ▸ hrow)
    exact hall row hrow hsome

theorem Queued.matchEvent_matched (h : Queued s) (hevent : event ∈ s.events)
    (hmatched : event.pending = false) (hmatch : s.matchEvent parse env event = some t) :
    t = s := by
  have hset : s.setMatched event.id = s := by
    have hevents : s.events.modify event.id ({ · with pending := false }) = s.events := by
      refine ext_getElem? fun i => ?_
      rw [getElem?_modify]
      cases hi : s.events[i]? with
      | none => rfl
      | some other =>
        have hother : other.id = i := by
          have hget := congrArg (·[i]?) h.eventIds
          simp only [getElem?_map, hi, map_some] at hget
          rw [getElem?_range (List.getElem?_eq_some_iff.mp hi).1] at hget
          exact some.inj hget
        by_cases heq : event.id = i
        · obtain rfl := h.eq_of_id (List.mem_of_getElem? hi) hevent (hother.trans heq.symm)
          simp only [if_pos heq, Option.map_eq_map, Option.map_some, ← hmatched]
        · simp only [if_neg heq, Option.map_eq_map, Option.map_some]
    rw [State.setMatched, hevents]
  obtain ⟨_, rfl⟩ | ⟨n, rows, judge, hsequence, hwanted, _, rfl⟩ := h.matchEvent_cases hevent hmatch
  · exact hset
  · rw [foldl_deliver_eq, hset]
    intro row hrow hsome
    have hin : row ∈ s.wanted event n := hwanted ▸ mem_filter.mpr ⟨hrow, hsome⟩
    obtain ⟨hin, hwants⟩ := mem_filter.mp hin
    exact h.matched event hevent hmatched n hsequence row hin hwants

/-! ### Steps -/

theorem Queued.wanted_of_since (h : Queued s) (hsince : Since s t) (ht : Ruled t)
    (hn : n ≤ s.publicationSequence) (hrow : row ∈ t.rows n) : row ∈ s.rows n := by
  obtain ⟨⟨hmem, hforce⟩, hundeleted⟩ := (mem_rows ht).mp hrow
  obtain ⟨hmem, hforce⟩ := hsince.inForce hn hmem hforce
  exact (mem_rows h.toRuled).mpr ⟨⟨hmem, hforce⟩, hsince.undeleted row hmem hundeleted⟩

theorem delivered_of_quiet (hquiet : Quiet s t) (h : s.delivered row event = true) :
    t.delivered row event = true := by
  obtain ⟨delivery, hmem, hautomation, hrevision, hevent⟩ := delivered_iff.mp h
  obtain ⟨delivery', hmem', hsame⟩ := mem_left hquiet.deliveries hmem
  refine delivered_iff.mpr ⟨delivery', hmem', hsame.automationId.trans hautomation,
    hsame.revision.trans hrevision, ?_⟩
  rw [hquiet.domainEventIds, hsame.id]
  exact hevent

theorem Queued.rules (h : Queued s) (hchange : RuleChange s t) (hquiet : Quiet s t) :
    Queued t := by
  have hruled := h.toRuled.change hchange hquiet.publicationSequence.ge
  have hlength := hquiet.deliveries.length_eq
  refine ⟨hruled, ⟨?_, ?_⟩, ?_, ?_, ?_, ?_, ?_, ?_⟩
  · rw [map_eq (fun _ _ hsame => hsame.id) hquiet.deliveries, ← hlength]
    exact h.deliveryIds
  · rw [hquiet.domainEventIds, ← hlength]
    exact h.length_eq
  · rw [hquiet.events]
    exact h.eventIds
  · rw [hquiet.domainEventIds, hquiet.events]
    exact h.lt_length
  · rw [hquiet.events]
    exact h.eventType
  · rw [hquiet.events, hquiet.publicationSequence]
    exact h.sequence_le
  · rw [hquiet.events, hquiet.domainEventIds]
    exact h.fresh
  · rw [hquiet.events]
    intro event hevent hmatched n hn row hrow hwants
    have hold := h.wanted_of_since (hchange.since h.toRuled hquiet) hruled
      (h.sequence_le event hevent n hn) hrow
    exact delivered_of_quiet hquiet (h.matched event hevent hmatched n hn row hold hwants)

theorem Queued.published (h : Queued s) {new : List DomainEvent} (hnew : Published s t new) :
    Queued t := by
  have hruled := h.toRuled.change (.of_eq hnew.rules hnew.revisions) hnew.le
  have hids : ∀ event ∈ new, s.events.length ≤ event.id := by
    intro event hevent
    have hid : event.id ∈ new.map (·.id) := mem_map_of_mem hevent
    rw [hnew.ids] at hid
    exact (mem_range'_1.mp hid).1
  refine ⟨hruled, ⟨hnew.admission ▸ h.deliveryIds, ?_⟩, ?_, ?_, ?_, ?_, ?_, ?_⟩
  · rw [hnew.domainEventIds, hnew.admission]
    exact h.length_eq
  · rw [hnew.events, map_append, h.eventIds, hnew.ids, length_append,
      range_eq_range', range_eq_range', ← range'_append_1, Nat.zero_add]
  · rw [hnew.domainEventIds, hnew.events, length_append]
    exact fun id hid => Nat.lt_add_right _ (h.lt_length id hid)
  · rw [hnew.events]
    exact forall_mem_append.mpr ⟨h.eventType, hnew.eventType⟩
  · rw [hnew.events]
    refine forall_mem_append.mpr
      ⟨fun event hevent n hn => (h.sequence_le event hevent n hn).trans hnew.le, ?_⟩
    intro event hevent n hn
    obtain ⟨m, hm, _, hle⟩ := hnew.sequence event hevent
    exact some.inj (hm.symm.trans hn) ▸ hle
  · rw [hnew.events, hnew.domainEventIds]
    refine forall_mem_append.mpr ⟨h.fresh, fun event hevent _ hin => ?_⟩
    exact absurd (h.lt_length _ hin) (not_lt.mpr (hids event hevent))
  · rw [hnew.events]
    refine forall_mem_append.mpr ⟨?_, fun event hevent hmatched => ?_⟩
    · intro event hevent hmatched n hn row hrow hwants
      have hold := h.wanted_of_since hnew.since hruled (h.sequence_le event hevent n hn) hrow
      have hdelivered := h.matched event hevent hmatched n hn row hold hwants
      rw [State.delivered] at hdelivered ⊢
      rw [hnew.admission, hnew.domainEventIds]
      exact hdelivered
    · exact absurd (hnew.pending event hevent) (Bool.eq_false_iff.mp hmatched)

theorem rows_eq (hrules : t.rules = s.rules) (hrevisions : t.revisions = s.revisions) (n : ℕ) :
    t.rows n = s.rows n := by
  have hforce : t.inForce n = s.inForce n := by rw [inForce_eq, inForce_eq, hrevisions]
  simp only [State.rows, State.rule?, hrules, hrevisions, hforce]

theorem mem_setMatched (hids : s.events.map (·.id) = range s.events.length) {id : ℕ}
    {after : DomainEvent} (h : after ∈ (s.setMatched id).events) :
    (after.id = id → after.pending = false) ∧ (after.id ≠ id → after ∈ s.events) := by
  obtain ⟨i, hi⟩ := getElem?_of_mem h
  rw [State.setMatched, getElem?_modify] at hi
  obtain ⟨before, hbefore, rfl⟩ := map_eq_some_iff.mp hi
  have hid : before.id = i := by
    have hget := congrArg (·[i]?) hids
    simp only [getElem?_map, hbefore, map_some] at hget
    rw [getElem?_range (List.getElem?_eq_some_iff.mp hbefore).1] at hget
    exact some.inj hget
  split
  · next heq => exact ⟨fun _ => rfl, fun hne => absurd (hid.trans heq.symm) hne⟩
  · next hne =>
    exact ⟨fun heq => absurd (heq.symm.trans hid) hne, fun _ => mem_of_getElem? hbefore⟩

/-- An event is marked once its deliveries are there. -/
theorem Queued.setMatched (h : Queued s) (hevent : event ∈ s.events)
    (hinserted : Inserted s u event.id new) (hpaired : Paired u)
    (hall : ∀ n, event.publicationSequence = some n → ∀ row ∈ s.wanted event n, u.delivered row
      event = true) : Queued (u.setMatched event.id) := by
  have hruled : Ruled u := h.toRuled.change (.of_eq hinserted.rules hinserted.revisions)
    hinserted.publicationSequence.ge
  have hsame := forall₂_setMatched (s := u) event.id
  have hbefore : ∀ after ∈ (u.setMatched event.id).events, ∃ before ∈ s.events,
      SameEvent before after := by
    intro after hafter
    rw [← hinserted.events]
    exact mem_right hsame hafter
  refine ⟨⟨hruled.1, hruled.2, hruled.3, hruled.4, hruled.5⟩, ⟨hpaired.1, hpaired.2⟩,
    ?_, ?_, ?_, ?_, ?_, ?_⟩
  · rw [map_eq (fun _ _ h => h.id) hsame, ← hsame.length_eq, hinserted.events]
    exact h.eventIds
  · rw [← hsame.length_eq, hinserted.events]
    show ∀ id ∈ u.domainEventIds, _
    rw [hinserted.domainEventIds]
    refine forall_mem_append.mpr ⟨h.lt_length, fun id hid => ?_⟩
    obtain ⟨_, _, rfl⟩ := mem_map.mp hid
    have hin : event.id ∈ s.events.map (·.id) := mem_map_of_mem hevent
    rw [h.eventIds] at hin
    exact mem_range.mp hin
  · intro after hafter
    obtain ⟨before, hmem, hsame⟩ := hbefore after hafter
    exact hsame.eventType ▸ h.eventType before hmem
  · intro after hafter n hn
    obtain ⟨before, hmem, hsame⟩ := hbefore after hafter
    show n ≤ u.publicationSequence
    rw [hinserted.publicationSequence]
    exact h.sequence_le before hmem n (hsame.publicationSequence ▸ hn)
  · intro after hafter hpending
    obtain ⟨hmatched, hother⟩ := mem_setMatched (hinserted.events ▸ h.eventIds) hafter
    have hne : after.id ≠ event.id := fun heq => by
      rw [hmatched heq] at hpending
      cases hpending
    show after.id ∉ u.domainEventIds
    rw [hinserted.domainEventIds, mem_append, not_or]
    refine ⟨h.fresh after (hinserted.events ▸ hother hne) hpending, fun hin => ?_⟩
    obtain ⟨_, _, heq⟩ := mem_map.mp hin
    exact hne heq.symm
  · intro after hafter hpending n hn row hrow hwants
    show u.delivered row after = true
    replace hrow : row ∈ s.rows n := rows_eq hinserted.rules hinserted.revisions n ▸ hrow
    by_cases heq : after.id = event.id
    · obtain ⟨before, hmem, hkept⟩ := hbefore after hafter
      obtain rfl := h.eq_of_id hmem hevent (hkept.id.symm.trans heq)
      have hdelivered := hall n (hkept.publicationSequence ▸ hn) row
        (mem_filter.mpr ⟨hrow, hkept.wants row.definition ▸ hwants⟩)
      rw [State.delivered] at hdelivered ⊢
      rw [heq]
      exact hdelivered
    · have hin := (mem_setMatched (hinserted.events ▸ h.eventIds) hafter).2 heq
      exact hinserted.delivered
        (h.matched after (hinserted.events ▸ hin) hpending n hn row hrow hwants)

theorem Queued.matchEvent (h : Queued s) (hevent : event ∈ s.events)
    (hpending : event.pending = true) (hmatch : s.matchEvent parse env event = some t) :
    Queued t ∧ Since s t ∧ t.events.map (·.id) = s.events.map (·.id) := by
  have hids : ∀ u : State F, (u.setMatched event.id).events.map (·.id) = u.events.map (·.id) :=
    fun u => map_eq (fun _ _ h => h.id) (forall₂_setMatched event.id)
  cases hsequence : event.publicationSequence with
  | none =>
    obtain ⟨_, rfl⟩ | ⟨n, _, _, hn, _⟩ := h.matchEvent_cases hevent hmatch
    · exact ⟨h.setMatched hevent (.nil s _) h.toPaired
        fun n hn => (nomatch hsequence.symm.trans hn), since_setMatched _, hids s⟩
    · exact nomatch hsequence.symm.trans hn
  | some n =>
    obtain ⟨new, u, hinserted, hpaired, rfl, _, hall⟩ :=
      h.matchEvent_pending hevent hpending hsequence hmatch
    refine ⟨h.setMatched hevent hinserted hpaired fun m hm => ?_,
      hinserted.since.trans (since_setMatched _), (hids u).trans (by rw [hinserted.events])⟩
    exact some.inj (hsequence.symm.trans hm) ▸ hall

/-- **One transaction.** -/
theorem Queued.effect (h : Queued s) (heffect : Effect parse s t) : Queued t ∧ Since s t := by
  cases heffect with
  | rules change quiet => exact ⟨h.rules change quiet, change.since h.toRuled quiet⟩
  | published new published => exact ⟨h.published published, published.since⟩
  | matched env hmatch =>
    rw [matchNext_eq] at hmatch
    cases hnext : s.nextEvent with
    | none =>
      rw [hnext] at hmatch
      obtain rfl := some.inj hmatch
      exact ⟨h, .refl _⟩
    | some event =>
      rw [hnext] at hmatch
      obtain ⟨hevent, hpending⟩ := nextEvent_mem hnext
      obtain ⟨ht, hsince, _⟩ := h.matchEvent hevent hpending hmatch
      exact ⟨ht, hsince⟩

/-! ### Runs -/

variable [DecidableEq F] [Inhabited F]

theorem Queued.step (h : Queued s) (hstep : step sha256 parse owner s act = some t) :
    Queued t ∧ Since s t :=
  h.effect (effect_of_step h.ruleIds h.distinct hstep)

theorem Queued.run (h : Queued s)
    (hrun : Runs.run (Automations.step sha256 parse owner) acts s = some t) :
    Queued t ∧ Since s t := by
  have hinvariant : ∀ (u : State F) (act : Act F) (u' : State F), Queued u ∧ Since s u →
      Automations.step sha256 parse owner u act = some u' → Queued u' ∧ Since s u' := by
    rintro u act u' ⟨hu, hsince⟩ hstep
    obtain ⟨hu', hstep⟩ := hu.step hstep
    exact ⟨hu', hsince.trans hstep⟩
  exact Runs.invariant hinvariant hrun ⟨h, .refl s⟩

/-- What is inserted for an event that has been published after one state and is matched in
another: a delivery for each rule that has not been deleted by then, for the revision that had been
activated last, if the event is for it. -/
structure AsPublished (s₀ s₂ s₃ : State F) (event : DomainEvent) (new : List Admission.Delivery) :
    Prop where
  fresh : event.id ∉ s₂.domainEventIds
  deliveries : s₃.admission.deliveries = s₂.admission.deliveries ++ new
  domainEventIds : s₃.domainEventIds = s₂.domainEventIds ++ new.map fun _ => event.id
  nodup : (new.map (·.automationId)).Nodup
  mem_iff : ∀ automationId revision,
    (∃ delivery ∈ new, delivery.automationId = automationId ∧ delivery.revision = revision) ↔
      s₂.Undeleted automationId ∧ ∃ row, s₀.lastActivated automationId = some row ∧
        row.revision = revision ∧ event.wants row.definition = true

theorem published_of_fresh (h : Queued s) (hstep : step sha256 parse owner s act = some t)
    (hevent : event ∈ t.events) (hfresh : ∀ other ∈ s.events, other.id ≠ event.id) :
    ∃ new, Published s t new ∧ event ∈ new := by
  cases effect_of_step h.ruleIds h.distinct hstep with
  | rules change quiet => exact absurd rfl (hfresh event (quiet.events ▸ hevent))
  | published new published =>
    rw [published.events] at hevent
    exact ⟨new, published, (mem_append.mp hevent).resolve_left fun hin => hfresh event hin rfl⟩
  | matched env hmatch =>
    have hids : t.events.map (·.id) = s.events.map (·.id) := by
      rw [matchNext_eq] at hmatch
      cases hnext : s.nextEvent with
      | none =>
        rw [hnext] at hmatch
        rw [some.inj hmatch]
      | some next =>
        rw [hnext] at hmatch
        obtain ⟨hmem, hpending⟩ := nextEvent_mem hnext
        exact (h.matchEvent hmem hpending hmatch).2.2
    have hin : event.id ∈ t.events.map (·.id) := mem_map_of_mem hevent
    rw [hids] at hin
    obtain ⟨other, hother, heq⟩ := mem_map.mp hin
    exact absurd heq (hfresh other hother)

/-- **A delay in matching does not change what is delivered.** An event is published by a
transaction, and later it is found. The limit on rules is not reached; if the event is pending its
deliveries are those of the revisions that were in force when it was published, and if it has been
matched there is nothing to insert. -/
theorem matched_as_published (sha256 : String → String) (parse : String → ℕ) (owner : String)
    (before later : List (Act F)) (act : Act F) (s₀ s₁ s₂ : State F)
    (hbefore : Runs.run (Automations.step sha256 parse owner) before init = some s₀)
    (hact : Automations.step sha256 parse owner s₀ act = some s₁)
    (hlater : Runs.run (Automations.step sha256 parse owner) later s₁ = some s₂)
    (published event : DomainEvent) (hpublished : published ∈ s₁.events)
    (hfresh : ∀ other ∈ s₀.events, other.id ≠ published.id) (hevent : event ∈ s₂.events)
    (hid : event.id = published.id) :
    (∀ (other : DomainEvent) (sequence : ℕ), s₂.applicable other sequence ≠ none) ∧
    (∀ (env : Env F) (s₃ : State F), s₂.nextEvent = some event →
      s₂.matchNext parse env = some s₃ → ∃ new, AsPublished s₀ s₂ s₃ event new) ∧
    ∀ (env : Env F) (s₃ : State F), event.pending = false →
      s₂.matchEvent parse env event = some s₃ → s₃ = s₂ := by
  have hs₀ := (queued_init.run hbefore).1
  have hs₁ := (hs₀.step hact).1
  obtain ⟨hs₂, hsince⟩ := hs₁.run hlater
  obtain ⟨new, hnew, hin⟩ := published_of_fresh hs₀ hact hpublished hfresh
  refine ⟨fun other sequence => ?_, fun env s₃ hnext hmatch => ?_, fun env s₃ hmatched hmatch =>
    hs₂.matchEvent_matched hevent hmatched hmatch⟩
  · rw [applicable_eq hs₂.toRuled]
    exact some_ne_none _
  · obtain ⟨n, hn, hlt, hle⟩ := hnew.sequence published hin
    obtain ⟨event', hevent', hsame⟩ := hsince.events published hpublished
    obtain rfl := hs₂.eq_of_id hevent' hevent (hsame.id.trans hid.symm)
    have hsequence := hsame.publicationSequence.trans hn
    obtain ⟨_, hpending⟩ := nextEvent_mem hnext
    rw [matchNext_eq, hnext] at hmatch
    obtain ⟨new, u, hinserted, _, rfl, hmap, _⟩ :=
      hs₂.matchEvent_pending hevent hpending hsequence hmatch
    obtain ⟨activated, hactivated, hboundary⟩ := hsince.revisions
    rw [hnew.revisions] at hactivated
    have hlatest : ∀ row : Revision, row ∈ s₂.revisions ∧ s₂.inForce n row = true ↔
        s₀.lastActivated row.automationId = some row := by
      intro row
      rw [inForce_eq, hactivated]
      exact Versions.inForce_iff_latest (hactivated ▸ hs₂.numbered)
        (fun row hrow => (hs₀.boundary_le row hrow).trans_lt hlt)
        fun row hrow => hle.trans (hboundary row hrow)
    refine ⟨new, hs₂.fresh event' hevent hpending, hinserted.deliveries, hinserted.domainEventIds,
      ?_, fun automationId revision => ?_⟩
    · have hfirst := congrArg (List.map Prod.fst) hmap
      rw [List.map_map, List.map_map] at hfirst
      show (new.map (Prod.fst ∘ fun delivery => (delivery.automationId, delivery.revision))).Nodup
      rw [hfirst]
      exact (nodup_rows hs₂.toRuled n).sublist (List.Sublist.map _ filter_sublist)
    · have hpairs : (automationId, revision) ∈
          new.map (fun delivery => (delivery.automationId, delivery.revision)) ↔
            (automationId, revision) ∈
              (s₂.wanted event' n).map (fun row => (row.automationId, row.revision)) := by rw [hmap]
      simp only [List.mem_map, Prod.mk.injEq] at hpairs
      rw [hpairs]
      constructor
      · rintro ⟨row, hrow, rfl, rfl⟩
        obtain ⟨hrow, hwants⟩ := mem_filter.mp hrow
        obtain ⟨hforce, hundeleted⟩ := (mem_rows hs₂.toRuled).mp hrow
        exact ⟨hundeleted, row, (hlatest row).mp hforce, rfl, hwants⟩
      · rintro ⟨hundeleted, row, hrow, rfl, hwants⟩
        obtain rfl := Versions.key_of_latest hrow
        exact ⟨row, mem_filter.mpr ⟨(mem_rows hs₂.toRuled).mpr
          ⟨(hlatest row).mpr hrow, hundeleted⟩, hwants⟩, rfl, rfl⟩

/-! ### An event that waits for another activation -/

/-- A rule is activated and a contact comes in. -/
def exampleBefore : List (Act String) :=
  [Act.create exampleEnv "rule" exampleDefinition,
   .activate exampleEnv "rule" { expectedVersion := 0, expectedGrantVersion := 1 }] ++
  (exampleScan.events Contacts.exampleSha256).flatMap fun event =>
    [Act.receive "phone" event, .processContacts 100 "phone" (.process event)]

def examplePublish : Act String := .processContacts 100 "phone" (.publish false 1 exampleScan.rows)

/-- The rule is activated again, and another one is. -/
def exampleActivations : List (Act String) :=
  [.activate exampleEnv "rule" { expectedVersion := 1, expectedGrantVersion := 1 },
   .create exampleEnv "later" exampleDefinition,
   .activate exampleEnv "later" { expectedVersion := 0, expectedGrantVersion := 1 }]

def exampleEvent : DomainEvent :=
  { id := 0
    eventType := .contactAdded
    subject := .contact { contact := ⟨"phone", "ann"⟩, generation := 1 }
    pending := true
    publicationSequence := some 1
    publishedAt := 100 }

theorem matched_as_published_later : ∃ s₀ s₁ s₂ s₃ new,
    Runs.run (step Contacts.exampleSha256 (fun _ => 100) "owner") exampleBefore init = some s₀ ∧
    step Contacts.exampleSha256 (fun _ => 100) "owner" s₀ examplePublish = some s₁ ∧
    Runs.run (step Contacts.exampleSha256 (fun _ => 100) "owner") exampleActivations s₁ = some s₂ ∧
    s₂.matchNext (fun _ => 100) exampleEnv = some s₃ ∧
    AsPublished s₀ s₂ s₃ exampleEvent new := by
  obtain ⟨s₀, hbefore, hrest⟩ :
      ∃ s₀, Runs.run (step Contacts.exampleSha256 (fun _ => 100) "owner") exampleBefore init =
          some s₀ ∧
        (s₀.events = [] ∧
          (step Contacts.exampleSha256 (fun _ => 100) "owner" s₀ examplePublish).any (fun s₁ =>
            decide (exampleEvent ∈ s₁.events) &&
              (Runs.run (step Contacts.exampleSha256 (fun _ => 100) "owner") exampleActivations
                s₁).any fun s₂ =>
                  decide (s₂.nextEvent = some exampleEvent) &&
                    (s₂.matchNext (fun _ => 100) exampleEnv).any fun _ => true) = true) :=
    Runs.exists_end (by decide)
  obtain ⟨hnone, hrest⟩ := hrest
  obtain ⟨s₁, hact, hrest⟩ := (Option.any_eq_true _ _).mp hrest
  obtain ⟨hpublished, hrest⟩ := Bool.and_eq_true_iff.mp hrest
  obtain ⟨s₂, hlater, hrest⟩ := (Option.any_eq_true _ _).mp hrest
  obtain ⟨hnext, hrest⟩ := Bool.and_eq_true_iff.mp hrest
  obtain ⟨s₃, hmatch, _⟩ := (Option.any_eq_true _ _).mp hrest
  have hnext := of_decide_eq_true hnext
  obtain ⟨_, hpending, _⟩ := matched_as_published Contacts.exampleSha256 (fun _ => 100) "owner"
    exampleBefore exampleActivations examplePublish s₀ s₁ s₂ hbefore hact hlater exampleEvent
    exampleEvent (of_decide_eq_true hpublished) (by rw [hnone]; exact fun _ h => nomatch h)
    (nextEvent_mem hnext).1 rfl
  obtain ⟨new, hnew⟩ := hpending exampleEnv s₃ hnext hmatch
  exact ⟨s₀, s₁, s₂, s₃, new, hbefore, hact, hlater, hmatch, hnew⟩

end Bud.Automations
