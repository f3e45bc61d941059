import Bud.PersonalData.LateMatching

/-!
# The history of captures

A bootstrap keeps the request that it has been captured with, the revision it is for and its
members. Transactions rewrite statuses, and a capture adds one bootstrap, with a retry key that none
has had before.
-/

namespace Bud.Automations

open List Option
open Throws (ok_of_bind ok_of_ite ok_of_map)

variable {F : Type} {sha256 : String → String} {parse : String → ℕ} {owner : String}
  {s t u : State F} {env : Env F}

def Bootstrap.key (bootstrap : Bootstrap) : String := bootstrap.request.value.idempotencyKey

/-- The bootstrap is the same one, up to statuses. -/
structure SameSnapshot (bootstrap bootstrap' : Bootstrap) : Prop where
  id : bootstrap'.id = bootstrap.id
  automationId : bootstrap'.automationId = bootstrap.automationId
  revision : bootstrap'.revision = bootstrap.revision
  request : bootstrap'.request = bootstrap.request
  members : bootstrap'.members = bootstrap.members

/-- Bootstraps are kept, and some are added that meet a condition, with keys of their own. -/
structure Captured (new : List Bootstrap) (s t : State F) : Prop where
  kept : ∃ kept, t.bootstraps = kept ++ new ∧ Forall₂ SameSnapshot s.bootstraps kept
  nodup : (s.bootstraps.map (·.key)).Nodup → (t.bootstraps.map (·.key)).Nodup

theorem SameSnapshot.refl (bootstrap : Bootstrap) : SameSnapshot bootstrap bootstrap :=
  ⟨rfl, rfl, rfl, rfl, rfl⟩

variable {bootstrap bootstrap' : Bootstrap}

theorem SameSnapshot.key (h : SameSnapshot bootstrap bootstrap') :
    bootstrap'.key = bootstrap.key := by rw [Bootstrap.key, Bootstrap.key, h.request]

theorem SameBootstrap.snapshot (h : SameBootstrap bootstrap bootstrap') :
    SameSnapshot bootstrap bootstrap' :=
  { h with }

theorem Captured.of_forall₂ (h : Forall₂ SameSnapshot s.bootstraps t.bootstraps) :
    Captured [] s t := by
  refine ⟨⟨t.bootstraps, (append_nil _).symm, h⟩, fun hnodup => ?_⟩
  rw [Pointwise.map_eq (fun _ _ hsame => hsame.key) h]
  exact hnodup

theorem Captured.of_eq (h : t.bootstraps = s.bootstraps) : Captured [] s t :=
  .of_forall₂ (h ▸ Pointwise.refl .refl _)

theorem Reduces.captured (h : Reduces s t) : Captured [] s t :=
  .of_forall₂ (h.bootstraps.imp fun _ _ => SameBootstrap.snapshot)

theorem Captured.mem (h : Captured new s t) (hmem : bootstrap ∈ s.bootstraps) :
    ∃ bootstrap' ∈ t.bootstraps, SameSnapshot bootstrap bootstrap' := by
  obtain ⟨kept, hkept, hsame⟩ := h.kept
  obtain ⟨bootstrap', hmem', hsame⟩ := Pointwise.mem_left hsame hmem
  exact ⟨bootstrap', hkept ▸ mem_append_left new hmem', hsame⟩

/-- What is found was there before, or has been added. -/
theorem Captured.mem_or (h : Captured new s t) (hmem : bootstrap' ∈ t.bootstraps) :
    (∃ bootstrap ∈ s.bootstraps, SameSnapshot bootstrap bootstrap') ∨ bootstrap' ∈ new := by
  obtain ⟨kept, hkept, hsame⟩ := h.kept
  rw [hkept] at hmem
  rcases mem_append.mp hmem with hmem | hmem
  · obtain ⟨bootstrap, hmem, hsame⟩ := Pointwise.mem_right hsame hmem
    exact .inl ⟨bootstrap, hmem, hsame⟩
  · exact .inr hmem

/-! ### Captures -/

theorem captured_admitGroup : Captured [] s (s.admitGroup parse env) := by
  have hset : ∀ (r : State F) (id groupIndex : ℕ) (update : Group → Group),
      r.bootstraps = s.bootstraps →
        Captured [] s (r.setBootstrap id (·.setGroup groupIndex update)) := by
    intro r id groupIndex update hr
    refine .of_forall₂ ?_
    show Forall₂ SameSnapshot s.bootstraps (r.bootstraps.modify id _)
    rw [hr]
    exact Pointwise.modify .refl fun _ _ => ⟨rfl, rfl, rfl, rfl, rfl⟩
  rw [State.admitGroup]
  cases (s.dueGroups env.now).head? with
  | none => exact .of_eq rfl
  | some due =>
    obtain ⟨bootstrap, group⟩ := due
    dsimp only
    cases s.prepareGroup parse env bootstrap group with
    | error outcome => cases outcome <;> exact hset s _ _ _ rfl
    | ok prepared => exact hset _ _ _ _ rfl

/-- A capture adds a bootstrap, unless there is one with its key. -/
theorem captured_capture
    (h : s.captureInTransaction parse owner env automationId request = .ok (t, bootstrap)) :
    ∃ new, Captured new s t ∧
      (new = [] ∧ bootstrap ∈ s.bootstraps ∧ bootstrap.request = request ∨
        new = [bootstrap] ∧ bootstrap.request = request ∧
          (request.activation = none → s.insertSnapshot parse owner env automationId request
            s.publicationSequence = .ok (t, bootstrap))) := by
  have hinsert : ∀ (u : State F) (boundary : ℕ), u.bootstraps = s.bootstraps →
      (∀ other ∈ s.bootstraps, other.key ≠ request.value.idempotencyKey) →
      u.insertSnapshot parse owner env automationId request boundary = .ok (t, bootstrap) →
        Captured [bootstrap] s t ∧ bootstrap.request = request := by
    intro u boundary hu hfresh hinserted
    obtain ⟨_, _, _, hbootstrap, _, rfl⟩ := insertSnapshot_eq_ok hinserted
    have hrequest : bootstrap.request = request := hbootstrap ▸ rfl
    refine ⟨⟨⟨s.bootstraps, by rw [hu], Pointwise.refl .refl _⟩, fun hnodup => ?_⟩, hrequest⟩
    show ((u.bootstraps ++ [bootstrap]).map (·.key)).Nodup
    rw [hu, map_append, nodup_append]
    refine ⟨hnodup, nodup_singleton _, ?_⟩
    rintro key hkey _ hother rfl
    obtain ⟨other, hmem, rfl⟩ := mem_map.mp hkey
    refine hfresh other hmem ((mem_singleton.mp hother).trans ?_)
    show bootstrap.request.value.idempotencyKey = _
    rw [hrequest]
  obtain ⟨rfl, hmem, hrequest⟩ | ⟨hfresh, activated, hactivated, hinserted⟩ :=
    captureInTransaction_eq_ok h
  · exact ⟨[], .of_eq rfl, .inl ⟨rfl, hmem, hrequest⟩⟩
  · obtain ⟨-, rfl⟩ | ⟨activation, hsome, hactivated⟩ := hactivated
    · obtain ⟨hcaptured, hrequest⟩ := hinsert activated _ rfl hfresh hinserted
      exact ⟨_, hcaptured, .inr ⟨rfl, hrequest, fun _ => hinserted⟩⟩
    · have hbootstraps : activated.bootstraps = s.bootstraps := by
        obtain ⟨_, _, _, _, rfl⟩ := activateInTransaction_eq_ok hactivated
        rfl
      obtain ⟨hcaptured, hrequest⟩ := hinsert activated _ hbootstraps hfresh hinserted
      exact ⟨_, hcaptured, .inr ⟨rfl, hrequest, fun hnone => nomatch hsome ▸ hnone⟩⟩

theorem captured_matchNext (h : s.matchNext parse env = some t) : Captured [] s t := by
  have hfold : ∀ (rows : List Revision) (u : State F) (now : ℕ) (event : DomainEvent)
      (judge : Revision → Option (Outcome × Option ℕ)), u.bootstraps = s.bootstraps →
        (rows.foldl (State.deliver now event judge) u).bootstraps = s.bootstraps := by
    intro rows
    induction rows with
    | nil => exact fun _ _ _ _ hu => hu
    | cons row rows ih =>
      exact fun u now event judge hu =>
        ih _ now event judge ((deliver_keeps now event judge row).2.trans hu)
  refine .of_eq ?_
  rw [State.matchNext] at h
  cases hnext : s.nextEvent with
  | none =>
    rw [hnext] at h
    rw [some.inj h]
  | some event =>
    rw [hnext] at h
    cases hsequence : event.publicationSequence with
    | none =>
      simp only [hsequence] at h
      exact some.inj h ▸ rfl
    | some sequence =>
      simp only [hsequence] at h
      obtain ⟨judge, _, h⟩ := bind_eq_some_iff.mp h
      obtain ⟨rows, _, h⟩ := bind_eq_some_iff.mp h
      exact some.inj h ▸ hfold rows s env.now event judge rfl

theorem captured_publishAdded (now : ℕ) (sourceId : String) (generation : ℕ) (ids : List String) :
    (ids.foldl (State.publishAdded now sourceId generation) s).bootstraps = s.bootstraps := by
  induction ids generalizing s with
  | nil => rfl
  | cons id ids ih => exact ih

theorem captured_commit {ε : Type} {x : Except ε (State F)} (h : ∀ t, x = .ok t → Reduces s t) :
    Captured [] s (s.commit x) := by
  cases x with
  | ok t => exact (h t rfl).captured
  | error => exact .of_eq rfl

theorem captured_commit_capture {automationId : String} {request : Request} :
    ∃ new, Captured new s (s.commit
        ((s.captureInTransaction parse owner env automationId request).map (·.1))) ∧
      ∀ bootstrap ∈ new, bootstrap.request = request := by
  cases hcapture : s.captureInTransaction parse owner env automationId request with
  | error e => exact ⟨[], .of_eq rfl, fun _ h => nomatch h⟩
  | ok result =>
    obtain ⟨t, bootstrap⟩ := result
    obtain ⟨new, hnew, ⟨rfl, _⟩ | ⟨rfl, hrequest, _⟩⟩ := captured_capture hcapture
    · exact ⟨[], hnew, fun _ h => nomatch h⟩
    · exact ⟨_, hnew, forall_mem_singleton.mpr hrequest⟩

def Act.reviews : Act F → Bool
  | .captureReviewed .. => true
  | _ => false

/-- **Every transaction** keeps bootstraps. Those that it adds have not been reviewed, unless it is
a capture from a review. -/
theorem captured_of_step [DecidableEq F] [Inhabited F] (hdistinct : Admission.Distinct s.admission)
    {act : Act F} (hreviews : act.reviews = false)
    (hstep : step sha256 parse owner s act = some t) :
    ∃ new, Captured new s t ∧ ∀ bootstrap ∈ new, bootstrap.request.reviewed = none := by
  have hnone : ∀ {u : State F}, Captured [] s u →
      ∃ new, Captured new s u ∧ ∀ bootstrap ∈ new, bootstrap.request.reviewed = none :=
    fun h => ⟨[], h, fun _ h => nomatch h⟩
  cases act with
  | receive sourceId event =>
    refine some.inj hstep ▸ hnone (.of_eq ?_)
    rw [State.receive]
    split <;> rfl
  | processContacts =>
    obtain ⟨contacts, _, hstep⟩ := bind_eq_some_iff.mp hstep
    obtain ⟨contacts', _, hstep⟩ := bind_eq_some_iff.mp hstep
    exact some.inj hstep ▸ hnone (.of_eq (captured_publishAdded _ _ _ _))
  | publish now eventType subject =>
    obtain ⟨rfl, _, _⟩ := publish_eq_some hstep
    exact hnone (.of_eq rfl)
  | create => exact some.inj hstep ▸ hnone (captured_commit fun _ => reduces_create)
  | update => exact some.inj hstep ▸ hnone (captured_commit fun _ => reduces_update)
  | activate => exact some.inj hstep ▸ hnone (captured_commit fun _ => reduces_activate)
  | pause => exact some.inj hstep ▸ hnone (captured_commit fun _ => reduces_pause)
  | delete => exact some.inj hstep ▸ hnone (captured_commit fun _ => reduces_delete)
  | capture env automationId value activation =>
    obtain ⟨new, hnew, hrequest⟩ := @captured_commit_capture F parse owner s env automationId
      { value, activation, reviewed := none }
    refine ⟨new, some.inj hstep ▸ hnew, fun bootstrap hmem => ?_⟩
    rw [hrequest bootstrap hmem]
  | captureReviewed => cases hreviews
  | cancel => exact some.inj hstep ▸ hnone (captured_commit fun _ => reduces_cancel)
  | matchNext => exact hnone (captured_matchNext hstep)
  | admitDelivery => exact hnone (reduces_admitDelivery hdistinct hstep).captured
  | admitGroup => exact some.inj hstep ▸ hnone captured_admitGroup
  | progress id progress =>
    obtain ⟨run, _, hstep⟩ := bind_eq_some_iff.mp hstep
    obtain ⟨run', _, hstep⟩ := bind_eq_some_iff.mp hstep
    exact some.inj hstep ▸ hnone (.of_eq rfl)

/-! ### Captures from a review -/

/-- The bootstrap has what was reviewed. -/
structure Bootstrap.Of (bootstrap : Bootstrap) (reviewed : Review) : Prop where
  automationId : bootstrap.automationId = reviewed.automationId
  revision : bootstrap.revision = reviewed.revision
  request : bootstrap.request.reviewed = some reviewed
  ordinals : bootstrap.members.map (·.ordinal) = List.range bootstrap.members.length
  members : bootstrap.members.map (·.contactRevisionId) = reviewed.contactRevisionIds

/-- The revision is the one that was reviewed. -/
structure Revision.Of (row : Revision) (reviewed : Review) : Prop where
  automationId : row.automationId = reviewed.automationId
  revision : row.revision = reviewed.revision
  definition : row.definition = reviewed.definition
  grantVersion : row.grantVersion = reviewed.grantVersion

/-- **A capture from a review** takes what was reviewed, if no other one has been made under its
key. -/
theorem captureReviewed_eq_ok
    (hfresh : ∀ other ∈ s.bootstraps, other.request.reviewed.isSome = true → other.key ≠
      idempotencyKey)
    (h : s.captureReviewedInTransaction parse owner env reviewed idempotencyKey = .ok (t,
      bootstrap)) :
    Captured [bootstrap] s t ∧ bootstrap.key = idempotencyKey ∧ bootstrap.Of reviewed ∧
      t = { s with bootstraps := s.bootstraps ++ [bootstrap] } ∧
      ∃ row ∈ s.revisions, row.Of reviewed := by
  obtain ⟨_, h⟩ := ok_of_ite h
  have hkey : ∀ other : Bootstrap, other.request =
      { value :=
          { reviewed.selection with
            idempotencyKey
            acknowledgeRepeatedActions := !reviewed.selection.excludePreviouslyDelivered }
        activation := none
        reviewed := some reviewed } → other.key = idempotencyKey := by
    intro other hrequest
    show other.request.value.idempotencyKey = _
    rw [hrequest]
  obtain ⟨new, hcaptured, ⟨_, hmem, hrequest⟩ | ⟨rfl, hrequest, hinserted⟩⟩ := captured_capture h
  · refine absurd (hkey bootstrap hrequest) (hfresh bootstrap hmem ?_)
    rw [hrequest]
    rfl
  · obtain ⟨row, snapshot, _, hbootstrap, ⟨hrow, hautomation, hreview⟩, ht⟩ :=
      insertSnapshot_eq_ok (hinserted rfl)
    obtain ⟨hcurrent, rfl⟩ := hreview reviewed rfl
    simp only [Review.current, Bool.and_eq_true, decide_eq_true_eq] at hcurrent
    obtain ⟨⟨⟨⟨_, _⟩, hrevision⟩, hgrant⟩, hdefinition⟩ := hcurrent
    refine ⟨hcaptured, hkey bootstrap hrequest, ?_, ht,
      row, hrow, ⟨hautomation, hrevision.symm, hdefinition.symm, hgrant.symm⟩⟩
    subst hbootstrap
    refine ⟨rfl, hrevision.symm, rfl, ?_, members_new ..⟩
    simp [Bootstrap.new, List.map_map, Function.comp_def, range_eq_range']

end Bud.Automations
