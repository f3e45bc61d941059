import Bud.PersonalData.CaptureHistory
import Bud.PersonalData.Decisions

/-!
# Approvals

An approval does what the owner has been shown, however long ago, or else the proposal is stale and
nothing has been done. A rule has a new version whenever it is edited, activated, paused or deleted,
and permissions are versioned as well, so a proposal that finds the versions that it has frozen
finds the definition too. For contacts the capture compares what it selects with what was reviewed.
-/

namespace Bud.Proposals

open List Option
open Throws (ok_of_bind ok_of_ite ok_of_map)
open Automations (DataRequestError Review Bootstrap Revision Captured Queued)
open Scripts (exec)

variable {F κ : Type} {parse : String → ℕ} {owner : String} {fingerprint : Review → String}
  {s t : State F} {env : Env F}

/-! ### The two kinds -/

theorem lawful_activations : (activations (F := F)).Lawful where
  rows_put _ _ := rfl
  put_put _ _ _ := rfl
  put_rows _ := rfl
  put_automations _ _ := rfl
  verdict env s row status h := by
    simp only [activations] at h
    split at h
    · exact some.inj h ▸ rfl
    · split at h
      · exact some.inj h ▸ rfl
      · split at h
        · exact some.inj h ▸ rfl
        · cases h
  approve_error env row s e t h := by
    simp only [activations] at h
    exact Scripts.zoom_checked_error h
  approve_rows env row s a t h := by
    simp only [activations] at h
    obtain ⟨_, _, rfl⟩ := Scripts.zoom_checked_ok h
    rfl

theorem lawful_existingContacts :
    (existingContacts (F := F) parse owner fingerprint).Lawful where
  rows_put _ _ := rfl
  put_put _ _ _ := rfl
  put_rows _ := rfl
  put_automations _ _ := rfl
  verdict env s row status h := by
    simp only [existingContacts] at h
    split at h
    · exact some.inj h ▸ rfl
    · split at h
      · exact some.inj h ▸ rfl
      · split at h
        · exact some.inj h ▸ rfl
        · cases h
  approve_error env row s e t h := by
    simp only [existingContacts] at h
    exact Scripts.zoom_checked_error h
  approve_rows env row s a t h := by
    simp only [existingContacts] at h
    obtain ⟨_, _, rfl⟩ := Scripts.zoom_checked_ok h
    rfl

/-- An activation proposal without a verdict is about the rule as it is. -/
theorem current_of_verdict {row : Proposal FrozenActivation}
    (h : activations.verdict env s row = none) :
    ∃ rule, s.automations.rule? row.automationId = some rule ∧
      rule.draft = row.frozen.definition := by
  simp only [activations] at h
  split at h
  · cases h
  · split at h
    · cases h
    · split at h
      · cases h
      · next hcurrent =>
        rw [Bool.not_eq_true, Bool.not_eq_false'] at hcurrent
        obtain ⟨rule, hrule, hcurrent⟩ := (Option.any_eq_true _ _).mp hcurrent
        simp only [FrozenActivation.current, Bool.and_eq_true, decide_eq_true_eq] at hcurrent
        exact ⟨rule, hrule, hcurrent.1.2⟩

/-- The revision that an approval of the proposal has created. -/
structure Activates (row : Proposal FrozenActivation) (revision : Revision) : Prop where
  automationId : revision.automationId = row.automationId
  receipt : row.receipt = some revision.revision
  definition : revision.definition = row.frozen.definition
  grantVersion : revision.grantVersion = row.frozen.grantVersion

/-- The bootstrap that an approval of the proposal has created: the contacts that were reviewed, in
order, under the revision and the grant that were reviewed. -/
structure Captures (row : Proposal FrozenContacts) (bootstrap : Bootstrap) (active : Revision) :
    Prop where
  receipt : row.receipt = some bootstrap.id
  key : bootstrap.key = captureKey row.id
  automationId : bootstrap.automationId = row.automationId
  revision : bootstrap.revision = row.frozen.revision
  members : bootstrap.members.map (fun member => (member.ordinal, member.contactRevisionId)) =
    row.frozen.members
  reviewed : bootstrap.members.map (·.contactRevisionId) = row.frozen.frozen.contactRevisionIds
  activeAutomation : active.automationId = row.automationId
  activeRevision : active.revision = row.frozen.revision
  definition : active.definition = row.frozen.frozen.definition
  grantVersion : active.grantVersion = row.frozen.frozen.grantVersion

/-- **An activation that is approved.** -/
theorem approve_activations {row : Proposal FrozenActivation}
    (hverdict : activations.verdict env s row = none)
    (happrove : exec (activations.approve env row) s = (.ok receipt, t)) :
    ∃ automations revision, s.automations.activateInTransaction env.toAutomations row.automationId
        { expectedVersion := row.frozen.draftVersion
          expectedGrantVersion := row.frozen.grantVersion } = .ok automations ∧
      t = { s with automations } ∧
      automations.revisions = s.automations.revisions ++ [revision] ∧
      automations.bootstraps = s.automations.bootstraps ∧
      revision.automationId = row.automationId ∧ revision.revision = receipt ∧
      revision.definition = row.frozen.definition ∧
      revision.grantVersion = row.frozen.grantVersion := by
  simp only [activations] at happrove
  obtain ⟨automations, hchecked, rfl⟩ := Scripts.zoom_checked_ok happrove
  obtain ⟨activated, hactivated, heq⟩ := ok_of_map hchecked
  obtain ⟨rfl, rfl⟩ := Prod.mk.inj heq
  obtain ⟨prior, hload, hversion, _, hresult⟩ :=
    Automations.activateInTransaction_eq_ok hactivated
  obtain ⟨rule, hrule, hdraft⟩ := current_of_verdict hverdict
  have hprior : prior = rule := by
    rw [Automations.State.load, hrule] at hload
    obtain ⟨_, hload⟩ := ok_of_ite hload
    exact (Except.ok.inj hload).symm
  refine ⟨activated, _, hactivated, rfl, by rw [hresult]; rfl, by rw [hresult]; rfl, rfl, ?_, ?_,
    rfl⟩
  · show prior.version + 1 = _
    rw [hversion]
  · show prior.draft = _
    rw [hprior, hdraft]

theorem intact_iff {frozen : FrozenContacts} :
    frozen.intact owner fingerprint automationId = true ↔
      fingerprint frozen.frozen = frozen.fingerprint ∧ frozen.frozen.owner = owner ∧
        frozen.frozen.revision = frozen.revision ∧ frozen.frozen.automationId = automationId ∧
        frozen.members.length = frozen.memberCount ∧
        frozen.members.map (·.1) = range frozen.members.length ∧
        frozen.members.map (·.2) = frozen.frozen.contactRevisionIds := by
  simp only [FrozenContacts.intact, Bool.and_eq_true, decide_eq_true_eq, and_assoc]

/-- **Contacts that are approved.** -/
theorem approve_existingContacts {row : Proposal FrozenContacts} {receipt : ℕ}
    (hfresh : ∀ other ∈ s.automations.bootstraps, other.request.reviewed.isSome = true →
      other.key ≠ captureKey row.id)
    (hintact : (existingContacts parse owner fingerprint).intact (F := F) row = true)
    (happrove : exec ((existingContacts parse owner fingerprint).approve env row) s =
      (.ok receipt, t)) :
    ∃ bootstrap, t = { s with
        automations :=
          { s.automations with bootstraps := s.automations.bootstraps ++ [bootstrap] } } ∧
      s.automations.captureReviewedInTransaction parse owner env.toAutomations row.frozen.frozen
        (captureKey row.id) = .ok (t.automations, bootstrap) ∧
      Captured [bootstrap] s.automations t.automations ∧
      ∃ active ∈ s.automations.revisions, ∀ version (value : Decision),
        Captures (value.write (some receipt) version row) bootstrap active := by
  simp only [existingContacts] at happrove
  obtain ⟨automations, hchecked, rfl⟩ := Scripts.zoom_checked_ok happrove
  obtain ⟨_, _, hchecked⟩ := ok_of_bind hchecked
  obtain ⟨⟨captured, bootstrap⟩, hcapture, heq⟩ := ok_of_bind hchecked
  obtain ⟨rfl, rfl⟩ := Prod.mk.inj (Except.ok.inj heq)
  obtain ⟨hcaptured, hkey, hof, rfl, active, hactive, hactiveOf⟩ :=
    Automations.captureReviewed_eq_ok hfresh hcapture
  obtain ⟨_, _, hrevision, hautomation, _, hordinals, hmembers⟩ := intact_iff.mp hintact
  have hlength : bootstrap.members.length = row.frozen.members.length := by
    have := congrArg length (hof.members.trans hmembers.symm)
    simpa using this
  refine ⟨bootstrap, rfl, hcapture, hcaptured, active, hactive, fun _ _ => ?_⟩
  exact
    { receipt := rfl
      key := hkey
      automationId := hof.automationId.trans hautomation
      revision := hof.revision.trans hrevision
      members := by
        show _ = row.frozen.members
        rw [zip_of_prod hordinals hmembers]
        refine zip_of_prod ?_ ?_
        · rw [List.map_map, ← hlength]
          exact hof.ordinals
        · rw [List.map_map]
          exact hof.members
      reviewed := hof.members
      activeAutomation := hactiveOf.automationId.trans hautomation
      activeRevision := hactiveOf.revision.trans hrevision
      definition := hactiveOf.definition
      grantVersion := hactiveOf.grantVersion }

/-! ### What a transaction does -/

/-- A proposal leaves `pending` at most once, and is otherwise the same. -/
def Moves (row row' : Proposal κ) : Prop :=
  row' = row ∨ row.status = .pending ∧ row'.status ≠ .pending ∧ row'.id = row.id ∧
    row'.automationId = row.automationId ∧ row'.frozen = row.frozen

/-- The proposal has just been made. -/
structure Proposal.New (row : Proposal κ) : Prop where
  status : row.status = .pending
  decisionIdempotencyKey : row.decisionIdempotencyKey = none

/-- Proposals have moved, and some have been added that are pending. -/
structure Moved (rows rows' : List (Proposal κ)) : Prop where
  kept : ∃ kept new, rows' = kept ++ new ∧ Forall₂ Moves rows kept ∧
    ∀ row ∈ new, row.New
  nodup : (rows.map (·.id)).Nodup → (rows'.map (·.id)).Nodup

theorem Moves.refl (row : Proposal κ) : Moves row row := .inl rfl

variable {row : Proposal κ} {rows rows' : List (Proposal κ)}

theorem Moves.id (h : Moves row row') : row'.id = row.id := by
  obtain rfl | ⟨_, _, hid, _⟩ := h
  · rfl
  · exact hid

theorem Closes.moves (h : Closes row row') : Moves row row' := by
  obtain rfl | ⟨hpending, hends, heq⟩ := h
  · exact .inl rfl
  · refine .inr ⟨hpending, Status.ne_pending_of_ends hends, ?_, ?_, ?_⟩ <;> rw [heq]

theorem Decision.moves (value : Decision) (receipt : Option ℕ) (version : ℕ)
    (h : row.status = .pending) : Moves row (value.write receipt version row) :=
  .inr ⟨h, value.write_ne_pending _ _ _, rfl, rfl, rfl⟩

theorem Moved.of_forall₂ (h : Forall₂ Moves rows rows') : Moved rows rows' where
  kept := ⟨rows', [], (append_nil _).symm, h, fun _ hrow => nomatch hrow⟩
  nodup hnodup := by
    rw [Pointwise.map_eq (fun _ _ hmoves => hmoves.id) h]
    exact hnodup

theorem Moved.refl (rows : List (Proposal κ)) : Moved rows rows :=
  .of_forall₂ (Pointwise.refl .refl rows)

/-- A proposal that is added has an id of its own. -/
theorem Moved.append (h : Forall₂ Moves rows rows') (hnew : row.New)
    (hfresh : ∀ other ∈ rows', other.id ≠ row.id) : Moved rows (rows' ++ [row]) where
  kept := ⟨rows', [row], rfl, h, forall_mem_singleton.mpr hnew⟩
  nodup hnodup := by
    rw [map_append, nodup_append]
    refine ⟨(Moved.of_forall₂ h).nodup hnodup, nodup_singleton _, ?_⟩
    rintro id hid _ hother rfl
    obtain ⟨other, hmem, rfl⟩ := mem_map.mp hid
    exact hfresh other hmem (mem_singleton.mp hother)

theorem Moved.mem (h : Moved rows rows') (hrow : row ∈ rows) (hstatus : row.status ≠ .pending) :
    row ∈ rows' := by
  obtain ⟨kept, new, rfl, hkept, _⟩ := h.kept
  obtain ⟨row', hrow', rfl | ⟨hpending, _⟩⟩ := Pointwise.mem_left hkept hrow
  · exact mem_append_left _ hrow'
  · exact absurd hpending hstatus

theorem Moved.undecided (h : Moved rows rows')
    (hrows : ∀ row ∈ rows, row.status = .pending → row.New) :
    ∀ row ∈ rows', row.status = .pending → row.New := by
  obtain ⟨kept, new, rfl, hkept, hnew⟩ := h.kept
  intro row hrow hpending
  rcases mem_append.mp hrow with hrow | hrow
  · obtain ⟨before, hbefore, rfl | ⟨_, hended, _⟩⟩ := Pointwise.mem_right hkept hrow
    · exact hrows row hbefore hpending
    · exact absurd hpending hended
  · exact hnew row hrow

/-- What has been approved was approved before, or has just been. -/
def Approved (Creates : Proposal κ → State F → State F → Prop) (rows rows' : List (Proposal κ))
    (s t : State F) : Prop :=
  ∀ row ∈ rows', row.status = .approved → row ∈ rows ∨ Creates row s t

/-- An approval has created one revision and nothing else. -/
def Activated (row : Proposal FrozenActivation) (s t : State F) : Prop :=
  ∃ revision, Activates row revision ∧
    t.automations.revisions = s.automations.revisions ++ [revision] ∧
    t.automations.bootstraps = s.automations.bootstraps

/-- An approval has created one bootstrap and nothing else. -/
def CapturedFor (row : Proposal FrozenContacts) (s t : State F) : Prop :=
  ∃ bootstrap, ∃ active ∈ s.automations.revisions, Captures row bootstrap active ∧
    t.automations =
      { s.automations with bootstraps := s.automations.bootstraps ++ [bootstrap] }

/-- What a transaction does. -/
structure Stepped (s t : State F) : Prop where
  queued : Queued t.automations
  revisions : ∃ later, t.automations.revisions = s.automations.revisions ++ later
  captured : ∃ new, Captured new s.automations t.automations ∧
    ∀ bootstrap ∈ new, bootstrap.request.reviewed.isSome = true →
      ∃ row ∈ t.bootstrapProposals, row.status = .approved ∧ bootstrap.key = captureKey row.id
  movedActivations : Moved s.activationProposals t.activationProposals
  movedBootstraps : Moved s.bootstrapProposals t.bootstrapProposals
  approvedActivations : Approved Activated s.activationProposals t.activationProposals s t
  approvedBootstraps : Approved CapturedFor s.bootstrapProposals t.bootstrapProposals s t

/-- What the tables keep to. What has been approved has been created, and what has been created
from a review has been approved. -/
structure Sound (s : State F) : Prop where
  queued : Queued s.automations
  keys : (s.automations.bootstraps.map (·.key)).Nodup
  activationIds : (s.activationProposals.map (·.id)).Nodup
  bootstrapIds : (s.bootstrapProposals.map (·.id)).Nodup
  undecidedActivations : ∀ row ∈ s.activationProposals, row.status = .pending → row.New
  undecidedBootstraps : ∀ row ∈ s.bootstrapProposals, row.status = .pending → row.New
  activated : ∀ row ∈ s.activationProposals, row.status = .approved →
    ∃ revision ∈ s.automations.revisions, Activates row revision
  captured : ∀ row ∈ s.bootstrapProposals, row.status = .approved →
    ∃ bootstrap ∈ s.automations.bootstraps, ∃ active ∈ s.automations.revisions,
      Captures row bootstrap active
  reviewed : ∀ bootstrap ∈ s.automations.bootstraps, bootstrap.request.reviewed.isSome = true →
    ∃ row ∈ s.bootstrapProposals, row.status = .approved ∧ bootstrap.key = captureKey row.id

theorem sound_init : Sound (init : State F) where
  queued := Automations.queued_init
  keys := nodup_nil
  activationIds := nodup_nil
  bootstrapIds := nodup_nil
  undecidedActivations _ h := nomatch h
  undecidedBootstraps _ h := nomatch h
  activated _ h := nomatch h
  captured _ h := nomatch h
  reviewed _ h := nomatch h

theorem Captures.snapshot {row : Proposal FrozenContacts} (h : Captures row bootstrap active)
    (hsame : Automations.SameSnapshot bootstrap bootstrap') : Captures row bootstrap' active where
  receipt := hsame.id ▸ h.receipt
  key := hsame.key.trans h.key
  automationId := hsame.automationId.trans h.automationId
  revision := hsame.revision.trans h.revision
  members := hsame.members ▸ h.members
  reviewed := hsame.members ▸ h.reviewed
  activeAutomation := h.activeAutomation
  activeRevision := h.activeRevision
  definition := h.definition
  grantVersion := h.grantVersion

/-- **The tables keep to it.** -/
theorem Sound.stepped (h : Sound s) (hstep : Stepped s t) : Sound t := by
  obtain ⟨later, hlater⟩ := hstep.revisions
  obtain ⟨new, hnew, hreviewed⟩ := hstep.captured
  have happroved : ∀ {status : Status}, status = .approved → status ≠ .pending := by
    rintro _ rfl
    exact Status.noConfusion
  refine ⟨hstep.queued, hnew.nodup h.keys, hstep.movedActivations.nodup h.activationIds,
    hstep.movedBootstraps.nodup h.bootstrapIds,
    hstep.movedActivations.undecided h.undecidedActivations,
    hstep.movedBootstraps.undecided h.undecidedBootstraps, fun row hrow hstatus => ?_,
    fun row hrow hstatus => ?_, fun bootstrap hbootstrap hsome => ?_⟩
  · obtain hbefore | ⟨revision, hactivates, hrevisions, _⟩ :=
      hstep.approvedActivations row hrow hstatus
    · obtain ⟨revision, hrevision, hactivates⟩ := h.activated row hbefore hstatus
      exact ⟨revision, hlater ▸ mem_append_left _ hrevision, hactivates⟩
    · exact ⟨revision, hrevisions ▸ mem_append_right _ mem_cons_self, hactivates⟩
  · obtain hbefore | ⟨bootstrap, active, hactive, hcaptures, heq⟩ :=
      hstep.approvedBootstraps row hrow hstatus
    · obtain ⟨bootstrap, hbootstrap, active, hactive, hcaptures⟩ := h.captured row hbefore hstatus
      obtain ⟨bootstrap', hbootstrap', hsame⟩ := hnew.mem hbootstrap
      exact ⟨bootstrap', hbootstrap', active, hlater ▸ mem_append_left _ hactive,
        hcaptures.snapshot hsame⟩
    · refine ⟨bootstrap, ?_, active, hlater ▸ mem_append_left _ hactive, hcaptures⟩
      rw [heq]
      exact mem_append_right _ mem_cons_self
  · obtain ⟨before, hbefore, hsame⟩ | hin := hnew.mem_or hbootstrap
    · obtain ⟨row, hrow, hstatus, hkey⟩ := h.reviewed before hbefore (hsame.request ▸ hsome)
      exact ⟨row, hstep.movedBootstraps.mem hrow (happroved hstatus), hstatus, hsame.key.trans hkey⟩
    · exact hreviewed bootstrap hin hsome

end Bud.Proposals
