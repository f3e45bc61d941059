import Bud.PersonalData.Approvals

/-!
# What was reviewed is what runs

Between the review and the approval rules are edited, activated, paused and deleted, permissions
change, contacts are published, and other proposals are decided on. A transaction approves one
proposal at most (`Stepped`); what has been approved stays as it is, and so does what it has
created.
-/

namespace Bud.Proposals

open List Option
open Throws (ok_of_bind ok_of_ite ok_of_map)
open Automations (DataRequestError Review Bootstrap Revision Captured Queued)
open Scripts (exec commit exec_bind_ok exec_bind_error commit_of_error commit_of_ok)

variable {F κ : Type} {sha256 : String → String} {parse : String → ℕ} {owner : String}
  {fingerprint : Review → String} {s t u : State F} {env : Env F}

/-! ### Transactions without an approval -/

/-- The rules have moved on, and no contacts that have been reviewed have been captured. -/
def Unreviewed (a b : Automations.State F) : Prop :=
  Queued b ∧ (∃ later, b.revisions = a.revisions ++ later) ∧
    ∃ new, Captured new a b ∧ ∀ bootstrap ∈ new, bootstrap.request.reviewed = none

def Unapproved (rows rows' : List (Proposal κ)) : Prop :=
  Moved rows rows' ∧ ∀ row ∈ rows', row.status = .approved → row ∈ rows

theorem unreviewed_refl (h : Queued a) : Unreviewed a a :=
  ⟨h, ⟨[], (append_nil _).symm⟩, [], .of_eq rfl, fun _ h => nomatch h⟩

theorem unreviewed_of_step [DecidableEq F] [Inhabited F] (h : Queued a) {act : Automations.Act F}
    (hreviews : act.reviews = false) (hstep : Automations.step sha256 parse owner a act = some b) :
    Unreviewed a b := by
  obtain ⟨hb, hsince⟩ := h.step hstep
  obtain ⟨later, hlater, _⟩ := hsince.revisions
  exact ⟨hb, ⟨later, hlater⟩, Automations.captured_of_step h.distinct hreviews hstep⟩

theorem Unapproved.refl (rows : List (Proposal κ)) : Unapproved rows rows :=
  ⟨.refl rows, fun _ hrow _ => hrow⟩

variable {rows rows' : List (Proposal κ)} {row : Proposal κ} {kind : Kind F κ}

theorem approved_of_closes (h : Forall₂ Closes rows rows') :
    ∀ row ∈ rows', row.status = .approved → row ∈ rows := by
  intro row hrow hstatus
  obtain ⟨before, hbefore, rfl | ⟨_, hends, _⟩⟩ := Pointwise.mem_right h hrow
  · exact hbefore
  · rw [hstatus] at hends
    cases hends

theorem Unapproved.of_closes (h : Forall₂ Closes rows rows') : Unapproved rows rows' :=
  ⟨.of_forall₂ (h.imp fun _ _ hcloses => hcloses.moves), approved_of_closes h⟩

theorem Unapproved.append (h : Forall₂ Closes rows rows') (hnew : row.New)
    (hfresh : ∀ other ∈ rows', other.id ≠ row.id) : Unapproved rows (rows' ++ [row]) := by
  refine ⟨.append (h.imp fun _ _ hcloses => hcloses.moves) hnew hfresh,
    forall_mem_append.mpr ⟨approved_of_closes h, forall_mem_singleton.mpr ?_⟩⟩
  intro hstatus
  exact nomatch hnew.status.symm.trans hstatus

theorem Unapproved.declined (hnodup : (rows.map (·.id)).Nodup) (hrow : row ∈ rows)
    (hpending : row.status = .pending) {value : Decision} (hdecision : value.decision ≠ .approve)
    (version : ℕ) : Unapproved rows (change row (value.write none version) rows) := by
  refine ⟨.of_forall₂ (forall₂_change .refl hnodup hrow (value.moves none version hpending)), ?_⟩
  intro other hother hstatus
  obtain ⟨before, hbefore, rfl⟩ := mem_map.mp hother
  split at hstatus
  · replace hstatus : value.decision.status = .approved := hstatus
    cases hvalue : value.decision <;> rw [hvalue] at hstatus hdecision
    · exact absurd rfl hdecision
    · cases hstatus
    · cases hstatus
  · next hne =>
    rw [if_neg hne]
    exact hbefore

theorem Stepped.unapproved (hautomations : Unreviewed s.automations t.automations)
    (hactivations : Unapproved s.activationProposals t.activationProposals)
    (hbootstraps : Unapproved s.bootstrapProposals t.bootstrapProposals) : Stepped s t := by
  obtain ⟨hqueued, hrevisions, new, hnew, hreviewed⟩ := hautomations
  refine ⟨hqueued, hrevisions, ⟨new, hnew, fun bootstrap hmem hsome => ?_⟩, hactivations.1,
    hbootstraps.1, fun row hrow hstatus => .inl (hactivations.2 row hrow hstatus),
    fun row hrow hstatus => .inl (hbootstraps.2 row hrow hstatus)⟩
  rw [hreviewed bootstrap hmem] at hsome
  cases hsome

theorem Sound.refl (h : Sound s) : Stepped s s :=
  .unapproved (unreviewed_refl h.queued) (.refl _) (.refl _)

/-- Replacing the table of a kind is a transaction, if nothing is approved. -/
def Kind.Steps (kind : Kind F κ) (s : State F) : Prop :=
  ∀ rows, Unapproved (kind.rows s) rows → Stepped s (kind.put rows s)

theorem steps_activations (h : Sound s) : (activations (F := F)).Steps s :=
  fun _ hrows => .unapproved (unreviewed_refl h.queued) hrows (.refl _)

theorem steps_existingContacts (h : Sound s) :
    (existingContacts (F := F) parse owner fingerprint).Steps s :=
  fun _ hrows => .unapproved (unreviewed_refl h.queued) (.refl _) hrows

theorem Kind.Steps.closing (h : kind.Steps s) (hclosing : kind.Closing s t) : Stepped s t := by
  obtain ⟨rows, rfl, hrows⟩ := hclosing
  exact h rows (.of_closes hrows)

/-! ### Requests -/

/-- A request may end proposals that are pending, and add one. -/
def Kind.Requested (kind : Kind F κ) (s t : State F) : Prop :=
  ∃ u, kind.Closing s u ∧ (t = u ∨ ∃ row : Proposal κ, row.New ∧
    (∀ other ∈ kind.rows u, other.id ≠ row.id) ∧ t = kind.put (kind.rows u ++ [row]) u)

theorem Kind.Steps.requested (h : kind.Steps s) (hl : kind.Lawful)
    (hrequested : kind.Requested s t) : Stepped s t := by
  obtain ⟨u, ⟨rows, rfl, hrows⟩, rfl | ⟨row, hnew, hfresh, rfl⟩⟩ := hrequested
  · exact h rows (.of_closes hrows)
  · rw [hl.put_put, hl.rows_put]
    rw [hl.rows_put] at hfresh
    exact h _ (.append hrows hnew hfresh)

theorem requested_refl (hl : kind.Lawful) (s : State F) : kind.Requested s s :=
  ⟨s, hl.closing_refl s, .inl rfl⟩

variable (env) in
theorem requested_reconcile (hl : kind.Lawful) (hnodup : ((kind.rows s).map (·.id)).Nodup)
    (hrow : row ∈ kind.rows s) : kind.Requested s (commit (kind.reconcile env row) s) := by
  obtain ⟨row', t, hexec, hclosing, _⟩ := exec_reconcile env hl hnodup hrow
  rw [commit_of_ok hexec]
  exact ⟨t, hclosing, .inl rfl⟩

theorem exec_insert (kind : Kind F κ) (row : Proposal κ) (s : State F) :
    (∃ e, exec (kind.insert row) s = (.error e, s)) ∨
      exec (kind.insert row) s = (.ok row, kind.put (kind.rows s ++ [row]) s) ∧
        ∀ other ∈ kind.rows s, other.id ≠ row.id := by
  rw [Kind.insert, exec_bind_ok (Scripts.exec_get s)]
  by_cases htaken : ((kind.rows s).any fun other => decide (other.id = row.id)) = true
  · rw [if_pos htaken]
    exact .inl ⟨_, rfl⟩
  · rw [if_neg htaken]
    refine .inr ⟨rfl, fun other hother hid => htaken ?_⟩
    exact List.any_eq_true.mpr ⟨other, hother, decide_eq_true hid⟩

variable (env) in
/-- A proposal is inserted, if there are not too many that are pending. -/
theorem requested_insert (hl : kind.Lawful) (hnodup : ((kind.rows s).map (·.id)).Nodup)
    (hnew : row.New) (error : DataRequestError) {α : Type}
    (f : Proposal κ → Scripts.Script (State F) _ α)
    (hf : ∀ row u, ∃ a, exec (f row) u = (.ok a, u)) : kind.Requested s (commit (do
      if pendingPerOwner ≤ (← kind.reconcilePending env) then throw error
      kind.insert row >>= f) s) := by
  obtain ⟨count, u, hexec, hclosing⟩ := exec_reconcilePending env hl hnodup
  rw [commit, exec_bind_ok hexec]
  by_cases hlimit : pendingPerOwner ≤ count
  · rw [if_pos hlimit]
    exact requested_refl hl s
  · rw [if_neg hlimit]
    obtain ⟨e, herror⟩ | ⟨hok, hfresh⟩ := exec_insert kind row u
    · rw [exec_bind_error herror]
      exact requested_refl hl s
    · obtain ⟨a, ha⟩ := hf row (kind.put (kind.rows u ++ [row]) u)
      rw [exec_bind_ok hok, ha]
      exact ⟨u, hclosing, .inr ⟨row, hnew, hfresh, rfl⟩⟩

theorem requested_ite {c : Prop} [Decidable c] {x y : Scripts.Script (State F) DataRequestError α}
    (hx : kind.Requested s (commit x s)) (hy : kind.Requested s (commit y s)) :
    kind.Requested s (commit (if c then x else y) s) := by
  split
  · exact hx
  · exact hy

theorem requested_requestActivation (hnodup : (s.activationProposals.map (·.id)).Nodup)
    (ulid : String) (context : Context) (automationId : String) (expectedVersion : ℕ) :
    activations.Requested s
      (commit (requestActivation env ulid context automationId expectedVersion) s) := by
  have hrefl := requested_refl lawful_activations s
  rw [requestActivation]
  cases env.invocation context.invocationId with
  | none => exact hrefl
  | some invocation =>
    dsimp only
    refine requested_ite hrefl ?_
    refine requested_ite hrefl ?_
    refine requested_ite hrefl ?_
    rw [commit_get_bind]
    cases hfound : s.activationProposals.find? fun row =>
        decide (row.invocationId = context.invocationId) &&
          decide (row.callId = context.callId) with
    | some existing =>
      dsimp only
      refine requested_ite hrefl ?_
      exact requested_reconcile env lawful_activations hnodup (mem_of_find?_eq_some hfound)
    | none =>
      dsimp only
      rw [commit_get_bind]
      cases s.automations.rule? automationId with
      | none => exact hrefl
      | some rule =>
        dsimp only
        refine requested_ite hrefl ?_
        refine requested_ite hrefl ?_
        refine requested_ite hrefl ?_
        rw [← bind_pure (activations.insert _)]
        exact requested_insert env lawful_activations hnodup ⟨rfl, rfl⟩ _ pure
          fun row _ => ⟨row, rfl⟩

theorem requested_requestExistingContacts (hnodup : (s.bootstrapProposals.map (·.id)).Nodup)
    (ulid : String) (context : Context) (automationId : String)
    (selection : Automations.Selection) :
    (existingContacts parse owner fingerprint).Requested s
      (commit (requestExistingContacts parse owner fingerprint env ulid context automationId
        selection) s) := by
  have hlawful : (existingContacts (F := F) parse owner fingerprint).Lawful :=
    lawful_existingContacts
  have hrefl := requested_refl hlawful s
  rw [requestExistingContacts]
  dsimp only
  cases env.invocation context.invocationId with
  | none => exact hrefl
  | some invocation =>
    dsimp only
    refine requested_ite hrefl ?_
    refine requested_ite hrefl ?_
    refine requested_ite hrefl ?_
    rw [commit_get_bind]
    cases hfound : s.bootstrapProposals.find? fun row =>
        decide (row.invocationId = context.invocationId) &&
          decide (row.callId = context.callId) with
    | some existing =>
      dsimp only
      refine requested_ite hrefl ?_
      rw [Scripts.commit_bind_pure]
      exact requested_reconcile env hlawful hnodup (mem_of_find?_eq_some hfound)
    | none =>
      dsimp only
      rw [commit_get_bind, Scripts.commit_ofExcept_bind]
      cases freezeReviewInTransaction parse owner s.automations env.toAutomations automationId
          selection with
      | error e => exact hrefl
      | ok frozen =>
        dsimp only
        rw [Scripts.commit_ofExcept_bind]
        cases env.validateTargets frozen.definition with
        | error e => exact hrefl
        | ok _ =>
          dsimp only
          refine requested_ite hrefl ?_
          exact requested_insert env hlawful hnodup ⟨rfl, rfl⟩ _ _ fun row _ => ⟨some row, rfl⟩

/-! ### Decisions -/

/-- A decision that does not approve is a transaction that approves nothing. -/
theorem Kind.Steps.commit_resolve (h : kind.Steps s) (hs : Stepped s s) (hl : kind.Lawful)
    (hnodup : ((kind.rows s).map (·.id)).Nodup) (id : String) (value : Decision)
    (happrove : ∀ prior ∈ kind.rows s, ∀ receipt t, prior.status = .pending → kind.verdict env s
      prior = none → kind.intact prior = true → value.decision = .approve → exec (kind.approve env
      prior) s = (.ok receipt, t) → Stepped s (kind.withDecision prior value (some receipt) t)) :
    Stepped s (commit (kind.resolve env id value) s) := by
  obtain ⟨e, t, herror⟩ | ⟨row, t, hok, hresolved⟩ := exec_resolve env hl hnodup id value
  · rw [commit_of_error herror]
    exact hs
  · rw [commit_of_ok hok]
    cases hresolved with
    | again => exact hs
    | ended _ closing => exact h.closing closing
    | declined prior mem _ pending decision =>
      exact h _ (.declined hnodup mem pending decision prior.version)
    | approved prior mem _ pending verdict decision intact receipt t approve =>
      exact happrove prior mem receipt t pending verdict intact decision approve

theorem approved_of_change {Creates : Proposal κ → State F → State F → Prop}
    (hnodup : (rows.map (·.id)).Nodup) {prior : Proposal κ} (hprior : prior ∈ rows)
    (hpending : prior.status = .pending) {value : Decision} {receipt : Option ℕ} {version : ℕ}
    (hcreates : Creates (value.write receipt version prior) s t) :
    Moved rows (change prior (value.write receipt version) rows) ∧
      Approved Creates rows (change prior (value.write receipt version) rows) s t := by
  refine ⟨.of_forall₂ (forall₂_change .refl hnodup hprior (value.moves receipt version hpending)),
    fun row hrow _ => ?_⟩
  obtain ⟨before, hbefore, rfl⟩ := mem_map.mp hrow
  split
  · next hid =>
    obtain rfl := inj_on_of_nodup_map hnodup hbefore hprior hid
    exact .inr hcreates
  · exact .inl hbefore

theorem captureKey_inj (h : captureKey a = captureKey b) : a = b :=
  (String.append_right_inj "proposal:").mp h

/-- No bootstrap has the key of a proposal that is pending, unless an owner has chosen it. -/
theorem Sound.fresh (h : Sound s) {row : Proposal FrozenContacts}
    (hrow : row ∈ s.bootstrapProposals)
    (hpending : row.status = .pending) :
    ∀ other ∈ s.automations.bootstraps, other.request.reviewed.isSome = true →
      other.key ≠ captureKey row.id := by
  intro other hother hsome hkey
  obtain ⟨approved, happroved, hstatus, hkey'⟩ := h.reviewed other hother hsome
  obtain rfl := inj_on_of_nodup_map h.bootstrapIds happroved hrow
    (captureKey_inj (hkey'.symm.trans hkey))
  exact nomatch hpending.symm.trans hstatus

theorem Sound.decideActivation [DecidableEq F] [Inhabited F] (h : Sound s) (env : Env F)
    (id : String) (value : Decision) :
    Stepped s (commit (activations.resolve env id value) s) := by
  refine (steps_activations h).commit_resolve h.refl lawful_activations h.activationIds id value ?_
  intro prior hprior receipt t hpending hverdict _ _ happrove
  obtain ⟨automations, revision, hactivate, rfl, hrevisions, hbootstraps, hautomation, hreceipt,
    hdefinition, hgrant⟩ := approve_activations hverdict happrove
  obtain ⟨hqueued, hlater, new, hnew, hreviewed⟩ : Unreviewed s.automations automations := by
    have hstep : Automations.step (fun x => x) (fun _ => 0) "" s.automations
        (.activate env.toAutomations
        prior.automationId { expectedVersion := prior.frozen.draftVersion
                             expectedGrantVersion := prior.frozen.grantVersion }) =
          some automations := by
      show some (s.automations.commit _) = _
      rw [hactivate]
      rfl
    exact unreviewed_of_step h.queued rfl hstep
  obtain ⟨hmoved, happroved⟩ := @approved_of_change F _ s
    (activations.withDecision prior value (some receipt) { s with automations }) _
    Activated h.activationIds prior hprior hpending value (some receipt) prior.version
    ⟨revision, ⟨hautomation, congrArg some hreceipt.symm, hdefinition, hgrant⟩, hrevisions,
      hbootstraps⟩
  exact
    { queued := hqueued
      revisions := hlater
      captured := ⟨new, hnew, fun bootstrap hmem hsome => by
        rw [hreviewed bootstrap hmem] at hsome
        cases hsome⟩
      movedActivations := hmoved
      movedBootstraps := .refl _
      approvedActivations := happroved
      approvedBootstraps := fun row hrow _ => .inl hrow }

theorem Sound.decideExistingContacts [DecidableEq F] [Inhabited F] (h : Sound s) (env : Env F)
    (id : String) (value : Decision) :
    Stepped s (commit ((existingContacts parse owner fingerprint).resolve env id value) s) := by
  refine (steps_existingContacts h).commit_resolve h.refl lawful_existingContacts h.bootstrapIds id
    value ?_
  intro prior hprior receipt t hpending hverdict hintact hdecision happrove
  obtain ⟨bootstrap, rfl, hcapture, hcaptured, active, hactive, hcaptures⟩ :=
    approve_existingContacts (h.fresh hprior hpending) hintact happrove
  obtain ⟨hmoved, happroved⟩ := @approved_of_change F _ s
    ((existingContacts parse owner fingerprint).withDecision prior value (some receipt)
      { s with
        automations :=
          { s.automations with bootstraps := s.automations.bootstraps ++ [bootstrap] } }) _
    CapturedFor h.bootstrapIds prior hprior hpending value (some receipt) prior.version
    ⟨bootstrap, active, hactive, hcaptures _ value, rfl⟩
  have hstep : Automations.step (fun x => x) parse owner s.automations (.captureReviewed
      env.toAutomations prior.frozen.frozen (captureKey prior.id)) =
        some { s.automations with bootstraps := s.automations.bootstraps ++ [bootstrap] } := by
    show some (s.automations.commit _) = _
    rw [hcapture]
    rfl
  have hstatus : (value.write (some receipt) prior.version prior).status = .approved := by
    show value.decision.status = _
    rw [hdecision]
    rfl
  exact
    { queued := (h.queued.step hstep).1
      revisions := ⟨[], (append_nil _).symm⟩
      captured := ⟨[bootstrap], hcaptured, forall_mem_singleton.mpr fun _ =>
        ⟨_, mem_change hprior _, hstatus, (hcaptures prior.version value).key⟩⟩
      movedActivations := .refl _
      movedBootstraps := hmoved
      approvedActivations := fun row hrow _ => .inl hrow
      approvedBootstraps := happroved }

/-! ### Steps -/

variable [DecidableEq F] [Inhabited F]

omit [DecidableEq F] [Inhabited F] in
theorem forall₂_cancelInvocations (s : State F) (invocationIds : List String) :
    Forall₂ Closes s.activationProposals (s.cancelInvocations invocationIds).activationProposals ∧
      Forall₂ Closes s.bootstrapProposals (s.cancelInvocations invocationIds).bootstrapProposals :=
  ⟨forall₂_endPending _ rfl _, forall₂_endPending _ rfl _⟩

theorem Sound.pause (h : Sound s) {id : String} {canceled : List String}
    (hpause : s.pause id expectedVersion cancelPending canceled = .ok t) : Stepped s t := by
  obtain ⟨automations, hautomations, heq⟩ := ok_of_bind hpause
  obtain rfl := Except.ok.inj heq
  obtain ⟨hactivations, hbootstraps⟩ := forall₂_cancelInvocations { s with automations } canceled
  refine .unapproved ?_ (.of_closes hactivations) (.of_closes hbootstraps)
  have hstep : Automations.step (fun x => x) (fun _ => 0) "" s.automations
      (.pause id expectedVersion cancelPending) = some automations := by
    show some (s.automations.commit _) = _
    rw [hautomations]
    rfl
  exact unreviewed_of_step h.queued rfl hstep

theorem Sound.delete (h : Sound s) {id : String}
    (hdelete : s.delete id expectedVersion canceled = .ok t) : Stepped s t := by
  obtain ⟨automations, hautomations, heq⟩ := ok_of_bind hdelete
  split at heq
  · exact Except.ok.inj heq ▸ h.refl
  · obtain rfl := Except.ok.inj heq
    obtain ⟨hactivations, hbootstraps⟩ := forall₂_cancelInvocations { s with automations } canceled
    have htrans : ∀ {κ : Type} (a b c : Proposal κ), Closes a b → Closes b c → Closes a c :=
      fun _ _ _ hab hbc => hab.trans hbc
    refine .unapproved ?_
      (.of_closes (Pointwise.trans htrans hactivations (forall₂_endPending _ rfl _)))
      (.of_closes (Pointwise.trans htrans hbootstraps (forall₂_endPending _ rfl _)))
    have hstep : Automations.step (fun x => x) (fun _ => 0) "" s.automations
        (.delete id expectedVersion) = some automations := by
      show some (s.automations.commit _) = _
      rw [hautomations]
      rfl
    exact unreviewed_of_step h.queued rfl hstep

/-- A transaction on the rules captures no contacts that have been reviewed. -/
theorem automations_of_step
    (hstep : step parse owner fingerprint sha256 s (.automations act) = some t) :
    ∃ automations, act.reviews = false ∧
      Automations.step sha256 parse owner s.automations act = some automations ∧
      t = { s with automations } := by
  cases act
  case pause | delete | captureReviewed => cases hstep
  all_goals
    simp only [step] at hstep
    obtain ⟨automations, hact, heq⟩ := map_eq_some_iff.mp hstep
    exact ⟨automations, rfl, hact, heq.symm⟩

/-- **One transaction.** -/
theorem Sound.step (h : Sound s) {act : Act F}
    (hstep : step parse owner fingerprint sha256 s act = some t) : Stepped s t := by
  have hcommit : ∀ x : Except DataRequestError (State F), (∀ u, x = .ok u → Stepped s u) →
      Stepped s (s.commit x) := by
    intro x hx
    cases x with
    | ok u => exact hx u rfl
    | error => exact h.refl
  have hactivations := steps_activations h
  have hcontacts : (existingContacts (F := F) parse owner fingerprint).Steps s :=
    steps_existingContacts h
  cases act with
  | automations act =>
    obtain ⟨automations, hreviews, hact, rfl⟩ := automations_of_step hstep
    exact .unapproved (unreviewed_of_step h.queued hreviews hact) (.refl _) (.refl _)
  | pause => exact some.inj hstep ▸ hcommit _ fun _ hu => h.pause hu
  | delete => exact some.inj hstep ▸ hcommit _ fun _ hu => h.delete hu
  | cancelInvocation invocationId =>
    obtain ⟨hactivations, hbootstraps⟩ := forall₂_cancelInvocations s [invocationId]
    exact some.inj hstep ▸ .unapproved (unreviewed_refl h.queued) (.of_closes hactivations)
      (.of_closes hbootstraps)
  | requestActivation =>
    exact some.inj hstep ▸ hactivations.requested lawful_activations
      (requested_requestActivation h.activationIds _ _ _ _)
  | requestExistingContacts =>
    exact some.inj hstep ▸ hcontacts.requested lawful_existingContacts
      (requested_requestExistingContacts h.bootstrapIds _ _ _ _)
  | getActivation =>
    exact some.inj hstep ▸ hactivations.closing
      (closing_read lawful_activations h.activationIds _)
  | getExistingContacts =>
    exact some.inj hstep ▸ hcontacts.closing (closing_read lawful_existingContacts h.bootstrapIds _)
  | listActivations =>
    exact some.inj hstep ▸ hactivations.closing
      (closing_reconcilePending lawful_activations h.activationIds)
  | listExistingContacts =>
    exact some.inj hstep ▸ hcontacts.closing
      (closing_reconcilePending lawful_existingContacts h.bootstrapIds)
  | expireActivations =>
    exact some.inj hstep ▸ hactivations.closing
      (closing_expireNext lawful_activations h.activationIds)
  | expireExistingContacts =>
    exact some.inj hstep ▸ hcontacts.closing
      (closing_expireNext lawful_existingContacts h.bootstrapIds)
  | decideActivation env id value => exact some.inj hstep ▸ h.decideActivation env id value
  | decideExistingContacts env id value =>
    exact some.inj hstep ▸ h.decideExistingContacts env id value

/-! ### Runs -/

/-- What has been approved has been created, once. -/
structure Reviewed (s : State F) : Prop where
  activated : ∀ row ∈ s.activationProposals, row.status = .approved →
    ∃ revision, Activates row revision ∧
      s.automations.revisions.filter (fun other =>
        other.automationId = row.automationId ∧ some other.revision = row.receipt) = [revision]
  captured : ∀ row ∈ s.bootstrapProposals, row.status = .approved →
    ∃ bootstrap, ∃ active ∈ s.automations.revisions, Captures row bootstrap active ∧
      s.automations.bootstraps.filter (·.key = captureKey row.id) = [bootstrap]

omit [DecidableEq F] [Inhabited F] in
/-- In a column without duplicates a value is found once. -/
theorem filter_eq_singleton {α β : Type} [DecidableEq β] {f : α → β} {l : List α}
    (hnodup : (l.map f).Nodup) {a : α} (ha : a ∈ l) : l.filter (f · = f a) = [a] := by
  induction l with
  | nil => cases ha
  | cons b l ih =>
    obtain ⟨hb, hnodup⟩ := nodup_cons.mp hnodup
    rcases mem_cons.mp ha with rfl | ha
    · have hnone : l.filter (f · = f a) = [] := filter_eq_nil_iff.mpr fun c hc heq =>
        hb (mem_map.mpr ⟨c, hc, of_decide_eq_true heq⟩)
      rw [filter_cons, if_pos (decide_eq_true rfl), hnone]
    · have hne : ¬ decide (f b = f a) = true := fun heq =>
        hb (mem_map.mpr ⟨a, ha, (of_decide_eq_true heq).symm⟩)
      rw [filter_cons, if_neg hne, ih hnodup ha]

omit [DecidableEq F] [Inhabited F] in
theorem Sound.exactly_once (h : Sound s) : Reviewed s where
  activated row hrow hstatus := by
    obtain ⟨revision, hmem, hactivates⟩ := h.activated row hrow hstatus
    refine ⟨revision, hactivates, ?_⟩
    have hnodup : (s.automations.revisions.map fun other =>
        (other.automationId, some other.revision)).Nodup := by
      refine pairwise_map.mpr (h.queued.numbered.imp fun hlt heq => ?_)
      obtain ⟨hautomation, hrevision⟩ := Prod.mk.inj heq
      exact (hlt hautomation).ne (some.inj hrevision)
    rw [← filter_eq_singleton hnodup hmem]
    refine filter_congr fun other _ => ?_
    rw [hactivates.receipt, ← hactivates.automationId]
    exact decide_eq_decide.mpr Prod.mk_inj.symm
  captured row hrow hstatus := by
    obtain ⟨bootstrap, hmem, active, hactive, hcaptures⟩ := h.captured row hrow hstatus
    refine ⟨bootstrap, active, hactive, hcaptures, ?_⟩
    rw [← hcaptures.key]
    exact filter_eq_singleton h.keys hmem

variable (parse owner fingerprint sha256) in
/-- Decisions of a kind, from here on. One that has been made is not made again, nothing that comes
later changes a proposal that has been decided on, and a proposal that does not end approved leaves
the rules as they are. -/
structure Settles (kind : Kind F κ) (s : State F) : Prop where
  key : ∀ row ∈ kind.rows s, ∀ env id value,
    row.decisionIdempotencyKey = some value.idempotencyKey →
      commit (kind.resolve env id value) s = s
  again : ∀ env id value row t, exec (kind.resolve env id value) s = (.ok row, t) →
    ∀ acts u, Runs.run (step parse owner fingerprint sha256) acts t = some u →
      ∀ env' value', commit (kind.resolve env' id value') u = u
  unchanged : ∀ env id value,
    (∀ row ∈ kind.rows (commit (kind.resolve env id value) s), row.id = id →
      row.status ≠ .approved) →
    (commit (kind.resolve env id value) s).automations = s.automations

theorem Sound.run (h : Sound s) {acts : List (Act F)}
    (hrun : Runs.run (Proposals.step parse owner fingerprint sha256) acts s = some t) : Sound t :=
  Runs.invariant (fun _ _ _ hs hstep => hs.stepped (hs.step hstep)) hrun h

theorem Sound.run_mem (h : Sound s) {rows : State F → List (Proposal κ)}
    (hrows : ∀ t u, Stepped t u → Moved (rows t) (rows u))
    (hrun : Runs.run (Proposals.step parse owner fingerprint sha256) acts s = some t)
    (hrow : row ∈ rows s) (hstatus : row.status ≠ .pending) : row ∈ rows t := by
  induction acts generalizing s with
  | nil => exact some.inj hrun ▸ hrow
  | cons act acts ih =>
    obtain ⟨u, hstep, hrun⟩ := Runs.run_cons_eq_some.mp hrun
    have hu := h.step hstep
    exact ih (h.stepped hu) hrun ((hrows s u hu).mem hrow hstatus)

theorem Sound.settles (h : Sound s) (hl : kind.Lawful)
    (hids : ∀ u, Sound u → ((kind.rows u).map (·.id)).Nodup)
    (hnew : ∀ row ∈ kind.rows s, row.status = .pending → row.New)
    (hrows : ∀ t u, Stepped t u → Moved (kind.rows t) (kind.rows u))
    (hdecide : ∀ env id value, Stepped s (commit (kind.resolve env id value) s)) :
    Settles sha256 parse owner fingerprint kind s where
  key _ hrow _ id _ hkey := commit_resolve_eq_of_key hrow hkey id
  again env id value row t hok acts u hrun env' value' := by
    have ht := h.stepped (commit_of_ok hok ▸ hdecide env id value)
    obtain ⟨e, t', herror⟩ | ⟨row', t', hok', hresolved⟩ := exec_resolve env hl (hids s h) id value
    · exact nomatch (congrArg Prod.fst hok).symm.trans (congrArg Prod.fst herror)
    · obtain rfl : t' = t := congrArg Prod.snd (hok'.symm.trans hok)
      obtain ⟨settled, hmem, rfl, hstatus⟩ :=
        hresolved.settled hl fun row hrow hpending =>
          (hnew row hrow hpending).decisionIdempotencyKey
      exact commit_resolve_eq (hids u (ht.run hrun)) (ht.run_mem hrows hrun hmem hstatus) hstatus
        value'
  unchanged env id value hnot := by
    obtain heq | ⟨row, hrow, hid, hstatus⟩ :=
        @resolve_automations F κ kind s env hl (hids s h) id value
    · exact heq
    · exact absurd hstatus (hnot row hrow hid)

variable (parse owner fingerprint sha256) in
/-- **What was reviewed is what runs.** In every run, what has been approved has been created once,
as it was reviewed. Every transaction moves each proposal out of `pending` at most once, and what it
approves is all that it creates. A decision that has been made changes nothing when it is made
again, and one that does not end in an approval leaves the rules as they are. -/
theorem reviewed_runs (acts : List (Act F)) (s : State F)
    (hrun : Runs.run (step parse owner fingerprint sha256) acts init = some s) :
    Reviewed s ∧
      (∀ act t, step parse owner fingerprint sha256 s act = some t →
        Moved s.activationProposals t.activationProposals ∧
          Moved s.bootstrapProposals t.bootstrapProposals ∧
          Approved Activated s.activationProposals t.activationProposals s t ∧
          Approved CapturedFor s.bootstrapProposals t.bootstrapProposals s t) ∧
      Settles sha256 parse owner fingerprint activations s ∧
      Settles sha256 parse owner fingerprint (existingContacts parse owner fingerprint) s := by
  have hs : Sound s := sound_init.run hrun
  refine ⟨hs.exactly_once, fun act t hstep => ?_, ?_, ?_⟩
  · have hstepped := hs.step hstep
    exact ⟨hstepped.movedActivations, hstepped.movedBootstraps, hstepped.approvedActivations,
      hstepped.approvedBootstraps⟩
  · exact hs.settles lawful_activations (fun _ hu => hu.activationIds) hs.undecidedActivations
      (fun _ _ hu => hu.movedActivations) hs.decideActivation
  · exact hs.settles lawful_existingContacts (fun _ hu => hu.bootstrapIds) hs.undecidedBootstraps
      (fun _ _ hu => hu.movedBootstraps) hs.decideExistingContacts

omit [DecidableEq F] [Inhabited F]

/-- A worker runs the invocation, which has two calls to make. -/
def exampleEnv : Env String :=
  { Automations.exampleEnv with
    invocation := fun _ =>
      some
        { Invocation.Row.new 0 with
          status := .running
          reservesThread := true
          fence := 1
          workerId := some "worker"
          leaseExpiresAt := some 130
          human := true }
    action := fun _ callId =>
      some
        { kind := if callId = "activate" then .activation else .existingContacts
          status := .intent
          fence := 1
          bootstrapProposalId := none } }

def exampleContext (callId : String) : Context :=
  { invocationId := "invocation", workerId := "worker", fence := 1, callId }

def exampleApproval (idempotencyKey : String) : Decision :=
  { decision := .approve, expectedVersion := 0, idempotencyKey }

/-- A rule is activated after a review, and so are the contacts that are there handed to it. -/
def exampleReviews : List (Act String) :=
  [Act.automations (.create exampleEnv.toAutomations "rule" Automations.exampleDefinition),
   .requestActivation exampleEnv "A" (exampleContext "activate") "rule" 0] ++
  (Automations.exampleScan.events Contacts.exampleSha256).flatMap (fun event =>
    [Act.automations (.receive "phone" event),
     .automations (.processContacts 100 "phone" (.process event))]) ++
  [Act.automations (.processContacts 100 "phone" (.publish false 1 Automations.exampleScan.rows)),
   .decideActivation exampleEnv "ap_A" (exampleApproval "first"),
   .requestExistingContacts exampleEnv "B" (exampleContext "review") "rule"
    (Automations.exampleInput "").toSelection,
   .decideExistingContacts exampleEnv "bp_B" (exampleApproval "second")]

theorem reviewed_runs_approved :
    ∃ s, Runs.run (step (fun _ => 100) "owner" (fun _ => "fingerprint") Contacts.exampleSha256)
        exampleReviews init = some s ∧
      s.activationProposals.map (fun row => (row.status, row.receipt)) =
        [(.approved, some 1)] ∧
      s.bootstrapProposals.map (fun row => (row.status, row.receipt)) = [(.approved, some 0)] ∧
      s.automations.bootstraps.map (·.memberCount) = [1] ∧ Reviewed s := by
  obtain ⟨s, hrun, hactivations, hbootstraps, hcounts⟩ :
      ∃ s, Runs.run (step (fun _ => 100) "owner" (fun _ => "fingerprint") Contacts.exampleSha256)
          exampleReviews init = some s ∧
        s.activationProposals.map (fun row => (row.status, row.receipt)) = [(.approved, some 1)] ∧
        s.bootstrapProposals.map (fun row => (row.status, row.receipt)) = [(.approved, some 0)] ∧
        s.automations.bootstraps.map (·.memberCount) = [1] :=
    Runs.exists_end (by decide)
  exact ⟨s, hrun, hactivations, hbootstraps, hcounts,
    (reviewed_runs Contacts.exampleSha256 (fun _ => 100) "owner" (fun _ => "fingerprint")
      exampleReviews s hrun).1⟩

end Bud.Proposals
