import Bud.Lib.Pointwise
import Bud.PersonalData.Proposals

/-!
# Decisions

A proposal that is pending ends in one way only: by a decision, which is written down with it, or
because it has expired, its invocation is over or it has become stale (`Closes`). Nothing is done to
a proposal that is not pending.
-/

namespace Bud.Proposals

open List
open Automations (DataRequestError)
open Scripts (exec commit exec_bind exec_bind_ok exec_bind_error commit_of_error commit_of_ok)

variable {F κ : Type} {kind : Kind F κ} {s t u : State F} {env : Env F}

/-! ### Proposals that end -/

/-- It says that a proposal has ended without having been approved or declined. -/
def Status.ends : Status → Bool
  | .canceled => true
  | .expired => true
  | .stale => true
  | _ => false

def Closes (row row' : Proposal κ) : Prop :=
  row' = row ∨ row.status = .pending ∧ row'.status.ends = true ∧
    row' = { row with status := row'.status, version := row.version + 1 }

theorem Closes.refl (row : Proposal κ) : Closes row row := .inl rfl

variable {row : Proposal κ} {status : Status} {rows : List (Proposal κ)}

theorem Closes.id (h : Closes row row') : row'.id = row.id := by
  obtain rfl | ⟨_, _, heq⟩ := h
  · rfl
  · rw [heq]

theorem Status.ne_pending_of_ends (h : status.ends = true) : status ≠ .pending := by
  rintro rfl
  cases h

theorem Closes.trans (h : Closes a b) (h' : Closes b c) : Closes a c := by
  obtain rfl | ⟨hpending, hends, heq⟩ := h
  · exact h'
  · obtain rfl | ⟨hagain, _, _⟩ := h'
    · exact .inr ⟨hpending, hends, heq⟩
    · exact absurd hagain (Status.ne_pending_of_ends hends)

theorem closes_ended (hpending : row.status = .pending) (hends : status.ends = true) :
    Closes row { row with status, version := row.version + 1 } :=
  .inr ⟨hpending, hends, rfl⟩

theorem forall₂_endPending (ends : Proposal κ → Bool) (hends : status.ends = true)
    (rows : List (Proposal κ)) : Forall₂ Closes rows (endPending ends status rows) := by
  refine Pointwise.map fun row _ => ?_
  split
  · next h => exact closes_ended (of_decide_eq_true (Bool.and_eq_true_iff.mp h).1) hends
  · exact .refl row

def change (row : Proposal κ) (f : Proposal κ → Proposal κ) (rows : List (Proposal κ)) :
    List (Proposal κ) :=
  rows.map fun other => if other.id = row.id then f other else other

theorem forall₂_change {R : Proposal κ → Proposal κ → Prop} (hrefl : ∀ row, R row row)
    (hnodup : (rows.map (·.id)).Nodup) (hrow : row ∈ rows) (hf : R row (f row)) :
    Forall₂ R rows (change row f rows) := by
  refine Pointwise.map fun other hother => ?_
  split
  · next hid =>
    obtain rfl := inj_on_of_nodup_map hnodup hother hrow hid
    exact hf
  · exact hrefl other

theorem mem_change (hrow : row ∈ rows) (f : Proposal κ → Proposal κ) : f row ∈ change row f rows :=
  mem_map.mpr ⟨row, hrow, if_pos rfl⟩

theorem mem_change_of_ne (hother : other ∈ rows) (hne : other.id ≠ row.id)
    (f : Proposal κ → Proposal κ) : other ∈ change row f rows :=
  mem_map.mpr ⟨other, hother, if_neg hne⟩

/-! ### Both kinds -/

/-- What holds of both kinds: the table can be replaced alone, a proposal does not end approved
without a decision, and an approval that fails has done nothing. -/
structure Kind.Lawful (kind : Kind F κ) : Prop where
  rows_put : ∀ rows s, kind.rows (kind.put rows s) = rows
  put_put : ∀ rows rows' s, kind.put rows (kind.put rows' s) = kind.put rows s
  put_rows : ∀ s, kind.put (kind.rows s) s = s
  put_automations : ∀ rows s, (kind.put rows s).automations = s.automations
  verdict : ∀ env s row status, kind.verdict env s row = some status → status.ends = true
  approve_error : ∀ env row s e t, exec (kind.approve env row) s = (.error e, t) → t = s
  approve_rows : ∀ env row s a t, exec (kind.approve env row) s = (.ok a, t) →
    kind.rows t = kind.rows s

/-- Some of the proposals have ended, and nothing else has changed. -/
def Kind.Closing (kind : Kind F κ) (s t : State F) : Prop :=
  ∃ rows, t = kind.put rows s ∧ Forall₂ Closes (kind.rows s) rows

theorem Kind.Lawful.closing_refl (h : kind.Lawful) (s : State F) : kind.Closing s s :=
  ⟨kind.rows s, (h.put_rows s).symm, Pointwise.refl .refl _⟩

theorem Kind.Closing.trans (h : kind.Lawful) (hst : kind.Closing s t) (htu : kind.Closing t u) :
    kind.Closing s u := by
  obtain ⟨rows, rfl, hrows⟩ := hst
  obtain ⟨rows', rfl, hrows'⟩ := htu
  rw [h.rows_put] at hrows'
  exact ⟨rows', h.put_put rows' rows s,
    Pointwise.trans (fun _ _ _ hab hbc => hab.trans hbc) hrows hrows'⟩

theorem Kind.Closing.nodup (h : kind.Lawful) (hclosing : kind.Closing s t)
    (hnodup : ((kind.rows s).map (·.id)).Nodup) : ((kind.rows t).map (·.id)).Nodup := by
  obtain ⟨rows, rfl, hrows⟩ := hclosing
  rw [h.rows_put, Pointwise.map_eq (fun _ _ hcloses => hcloses.id) hrows]
  exact hnodup

/-! ### Reading -/

theorem exec_load_eq_ok {id : String} (h : (kind.rows s).find? (·.id = id) = some row) :
    exec (kind.load id) s = (.ok row, s) := by
  rw [Kind.load, exec_bind_ok (Scripts.exec_get s), h]
  rfl

theorem exec_load_eq_error {id : String} (h : (kind.rows s).find? (·.id = id) = none) :
    exec (kind.load id) s = (.error kind.notFound, s) := by
  rw [Kind.load, exec_bind_ok (Scripts.exec_get s), h]
  rfl

variable (env) in
/-- **A proposal is reconciled.** It stays pending only if there is no verdict on it. -/
theorem exec_reconcile (h : kind.Lawful) (hnodup : ((kind.rows s).map (·.id)).Nodup)
    (hrow : row ∈ kind.rows s) :
    ∃ row' t, exec (kind.reconcile env row) s = (.ok row', t) ∧ kind.Closing s t ∧
      (row' ∈ kind.rows t ∧ row'.id = row.id) ∧
      (∀ other ∈ kind.rows s, other.id ≠ row.id → other ∈ kind.rows t) ∧
      (row'.status = .pending →
        t = s ∧ row' = row ∧ kind.verdict env s row = none) := by
  by_cases hpending : row.status = .pending
  · rw [Kind.reconcile, if_neg (not_not.mpr hpending), exec_bind_ok (Scripts.exec_get s)]
    cases hverdict : kind.verdict env s row with
    | none =>
      exact ⟨row, s, rfl, h.closing_refl s, ⟨hrow, rfl⟩, fun _ hother _ => hother,
        fun _ => ⟨rfl, rfl, rfl⟩⟩
    | some status =>
      have hends := h.verdict env s row status hverdict
      refine ⟨_, _, rfl, ⟨_, rfl, forall₂_change .refl hnodup hrow (closes_ended hpending hends)⟩,
        ⟨?_, rfl⟩, fun other hother hne => ?_, fun hstatus =>
          absurd hstatus (Status.ne_pending_of_ends hends)⟩
      · rw [h.rows_put]
        exact mem_change hrow _
      · rw [h.rows_put]
        exact mem_change_of_ne hother hne _
  · rw [Kind.reconcile, if_pos hpending]
    exact ⟨row, s, rfl, h.closing_refl s, ⟨hrow, rfl⟩, fun _ hother _ => hother,
      fun hstatus => absurd hstatus hpending⟩

theorem closing_read (h : kind.Lawful) (hnodup : ((kind.rows s).map (·.id)).Nodup) (id : String) :
    kind.Closing s (commit (kind.read env id) s) := by
  cases hfound : (kind.rows s).find? (·.id = id) with
  | none =>
    have herror : exec (kind.read env id) s = (.error kind.notFound, s) :=
      exec_bind_error (exec_load_eq_error hfound)
    rw [commit_of_error herror]
    exact h.closing_refl s
  | some row =>
    obtain ⟨row', t, hexec, hclosing, _⟩ :=
      exec_reconcile env h hnodup (mem_of_find?_eq_some hfound)
    have hread : exec (kind.read env id) s = (.ok row', t) :=
      (exec_bind_ok (exec_load_eq_ok hfound)).trans hexec
    rw [commit_of_ok hread]
    exact hclosing

theorem exec_reconcileAll (h : kind.Lawful) (hnodup : ((kind.rows s).map (·.id)).Nodup)
    (hids : (rows.map (·.id)).Nodup) (hrows : ∀ row ∈ rows, row ∈ kind.rows s) :
    ∃ count t, exec (kind.reconcileAll env rows) s = (.ok count, t) ∧ kind.Closing s t := by
  induction rows generalizing s with
  | nil => exact ⟨0, s, rfl, h.closing_refl s⟩
  | cons row rows ih =>
    obtain ⟨hnot, hids⟩ := nodup_cons.mp hids
    obtain ⟨hrow, hrows⟩ := forall_mem_cons.mp hrows
    obtain ⟨row', t, hexec, hclosing, _, hothers, _⟩ := exec_reconcile env h hnodup hrow
    obtain ⟨count, u, hall, hclosing'⟩ := ih (hclosing.nodup h hnodup) hids fun other hother =>
      hothers other (hrows other hother) fun heq => hnot (mem_map.mpr ⟨other, hother, heq⟩)
    refine ⟨if row'.status = .pending then count + 1 else count, u, ?_, hclosing.trans h hclosing'⟩
    rw [Kind.reconcileAll, exec_bind_ok hexec, exec_bind_ok hall]
    rfl

variable (env) in
theorem exec_reconcilePending (h : kind.Lawful) (hnodup : ((kind.rows s).map (·.id)).Nodup) :
    ∃ count t, exec (kind.reconcilePending env) s = (.ok count, t) ∧ kind.Closing s t := by
  rw [Kind.reconcilePending, exec_bind_ok (Scripts.exec_get s)]
  have hperm := perm_insertionSort (fun a b : Proposal κ => a.id ≤ b.id)
    ((kind.rows s).filter (·.status = .pending))
  refine exec_reconcileAll h hnodup ?_ fun row hrow => ?_
  · refine Nodup.sublist (List.Sublist.map _ (take_sublist _ _)) ?_
    rw [(hperm.map _).nodup_iff]
    exact hnodup.sublist (List.Sublist.map _ filter_sublist)
  · exact (mem_filter.mp (hperm.mem_iff.mp (mem_of_mem_take hrow))).1

theorem closing_reconcilePending (h : kind.Lawful) (hnodup : ((kind.rows s).map (·.id)).Nodup) :
    kind.Closing s (commit (kind.reconcilePending env) s) := by
  obtain ⟨count, t, hexec, hclosing⟩ := exec_reconcilePending env h hnodup
  rw [commit_of_ok hexec]
  exact hclosing

theorem commit_get_bind {α : Type} (f : State F → Scripts.Script (State F) DataRequestError α) :
    commit (get >>= f) s = commit (f s) s := by
  rw [commit, commit, exec_bind_ok (Scripts.exec_get s)]

theorem closing_expireNext (h : kind.Lawful) (hnodup : ((kind.rows s).map (·.id)).Nodup) :
    kind.Closing s (commit (kind.expireNext env) s) := by
  rw [Kind.expireNext, commit_get_bind]
  dsimp only
  split
  · exact h.closing_refl s
  · next candidate _ =>
    rw [Scripts.commit_bind_pure]
    exact closing_read h hnodup candidate.id

/-! ### Decisions -/

def Decision.write (value : Decision) (receipt : Option ℕ) (version : ℕ) (row : Proposal κ) :
    Proposal κ :=
  { row with
    status := value.decision.status
    receipt
    version := version + 1
    decisionRequest := some value
    decisionIdempotencyKey := some value.idempotencyKey }

theorem Decision.write_ne_pending (value : Decision) (receipt : Option ℕ) (version : ℕ)
    (row : Proposal κ) : (value.write receipt version row).status ≠ .pending := by
  show value.decision.status ≠ .pending
  cases value.decision <;> exact Status.noConfusion

/-- The table with a decision written down. -/
def Kind.withDecision (kind : Kind F κ) (prior : Proposal κ) (value : Decision)
    (receipt : Option ℕ) (s : State F) : State F :=
  kind.put (change prior (value.write receipt prior.version) (kind.rows s)) s

theorem exec_decide (prior : Proposal κ) (value : Decision) (receipt : Option ℕ) (s : State F) :
    exec (kind.decide prior value receipt) s =
      (.ok (value.write receipt prior.version prior), kind.withDecision prior value receipt s) :=
  rfl

/-- What a decision on a proposal leaves, when it does not throw. -/
inductive Kind.Resolved (kind : Kind F κ) (env : Env F) (id : String) (value : Decision)
    (s : State F) : State F → Prop where
  /-- It has been made before. -/
  | again (row : Proposal κ) (mem : row ∈ kind.rows s) (hid : row.id = id)
      (key : row.decisionIdempotencyKey = some value.idempotencyKey) :
      kind.Resolved env id value s s
  | ended (t : State F) (closing : kind.Closing s t) (row : Proposal κ) (mem : row ∈ kind.rows t)
      (hid : row.id = id) (status : row.status ≠ .pending) : kind.Resolved env id value s t
  | declined (prior : Proposal κ) (mem : prior ∈ kind.rows s) (hid : prior.id = id)
      (pending : prior.status = .pending) (decision : value.decision ≠ .approve) :
      kind.Resolved env id value s (kind.withDecision prior value none s)
  | approved (prior : Proposal κ) (mem : prior ∈ kind.rows s) (hid : prior.id = id)
      (pending : prior.status = .pending) (verdict : kind.verdict env s prior = none)
      (decision : value.decision = .approve) (intact : kind.intact prior = true) (receipt : ℕ)
      (t : State F) (approve : exec (kind.approve env prior) s = (.ok receipt, t)) :
      kind.Resolved env id value s (kind.withDecision prior value (some receipt) t)

variable (env) in
/-- **What a decision does.** -/
theorem exec_resolve (h : kind.Lawful) (hnodup : ((kind.rows s).map (·.id)).Nodup) (id : String)
    (value : Decision) :
    (∃ e t, exec (kind.resolve env id value) s = (.error e, t)) ∨
      ∃ row t, exec (kind.resolve env id value) s = (.ok row, t) ∧
        kind.Resolved env id value s t := by
  cases hfound : (kind.rows s).find? (·.id = id) with
  | none => exact .inl ⟨_, _, exec_bind_error (exec_load_eq_error hfound)⟩
  | some prior =>
    have hprior := mem_of_find?_eq_some hfound
    have hid : prior.id = id := by simpa using find?_some hfound
    rw [Kind.resolve, exec_bind_ok (exec_load_eq_ok hfound)]
    dsimp only
    by_cases hkey : prior.decisionIdempotencyKey = some value.idempotencyKey
    · rw [if_pos hkey]
      by_cases hsame : prior.decisionRequest ≠ some value
      · rw [if_pos hsame]
        exact .inl ⟨_, _, rfl⟩
      · rw [if_neg hsame]
        exact .inr ⟨_, _, rfl, .again prior hprior hid hkey⟩
    rw [if_neg hkey]
    by_cases hstatus : prior.status ≠ .pending ∨ prior.version ≠ value.expectedVersion
    · rw [if_pos hstatus]
      exact .inl ⟨_, _, rfl⟩
    rw [if_neg hstatus, exec_bind_ok (Scripts.exec_get s)]
    rw [not_or, not_not, not_not] at hstatus
    by_cases hused : ((kind.rows s).any fun row =>
        decide (row.decisionIdempotencyKey = some value.idempotencyKey)) = true
    · rw [if_pos hused]
      exact .inl ⟨_, _, rfl⟩
    rw [if_neg hused]
    obtain ⟨current, t, hexec, hclosing, ⟨hmem, hcurrentId⟩, _, hstays⟩ :=
      exec_reconcile env h hnodup hprior
    rw [exec_bind_ok hexec]
    by_cases hcurrent : current.status ≠ .pending
    · rw [if_pos hcurrent]
      exact .inr ⟨_, _, rfl, .ended t hclosing current hmem (hcurrentId.trans hid) hcurrent⟩
    rw [if_neg hcurrent]
    obtain ⟨rfl, rfl, hverdict⟩ := hstays (not_not.mp hcurrent)
    by_cases happrove : value.decision ≠ .approve
    · rw [if_pos happrove]
      exact .inr ⟨_, _, exec_decide current value none t,
        .declined current hprior hid hstatus.1 happrove⟩
    rw [if_neg happrove]
    by_cases hintact : kind.intact current = true
    · have hnot : ¬(!kind.intact current) = true := by
        rw [hintact]
        exact Bool.false_ne_true
      rw [if_neg hnot, exec_bind, Scripts.exec_attempt]
      dsimp only
      rcases happroved : exec (kind.approve env current) t with ⟨e | receipt, u⟩
      · -- what an approval has written before it throws would still be there
        obtain rfl := h.approve_error env current t e u happroved
        refine .inr ⟨_, _, rfl, .ended _ ⟨_, rfl, forall₂_change .refl hnodup hprior
          (closes_ended hstatus.1 rfl)⟩
          { current with status := .stale, version := current.version + 1 } ?_ hid
          (Status.ne_pending_of_ends rfl)⟩
        rw [h.rows_put]
        exact mem_change hprior _
      · exact .inr ⟨_, _, exec_decide current value (some receipt) u,
          .approved current hprior hid hstatus.1 hverdict (not_not.mp happrove) hintact receipt u
            happroved⟩
    · rw [Bool.eq_false_iff.mpr hintact]
      exact .inl ⟨_, _, rfl⟩

/-- **A proposal that is not pending is left alone.** -/
theorem commit_resolve_eq (hnodup : ((kind.rows s).map (·.id)).Nodup) (hrow : row ∈ kind.rows s)
    (hstatus : row.status ≠ .pending) (value : Decision) :
    commit (kind.resolve env row.id value) s = s := by
  have hfound : (kind.rows s).find? (·.id = row.id) = some row := by
    cases hfound : (kind.rows s).find? (·.id = row.id) with
    | none => exact absurd (decide_eq_true rfl) (find?_eq_none.mp hfound row hrow)
    | some found =>
      have hid : found.id = row.id := by simpa using find?_some hfound
      rw [inj_on_of_nodup_map hnodup (mem_of_find?_eq_some hfound) hrow hid]
  rw [Kind.resolve, commit, exec_bind_ok (exec_load_eq_ok hfound)]
  dsimp only
  by_cases hkey : row.decisionIdempotencyKey = some value.idempotencyKey
  · rw [if_pos hkey]
    by_cases hsame : row.decisionRequest ≠ some value
    · rw [if_pos hsame]
      rfl
    · rw [if_neg hsame]
      rfl
  · rw [if_neg hkey, if_pos (.inl hstatus)]
    rfl

/-- **A decision that has been made is not made again**, on this proposal or on any. -/
theorem commit_resolve_eq_of_key (hrow : row ∈ kind.rows s)
    (hkey : row.decisionIdempotencyKey = some value.idempotencyKey) (id : String) :
    commit (kind.resolve env id value) s = s := by
  cases hfound : (kind.rows s).find? (·.id = id) with
  | none =>
    have herror : exec (kind.resolve env id value) s = (.error kind.notFound, s) :=
      exec_bind_error (exec_load_eq_error hfound)
    exact commit_of_error herror
  | some prior =>
    rw [Kind.resolve, commit, exec_bind_ok (exec_load_eq_ok hfound)]
    dsimp only
    by_cases hagain : prior.decisionIdempotencyKey = some value.idempotencyKey
    · rw [if_pos hagain]
      by_cases hsame : prior.decisionRequest ≠ some value
      · rw [if_pos hsame]
        rfl
      · rw [if_neg hsame]
        rfl
    rw [if_neg hagain]
    by_cases hstatus : prior.status ≠ .pending ∨ prior.version ≠ value.expectedVersion
    · rw [if_pos hstatus]
      rfl
    · have hused : ((kind.rows s).any fun row =>
          decide (row.decisionIdempotencyKey = some value.idempotencyKey)) = true :=
        any_eq_true.mpr ⟨row, hrow, decide_eq_true hkey⟩
      rw [if_neg hstatus, exec_bind_ok (Scripts.exec_get s), if_pos hused]
      rfl

/-- **Only an approval changes anything but proposals.** -/
theorem resolve_automations (h : kind.Lawful) (hnodup : ((kind.rows s).map (·.id)).Nodup)
    (id : String) (value : Decision) :
    (commit (kind.resolve env id value) s).automations = s.automations ∨
      ∃ row ∈ kind.rows (commit (kind.resolve env id value) s), row.id = id ∧
        row.status = .approved := by
  obtain ⟨e, t, herror⟩ | ⟨row, t, hok, hresolved⟩ := exec_resolve env h hnodup id value
  · rw [commit_of_error herror]
    exact .inl rfl
  · rw [commit_of_ok hok]
    cases hresolved with
    | again => exact .inl rfl
    | ended _ closing =>
      obtain ⟨rows, rfl, _⟩ := closing
      exact .inl (h.put_automations rows s)
    | declined => exact .inl (h.put_automations _ s)
    | approved prior mem hid _ _ decision _ receipt t approve =>
      refine .inr ⟨value.write (some receipt) prior.version prior, ?_, hid, ?_⟩
      · rw [Kind.withDecision, h.rows_put, h.approve_rows env prior s receipt t approve]
        exact mem_change mem _
      · show value.decision.status = _
        rw [decision]
        rfl

theorem Kind.Resolved.settled (h : kind.Lawful) {id : String}
    (hresolved : kind.Resolved env id value s t)
    (hpending : ∀ row ∈ kind.rows s, row.status = .pending → row.decisionIdempotencyKey = none) :
    ∃ row ∈ kind.rows t, row.id = id ∧ row.status ≠ .pending := by
  cases hresolved with
  | again row mem hid key =>
    exact ⟨row, mem, hid, fun hstatus => nomatch (hpending row mem hstatus).symm.trans key⟩
  | ended _ _ row mem hid status => exact ⟨row, mem, hid, status⟩
  | declined prior mem hid =>
    refine ⟨value.write none prior.version prior, ?_, hid, value.write_ne_pending _ _ _⟩
    rw [Kind.withDecision, h.rows_put]
    exact mem_change mem _
  | approved prior mem hid _ _ _ _ receipt t approve =>
    refine ⟨value.write (some receipt) prior.version prior, ?_, hid, value.write_ne_pending _ _ _⟩
    rw [Kind.withDecision, h.rows_put, h.approve_rows env prior s receipt t approve]
    exact mem_change mem _

end Bud.Proposals
