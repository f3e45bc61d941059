import Bud.Agent.ThreadReservation
import Mathlib.Data.Finset.Card

/-!
# Automations of a Bud

No more automations of a Bud hold a reservation than `automationConcurrencyPerBud`, as long as the
row that `claim` writes still has the reservation `claim` has read (`Kept`).

An automation that does not have its reservation takes it under an advisory lock of the Bud, after
counting those there are. One that has it is not counted again: its place is its own. But `claim`
goes by what it has read, and nothing it locks keeps the row as it was. Between the reading and the
writing a cancellation may release the reservation and another automation take the place, and
`claim` then writes the reservation back.
-/

namespace Bud.Invocation

open ReadCommitted Finset

variable {cap : ℕ} {s t : Sys} {act : Act} {tx id : ℕ} {budId : String}

/-! ### Counting -/

/-- How many automations of a Bud hold a reservation that is committed. -/
def reservedAutomations (s : Sys) (budId : String) : ℕ :=
  (List.range s.next).countP fun id =>
    (s.identity id).budId = budId && (s.identity id).origin = .automation &&
      (s.db.committed id).any (·.reservesThread)

def capacityLock (identity : Identity) : Lock := .capacity identity.budId

open Classical in
noncomputable def holders (s : Sys) (budId : String) : Finset ℕ :=
  (Finset.range s.next).filter fun id =>
    (s.identity id).budId = budId ∧ (s.identity id).origin = .automation ∧ Reserving s id

theorem mem_holders (h : Reserved s) :
    id ∈ holders s budId ↔
      (s.identity id).budId = budId ∧ (s.identity id).origin = .automation ∧ Reserving s id := by
  classical
  rw [holders, mem_filter, mem_range]
  exact ⟨fun hid => hid.2, fun hid => ⟨h.lt_next hid.2.2, hid⟩⟩

theorem countP_range_eq_card (n : ℕ) (p : ℕ → Bool) :
    (List.range n).countP p = ((range n).filter fun id => p id = true).card := by
  rw [List.countP_eq_length_filter, ← List.toFinset_card_of_nodup (List.nodup_range.filter _)]
  refine congrArg card (ext fun id => ?_)
  simp

theorem reservedAutomations_le (h : Reserved s) (budId : String) :
    reservedAutomations s budId ≤ (holders s budId).card := by
  rw [reservedAutomations, countP_range_eq_card]
  refine card_le_card fun id hid => ?_
  simp only [mem_filter, Bool.and_eq_true, decide_eq_true_eq] at hid
  obtain ⟨row, hrow, hreserves⟩ := (Option.any_eq_true _ _).mp hid.2.2
  exact (mem_holders h).mpr ⟨hid.2.1.1, hid.2.1.2, row, Or.inl hrow, hreserves⟩

/-! ### The condition -/

/-- An automation that `claim` has read as holding its reservation still holds it. -/
def KeptBy (s : Sys) (tx : ℕ) : Claim → Prop
  | .lease _ id current => ∀ row ∈ s.db.visible tx id,
      (s.identity id).origin = .automation → current.reservesThread = true →
        row.reservesThread = true
  | _ => True

instance (s : Sys) (tx : ℕ) : ∀ claim, Decidable (KeptBy s tx claim)
  | .lease _ id current => inferInstanceAs (Decidable (∀ row ∈ s.db.visible tx id,
      (s.identity id).origin = .automation → current.reservesThread = true →
        row.reservesThread = true))
  | .candidate _ | .lockThread .. | .reread .. | .active .. | .tryCapacity .. | .capacity ..
  | .expire .. | .done => .isTrue trivial

/-- When `claim` writes the row of an automation that it has read as holding its reservation, the
row still holds it. -/
def Kept (s : Sys) (act : Act) : Prop := OnClaim KeptBy s act

instance (s : Sys) (act : Act) : Decidable (Kept s act) :=
  inferInstanceAs (Decidable (OnClaim KeptBy s act))

/-! ### The invariant -/

/-- What a `claim` of an automation has made sure of. -/
def HasRoom (cap : ℕ) (s : Sys) (tx : ℕ) : Claim → Prop
  | .capacity _ id _ => Has capacityLock s tx id
  | .lease _ id current =>
    (s.identity id).origin = .automation → current.reservesThread = false →
      Has capacityLock s tx id ∧ (holders s (s.identity id).budId).card < cap
  | _ => True

structure Capped (cap : ℕ) (s : Sys) : Prop where
  reserved : Reserved s
  fresh : Fresh capacityLock (fun identity => identity.origin = .automation) s
  claims : ∀ tx claim, s.transaction tx = some (.claim claim) → HasRoom cap s tx claim
  capped : ∀ budId, (holders s budId).card ≤ cap

theorem Capped.init (cap : ℕ) : Capped cap init where
  reserved := Reserved.init
  fresh := fun _ _ _ h => by
    obtain h | h := Version.of_visible h
    · cases h
    · cases h
  claims := fun _ _ h => by cases h
  capped := fun budId => by
    have hempty : holders Invocation.init budId = ∅ := rfl
    rw [hempty]
    exact Nat.zero_le _

/-- **What counting finds.** To a transaction that has the lock of the Bud and has written nothing,
the reservations there are, are those it can count. -/
theorem Capped.card_holders_le_used (h : Capped cap s) (hidle : Idle s tx)
    (hlock : s.db.locks (.capacity budId) = some tx) :
    (holders s budId).card ≤ s.used tx budId := by
  rw [Sys.used, countP_range_eq_card]
  refine card_le_card fun id hid => ?_
  obtain ⟨rfl, horigin, hreserving⟩ := (mem_holders h.reserved).mp hid
  obtain ⟨row, hrow, hreserves⟩ :=
    h.fresh.committed h.reserved.locked.held hidle hlock horigin hreserving
  rw [mem_filter, mem_range]
  refine ⟨h.reserved.lt_next hreserving, ?_⟩
  simp [horigin, visible_of_idle hidle, hrow, hreserves]

/-- **A holder is an old one**, or a `claim` that has found room has made it one. -/
theorem Capped.holders_cases (h : Capped cap s) (hkept : Kept s act) (hstep : Stepped cap s act t)
    (hreserved : Reserved t) (hid : id ∈ holders t budId) :
    id ∈ holders s budId ∨ s.db.locks (.capacity budId) = some act.tx ∧
      (holders s budId).card < cap ∧
        ∃ workerId current, s.transaction act.tx = some (.claim (.lease workerId id current)) := by
  have heffect := effect_of_step h.reserved.locked hstep
  obtain ⟨hbud, horigin, hreserving⟩ := (mem_holders hreserved).mp hid
  obtain hold | ⟨workerId, current, row, hrow, hlock, htx⟩ :=
    h.reserved.reserving_cases heffect hreserving
  · rw [heffect.identity_eq (h.reserved.lt_next hold)] at hbud horigin
    exact Or.inl ((mem_holders h.reserved).mpr ⟨hbud, horigin, hold⟩)
  · have hlt := (h.reserved.claims _ _ htx).2.1.1
    rw [heffect.identity_eq hlt] at hbud horigin
    by_cases hcurrent : current.reservesThread = true
    · have hreserves := hkept.of_rowLock hstep htx hlock row hrow horigin hcurrent
      exact Or.inl ((mem_holders h.reserved).mpr
        ⟨hbud, horigin, row, Version.of_visible hrow, hreserves⟩)
    · rw [Bool.not_eq_true] at hcurrent
      obtain ⟨hhas, hroom⟩ := h.claims _ _ htx horigin hcurrent
      subst hbud
      exact Or.inr ⟨hhas.2, hroom, workerId, current, htx⟩

/-- Nobody adds a holder to a Bud whose lock another transaction has. -/
theorem Capped.card_holders_of_locks (h : Capped cap s) (hkept : Kept s act)
    (hstep : Stepped cap s act t) (hreserved : Reserved t) (hne : other ≠ act.tx)
    (hlock : s.db.locks (.capacity budId) = some other) :
    (holders t budId).card ≤ (holders s budId).card := by
  refine card_le_card fun id hid => ?_
  obtain hold | ⟨hown, -⟩ := h.holders_cases hkept hstep hreserved hid
  · exact hold
  · exact absurd (Option.some.inj (hlock.symm.trans hown)) hne

theorem Capped.card_holders_le (h : Capped cap s) (hkept : Kept s act)
    (hstep : Stepped cap s act t) (hreserved : Reserved t) (budId : String) :
    (holders t budId).card ≤ cap := by
  by_cases hsub : holders t budId ⊆ holders s budId
  · exact (card_le_card hsub).trans (h.capped budId)
  · obtain ⟨id, hid, hnot⟩ := not_subset.mp hsub
    obtain ⟨-, hroom, workerId, current, htx⟩ :=
      (h.holders_cases hkept hstep hreserved hid).resolve_left hnot
    have hinsert : holders t budId ⊆ insert id (holders s budId) := by
      intro other hother
      obtain hold | ⟨-, -, workerId', current', htx'⟩ :=
        h.holders_cases hkept hstep hreserved hother
      · exact mem_insert_of_mem hold
      · -- a transaction leases one invocation at a time
        cases htx.symm.trans htx'
        exact mem_insert_self _ _
    calc (holders t budId).card ≤ (insert id (holders s budId)).card := card_le_card hinsert
      _ ≤ (holders s budId).card + 1 := card_insert_le _ _
      _ ≤ cap := hroom

variable {claim : Claim}

/-- What others do leaves to a `claim` the room it has found. -/
theorem HasRoom.of_step (h : HasRoom cap s other claim) (hclaim : ClaimOk s other claim)
    (hs : Capped cap s) (hkept : Kept s act) (hstep : Stepped cap s act t) (hreserved : Reserved t)
    (hne : other ≠ act.tx) : HasRoom cap t other claim := by
  have heffect := effect_of_step hs.reserved.locked hstep
  cases claim with
  | capacity workerId id current => exact Has.of_effect h hs.reserved.locked heffect hne
  | lease workerId id current =>
    intro horigin hcurrent
    rw [heffect.identity_eq hclaim.2.1.1] at horigin ⊢
    obtain ⟨hhas, hroom⟩ := h horigin hcurrent
    refine ⟨hhas.of_effect hs.reserved.locked heffect hne, ?_⟩
    exact (hs.card_holders_of_locks hkept hstep hreserved hne hhas.2).trans_lt hroom
  | candidate | lockThread | reread | active | tryCapacity | expire | done => trivial

/-- The next statement of a `claim` has the room the one before it has found. -/
theorem Capped.hasRoom (h : Capped cap s) {next : Claim}
    (htx : s.transaction tx = some (.claim claim)) (hclaimed : Claimed cap s tx s' claim next) :
    HasRoom cap (s'.goOn tx (.claim next)) tx next := by
  have hok := h.reserved.claims tx claim htx
  have hroom := h.claims tx claim htx
  obtain rfl | ⟨locks, hlocks, rfl⟩ := hclaimed.same
  · trivial
  · cases hclaimed.went with
    | returns | candidate | lockThread | reread | expires | needsCapacity => trivial
    | leases _ hkeeps =>
      intro horigin hcurrent
      exact absurd (hkeeps horigin) (by simp [hcurrent])
    | tryCapacity hlock => exact ⟨hok.2.1.1, hlock⟩
    | capacity hused =>
      intro _ _
      refine ⟨⟨hroom.1, hlocks _ hroom.2⟩, ?_⟩
      exact (h.card_holders_le_used hok.1 hroom.2).trans_lt hused

theorem Capped.hasRoom_of_step (h : Capped cap s) (hstep : Stepped cap s act t)
    (htx : t.transaction act.tx = some (.claim claim)) : HasRoom cap t act.tx claim := by
  obtain ⟨-, workerId, rfl, -⟩ | ⟨previous, s', htx', hclaimed, rfl⟩ := hstep.claim_cases htx
  · trivial
  · exact h.hasRoom htx' hclaimed

/-- **One action.** -/
theorem Capped.step (h : Capped cap s) (hkept : Kept s act)
    (hstep : Invocation.step cap s act = some t) : Capped cap t := by
  have hstepped := stepped_of_step h.reserved.locked.held hstep
  have heffect := effect_of_step h.reserved.locked hstepped
  have hreserved := h.reserved.step hstep
  refine ⟨hreserved, h.fresh.of_effect h.reserved heffect ?_, fun tx claim htx => ?_,
    h.card_holders_le hkept hstepped hreserved⟩
  · intro workerId id current row htx hrow hlock horigin
    by_cases hcurrent : current.reservesThread = true
    · exact Or.inl (hkept.of_rowLock hstepped htx hlock row hrow horigin hcurrent)
    · rw [Bool.not_eq_true] at hcurrent
      exact Or.inr (h.claims _ _ htx horigin hcurrent).1
  · by_cases heq : tx = act.tx
    · subst heq
      exact h.hasRoom_of_step hstepped htx
    · rw [transaction_of_ne hstepped heq] at htx
      exact (h.claims tx claim htx).of_step (h.reserved.claims tx claim htx) h hkept hstepped
        hreserved heq

/-- **Capacity, along runs that keep what `claim` has read.** In every run in which each automation
that `claim` leases because it holds its reservation still holds it when its row is written, no Bud
ever has more automations with a reservation than `automationConcurrencyPerBud`. -/
theorem reservedAutomations_le_of_kept {automationConcurrencyPerBud : ℕ} {acts : List Act}
    (hkept : Runs.Along (Invocation.step automationConcurrencyPerBud) Kept acts Invocation.init)
    (hrun : Runs.run (Invocation.step automationConcurrencyPerBud) acts Invocation.init = some t)
    (budId : String) : reservedAutomations t budId ≤ automationConcurrencyPerBud := by
  have hcapped := Runs.invariant_along (fun _ _ _ h hkept hstep => Capped.step h hkept hstep) hkept
    hrun (Capped.init automationConcurrencyPerBud)
  exact (reservedAutomations_le hcapped.reserved budId).trans (hcapped.capped budId)

/-- Two automations of a Bud, in threads of their own; the first is leased, started and parked at a
question. -/
def parked : List Act :=
  let turn (threadId : String) : Identity := ⟨threadId, "bud", .automation, "owner", none⟩
  let lease : Lease := ⟨0, 1, some "worker", "owner"⟩
  [Act.begin 0 (.admission (turn "first")), .execute 0 (.plain 0 []), .execute 0 (.plain 0 []),
    .commit 0, .begin 1 (.admission (turn "second")), .execute 1 (.plain 0 []),
    .execute 1 (.plain 0 []),
    .commit 1, .begin 2 (.claim "worker"), .execute 2 (.plain 1 [0])] ++
  List.replicate 6 (Act.execute 2 (.plain 1 [])) ++
  [Act.commit 2, .begin 3 (.start lease), .execute 3 (.plain 2 []), .execute 3 (.plain 2 []),
    .commit 3, .begin 4 (.parkQuestion lease), .execute 4 (.plain 3 []), .execute 4 (.plain 3 []),
    .commit 4]

/-- A worker goes on with the first, whose question has been answered, up to its last statement. -/
def resuming : List Act :=
  .begin 5 (.claim "worker") :: .execute 5 { Choice.plain 4 [0] with answered := true } ::
    List.replicate 3 (.execute 5 (.plain 4 []))

def second : List Act :=
  Act.begin 6 (.claim "other") :: .execute 6 (.plain 4 [1]) ::
    List.replicate 6 (Act.execute 6 (.plain 4 [])) ++ [Act.commit 6]

/-- The first is canceled. -/
def cancellation : List Act :=
  [.begin 7 (.requestCancel "owner" 0), .execute 7 (.plain 4 []), .execute 7 (.plain 4 []),
    .commit 7]

/-- The last statement of the worker that goes on with the first. -/
def resumed : List Act := [.execute 5 (.plain 5 []), .commit 5]

/-- With room for two, a worker goes on with the first while another leases the second. -/
theorem reservedAutomations_le_of_kept_second : ∃ t,
    Runs.run (Invocation.step 2) (parked ++ resuming ++ second ++ resumed) Invocation.init
        = some t ∧
      (t.db.committed 0).map (·.status) = some .leased ∧
      (t.db.committed 1).map (·.status) = some .leased ∧ reservedAutomations t "bud" ≤ 2 := by
  obtain ⟨t, ht, hend⟩ := Option.map_eq_some_iff.mp
    (show (Runs.run (Invocation.step 2) (parked ++ resuming ++ second ++ resumed)
      Invocation.init).map (fun t => ((t.db.committed 0).map (·.status),
        (t.db.committed 1).map (·.status))) = some (some .leased, some .leased) by decide)
  obtain ⟨hfirst, hsecond⟩ := Prod.mk.inj hend
  exact ⟨t, ht, hfirst, hsecond, reservedAutomations_le_of_kept (by decide) ht "bud"⟩

/-- With room for one, the first is canceled and the second leased while a worker goes on with the
first: two automations hold a reservation, and the canceled one is leased. -/
theorem reservedAutomations_exceeds : ∃ t,
    Runs.run (Invocation.step 1) (parked ++ resuming ++ cancellation ++ second ++ resumed)
        Invocation.init = some t ∧ reservedAutomations t "bud" = 2 := by
  obtain ⟨t, ht, hend⟩ := Option.map_eq_some_iff.mp
    (show (Runs.run (Invocation.step 1) (parked ++ resuming ++ cancellation ++ second ++ resumed)
      Invocation.init).map (reservedAutomations · "bud") = some 2 by decide)
  exact ⟨t, ht, hend⟩

end Bud.Invocation
