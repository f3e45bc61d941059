import Bud.Lib.Runs
import Bud.Agent.Invocation
import Mathlib.Data.Nat.Basic

/-!
# What one statement does to the table of invocations

Every action of the model does one of five things to the table: it gains locks, writes a row that
was free, inserts one, commits or rolls back (`Effect`). A row is written for one of four reasons
(`Wrote`), and a method that writes a row it has locked still finds the row it locked. What a
`claim` goes on to depends on what it has read and locked (`Went`).

The three properties of the table that follow are each an invariant over these.
-/

namespace Bud.Invocation

open ReadCommitted List Option Function

/-! ### Effects -/

def Act.tx : Act → ℕ
  | .begin tx _ | .execute tx _ | .commit tx | .rollback tx => tx

/-- Why transaction `tx` wrote `row'` over `row`. -/
inductive Wrote (s : Sys) (tx id : ℕ) (row : Row) : Row → Prop where
  | method {method : Method} {choice choice' : Choice}
      (h : method.next (s.identity id) row choice = .write) :
      Wrote s tx id row (method.update row row choice')
  | outcome (outcomeCode : String) :
      Wrote s tx id row { row with outcomeCode := some outcomeCode }
  | expire {current : Row} (now : ℕ)
      (h : s.transaction tx = some (.claim (.expire id current))) :
      Wrote s tx id row (row.startElapsed now)
  | lease {workerId : String} {current : Row} (now : ℕ)
      (h : s.transaction tx = some (.claim (.lease workerId id current))) :
      Wrote s tx id row (row.leasedTo workerId now)

inductive Effect (s : Sys) (tx : ℕ) (t : Sys) : Prop where
  | gains (h : Gains tx s.db t.db)
      (hrows : ∀ id, s.db.rowLock id = none → t.db.rowLock id ≠ none →
        ∃ row, s.db.visible tx id = some row)
      (hidentity : t.identity = s.identity) (hnext : t.next = s.next)
  | wrote {id : ℕ} {row row' : Row} (hfree : Free (s.db.rowLock id) tx)
      (hvisible : s.db.visible tx id = some row) (hdb : t.db = s.db.write tx id row')
      (h : Wrote s tx id row row') (hidentity : t.identity = s.identity) (hnext : t.next = s.next)
  | inserted {identity : Identity} {now : ℕ} (hdb : t.db = s.db.write tx s.next (Row.new now))
      (hidentity : t.identity = Function.update s.identity s.next identity)
      (hnext : t.next = s.next + 1)
  | committed (hdb : t.db = s.db.commit tx) (hidentity : t.identity = s.identity)
      (hnext : t.next = s.next)
  | rolledBack (hdb : t.db = s.db.rollback tx) (hidentity : t.identity = s.identity)
      (hnext : t.next = s.next)

/-! ### Locked rows -/

/-- The rows a transaction is about to write are held by it, are as they were when it locked them,
and are to be written. -/
def WritesOk (s : Sys) (tx : ℕ) : Transaction → Prop
  | .claim _ => True
  | .work writes _ =>
    (writes.map Prod.fst).Nodup ∧ ∀ write ∈ writes, s.db.rowLock write.1 = some tx ∧
      s.db.visible tx write.1 = some write.2.2 ∧
      ∃ choice, write.2.1.next (s.identity write.1) write.2.2 choice = .write

structure Locked (s : Sys) : Prop where
  held : Held s.db
  /-- Rows, and the locks on them, are of invocations that have been inserted. -/
  lt_next : ∀ id, s.db.rowLock id ≠ none ∨ (∃ row, Version s.db id row) → id < s.next
  writes : ∀ tx transaction, s.transaction tx = some transaction → WritesOk s tx transaction
  ended : ∀ tx, s.transaction tx = none → ∀ id, s.db.rowLock id ≠ some tx

variable {cap : ℕ} {s t : Sys} {act : Act} {tx : ℕ}

/-! ### When methods write -/

theorem lockedLease_eq_write {next : Next}
    (h : lockedLease lease identity row now statuses allowCancellation next = .write) :
    row.status ∈ statuses ∧ (row.cancelRequestedAt = none ∨ allowCancellation = true) ∧
      next = .write := by
  rw [lockedLease] at h
  split at h
  · cases h
  · next hlease =>
    split at h
    · cases h
    · next hcancel =>
      simp only [Bool.or_eq_true, not_or, decide_eq_true_eq, not_not] at hlease
      refine ⟨hlease.2, ?_, h⟩
      by_cases hnone : row.cancelRequestedAt = none
      · exact Or.inl hnone
      · refine Or.inr ?_
        simpa [isSome_iff_ne_none, hnone] using hcancel

theorem swept_eq_write (h : swept condition = .write) : condition = true := by
  rw [swept] at h
  split at h
  · assumption
  · cases h

/-! ### Statements that write -/

variable {update : Row → Row} {db : Db ℕ Lock Row} {claim : Claim} {other : ℕ}
  {transaction : Transaction}

theorem writeRow_cases {id : ℕ} (h : s.writeRow tx id update = some t) :
    t = s ∨ ∃ row, Free (s.db.rowLock id) tx ∧ s.db.visible tx id = some row ∧
      t = { s with db := s.db.write tx id (update row) } := by
  rw [Sys.writeRow] at h
  split at h
  · next hfree =>
    split at h
    · exact Or.inl (some.inj h).symm
    · next row hvisible => exact Or.inr ⟨row, hfree, hvisible, (some.inj h).symm⟩
  · cases h

theorem transaction_writeRow {id : ℕ} (h : s.writeRow tx id update = some t) :
    t.transaction = s.transaction := by
  obtain rfl | ⟨row, -, -, rfl⟩ := writeRow_cases h
  · rfl
  · rfl

theorem effect_of_writeRow {id : ℕ} (h : s.writeRow tx id update = some t)
    (hwrote : ∀ row, s.db.visible tx id = some row → Wrote s tx id row (update row))
    (transaction : Transaction) : Effect s tx (t.goOn tx transaction) := by
  obtain rfl | ⟨row, hfree, hvisible, rfl⟩ := writeRow_cases h
  · exact .gains (Gains.refl _ _) (fun _ h h' => absurd h h') rfl rfl
  · exact .wrote hfree hvisible rfl (hwrote row hvisible) rfl rfl

variable {ids : List ℕ} {method : Method} {next : Claim}

theorem gains_foldl_lockRow (h : ∀ id ∈ ids, Free (db.rowLock id) tx) :
    Gains tx db (ids.foldl (fun db id => db.lockRow tx id) db) := by
  induction ids generalizing db with
  | nil => exact Gains.refl _ _
  | cons id ids ih =>
    have hfirst : Gains tx db (db.lockRow tx id) := gains_lockRow (h id mem_cons_self)
    refine hfirst.trans (ih fun other hother => ?_)
    obtain heq | ⟨-, heq⟩ := hfirst.rowLock other
    · rw [heq]
      exact h other (mem_cons_of_mem _ hother)
    · exact Or.inr heq

theorem rowLock_foldl_of_notMem {id : ℕ} (h : id ∉ ids) :
    (ids.foldl (fun db id => db.lockRow tx id) db).rowLock id = db.rowLock id := by
  induction ids generalizing db with
  | nil => rfl
  | cons first ids ih =>
    rw [mem_cons, not_or] at h
    rw [foldl_cons, ih h.2]
    exact update_of_ne h.1 _ _

theorem rowLock_foldl_of_mem {id : ℕ} (h : id ∈ ids ∨ db.rowLock id = some tx) :
    (ids.foldl (fun db id => db.lockRow tx id) db).rowLock id = some tx := by
  induction ids generalizing db with
  | nil => exact h.resolve_left not_mem_nil
  | cons first ids ih =>
    rw [foldl_cons]
    refine ih ?_
    by_cases heq : id = first
    · exact Or.inr (heq ▸ update_self _ _ _)
    · obtain hmem | hlock := h
      · exact Or.inl ((mem_cons.mp hmem).resolve_left heq)
      · exact Or.inr ((update_of_ne heq _ _).trans hlock)

theorem rowLock_lockRow {id : ℕ} (hrow : db.visible tx id = some row) (other : ℕ)
    (hnone : db.rowLock other = none) (hsome : (db.lockRow tx id).rowLock other ≠ none) :
    ∃ row, db.visible tx other = some row := by
  by_cases heq : other = id
  · exact ⟨row, heq ▸ hrow⟩
  · exact absurd ((update_of_ne heq _ _).trans hnone) hsome

theorem sweepable_spec {choice : Choice} {id : ℕ} (h : s.sweepable tx choice method id = true) :
    Free (s.db.rowLock id) tx ∧ ∃ row, s.db.visible tx id = some row ∧
      method.next (s.identity id) row choice = .write := by
  rw [Sys.sweepable, Bool.and_eq_true] at h
  obtain ⟨row, hrow, hnext⟩ := (Option.any_eq_true _ _).mp h.2
  exact ⟨of_decide_eq_true h.1, row, hrow, of_decide_eq_true hnext⟩

/-- What a statement of a method comes to. -/
structure Executed (s : Sys) (tx : ℕ) (s' : Sys) (writes : List (ℕ × Method × Row)) : Prop where
  effect : ∀ transaction, Effect s tx (s'.goOn tx transaction)
  transaction : s'.transaction = s.transaction
  writes : ∀ todo, WritesOk s' tx (.work writes todo)

theorem writesOk_nil (s : Sys) (tx : ℕ) (todo : List Statement) : WritesOk s tx (.work [] todo) :=
  ⟨nodup_nil, fun _ hmem => absurd hmem not_mem_nil⟩

theorem executed_lock (hfree : Free (s.db.locks lock) tx) :
    Executed s tx { s with db := s.db.lock tx lock } [] :=
  ⟨fun _ => .gains (gains_lock hfree) (fun _ h h' => absurd h h') rfl rfl, rfl, writesOk_nil _ _⟩

theorem executed_sweep (hheld : Held s.db) {choice : Choice} (hnodup : choice.ids.Nodup)
    (hall : ∀ id ∈ choice.ids, s.sweepable tx choice method id = true) :
    Executed s tx (s.lockRows tx choice.ids)
      (choice.ids.filterMap fun id => (s.db.visible tx id).map fun row => (id, method, row)) := by
  have hgains : Gains tx s.db (s.lockRows tx choice.ids).db :=
    gains_foldl_lockRow fun id hid => (sweepable_spec (hall id hid)).1
  refine ⟨fun _ => .gains hgains (fun id hnone hsome => ?_) rfl rfl, rfl, fun _ => ⟨?_, ?_⟩⟩
  · by_cases hid : id ∈ choice.ids
    · obtain ⟨-, row, hrow, -⟩ := sweepable_spec (hall id hid)
      exact ⟨row, hrow⟩
    · exact absurd ((rowLock_foldl_of_notMem hid).trans hnone) hsome
  · have hfst : (choice.ids.filterMap fun id =>
        (s.db.visible tx id).map fun row => (id, method, row)).map Prod.fst = choice.ids := by
      rw [map_filterMap]
      refine (filterMap_congr fun id hid => ?_).trans filterMap_some
      obtain ⟨-, row, hrow, -⟩ := sweepable_spec (hall id hid)
      rw [hrow]
      rfl
    rw [hfst]
    exact hnodup
  · intro write hmem
    obtain ⟨id, hid, hwrite⟩ := mem_filterMap.mp hmem
    obtain ⟨row, hrow, rfl⟩ := map_eq_some_iff.mp hwrite
    obtain ⟨-, row', hrow', hnext⟩ := sweepable_spec (hall id hid)
    obtain rfl : row = row' := some.inj (hrow.symm.trans hrow')
    refine ⟨rowLock_foldl_of_mem (Or.inl hid), ?_, choice, hnext⟩
    rw [hgains.visible_eq hheld]
    exact hrow

theorem executed_lockRow (hheld : Held s.db) {id : ℕ} {row : Row} {choice : Choice}
    (hfree : Free (s.db.rowLock id) tx) (hrow : s.db.visible tx id = some row)
    {writes : List (ℕ × Method × Row)}
    (hwrites : ∀ write ∈ writes, write.1 = id ∧ write.2.2 = row ∧
      write.2.1.next (s.identity id) row choice = .write) (hnodup : (writes.map Prod.fst).Nodup) :
    Executed s tx { s with db := s.db.lockRow tx id } writes := by
  refine ⟨fun _ => .gains (gains_lockRow hfree) (rowLock_lockRow hrow) rfl rfl, rfl,
    fun _ => ⟨hnodup, fun write hmem => ?_⟩⟩
  obtain ⟨hid, heq, hnext⟩ := hwrites write hmem
  rw [hid, heq]
  refine ⟨update_self _ _ _, ?_, choice, hnext⟩
  rw [(gains_lockRow hfree).visible_eq hheld]
  exact hrow

/-- **A statement of a method** gains locks, sets an outcome, inserts, or throws. -/
theorem execute_spec (hheld : Held s.db) {choice : Choice}
    (h : s.execute tx choice statement = some (.goesOn s' writes more)) :
    Executed s tx s' writes := by
  cases statement with
  | lockThread threadId =>
    rw [Sys.execute] at h
    split at h
    · next hfree =>
      cases h
      exact executed_lock hfree
    · cases h
  | lockThreadOf id threadId owner =>
    rw [Sys.execute] at h
    split at h
    · cases h
    · split at h
      · next hfree =>
        cases h
        exact executed_lock hfree
      · cases h
  | lockRow id method =>
    rw [Sys.execute] at h
    split at h
    · next hfree =>
      split at h
      · cases h
      · next row hrow =>
        split at h
        · cases h
        · cases h
          exact @executed_lockRow s tx hheld id row choice hfree hrow []
            (fun _ hmem => absurd hmem not_mem_nil) nodup_nil
        · next hnext =>
          cases h
          refine @executed_lockRow s tx hheld id row choice hfree hrow [(id, method, row)]
            (fun write hmem => ?_) (by simp)
          rw [mem_singleton.mp hmem]
          exact ⟨rfl, rfl, hnext⟩
    · cases h
  | sweep method =>
    rw [Sys.execute] at h
    split at h
    · next hall =>
      cases h
      exact executed_sweep hheld hall.1 hall.2
    · cases h
  | selectWaits threadId owner =>
    rw [Sys.execute] at h
    split at h
    · cases h
      exact ⟨fun _ => .gains (Gains.refl _ _) (fun _ h h' => absurd h h') rfl rfl, rfl,
        writesOk_nil _ _⟩
    · cases h
  | setOutcome id outcomeCode =>
    obtain ⟨s'', hwrite, heq⟩ := map_eq_some_iff.mp h
    cases heq
    exact ⟨effect_of_writeRow hwrite fun _ _ => .outcome outcomeCode, transaction_writeRow hwrite,
      writesOk_nil _ _⟩
  | insert identity =>
    cases h
    exact ⟨fun _ => .inserted rfl rfl rfl, rfl, writesOk_nil _ _⟩

/-! ### How a `claim` goes on -/

/-- The next statement of a `claim`, and what the one before it has found. -/
inductive Went (cap : ℕ) (s : Sys) (tx : ℕ) (s' : Sys) : Claim → Claim → Prop where
  | returns (claim : Claim) : Went cap s tx s' claim .done
  | candidate {workerId : String} {id : ℕ} {row : Row} (h : s.db.visible tx id = some row) :
      Went cap s tx s' (.candidate workerId) (.lockThread workerId id)
  | lockThread {workerId : String} {id : ℕ}
      (h : s'.db.locks (.thread (s.identity id).threadId) = some tx) :
      Went cap s tx s' (.lockThread workerId id) (.reread workerId id)
  | reread {workerId : String} {id : ℕ} {current : Row} {expired : Bool}
      (h : s.db.visible tx id = some current) (hcancel : current.cancelRequestedAt = none)
      (hstatus : current.status ∈ queued ++ [.waitingForUser]) :
      Went cap s tx s' (.reread workerId id) (.active workerId id current expired)
  | expires {workerId : String} {id : ℕ} {current : Row} {expired : Bool}
      (h : s.reservedElsewhere tx id = false) :
      Went cap s tx s' (.active workerId id current expired) (.expire id current)
  | needsCapacity {workerId : String} {id : ℕ} {current : Row} {expired : Bool}
      (h : s.reservedElsewhere tx id = false) :
      Went cap s tx s' (.active workerId id current expired) (.tryCapacity workerId id current)
  | leases {workerId : String} {id : ℕ} {current : Row} {expired : Bool}
      (h : s.reservedElsewhere tx id = false)
      (hkeeps : (s.identity id).origin = .automation → current.reservesThread = true) :
      Went cap s tx s' (.active workerId id current expired) (.lease workerId id current)
  | tryCapacity {workerId : String} {id : ℕ} {current : Row}
      (h : s'.db.locks (.capacity (s.identity id).budId) = some tx) :
      Went cap s tx s' (.tryCapacity workerId id current) (.capacity workerId id current)
  | capacity {workerId : String} {id : ℕ} {current : Row}
      (h : s.used tx (s.identity id).budId < cap) :
      Went cap s tx s' (.capacity workerId id current) (.lease workerId id current)

/-- What a statement of `claim` comes to. -/
structure Claimed (cap : ℕ) (s : Sys) (tx : ℕ) (s' : Sys) (claim next : Claim) : Prop where
  effect : ∀ transaction, Effect s tx (s'.goOn tx transaction)
  transaction : s'.transaction = s.transaction
  /-- Until its last statement, it only gains named locks. -/
  same : next = .done ∨ ∃ locks, (∀ l, s.db.locks l = some tx → locks l = some tx) ∧
    s' = { s with db := { s.db with locks := locks } }
  went : Went cap s tx s' claim next

theorem claimed_same (h : Went cap s tx s claim next) : Claimed cap s tx s claim next :=
  ⟨fun _ => .gains (Gains.refl _ _) (fun _ h h' => absurd h h') rfl rfl, rfl,
    Or.inr ⟨s.db.locks, fun _ h => h, rfl⟩, h⟩

theorem claimed_lock (hfree : Free (s.db.locks lock) tx)
    (h : Went cap s tx { s with db := s.db.lock tx lock } claim next) :
    Claimed cap s tx { s with db := s.db.lock tx lock } claim next := by
  refine ⟨fun _ => .gains (gains_lock hfree) (fun _ h h' => absurd h h') rfl rfl, rfl,
    Or.inr ⟨_, fun l hl => ?_, rfl⟩, h⟩
  by_cases heq : l = lock
  · rw [heq]
    exact update_self _ _ _
  · exact (update_of_ne heq _ _).trans hl

/-- **A statement of `claim`** gains a lock or writes the row. -/
theorem claim_spec {choice : Choice} (htx : s.transaction tx = some (.claim claim))
    (h : s.claim cap tx choice claim = some (s', next)) : Claimed cap s tx s' claim next := by
  cases claim with
  | candidate workerId =>
    rw [Sys.claim] at h
    split at h
    · cases h
      exact claimed_same (.returns _)
    · next id _ _ =>
      split at h
      · next hany =>
        cases h
        obtain ⟨row, hrow, -⟩ := (Option.any_eq_true _ _).mp hany
        exact claimed_same (.candidate hrow)
      · cases h
  | lockThread workerId id =>
    rw [Sys.claim] at h
    split at h
    · next hfree =>
      cases h
      exact claimed_lock hfree (.lockThread (update_self _ _ _))
    · cases h
      exact claimed_same (.returns _)
  | reread workerId id =>
    rw [Sys.claim] at h
    split at h
    · cases h
      exact claimed_same (.returns _)
    · next current hcurrent =>
      split at h
      · cases h
        exact claimed_same (.returns _)
      · next hqueued =>
        cases h
        simp only [Bool.or_eq_true, not_or, Bool.not_eq_true, isSome_eq_false_iff,
          isNone_iff_eq_none, decide_eq_true_eq, not_not] at hqueued
        exact claimed_same (.reread hcurrent hqueued.1 hqueued.2)
  | active workerId id current expired =>
    rw [Sys.claim] at h
    split at h
    · cases h
      exact claimed_same (.returns _)
    · next helsewhere =>
      rw [Bool.not_eq_true] at helsewhere
      split at h
      · cases h
        exact claimed_same (.expires helsewhere)
      · split at h
        · cases h
          exact claimed_same (.needsCapacity helsewhere)
        · next hneeds =>
          cases h
          refine claimed_same (.leases helsewhere fun horigin => ?_)
          by_contra hne
          exact hneeds ⟨horigin, by simpa using hne⟩
  | tryCapacity workerId id current =>
    rw [Sys.claim] at h
    split at h
    · next hfree =>
      cases h
      exact claimed_lock hfree (.tryCapacity (update_self _ _ _))
    · cases h
      exact claimed_same (.returns _)
  | capacity workerId id current =>
    rw [Sys.claim] at h
    split at h
    · cases h
      exact claimed_same (.returns _)
    · next hused =>
      cases h
      exact claimed_same (.capacity (not_le.mp hused))
  | expire id current =>
    obtain ⟨s'', hwrite, heq⟩ := map_eq_some_iff.mp h
    cases heq
    exact ⟨effect_of_writeRow hwrite fun _ _ => .expire choice.now htx,
      transaction_writeRow hwrite, Or.inl rfl, .returns _⟩
  | lease workerId id current =>
    obtain ⟨s'', hwrite, heq⟩ := map_eq_some_iff.mp h
    cases heq
    exact ⟨effect_of_writeRow hwrite fun _ _ => .lease choice.now htx,
      transaction_writeRow hwrite, Or.inl rfl, .returns _⟩
  | done => cases h

/-! ### Actions -/

/-- What an action comes to, by what its transaction was about to do. -/
inductive Stepped (cap : ℕ) (s : Sys) : Act → Sys → Prop where
  | begins {tx : ℕ} (op : Op) (h : s.transaction tx = none) :
      Stepped cap s (.begin tx op) (s.goOn tx op.transaction)
  | claims {tx : ℕ} {choice : Choice} {claim next : Claim} {s' : Sys}
      (htx : s.transaction tx = some (.claim claim)) (h : Claimed cap s tx s' claim next) :
      Stepped cap s (.execute tx choice) (s'.goOn tx (.claim next))
  | writes {tx id : ℕ} {choice : Choice} {method : Method} {locked : Row}
      {writes : List (ℕ × Method × Row)} {todo : List Statement} {s' : Sys}
      (htx : s.transaction tx = some (.work ((id, method, locked) :: writes) todo))
      (h : s.writeRow tx id (fun row => method.update locked row choice) = some s') :
      Stepped cap s (.execute tx choice) (s'.goOn tx (.work writes todo))
  | executes {tx : ℕ} {choice : Choice} {writes : List (ℕ × Method × Row)}
      {todo : List Statement} {s' : Sys} (h : Executed s tx s' writes) :
      Stepped cap s (.execute tx choice) (s'.goOn tx (.work writes todo))
  | throws {tx : ℕ} {choice : Choice} : Stepped cap s (.execute tx choice) (s.rollback tx)
  | commits {tx : ℕ} : Stepped cap s (.commit tx) (s.commit tx)
  | rollsBack {tx : ℕ} : Stepped cap s (.rollback tx) (s.rollback tx)

theorem stepped_of_step (hheld : Held s.db) (hstep : step cap s act = some t) :
    Stepped cap s act t := by
  cases act with
  | begin tx op =>
    obtain ⟨hnone, rfl⟩ := Runs.of_guard hstep
    exact .begins op hnone
  | execute tx choice =>
    rw [step] at hstep
    split at hstep
    · next claim htx =>
      obtain ⟨⟨s', next⟩, hclaim, rfl⟩ := map_eq_some_iff.mp hstep
      exact .claims htx (claim_spec htx hclaim)
    · next id method locked writes todo htx =>
      obtain ⟨s', hwrite, rfl⟩ := map_eq_some_iff.mp hstep
      exact .writes htx hwrite
    · next statement todo htx =>
      obtain ⟨outcome, hexecute, rfl⟩ := map_eq_some_iff.mp hstep
      cases outcome with
      | goesOn s' writes more => exact .executes (execute_spec hheld hexecute)
      | throws => exact .throws
    all_goals cases hstep
  | commit tx =>
    rw [step] at hstep
    split at hstep
    · cases hstep
      exact .commits
    · cases hstep
      exact .commits
    · cases hstep
  | rollback tx =>
    obtain ⟨-, rfl⟩ := Runs.of_guard_not hstep
    exact .rollsBack

/-- **Every action has an effect.** -/
theorem effect_of_step (h : Locked s) (hstep : Stepped cap s act t) : Effect s act.tx t := by
  cases hstep with
  | begins op hnone => exact .gains (Gains.refl _ _) (fun _ h h' => absurd h h') rfl rfl
  | claims htx hclaimed => exact hclaimed.effect _
  | writes htx hwrite =>
    obtain ⟨-, hall⟩ := h.writes _ _ htx
    obtain ⟨-, hlocked, choice, hnext⟩ := hall _ mem_cons_self
    refine effect_of_writeRow hwrite (fun row hrow => ?_) _
    -- the row is as it was when it was locked
    cases hlocked.symm.trans hrow
    exact .method hnext
  | executes hexecuted => exact hexecuted.effect _
  | throws | rollsBack => exact .rolledBack rfl rfl rfl
  | commits => exact .committed rfl rfl rfl

theorem transaction_of_ne (hstep : Stepped cap s act t) (hne : other ≠ act.tx) :
    t.transaction other = s.transaction other := by
  have hgoOn : ∀ {s' : Sys} {transaction}, s'.transaction = s.transaction →
      (s'.goOn act.tx transaction).transaction other = s.transaction other := by
    intro s' transaction h
    exact (update_of_ne hne _ _).trans (congrFun h other)
  cases hstep with
  | begins => exact hgoOn rfl
  | claims htx h | executes h => exact hgoOn h.transaction
  | writes htx h => exact hgoOn (transaction_writeRow h)
  | throws | commits | rollsBack => exact update_of_ne hne _ _

/-! ### What an effect leaves alone -/

theorem Effect.frame (hlocked : Locked s) (h : Effect s tx t) : Frame tx s.db t.db := by
  cases h with
  | gains hgains => exact hgains.frame
  | wrote hfree _ hdb => exact hdb ▸ frame_write hfree _
  | inserted hdb =>
    have hfree : s.db.rowLock s.next = none := by
      by_contra hne
      exact absurd (hlocked.lt_next s.next (Or.inl hne)) (lt_irrefl _)
    exact hdb ▸ frame_write (Or.inl hfree) _
  | committed hdb => exact hdb ▸ frame_commit _ _
  | rolledBack hdb => exact hdb ▸ frame_rollback _ _

theorem rowLock_write_cases {id : ℕ} (h : (db.write tx k row).rowLock id = some other) :
    db.rowLock id = some other ∨ id = k ∧ other = tx := by
  by_cases hk : id = k
  · simp only [Db.write, hk, update_self] at h
    exact Or.inr ⟨hk, (some.inj h).symm⟩
  · exact Or.inl ((update_of_ne hk _ _).symm.trans h)

theorem rowLock_of_end {id : ℕ}
    (h : (if db.rowLock id = some tx then none else db.rowLock id) = some other) :
    db.rowLock id = some other := by
  split at h
  · cases h
  · exact h

theorem rowLock_end_ne {id : ℕ} :
    (if db.rowLock id = some tx then none else db.rowLock id) ≠ some tx := by
  intro h
  exact absurd (rowLock_of_end h) fun heq => by simp [heq] at h

/-- Where the locks after an action come from. -/
theorem Effect.rowLock_cases (h : Effect s tx t) {id : ℕ} (hlock : t.db.rowLock id = some other) :
    s.db.rowLock id = some other ∨
      other = tx ∧ (id < t.next ∨ ∃ row, s.db.visible tx id = some row) := by
  cases h with
  | gains hgains hrows =>
    obtain heq | ⟨hfree, heq⟩ := hgains.rowLock id
    · exact Or.inl (heq.symm.trans hlock)
    · obtain rfl : tx = other := some.inj (heq.symm.trans hlock)
      obtain hnone | hsome := hfree
      · exact Or.inr ⟨rfl, Or.inr (hrows id hnone (by rw [heq]; simp))⟩
      · exact Or.inl hsome
  | wrote _ hvisible hdb =>
    rw [hdb] at hlock
    obtain hold | ⟨rfl, rfl⟩ := rowLock_write_cases hlock
    · exact Or.inl hold
    · exact Or.inr ⟨rfl, Or.inr ⟨_, hvisible⟩⟩
  | inserted hdb _ hnext =>
    rw [hdb] at hlock
    obtain hold | ⟨rfl, rfl⟩ := rowLock_write_cases hlock
    · exact Or.inl hold
    · exact Or.inr ⟨rfl, Or.inl (hnext ▸ Nat.lt_succ_self _)⟩
  | committed hdb | rolledBack hdb =>
    rw [hdb] at hlock
    exact Or.inl (rowLock_of_end hlock)

theorem Effect.identity_eq (h : Effect s tx t) {id : ℕ} (hid : id < s.next) :
    t.identity id = s.identity id := by
  cases h with
  | gains _ _ hidentity | wrote _ _ _ _ hidentity | committed _ hidentity
  | rolledBack _ hidentity => rw [hidentity]
  | inserted _ hidentity => rw [hidentity, update_of_ne hid.ne]

theorem Effect.next_le (h : Effect s tx t) : s.next ≤ t.next := by
  cases h with
  | gains _ _ _ hnext | wrote _ _ _ _ _ hnext | committed _ _ hnext | rolledBack _ _ hnext =>
    rw [hnext]
  | inserted _ _ hnext => rw [hnext]; exact Nat.le_succ _

/-! ### Methods write what they have locked -/

/-- What others do leaves alone the rows a transaction is about to write. -/
theorem WritesOk.of_frame (hlocked : Locked s) (h : Effect s tx t) (hne : other ≠ tx)
    (hok : WritesOk s other transaction) : WritesOk t other transaction := by
  cases transaction with
  | claim next => trivial
  | work writes todo =>
    refine ⟨hok.1, fun write hwrite => ?_⟩
    obtain ⟨hlock, hvisible, choice, hnext⟩ := hok.2 write hwrite
    have hframe := h.frame hlocked
    have hlt : write.1 < s.next := hlocked.lt_next _ (Or.inl (by rw [hlock]; simp))
    refine ⟨(hframe.rows _ _ hne hlock).1, ?_, choice, ?_⟩
    · rw [hframe.visible_eq hne hlock]
      exact hvisible
    · rw [h.identity_eq hlt]
      exact hnext

theorem Locked.init : Locked init where
  held := fun _ h => absurd rfl h
  lt_next := by
    rintro id (h | ⟨row, h | h⟩)
    · exact absurd rfl h
    all_goals cases h
  writes := fun _ _ h => by cases h
  ended := fun _ _ _ h => by cases h

theorem Effect.held (hlocked : Locked s) (h : Effect s tx t) : Held t.db := by
  cases h with
  | gains hgains => exact hlocked.held.gains hgains
  | wrote _ _ hdb | inserted hdb => exact hdb ▸ hlocked.held.write _ _
  | committed hdb => exact hdb ▸ hlocked.held.commit _
  | rolledBack hdb => exact hdb ▸ hlocked.held.rollback _

theorem Effect.version (h : Effect s tx t) {id : ℕ} (hversion : Version t.db id row) :
    Version s.db id row ∨ (id = s.next ∧ id < t.next ∧ ∃ now, row = Row.new now) ∨
      ∃ old, s.db.visible tx id = some old ∧ t.db.rowLock id = some tx ∧
        Wrote s tx id old row := by
  cases h with
  | gains hgains =>
    obtain hc | hd := hversion
    · exact Or.inl (Or.inl (hgains.committed ▸ hc))
    · exact Or.inl (Or.inr (hgains.draft ▸ hd))
  | wrote hfree hvisible hdb hwrote =>
    rw [hdb] at hversion
    obtain ⟨rfl, rfl⟩ | hold := Version.of_write hversion
    · exact Or.inr (Or.inr ⟨_, hvisible, hdb ▸ update_self _ _ _, hwrote⟩)
    · exact Or.inl hold
  | inserted hdb hidentity hnext =>
    rw [hdb] at hversion
    obtain ⟨rfl, rfl⟩ | hold := Version.of_write hversion
    · exact Or.inr (Or.inl ⟨rfl, hnext ▸ Nat.lt_succ_self _, _, rfl⟩)
    · exact Or.inl hold
  | committed hdb =>
    rw [hdb] at hversion
    exact Or.inl (Version.of_commit hversion)
  | rolledBack hdb =>
    rw [hdb] at hversion
    exact Or.inl (Version.of_rollback hversion)

theorem Effect.lt_next (hlocked : Locked s) (h : Effect s tx t) {id : ℕ}
    (hid : t.db.rowLock id ≠ none ∨ ∃ row, Version t.db id row) : id < t.next := by
  have hle := h.next_le
  have hvisible : (∃ row, s.db.visible tx id = some row) → id < t.next := by
    rintro ⟨row, hrow⟩
    exact (hlocked.lt_next id (Or.inr ⟨row, Version.of_visible hrow⟩)).trans_le hle
  obtain hlock | ⟨row, hversion⟩ := hid
  · obtain ⟨other, hother⟩ := ne_none_iff_exists'.mp hlock
    obtain hold | ⟨-, hlt | hrow⟩ := h.rowLock_cases hother
    · exact (hlocked.lt_next id (Or.inl (by rw [hold]; simp))).trans_le hle
    · exact hlt
    · exact hvisible hrow
  · obtain hold | ⟨-, hlt, -⟩ | ⟨old, hrow, -⟩ := h.version hversion
    · exact (hlocked.lt_next id (Or.inr ⟨row, hold⟩)).trans_le hle
    · exact hlt
    · exact hvisible ⟨old, hrow⟩

theorem transaction_goOn (h : (s.goOn tx transaction).transaction tx = some transaction') :
    transaction = transaction' := by
  simpa [Sys.goOn] using h

theorem writesOk_of_step (hlocked : Locked s) (hstep : Stepped cap s act t)
    (htx : t.transaction act.tx = some transaction) : WritesOk t act.tx transaction := by
  cases hstep with
  | begins op =>
    obtain rfl := transaction_goOn htx
    cases op with
    | claim => trivial
    | admission identity =>
      rw [Op.transaction]
      split
      all_goals exact writesOk_nil _ _ _
    | heartbeat | start | defer | recordAction | finish | parkBrowserHandoff | parkQuestion
    | requestCancel | abandonReviewed | expireQueued | recoverExpired => exact writesOk_nil _ _ _
  | claims =>
    obtain rfl := transaction_goOn htx
    trivial
  | @writes _ id _ _ _ _ _ _ htx' hwrite =>
    obtain rfl := transaction_goOn htx
    obtain ⟨hnodup, hall⟩ := hlocked.writes _ _ htx'
    rw [map_cons, nodup_cons] at hnodup
    refine ⟨hnodup.2, fun write hmem => ?_⟩
    obtain ⟨hlock, hvisible, hnext⟩ := hall write (mem_cons_of_mem _ hmem)
    obtain rfl | ⟨row, -, -, rfl⟩ := writeRow_cases hwrite
    · exact ⟨hlock, hvisible, hnext⟩
    · have hne : write.1 ≠ id := fun heq => hnodup.1 (mem_map.mpr ⟨write, hmem, heq⟩)
      refine ⟨(update_of_ne hne _ _).trans hlock, ?_, hnext⟩
      exact (visible_write_of_ne hne _).trans hvisible
  | @executes _ _ _ todo _ hexecuted =>
    obtain rfl := transaction_goOn htx
    exact hexecuted.writes todo
  | throws | commits | rollsBack => simp [Sys.rollback, Sys.commit, Act.tx] at htx

theorem ended_of_step (hstep : Stepped cap s act t) (hnone : t.transaction act.tx = none) (id : ℕ) :
    t.db.rowLock id ≠ some act.tx := by
  cases hstep with
  | throws | commits | rollsBack => exact rowLock_end_ne
  | begins | claims | writes | executes => simp [Sys.goOn, Act.tx] at hnone

/-- **One action.** -/
theorem Locked.step (h : Locked s) (hstep : step cap s act = some t) : Locked t := by
  have hstepped := stepped_of_step h.held hstep
  have heffect := effect_of_step h hstepped
  refine ⟨heffect.held h, fun id => heffect.lt_next h, fun tx transaction htx => ?_,
    fun tx hnone id hlock => ?_⟩
  · by_cases heq : tx = act.tx
    · subst heq
      exact writesOk_of_step h hstepped htx
    · rw [transaction_of_ne hstepped heq] at htx
      exact (h.writes tx transaction htx).of_frame h heffect heq
  · by_cases heq : tx = act.tx
    · subst heq
      exact ended_of_step hstepped hnone id hlock
    · rw [transaction_of_ne hstepped heq] at hnone
      obtain hold | ⟨htx, -⟩ := heffect.rowLock_cases hlock
      · exact h.ended tx hnone id hold
      · exact heq htx

/-! ### Conditions on `claim` -/

def Sys.claiming (s : Sys) (tx : ℕ) : Option Claim :=
  match s.transaction tx with
  | some (.claim claim) => some claim
  | _ => none

/-- Every statement of a `claim` is run in a state that meets `ok`. -/
def OnClaim (ok : Sys → ℕ → Claim → Prop) (s : Sys) : Act → Prop
  | .execute tx _ => ∀ claim ∈ s.claiming tx, ok s tx claim
  | _ => True

instance {ok : Sys → ℕ → Claim → Prop} [∀ s tx claim, Decidable (ok s tx claim)] (s : Sys) :
    ∀ act, Decidable (OnClaim ok s act)
  | .execute tx _ => inferInstanceAs (Decidable (∀ claim ∈ s.claiming tx, ok s tx claim))
  | .begin .. | .commit _ | .rollback _ => .isTrue trivial

/-- An action after which its transaction holds a row was a statement. -/
theorem OnClaim.of_rowLock {ok : Sys → ℕ → Claim → Prop} {id : ℕ} (h : OnClaim ok s act)
    (hstep : Stepped cap s act t) (htx : s.transaction act.tx = some (.claim claim))
    (hlock : t.db.rowLock id = some act.tx) : ok s act.tx claim := by
  cases act with
  | begin tx op =>
    cases hstep with
    | begins _ hnone => exact absurd htx (by simp [Act.tx, hnone])
  | execute tx choice =>
    have htx' : s.transaction tx = some (.claim claim) := htx
    exact h claim (by rw [Sys.claiming, htx']; rfl)
  | commit tx =>
    cases hstep with
    | commits => exact absurd hlock rowLock_end_ne
  | rollback tx =>
    cases hstep with
    | rollsBack => exact absurd hlock rowLock_end_ne

end Bud.Invocation
