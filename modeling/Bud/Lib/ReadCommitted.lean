import Mathlib.Order.Basic

/-!
# Transactions under READ COMMITTED

A table of rows that several transactions read and write, one statement at a time. A statement sees
what was committed before it and what its own transaction has written. A transaction that locks or
writes a row holds the row until it ends; a statement that wants a row another transaction holds
waits, and then goes on with the newest version. Besides rows there are named locks, held to the end
of the transaction too.

Rows have keys in `K` and are values of `R`, locks are named by `L`, and transactions are numbered.

## Main definitions

* `Db` — the table, the versions that are not committed, and who holds what
* `Db.visible` — the row a statement of a transaction sees
* `Db.lockRow`, `Db.write`, `Db.lock`, `Db.commit`, `Db.rollback` — what statements do
* `Version` — the rows there are, committed or not
* `Frame` — what a transaction leaves alone
* `Gains` — a statement that only locks
* `Held` — a version that is not committed belongs to whoever holds the row
-/

namespace ReadCommitted

open Option Function

variable {K L R : Type*}

structure Db (K L R : Type*) where
  committed : K → Option R
  /-- The version that the transaction holding the row has written. -/
  draft : K → Option R
  rowLock : K → Option ℕ
  locks : L → Option ℕ

def Free (holder : Option ℕ) (tx : ℕ) : Prop := holder = none ∨ holder = some tx

instance (holder : Option ℕ) (tx : ℕ) : Decidable (Free holder tx) :=
  inferInstanceAs (Decidable (_ ∨ _))

namespace Db

def empty : Db K L R :=
  { committed := fun _ => none
    draft := fun _ => none
    rowLock := fun _ => none
    locks := fun _ => none }

def visible (db : Db K L R) (tx : ℕ) (k : K) : Option R :=
  if db.rowLock k = some tx then (db.draft k).or (db.committed k) else db.committed k

def commit (db : Db K L R) (tx : ℕ) : Db K L R :=
  { committed := fun k => db.visible tx k
    draft := fun k => if db.rowLock k = some tx then none else db.draft k
    rowLock := fun k => if db.rowLock k = some tx then none else db.rowLock k
    locks := fun l => if db.locks l = some tx then none else db.locks l }

def rollback (db : Db K L R) (tx : ℕ) : Db K L R :=
  { committed := db.committed
    draft := fun k => if db.rowLock k = some tx then none else db.draft k
    rowLock := fun k => if db.rowLock k = some tx then none else db.rowLock k
    locks := fun l => if db.locks l = some tx then none else db.locks l }

def lock [DecidableEq L] (db : Db K L R) (tx : ℕ) (l : L) : Db K L R :=
  { db with locks := Function.update db.locks l (some tx) }

variable [DecidableEq K]

def lockRow (db : Db K L R) (tx : ℕ) (k : K) : Db K L R :=
  { db with rowLock := Function.update db.rowLock k (some tx) }

def write (db : Db K L R) (tx : ℕ) (k : K) (row : R) : Db K L R :=
  { db with
    rowLock := Function.update db.rowLock k (some tx)
    draft := Function.update db.draft k (some row) }

end Db

variable {db db' db'' : Db K L R} {tx : ℕ} {k : K} {row : R}

/-! ### What others leave alone -/

/-- A statement of transaction `tx`, or its end, does not touch what other transactions hold. -/
structure Frame (tx : ℕ) (db db' : Db K L R) : Prop where
  rows : ∀ k other, other ≠ tx → db.rowLock k = some other →
    db'.rowLock k = some other ∧ db'.draft k = db.draft k ∧ db'.committed k = db.committed k
  locks : ∀ l other, other ≠ tx → db.locks l = some other → db'.locks l = some other

theorem Frame.visible_eq (h : Frame tx db db') {other : ℕ} (hne : other ≠ tx)
    (hk : db.rowLock k = some other) : db'.visible other k = db.visible other k := by
  obtain ⟨hlock, hdraft, hcommitted⟩ := h.rows k other hne hk
  rw [Db.visible, Db.visible, if_pos hlock, if_pos hk, hdraft, hcommitted]

theorem ne_of_free {holder : Option ℕ} {other : ℕ} (h : Free holder tx) (hne : other ≠ tx) :
    holder ≠ some other := by
  rintro rfl
  obtain h | h := h
  · cases h
  · exact hne (some.inj h)

section

variable [DecidableEq K]

theorem frame_write (h : Free (db.rowLock k) tx) (row : R) : Frame tx db (db.write tx k row) := by
  refine ⟨fun k' other hne hk => ?_, fun _ _ _ hl => hl⟩
  have hk' : k' ≠ k := by
    rintro rfl
    exact ne_of_free h hne hk
  exact ⟨(update_of_ne hk' _ _).trans hk, update_of_ne hk' _ _, rfl⟩

end

/-- A transaction that ends releases its own locks. -/
theorem frame_of_released {committed : K → Option R}
    (hcommitted : ∀ k, db.rowLock k ≠ some tx → committed k = db.committed k) :
    Frame tx db { db.rollback tx with committed } := by
  refine ⟨fun k other hne hk => ?_, fun l other hne hl => ?_⟩
  · have hnot : db.rowLock k ≠ some tx := fun heq => hne (some.inj (hk.symm.trans heq))
    exact ⟨(if_neg hnot).trans hk, if_neg hnot, hcommitted k hnot⟩
  · exact (if_neg fun heq => hne (some.inj (hl.symm.trans heq))).trans hl

theorem frame_commit (tx : ℕ) (db : Db K L R) : Frame tx db (db.commit tx) :=
  frame_of_released fun _ hnot => if_neg hnot

theorem frame_rollback (tx : ℕ) (db : Db K L R) : Frame tx db (db.rollback tx) :=
  frame_of_released fun _ _ => rfl

/-! ### Statements that only lock -/

/-- Transaction `tx` may have gained locks that no other transaction held. -/
structure Gains (tx : ℕ) (db db' : Db K L R) : Prop where
  committed : db'.committed = db.committed
  draft : db'.draft = db.draft
  rowLock : ∀ k, db'.rowLock k = db.rowLock k ∨
    Free (db.rowLock k) tx ∧ db'.rowLock k = some tx
  locks : ∀ l, db'.locks l = db.locks l ∨ Free (db.locks l) tx ∧ db'.locks l = some tx

theorem Gains.refl (tx : ℕ) (db : Db K L R) : Gains tx db db :=
  ⟨rfl, rfl, fun _ => Or.inl rfl, fun _ => Or.inl rfl⟩

theorem gains_trans {holder holder' holder'' : Option ℕ}
    (h : holder' = holder ∨ Free holder tx ∧ holder' = some tx)
    (h' : holder'' = holder' ∨ Free holder' tx ∧ holder'' = some tx) :
    holder'' = holder ∨ Free holder tx ∧ holder'' = some tx := by
  obtain rfl | ⟨hfree, rfl⟩ := h
  · exact h'
  · obtain rfl | ⟨-, rfl⟩ := h'
    all_goals exact Or.inr ⟨hfree, rfl⟩

theorem Gains.trans (h : Gains tx db db') (h' : Gains tx db' db'') : Gains tx db db'' :=
  ⟨h'.committed.trans h.committed, h'.draft.trans h.draft,
    fun k => gains_trans (h.rowLock k) (h'.rowLock k),
    fun l => gains_trans (h.locks l) (h'.locks l)⟩

theorem gains_lock [DecidableEq L] {l : L} (h : Free (db.locks l) tx) :
    Gains tx db (db.lock tx l) := by
  refine ⟨rfl, rfl, fun _ => Or.inl rfl, fun l' => ?_⟩
  by_cases hl : l' = l
  · subst hl
    exact Or.inr ⟨h, update_self _ _ _⟩
  · exact Or.inl (update_of_ne hl _ _)

theorem gains_lockRow [DecidableEq K] (h : Free (db.rowLock k) tx) :
    Gains tx db (db.lockRow tx k) := by
  refine ⟨rfl, rfl, fun k' => ?_, fun _ => Or.inl rfl⟩
  by_cases hk : k' = k
  · subst hk
    exact Or.inr ⟨h, update_self _ _ _⟩
  · exact Or.inl (update_of_ne hk _ _)

theorem Gains.frame (h : Gains tx db db') : Frame tx db db' := by
  refine ⟨fun k other hne hk => ⟨?_, congrFun h.draft k, congrFun h.committed k⟩,
    fun l other hne hl => ?_⟩
  · obtain heq | ⟨hfree, -⟩ := h.rowLock k
    · exact heq.trans hk
    · exact absurd hk (ne_of_free hfree hne)
  · obtain heq | ⟨hfree, -⟩ := h.locks l
    · exact heq.trans hl
    · exact absurd hl (ne_of_free hfree hne)

theorem Gains.locks_of_eq (h : Gains tx db db') {l : L} (hl : db.locks l = some tx) :
    db'.locks l = some tx := by
  obtain heq | ⟨-, heq⟩ := h.locks l
  · exact heq.trans hl
  · exact heq

/-! ### Versions that are not committed -/

def Held (db : Db K L R) : Prop := ∀ k, db.draft k ≠ none → db.rowLock k ≠ none

theorem Held.gains (h : Held db) (hgains : Gains tx db db') : Held db' := by
  intro k hk
  obtain heq | ⟨-, heq⟩ := hgains.rowLock k
  · rw [heq]
    exact h k (hgains.draft ▸ hk)
  · rw [heq]
    exact some_ne_none tx

theorem Held.write [DecidableEq K] (h : Held db) (k : K) (row : R) :
    Held (db.write tx k row) := by
  intro k' hk'
  by_cases hk : k' = k
  · subst hk
    simp [Db.write]
  · simp only [Db.write, update_of_ne hk] at hk' ⊢
    exact h k' hk'

theorem Held.commit (h : Held db) (tx : ℕ) : Held (db.commit tx) := by
  intro k hk
  by_cases hlock : db.rowLock k = some tx
  · simp [Db.commit, hlock] at hk
  · simp only [Db.commit, if_neg hlock] at hk ⊢
    exact h k hk

theorem Held.rollback (h : Held db) (tx : ℕ) : Held (db.rollback tx) := h.commit tx

theorem Gains.visible_eq (hheld : Held db) (h : Gains tx db db') (other : ℕ) (k : K) :
    db'.visible other k = db.visible other k := by
  rw [Db.visible, Db.visible, h.draft, h.committed]
  obtain heq | ⟨hfree, heq⟩ := h.rowLock k
  · rw [heq]
  · obtain hnone | hsome := hfree
    · -- nobody held the row, so there was nothing to see but the committed version
      have hdraft : db.draft k = none := by
        by_contra hne
        exact hheld k hne hnone
      rw [hdraft, none_or, ite_self, ite_self]
    · rw [heq, hsome]

theorem visible_write_self [DecidableEq K] : (db.write tx k row).visible tx k = some row := by
  simp [Db.visible, Db.write]

theorem visible_write_of_ne [DecidableEq K] {k' : K} (hk : k' ≠ k) (other : ℕ) :
    (db.write tx k row).visible other k' = db.visible other k' := by
  simp [Db.visible, Db.write, update_of_ne hk]

/-! ### Versions -/

def Version (db : Db K L R) (k : K) (row : R) : Prop :=
  db.committed k = some row ∨ db.draft k = some row

theorem Version.of_visible (h : db.visible tx k = some row) : Version db k row := by
  rw [Db.visible] at h
  split at h
  · obtain h | ⟨-, h⟩ := or_eq_some_iff.mp h
    · exact Or.inr h
    · exact Or.inl h
  · exact Or.inl h

theorem Version.of_write [DecidableEq K] {k' : K} {row' : R}
    (h : Version (db.write tx k row) k' row') :
    (k' = k ∧ row' = row) ∨ Version db k' row' := by
  obtain h | h := h
  · exact Or.inr (Or.inl h)
  · by_cases hk : k' = k
    · subst hk
      exact Or.inl ⟨rfl, (some.inj ((update_self k' _ _).symm.trans h)).symm⟩
    · exact Or.inr (Or.inr ((update_of_ne hk _ _).symm.trans h))

theorem Version.of_commit (h : Version (db.commit tx) k row) : Version db k row := by
  obtain h | h := h
  · exact Version.of_visible h
  · by_cases hk : db.rowLock k = some tx
    · simp [Db.commit, hk] at h
    · exact Or.inr ((if_neg hk).symm.trans h)

theorem Version.of_rollback (h : Version (db.rollback tx) k row) : Version db k row := by
  obtain h | h := h
  · exact Or.inl h
  · by_cases hk : db.rowLock k = some tx
    · simp [Db.rollback, hk] at h
    · exact Or.inr ((if_neg hk).symm.trans h)

end ReadCommitted
