import Mathlib.Data.List.Range

/-!
# A numbered stream through a bounded backlog

The items of a stream are numbered in the order they appear. A backlog holds the newest of them
until the next batch takes them, and items can be lost on the way: the oldest give way when the
backlog is full, a reset throws away what is waiting, and an arrival may bring in fewer items than
have appeared.

A consumer of the batches sees only those. `Accounted` is the invariant that lets it notice a loss:
between two consecutive numbers that were delivered nothing is missing, unless the batch with the
second says so or the continuity was given up in between. `Linked` is that relation of two numbers,
and the places where continuity is given up are the `breaks`.

## Main definitions

* `Backlog` — the waiting numbers, the batches so far, and the breaks
* `Backlog.arrive`, `Backlog.take`, `Backlog.reset` — what happens to it
* `Accounted` — no unannounced gap
-/

namespace Backlogs

open List

/-! ### The newest items -/

section

variable {α : Type*}

def newest (cap : ℕ) (l : List α) : List α := l.drop (l.length - cap)

theorem newest_sublist (cap : ℕ) (l : List α) : (newest cap l).Sublist l := drop_sublist _ _

theorem length_newest (cap : ℕ) (l : List α) : (newest cap l).length = min cap l.length := by
  rw [newest, length_drop]
  omega

variable {cap : ℕ}

theorem newest_of_length_le {l : List α} (h : l.length ≤ cap) : newest cap l = l := by
  rw [newest, Nat.sub_eq_zero_of_le h, drop_zero]

theorem mem_newest_concat (hcap : 0 < cap) (l : List α) (x : α) : x ∈ newest cap (l ++ [x]) := by
  rw [newest, length_append, length_singleton, drop_append_of_le_length (by omega)]
  exact mem_append_right _ (mem_singleton.mpr rfl)

theorem map_newest {β : Type*} (f : α → β) (cap : ℕ) (l : List α) :
    (newest cap l).map f = newest cap (l.map f) := by
  rw [newest, newest, map_drop, length_map]

theorem newest_concat_of_full (hcap : 0 < cap) {l : List α} (h : l.length = cap) (x : α) :
    newest cap (l ++ [x]) = l.drop 1 ++ [x] := by
  rw [newest, length_append, length_singleton, h, Nat.add_sub_cancel_left,
    drop_append_of_le_length (by omega)]

theorem newest_newest_append (l m : List α) :
    newest cap (newest cap l ++ m) = newest cap (l ++ m) := by
  have hlen : (newest cap l).length = l.length - (l.length - cap) := length_drop
  rw [newest, newest, newest, length_append, length_append]
  rw [newest] at hlen
  rw [hlen, ← drop_append_of_le_length (by omega), drop_drop]
  congr 1
  omega

/-! ### Items and their numbers -/

def Numbers (log : List α) (ids : List ℕ) (items : List α) : Prop :=
  items.map some = ids.map fun k => log[k]?

variable {log items : List α} {ids : List ℕ}

theorem Numbers.length_eq (h : Numbers log ids items) : items.length = ids.length := by
  simpa using congrArg length h

theorem Numbers.append_log (h : Numbers log ids items) (more : List α) :
    Numbers (log ++ more) ids items := by
  refine h.trans (map_congr_left fun k hk => ?_)
  have hmem : log[k]? ∈ items.map some := by
    rw [h]
    exact mem_map_of_mem hk
  obtain ⟨x, -, hx⟩ := mem_map.mp hmem
  rw [getElem?_append_left (List.getElem?_eq_some_iff.mp hx.symm).1]

theorem Numbers.append {items' : List α} {ids' : List ℕ} (h : Numbers log ids items)
    (h' : Numbers log ids' items') : Numbers log (ids ++ ids') (items ++ items') := by
  rw [Numbers, map_append, map_append, h, h']

theorem Numbers.newest (h : Numbers log ids items) (cap : ℕ) :
    Numbers log (newest cap ids) (newest cap items) := by
  rw [Numbers, map_newest, map_newest, h]

theorem numbers_drop (log : List α) (start : ℕ) :
    Numbers log (range' start (log.length - start)) (log.drop start) := by
  refine ext_getElem? fun i => ?_
  rw [getElem?_map, getElem?_map, getElem?_drop]
  by_cases hi : i < log.length - start
  · rw [getElem?_range' hi, Option.map_some, Nat.one_mul,
      getElem?_eq_getElem (by omega), Option.map_some]
  · rw [getElem?_eq_none (by omega), Option.map_none, getElem?_eq_none, Option.map_none]
    rw [length_range']
    omega

end

/-! ### The backlog -/

variable {β : Type*}

structure Batch (β : Type*) where
  ids : List ℕ
  body : β
  deriving Repr

structure Backlog (β : Type*) where
  /-- How many items have been accounted for. -/
  count : ℕ
  pending : List ℕ
  batches : List (Batch β)
  /-- The counts at which continuity was given up. -/
  breaks : List ℕ
  deriving Repr

/-- `i` is the last number of the list before `j`. -/
structure Precedes (l : List ℕ) (i j : ℕ) : Prop where
  mem : i ∈ l
  lt : i < j
  between : ∀ k ∈ l, ¬ (i < k ∧ k < j)

instance (l : List ℕ) (i j : ℕ) : Decidable (Precedes l i j) :=
  decidable_of_iff (i ∈ l ∧ i < j ∧ ∀ k ∈ l, ¬ (i < k ∧ k < j))
    ⟨fun h => ⟨h.1, h.2.1, h.2.2⟩, fun h => ⟨h.mem, h.lt, h.between⟩⟩

/-- In a part of the list that still has `i`, `i` still precedes `j`. -/
theorem Precedes.of_subset {l m : List ℕ} {i j : ℕ} (h : Precedes m i j) (hmem : i ∈ l)
    (hsub : l ⊆ m) : Precedes l i j :=
  ⟨hmem, h.lt, fun k hk => h.between k (hsub hk)⟩

namespace Backlog

def empty : Backlog β := { count := 0, pending := [], batches := [], breaks := [] }

def delivered (b : Backlog β) : List ℕ := b.batches.flatMap Batch.ids

/-- `n` items have appeared, of which the newest `kept` come in; `broken` gives up continuity. -/
def arrive (cap n kept : ℕ) (broken : Bool) (b : Backlog β) : Backlog β :=
  { b with
    count := b.count + n
    pending := newest cap (b.pending ++ List.range' (b.count + n - kept) kept)
    breaks := if broken then b.breaks ++ [b.count + n - kept] else b.breaks }

def take (body : β) (b : Backlog β) : Backlog β :=
  { b with pending := [], batches := b.batches ++ [{ ids := b.pending, body := body }] }

def reset (b : Backlog β) : Backlog β :=
  { b with pending := [], breaks := b.breaks ++ [b.count] }

@[simp] theorem arrive_pending (cap n kept : ℕ) (broken : Bool) (b : Backlog β) :
    (b.arrive cap n kept broken).pending
      = newest cap (b.pending ++ range' (b.count + n - kept) kept) := rfl

@[simp] theorem arrive_delivered (cap n kept : ℕ) (broken : Bool) (b : Backlog β) :
    (b.arrive cap n kept broken).delivered = b.delivered := rfl

/-- Nothing is missing between the two, or continuity was given up in between. -/
def Linked (b : Backlog β) (i j : ℕ) : Prop := j ≤ i + 1 ∨ ∃ p ∈ b.breaks, i < p ∧ p ≤ j

theorem Linked.mono {b b' : Backlog β} {i j : ℕ} (h : b.Linked i j) (hsub : b.breaks ⊆ b'.breaks) :
    b'.Linked i j := by
  rcases h with hnext | ⟨p, hp, hlt, hle⟩
  · exact Or.inl hnext
  · exact Or.inr ⟨p, hsub hp, hlt, hle⟩

theorem delivered_take (body : β) (b : Backlog β) :
    (b.take body).delivered = b.delivered ++ b.pending := by
  simp [delivered, take]

end Backlog

/-! ### No unannounced gap -/

/-- **The invariant**: `lossy` batches announce a loss, and the next batch will if `missed`. -/
structure Accounted (lossy : β → Prop) (missed : Prop) (b : Backlog β) : Prop where
  sorted : (b.delivered ++ b.pending).Pairwise (· < ·)
  below : ∀ k ∈ b.delivered ++ b.pending, k < b.count
  batches : ∀ t ∈ b.batches, ¬ lossy t.body → ∀ j ∈ t.ids, ∀ i,
    Precedes b.delivered i j → b.Linked i j
  pending : ¬ missed → ∀ j ∈ b.pending, ∀ i,
    Precedes (b.delivered ++ b.pending) i j → b.Linked i j
  /-- For the item that is not there yet. -/
  next : ∀ i, Precedes (b.delivered ++ b.pending) i b.count → b.Linked i b.count

variable {lossy : β → Prop} {missed missed' : Prop} {b : Backlog β}

theorem accounted_empty : Accounted lossy missed (Backlog.empty : Backlog β) where
  sorted := .nil
  below _ hk := by cases hk
  batches _ ht := by cases ht
  pending _ _ hj := by cases hj
  next _ hi := by cases hi.mem

namespace Accounted

theorem delivered_sorted (h : Accounted lossy missed b) : b.delivered.Pairwise (· < ·) :=
  (pairwise_append.mp h.sorted).1

theorem delivered_lt_pending (h : Accounted lossy missed b) {i j : ℕ} (hi : i ∈ b.delivered)
    (hj : j ∈ b.pending) : i < j :=
  (pairwise_append.mp h.sorted).2.2 i hi j hj

/-- **A gap is announced**: by the batch with its second number, or by a break. -/
theorem lossy_or_break (h : Accounted lossy missed b) {t : Batch β} (ht : t ∈ b.batches) {i j : ℕ}
    (hj : j ∈ t.ids) (hi : Precedes b.delivered i j) (hgap : i + 1 < j) :
    lossy t.body ∨ ∃ p ∈ b.breaks, i < p ∧ p ≤ j := by
  by_cases hlossy : lossy t.body
  · exact Or.inl hlossy
  · rcases h.batches t ht hlossy j hj i hi with hnext | hbreak
    · omega
    · exact Or.inr hbreak

theorem take (h : Accounted lossy missed b) {body : β} (hannounce : missed → lossy body)
    (missed' : Prop) : Accounted lossy missed' (b.take body) := by
  have hall : (b.take body).delivered ++ (b.take body).pending = b.delivered ++ b.pending := by
    rw [Backlog.delivered_take]
    exact append_nil _
  refine ⟨by rw [hall]; exact h.sorted, by rw [hall]; exact h.below, ?_, ?_, ?_⟩
  · intro t ht hlossless j hj i hi
    rw [Backlog.delivered_take] at hi
    rcases mem_append.mp ht with ht | ht
    · -- what precedes an old number was delivered before
      have hj' : j ∈ b.delivered := mem_flatMap.mpr ⟨t, ht, hj⟩
      have hi' : i ∈ b.delivered := by
        rcases mem_append.mp hi.mem with hold | hnew
        · exact hold
        · exact absurd hi.lt (Nat.lt_asymm (h.delivered_lt_pending hj' hnew))
      exact h.batches t ht hlossless j hj i (hi.of_subset hi' (subset_append_left _ _))
    · obtain rfl := mem_singleton.mp ht
      exact h.pending (fun hmissed => hlossless (hannounce hmissed)) j hj i hi
  · intro _ j hj
    cases hj
  · intro i hi
    rw [hall] at hi
    exact h.next i hi

theorem reset (h : Accounted lossy missed b) (missed' : Prop) :
    Accounted lossy missed' b.reset := by
  have hall : b.reset.delivered ++ b.reset.pending = b.delivered := append_nil _
  have hsub : b.breaks ⊆ b.reset.breaks := subset_append_left _ _
  refine ⟨by rw [hall]; exact h.delivered_sorted, ?_, ?_, ?_, ?_⟩
  · rw [hall]
    exact fun k hk => h.below k (mem_append_left _ hk)
  · exact fun t ht hlossless j hj i hi => (h.batches t ht hlossless j hj i hi).mono hsub
  · intro _ j hj
    cases hj
  · intro i hi
    exact Or.inr ⟨b.count, mem_append_right _ (mem_singleton.mpr rfl), hi.lt, le_rfl⟩

/-- **An arrival keeps the invariant**, if it brings in everything, or is the first one, or gives up
continuity. -/
theorem arrive (h : Accounted lossy missed b) {n kept : ℕ} {broken : Bool} (hcap : 0 < cap)
    (hlen : b.pending.length ≤ cap) (hkept : kept ≤ n)
    (hall : kept = n ∨ b.delivered ++ b.pending = [] ∨ broken = true)
    (hmissed : ¬ missed' → ¬ missed ∧ broken = false ∧ b.pending.length + kept ≤ cap) :
    Accounted lossy missed' (b.arrive cap n kept broken) := by
  set start := b.count + n - kept with hstart
  have hle : b.count ≤ start := by omega
  have hfresh : ∀ k, k ∈ range' start kept ↔ start ≤ k ∧ k < start + kept := fun k => by
    rw [mem_range'_1]
  have hsub : (b.delivered ++ newest cap (b.pending ++ range' start kept)).Sublist
      (b.delivered ++ b.pending ++ range' start kept) := by
    rw [append_assoc]
    exact (newest_sublist _ _).append_left _
  have hbreaks : b.breaks ⊆ (b.arrive cap n kept broken).breaks := by
    rw [Backlog.arrive]
    split_ifs
    · exact subset_append_left _ _
    · exact Subset.refl _
  refine ⟨?_, ?_, ?_, ?_, ?_⟩
  · refine Pairwise.sublist hsub (pairwise_append.mpr ⟨h.sorted, ?_, ?_⟩)
    · exact pairwise_lt_range'
    · intro k hk m hm
      exact (h.below k hk).trans_le (hle.trans ((hfresh m).mp hm).1)
  · intro k hk
    show k < b.count + n
    rcases mem_append.mp (hsub.subset hk) with hold | hnew
    · have := h.below k hold
      omega
    · have := (hfresh k).mp hnew
      omega
  · exact fun t ht hlossless j hj i hi => (h.batches t ht hlossless j hj i hi).mono hbreaks
  · -- nothing is missed, so nothing gave way
    intro hnone j hj i hi
    obtain ⟨hnone, hunbroken, hfits⟩ := hmissed hnone
    have hpending : (b.arrive cap n kept broken).pending = b.pending ++ range' start kept :=
      newest_of_length_le (by rw [length_append, length_range']; exact hfits)
    rw [hpending] at hj
    rw [hpending] at hi
    have hi' : Precedes (b.delivered ++ b.pending ++ range' start kept) i j := by
      rw [append_assoc]
      exact hi
    have hold_of_lt : i < start → i ∈ b.delivered ++ b.pending := fun hlt => by
      rcases mem_append.mp hi'.mem with hold | hnew
      · exact hold
      · exact absurd hlt (Nat.not_lt.mpr ((hfresh i).mp hnew).1)
    rcases mem_append.mp hj with hj | hj
    · have hlt : j < b.count := h.below j (mem_append_right _ hj)
      have hi_old := hold_of_lt (by have := hi.lt; omega)
      exact (h.pending hnone j hj i (hi'.of_subset hi_old (subset_append_left _ _))).mono hbreaks
    · obtain ⟨hge, hlt⟩ := (hfresh j).mp hj
      by_cases hfirst : j = start
      · -- the first of the new numbers follows what was there
        have hi_old := hold_of_lt (by rw [← hfirst]; exact hi.lt)
        have hcount : start = b.count := by
          rcases hall with heq | hnil | hbroken
          · omega
          · rw [hnil] at hi_old
            cases hi_old
          · rw [hunbroken] at hbroken
            cases hbroken
        rw [hfirst, hcount] at hi' ⊢
        exact (h.next i (hi'.of_subset hi_old (subset_append_left _ _))).mono hbreaks
      · -- the others follow each other
        left
        by_contra hgap
        exact hi'.between (j - 1) (mem_append_right _ ((hfresh _).mpr (by omega))) (by omega)
  · intro i hi
    have hcount : (b.arrive cap n kept broken).count = b.count + n := rfl
    rw [hcount] at hi ⊢
    cases kept with
    | zero =>
      have hpending : (b.arrive cap n 0 broken).pending = b.pending := by
        rw [Backlog.arrive_pending, range'_zero, append_nil, newest_of_length_le hlen]
      rw [hpending] at hi
      rcases hall with heq | hnil | hbroken
      · subst heq
        exact (h.next i hi).mono hbreaks
      · have hmem : i ∈ b.delivered ++ b.pending := hi.mem
        rw [hnil] at hmem
        cases hmem
      · refine Or.inr ⟨b.count + n, ?_, hi.lt, le_rfl⟩
        rw [Backlog.arrive, hbroken]
        simp
    | succ m =>
      -- the newest number is never the one that gives way
      left
      have hlast : start + m ∈ (b.arrive cap n (m + 1) broken).pending := by
        rw [Backlog.arrive_pending, ← hstart, range'_1_concat, ← append_assoc]
        exact mem_newest_concat hcap _ _
      by_contra hgap
      exact hi.between (start + m) (mem_append_right _ hlast) (by omega)

end Accounted

end Backlogs
