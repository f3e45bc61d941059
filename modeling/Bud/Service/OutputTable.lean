import Bud.Lib.Located
import Mathlib.Algebra.GroupWithZero.Nat
import Mathlib.Data.Fintype.Basic

/-!
# The table of stored output

`output-store.ts`, `DrizzleTerminalOutputPersistence`: the rows of one session in
`terminal_session_output`, keyed by the stream offset of their first byte, and the queries on them.
A table is kept in the order of its key, which is the order every query asks for or its reverse.
-/

namespace Bud.OutputStore

open Located List

structure StoredOutputChunk where
  byteOffset : ℕ
  data : List UInt8
  deriving DecidableEq

def StoredOutputChunk.endOffset (c : StoredOutputChunk) : ℕ := c.byteOffset + c.data.length

def StoredOutputChunk.bytes (c : StoredOutputChunk) : List (ℕ × UInt8) :=
  located c.byteOffset c.data

def dataLength (cs : List StoredOutputChunk) : ℕ := (cs.map fun c => c.data.length).sum

/-- The rows of a session. The key is unique, and the ingest stores no empty chunk. -/
structure Table where
  rows : List StoredOutputChunk
  sorted : rows.Pairwise fun a b => a.byteOffset < b.byteOffset
  nonempty : ∀ c ∈ rows, c.data ≠ []

namespace Table

variable (t : Table)

def storedBytes : List (ℕ × UInt8) := t.rows.flatMap StoredOutputChunk.bytes

/-- No two chunks hold a byte of the same offset. -/
def DisjointRanges : Prop :=
  t.rows.Pairwise fun a b => ∀ n, ¬ ((a.byteOffset ≤ n ∧ n < a.endOffset) ∧
    (b.byteOffset ≤ n ∧ n < b.endOffset))

/-! ### The queries -/

/-- `sum(octet_length(data))` -/
def getStoredOutputBytes : ℕ := dataLength t.rows

/-- Greatest chunk with `byteOffset ≤ offset`. -/
def findCoveringChunk (offset : ℕ) : Option StoredOutputChunk :=
  (t.rows.filter fun c => c.byteOffset ≤ offset).getLast?

/-- Chunks with `byteOffset ≥ fromOffset` (and `< beforeOffset` when given), ascending. -/
def listChunksFrom (fromOffset limit : ℕ) (beforeOffset : Option ℕ) : List StoredOutputChunk :=
  (t.rows.filter fun c =>
    fromOffset ≤ c.byteOffset ∧ ∀ before ∈ beforeOffset, c.byteOffset < before).take limit

/-- Chunks with `byteOffset < beforeOffset` (all when `none`), descending. -/
def listTailChunks (beforeOffset : Option ℕ) (limit : ℕ) : List StoredOutputChunk :=
  (t.rows.filter fun c => ∀ before ∈ beforeOffset, c.byteOffset < before).reverse.take limit

/-! ### Order -/

variable {t}

theorem length_pos (hc : c ∈ t.rows) : 0 < c.data.length :=
  length_pos_of_ne_nil (t.nonempty c hc)

theorem DisjointRanges.pairwise_le (h : t.DisjointRanges) :
    t.rows.Pairwise fun a b => a.endOffset ≤ b.byteOffset := by
  have hboth := Pairwise.and h t.sorted
  refine hboth.imp_of_mem fun {a b} _ hb hab => ?_
  by_contra hlt
  have hpos := length_pos hb
  refine hab.1 b.byteOffset ⟨⟨Nat.le_of_lt hab.2, Nat.lt_of_not_le hlt⟩, Nat.le_refl _, ?_⟩
  show b.byteOffset < b.byteOffset + b.data.length
  omega

theorem mem_bytes {c : StoredOutputChunk} (h : p ∈ c.bytes) :
    c.byteOffset ≤ p.1 ∧ p.1 < c.endOffset :=
  mem_located h

/-- **The stored bytes are in the order of their offsets.** -/
theorem storedBytes_pairwise (h : t.DisjointRanges) :
    t.storedBytes.Pairwise fun p q => p.1 < q.1 := by
  rw [storedBytes, pairwise_flatMap]
  refine ⟨fun c _ => pairwise_located _ _, h.pairwise_le.imp fun {a b} hab p hp q hq => ?_⟩
  have hp := (mem_bytes hp).2
  have hq := (mem_bytes hq).1
  omega

theorem DisjointRanges.filter (h : t.DisjointRanges) (p : StoredOutputChunk → Bool) :
    (t.rows.filter p).Pairwise fun a b => a.endOffset ≤ b.byteOffset :=
  h.pairwise_le.filter p

end Table

theorem flatMap_filter_of_nil {α β : Type*} {f : α → List β} {p : α → Bool} {l : List α}
    (h : ∀ a ∈ l, p a = false → f a = []) : (l.filter p).flatMap f = l.flatMap f := by
  induction l with
  | nil => rfl
  | cons a l ih =>
    have hl := ih fun b hb => h b (mem_cons_of_mem a hb)
    rw [filter_cons, flatMap_cons]
    split
    · rw [flatMap_cons, hl]
    · next hp =>
      rw [h a mem_cons_self (Bool.eq_false_iff.mpr hp), nil_append, hl]

@[simp] theorem dataLength_append (as bs : List StoredOutputChunk) :
    dataLength (as ++ bs) = dataLength as + dataLength bs := by
  rw [dataLength, map_append, sum_append]
  rfl

@[simp] theorem dataLength_cons (c : StoredOutputChunk) (cs : List StoredOutputChunk) :
    dataLength (c :: cs) = c.data.length + dataLength cs := by
  rw [dataLength, map_cons, sum_cons]
  rfl

theorem dataLength_filter (p : StoredOutputChunk → Bool) (cs : List StoredOutputChunk) :
    dataLength (cs.filter p) + dataLength (cs.filter fun c => !p c) = dataLength cs := by
  induction cs with
  | nil => rfl
  | cons c cs ih =>
    rw [filter_cons, filter_cons, dataLength_cons, ← ih]
    cases p c
    · simp
      omega
    · simp
      omega

/-- **The next page.** Behind the last row of a page come exactly the rows that the page left. -/
theorem filter_after_batch {bs : List StoredOutputChunk}
    (hsorted : (as ++ bs).Pairwise fun a b => a.byteOffset < b.byteOffset)
    (hends : (as ++ bs).Pairwise fun a b => a.endOffset ≤ b.byteOffset)
    (hlast : as.getLast? = some last) :
    (as ++ bs).filter (fun c => last.byteOffset + max last.data.length 1 ≤ c.byteOffset) = bs := by
  obtain ⟨init, rfl⟩ := getLast?_eq_some_iff.mp hlast
  rw [append_assoc, singleton_append] at hsorted hends ⊢
  obtain ⟨-, hlt, hinit⟩ := pairwise_append.mp hsorted
  have hrest := (pairwise_cons.mp hlt).1
  have hend := (pairwise_cons.mp (pairwise_append.mp hends).2.1).1
  rw [filter_append, filter_cons_of_neg (by rw [decide_eq_true_eq]; omega), filter_eq_nil_iff.mpr,
    nil_append, filter_eq_self]
  · intro c hc
    have hlt := hrest c hc
    have hle := hend c hc
    rw [StoredOutputChunk.endOffset] at hle
    simp
    omega
  · intro c hc
    have := hinit c hc last mem_cons_self
    simp
    omega

def gapTable : Table :=
  { rows := [{ byteOffset := 0, data := [1, 2, 3] }, { byteOffset := 5, data := [4, 5] }]
    sorted := by decide
    nonempty := by decide }

theorem disjointRanges_gapTable : gapTable.DisjointRanges := by
  refine pairwise_pair.mpr fun n h => ?_
  have hend : n < 3 := h.1.2
  have hstart : 5 ≤ n := h.2.1
  omega

end Bud.OutputStore
