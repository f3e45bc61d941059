import Bud.Service.OutputTable

/-!
# The most recent stored output

`output-store.ts`, `tailOutput`: pages of chunks from the end backwards, until the byte budget is
covered or there are no more, and then the bytes that are too many off the front.

What has been collected is always the end of the table (`Collected`), and without its oldest chunk
it would not cover the budget; so what is trimmed is part of that chunk.
-/

namespace Bud.OutputStore

open Located List StoredOutputChunk

structure OutputTailReadResult where
  data : List UInt8
  startOffset : ℕ
  endOffset : ℕ
  totalBytesStored : ℕ

/-- The loop variables of `tailOutput`; `collected` as it is after `reverse()`. -/
structure Tail where
  collected : List StoredOutputChunk
  collectedBytes : ℕ
  beforeOffset : Option ℕ

/-- The rows of a page, up to the one that covers the budget. -/
def pushTail (budget : ℕ) : Tail → List StoredOutputChunk → Tail
  | s, [] => s
  | s, row :: rows =>
    let s : Tail :=
      { collected := row :: s.collected
        collectedBytes := s.collectedBytes + row.data.length
        beforeOffset := some row.byteOffset }
    if budget ≤ s.collectedBytes then s else pushTail budget s rows

/-- A page leaves `beforeOffset` at one of its rows. -/
theorem beforeOffset_pushTail (budget : ℕ) (s : Tail) (h : rows ≠ []) :
    ∃ row ∈ rows, (pushTail budget s rows).beforeOffset = some row.byteOffset := by
  induction rows generalizing s with
  | nil => exact absurd rfl h
  | cons row rows ih =>
    rw [pushTail]
    dsimp only
    split
    · exact ⟨row, mem_cons_self, rfl⟩
    · cases rows with
      | nil => exact ⟨row, mem_cons_self, rfl⟩
      | cons row' rows =>
        obtain ⟨last, hmem, hlast⟩ := ih _ (cons_ne_nil row' rows)
        exact ⟨last, mem_cons_of_mem row hmem, hlast⟩

/-- The rows that a page has not gone past. -/
def Table.before (t : Table) (beforeOffset : Option ℕ) : List StoredOutputChunk :=
  t.rows.filter fun c => ∀ before ∈ beforeOffset, c.byteOffset < before

theorem length_before_pushTail_lt {t : Table} (budget : ℕ) {s : Tail}
    (h : t.listTailChunks s.beforeOffset readBatchRows ≠ []) :
    (t.before (pushTail budget s
        (t.listTailChunks s.beforeOffset readBatchRows)).beforeOffset).length <
      (t.before s.beforeOffset).length := by
  obtain ⟨row, hrow, hbefore⟩ := beforeOffset_pushTail budget s h
  have hmem : row ∈ t.before s.beforeOffset := mem_reverse.mp (mem_of_mem_take hrow)
  have hle := of_decide_eq_true (mem_filter.mp hmem).2
  have hsub : t.before (some row.byteOffset) =
      (t.before s.beforeOffset).filter fun c => c.byteOffset < row.byteOffset := by
    rw [Table.before, Table.before, filter_filter]
    refine filter_congr fun c _ => ?_
    rw [Bool.eq_iff_iff]
    simp only [Option.mem_some_iff, Bool.and_eq_true, decide_eq_true_eq, forall_eq']
    exact ⟨fun hlt => ⟨hlt, fun b hb => Nat.lt_trans hlt (hle b hb)⟩, fun hc => hc.1⟩
  rw [hbefore, hsub]
  exact length_filter_lt_length_iff_exists.mpr ⟨row, hmem, by simp⟩

/-- The pages, from the end backwards. -/
def collect (t : Table) (readBatchRows budget : ℕ) (s : Tail) : Tail :=
  if s.collectedBytes < budget then
    let rows := t.listTailChunks s.beforeOffset readBatchRows
    if _h : rows = [] then s
    else
      let s := pushTail budget s rows
      if rows.length < readBatchRows then s else collect t readBatchRows budget s
  else s
  termination_by (t.before s.beforeOffset).length
  decreasing_by exact length_before_pushTail_lt budget _h

def tailOutput (t : Table) (readBatchRows : ℕ) (maxBytes : ℤ) : OutputTailReadResult :=
  let budget := maxBytes.toNat
  let collected := (collect t readBatchRows budget
    { collected := [], collectedBytes := 0, beforeOffset := none }).collected
  let combined := collected.flatMap fun c => c.data
  let startOffset := (collected.head?.map fun c => c.byteOffset).getD 0
  let endOffset := (collected.getLast?.map fun c => c.endOffset).getD 0
  let trim := combined.length - budget
  { data := if budget < combined.length then combined.drop trim else combined
    startOffset := if budget < combined.length then startOffset + trim else startOffset
    endOffset := endOffset
    totalBytesStored := t.getStoredOutputBytes }

/-! ### What has been collected -/

/-- The end of the table has been collected, and no chunk more than the budget asks for. -/
structure Collected (t : Table) (budget : ℕ) (rest : List StoredOutputChunk) (s : Tail) :
    Prop where
  rows : t.rows = rest ++ s.collected
  bytes : s.collectedBytes = dataLength s.collected
  before : s.beforeOffset = s.collected.head?.map fun c => c.byteOffset
  minimal : ∀ c cs, s.collected = c :: cs → dataLength cs < budget

theorem collected_nil (t : Table) (budget : ℕ) :
    Collected t budget t.rows { collected := [], collectedBytes := 0, beforeOffset := none } where
  rows := (append_nil _).symm
  bytes := rfl
  before := rfl
  minimal := by
    intro c cs h
    cases h

variable {t : Table} {budget : ℕ} {s : Tail}

variable {rest : List StoredOutputChunk}

/-- What a page can bring. -/
theorem Collected.before_eq (h : Collected t budget rest s) : t.before s.beforeOffset = rest := by
  have hsorted := t.sorted
  rw [Table.before, h.before, h.rows] at *
  cases hs : s.collected with
  | nil => simp
  | cons c cs =>
    rw [hs] at hsorted
    obtain ⟨-, hcs, hrest⟩ := pairwise_append.mp hsorted
    rw [filter_append, filter_eq_self.mpr, filter_eq_nil_iff.mpr, append_nil]
    · intro d hd
      rcases mem_cons.mp hd with rfl | hd
      · simp
      · have := (pairwise_cons.mp hcs).1 d hd
        simp
        omega
    · intro d hd
      simpa using hrest d hd c mem_cons_self

/-- **A page** is collected from its first row on, until the budget is covered. -/
theorem Collected.pushTail {rows : List StoredOutputChunk}
    (h : Collected t budget (rest ++ rows.reverse) s) (hopen : s.collectedBytes < budget) :
    ∃ rest', Collected t budget rest' (OutputStore.pushTail budget s rows) ∧
      (budget ≤ (OutputStore.pushTail budget s rows).collectedBytes ∨ rest' = rest) := by
  induction rows generalizing s with
  | nil => exact ⟨rest, by simpa [OutputStore.pushTail] using h, Or.inr rfl⟩
  | cons row rows ih =>
    rw [OutputStore.pushTail]
    have hpushed : Collected t budget (rest ++ rows.reverse)
        { collected := row :: s.collected
          collectedBytes := s.collectedBytes + row.data.length
          beforeOffset := some row.byteOffset } :=
      { rows := by
          rw [h.rows]
          simp
        bytes := by
          rw [h.bytes, dataLength_cons, Nat.add_comm]
        before := rfl
        minimal := by
          intro c cs hcs
          obtain ⟨-, rfl⟩ := cons.inj hcs
          rw [← h.bytes]
          exact hopen }
    dsimp only
    split
    · next hfull => exact ⟨rest ++ rows.reverse, hpushed, Or.inl hfull⟩
    · next hroom => exact ih hpushed (Nat.lt_of_not_le hroom)

/-- **The loop** stops with the budget covered or the whole table collected. -/
theorem collect_spec {readBatchRows : ℕ} (hbatch : 0 < readBatchRows)
    (h : Collected t budget rest s) :
    ∃ rest', Collected t budget rest' (collect t readBatchRows budget s) ∧
      (budget ≤ (collect t readBatchRows budget s).collectedBytes ∨ rest' = []) := by
  induction hn : (t.before s.beforeOffset).length using Nat.strongRecOn generalizing rest s with
  | ind n ih =>
    rw [collect]
    split
    · next hopen =>
      have hpage : t.listTailChunks s.beforeOffset readBatchRows =
          rest.reverse.take readBatchRows := by
        rw [← h.before_eq]
        rfl
      dsimp only
      split
      · next hnil =>
        rw [hpage, take_eq_nil_iff, reverse_eq_nil_iff] at hnil
        exact ⟨rest, h, Or.inr (hnil.resolve_left (Nat.ne_of_gt hbatch))⟩
      · next hne =>
        have hlt := length_before_pushTail_lt budget hne
        rw [hpage] at hlt ⊢
        have hsplit : rest = (rest.reverse.drop readBatchRows).reverse ++
            (rest.reverse.take readBatchRows).reverse := by
          rw [← reverse_append, take_append_drop, reverse_reverse]
        rw [hsplit] at h
        obtain ⟨rest', hpushed, hstop⟩ := h.pushTail hopen
        split
        · next hshort =>
          refine ⟨rest', hpushed, hstop.imp_right fun hrest => ?_⟩
          rw [length_take] at hshort
          rw [hrest, drop_eq_nil_of_le (by omega), reverse_nil]
        · exact ih _ (hn ▸ hlt) hpushed rfl
    · next hfull => exact ⟨rest, h, Or.inl (Nat.le_of_not_lt hfull)⟩

/-! ### The result -/

theorem map_snd_flatMap_bytes (cs : List StoredOutputChunk) :
    (cs.flatMap bytes).map Prod.snd = cs.flatMap fun c => c.data := by
  rw [map_flatMap]
  exact flatMap_congr fun c _ => map_snd_located c.byteOffset c.data

theorem length_flatMap_bytes (cs : List StoredOutputChunk) :
    (cs.flatMap bytes).length = dataLength cs := by
  rw [length_flatMap, dataLength]
  congr 1
  exact map_congr_left fun c _ => length_located c.byteOffset c.data

theorem length_flatMap_data (cs : List StoredOutputChunk) :
    (cs.flatMap fun c => c.data).length = dataLength cs :=
  length_flatMap

theorem head?_drop_bytes (h : trim < c.data.length) :
    (((c :: cs).flatMap bytes).drop trim).head?.map Prod.fst =
      some (c.byteOffset + trim) := by
  have hlen : trim ≤ c.bytes.length := by
    rw [bytes, length_located]
    omega
  have hne : c.data.drop trim ≠ [] := by
    intro hnil
    have := congrArg length hnil
    rw [length_drop, length_nil] at this
    omega
  rw [flatMap_cons, drop_append_of_le_length hlen, bytes,
    located_drop, head?_append_of_ne_nil _ (by simpa using hne), head?_located hne]

theorem drop_storedBytes (h : Collected t budget rest s)
    (hstop : budget ≤ s.collectedBytes ∨ rest = []) :
    t.storedBytes.drop (t.storedBytes.length - min budget t.storedBytes.length) =
      (s.collected.flatMap bytes).drop (dataLength s.collected - budget) := by
  have hbytes : t.storedBytes = rest.flatMap bytes ++
      s.collected.flatMap bytes := by
    rw [Table.storedBytes, h.rows, flatMap_append]
  have hskip : (rest.flatMap bytes ++
      s.collected.flatMap bytes).length - min budget
        (rest.flatMap bytes ++
          s.collected.flatMap bytes).length =
      (rest.flatMap bytes).length + (dataLength s.collected - budget) := by
    rw [length_append, length_flatMap_bytes, length_flatMap_bytes]
    rcases hstop with hfull | rfl
    · rw [h.bytes] at hfull
      omega
    · rw [dataLength, map_nil, sum_nil]
      omega
  rw [hbytes, hskip, drop_length_add_append]

/-- **`tailOutput` is correct.** The stored bytes are in the order of their offsets; the result is
the last of them, as many as the budget allows; and its start is the offset of the first. -/
theorem tailOutput_correct (hdisjoint : t.DisjointRanges) {readBatchRows : ℕ}
    (hbatch : 0 < readBatchRows) (maxBytes : ℤ) :
    (t.storedBytes.Pairwise fun p q => p.1 < q.1) ∧
    (tailOutput t readBatchRows maxBytes).data =
      (t.storedBytes.drop (t.storedBytes.length - min maxBytes.toNat
        t.storedBytes.length)).map Prod.snd ∧
    ∀ p, (t.storedBytes.drop (t.storedBytes.length - min maxBytes.toNat
        t.storedBytes.length)).head? = some p →
      (tailOutput t readBatchRows maxBytes).startOffset = p.1 := by
  obtain ⟨rest, hcollected, hstop⟩ := collect_spec hbatch (collected_nil t maxBytes.toNat)
  have hdrop := drop_storedBytes hcollected hstop
  have hminimal := hcollected.minimal
  have hnonempty : ∀ c ∈ (collect t readBatchRows maxBytes.toNat
      { collected := [], collectedBytes := 0, beforeOffset := none }).collected,
      0 < c.data.length :=
    fun c hc => Table.length_pos (hcollected.rows ▸ mem_append_right rest hc)
  refine ⟨Table.storedBytes_pairwise hdisjoint, ?_, fun p hp => ?_⟩
  · rw [hdrop, map_drop, map_snd_flatMap_bytes, tailOutput]
    dsimp only
    rw [length_flatMap_data]
    split
    · rfl
    · next hfits => rw [Nat.sub_eq_zero_of_le (Nat.le_of_not_lt hfits), drop_zero]
  · rw [hdrop] at hp
    rw [tailOutput]
    dsimp only
    rw [length_flatMap_data]
    generalize (collect t readBatchRows maxBytes.toNat
      { collected := [], collectedBytes := 0, beforeOffset := none }).collected = collected
      at hp hminimal hnonempty ⊢
    cases collected with
    | nil => simp at hp
    | cons c cs =>
      have hpos := hminimal c cs rfl
      have hlen := dataLength_cons c cs
      have hc := hnonempty c mem_cons_self
      have hhead : (((c :: cs).flatMap bytes).drop
          (dataLength (c :: cs) - maxBytes.toNat)).head?.map Prod.fst =
          some (c.byteOffset + (dataLength (c :: cs) - maxBytes.toNat)) :=
        head?_drop_bytes (by omega)
      rw [hp] at hhead
      have hoffset : p.1 = c.byteOffset + (dataLength (c :: cs) - maxBytes.toNat) :=
        Option.some.inj hhead
      rw [hoffset]
      split
      · rfl
      · next hfits => rw [Nat.sub_eq_zero_of_le (Nat.le_of_not_lt hfits)]; rfl

theorem tailOutput_correct_gapTable :
    (tailOutput gapTable 1 3).data = [3, 4, 5] ∧ (tailOutput gapTable 1 3).startOffset = 2 := by
  obtain ⟨-, hdata, hstart⟩ := tailOutput_correct disjointRanges_gapTable (by decide : 0 < 1) 3
  exact ⟨hdata, hstart (2, 3) rfl⟩

end Bud.OutputStore
