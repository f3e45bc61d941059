import Bud.Service.OutputTable

/-!
# Reading a range of stored output

`output-store.ts`, `readRange`: the chunk that contains the start, then pages of chunks behind it,
each cut to the range and to what is left of the byte budget.

A `Reading` that has been offered the bytes `ps` of the range is `Reading.of start maxBytes ps`:
the first `maxBytes` of them, and whether there were more. Offering a chunk appends its bytes of
the range to `ps` (`pushSlice_of`), once there were more than fit nothing changes any more
(`of_append`), and the pages bring the rows of the table one after the other (`scan_of`). So the
result is `Reading.of` of all stored bytes of the range.
-/

namespace Bud.OutputStore

open Located List StoredOutputChunk

/-- What `readRange` has collected so far. -/
structure Reading where
  /-- `Buffer.concat(buffers)` -/
  data : List UInt8
  firstByteOffset : Option ℕ
  consumedEnd : ℕ
  remaining : ℕ
  truncated : Bool

structure OutputRangeReadResult where
  data : List UInt8
  startOffset : ℕ
  endOffset : ℕ
  truncated : Bool
  nextOffset : Option ℕ

variable (startOffset : ℕ) (rangeEnd : Option ℕ)

/-- The bytes of a chunk from the start of the range on, with the offset of the first. -/
def trimStart (chunk : StoredOutputChunk) : ℕ × List UInt8 :=
  if chunk.byteOffset < startOffset then
    (startOffset, chunk.data.drop (startOffset - chunk.byteOffset))
  else (chunk.byteOffset, chunk.data)

def trimEnd (slice : ℕ × List UInt8) : ℕ × List UInt8 :=
  match rangeEnd with
  | some e => if e < slice.1 + slice.2.length then (slice.1, slice.2.take (e - slice.1)) else slice
  | none => slice

/-- What is left of the budget is filled; the reading, and whether to go on. -/
def pushBytes (r : Reading) (sliceStart : ℕ) (slice : List UInt8) : Reading × Bool :=
  if slice.length = 0 then (r, true)
  else if r.remaining ≤ 0 then ({ r with truncated := true }, false)
  else
    let truncated := r.truncated || decide (r.remaining < slice.length)
    let slice := if r.remaining < slice.length then slice.take r.remaining else slice
    ({ data := r.data ++ slice
       firstByteOffset := r.firstByteOffset.or (some sliceStart)
       consumedEnd := sliceStart + slice.length
       remaining := r.remaining - slice.length
       truncated := truncated },
      !truncated)

def pushSlice (r : Reading) (chunk : StoredOutputChunk) : Reading × Bool :=
  let slice := trimEnd rangeEnd (trimStart startOffset chunk)
  pushBytes r slice.1 slice.2

/-- The rows of a page, up to the first that stops the read. -/
def pushRows : Reading → List StoredOutputChunk → Reading
  | r, [] => r
  | r, row :: rows =>
    let pushed := pushSlice startOffset rangeEnd r row
    if pushed.2 then pushRows pushed.1 rows else pushed.1

/-- Where the next page begins. -/
def afterLast (last : StoredOutputChunk) : ℕ := last.byteOffset + max last.data.length 1

variable {t : Table} {readBatchRows : ℕ}

variable {last c : StoredOutputChunk} {scanFrom sliceStart : ℕ} {slice : List UInt8}
  {endOffset : Option ℤ}

theorem filter_afterLast_lt (h : (t.listChunksFrom scanFrom limit rangeEnd).getLast? = some last) :
    (t.rows.filter fun c => afterLast last ≤ c.byteOffset).length <
      (t.rows.filter fun c => scanFrom ≤ c.byteOffset).length := by
  have hmem := mem_filter.mp (mem_of_mem_take (mem_of_getLast? h))
  have hfrom : scanFrom ≤ last.byteOffset := (of_decide_eq_true hmem.2).1
  have hlt : last.byteOffset < afterLast last := by
    rw [afterLast]
    omega
  have hsub : (t.rows.filter fun c => afterLast last ≤ c.byteOffset) =
      (t.rows.filter fun c => scanFrom ≤ c.byteOffset).filter
        fun c => afterLast last ≤ c.byteOffset := by
    rw [filter_filter]
    refine filter_congr fun c _ => ?_
    simp
    omega
  rw [hsub]
  refine length_filter_lt_length_iff_exists.mpr ⟨last, mem_filter.mpr ⟨hmem.1, ?_⟩, ?_⟩
  · simpa using hfrom
  · simpa using hlt

/-- The pages behind `scanFrom`. -/
def scan (t : Table) (readBatchRows scanFrom : ℕ) (r : Reading) : Reading :=
  if r.truncated = true ∨ ¬ ∀ e ∈ rangeEnd, scanFrom < e then r
  else
    match _h : (t.listChunksFrom scanFrom readBatchRows rangeEnd).getLast? with
    | none => r
    | some last =>
      let rows := t.listChunksFrom scanFrom readBatchRows rangeEnd
      let r := pushRows startOffset rangeEnd r rows
      if rows.length < readBatchRows then r
      else scan t readBatchRows (afterLast last) r
  termination_by (t.rows.filter fun c => scanFrom ≤ c.byteOffset).length
  decreasing_by exact filter_afterLast_lt rangeEnd _h

/-- The chunk that contains the start, and the pages behind it. -/
def readChunks (t : Table) (readBatchRows maxBytes : ℕ) : Reading :=
  let r : Reading :=
    { data := []
      firstByteOffset := none
      consumedEnd := startOffset
      remaining := maxBytes
      truncated := false }
  match t.findCoveringChunk startOffset with
  | some covering =>
    if startOffset < covering.endOffset then
      scan startOffset rangeEnd t readBatchRows covering.endOffset
        (pushSlice startOffset rangeEnd r covering).1
    else scan startOffset rangeEnd t readBatchRows startOffset r
  | none => scan startOffset rangeEnd t readBatchRows startOffset r

/-- The offsets are integers, so that `Math.floor` has nothing to do. -/
def readRange (t : Table) (readBatchRows : ℕ) (startOffset : ℤ) (endOffset : Option ℤ)
    (maxBytes : ℤ) : OutputRangeReadResult :=
  let start := startOffset.toNat
  let rangeEnd := endOffset.map fun e => max start e.toNat
  let r := readChunks start rangeEnd t readBatchRows maxBytes.toNat
  { data := r.data
    startOffset := r.firstByteOffset.getD start
    endOffset := r.consumedEnd
    truncated := r.truncated
    nextOffset := if r.truncated then some r.consumedEnd else none }

/-! ### The bytes of the range -/

def InRange (n : ℕ) : Prop := startOffset ≤ n ∧ ∀ e ∈ rangeEnd, n < e

instance (n : ℕ) : Decidable (InRange startOffset rangeEnd n) :=
  inferInstanceAs (Decidable (_ ∧ _))

/-- The bytes of the range among some. -/
def within (ps : List (ℕ × UInt8)) : List (ℕ × UInt8) :=
  ps.filter fun p => InRange startOffset rangeEnd p.1

variable {startOffset rangeEnd}

theorem located_trimStart (chunk : StoredOutputChunk) :
    located (trimStart startOffset chunk).1 (trimStart startOffset chunk).2 =
      chunk.bytes.filter fun p => startOffset ≤ p.1 := by
  rw [bytes, filter_le_located, trimStart]
  split
  · next h => rw [Nat.max_eq_right (Nat.le_of_lt h)]
  · next h =>
    rw [Nat.max_eq_left (Nat.le_of_not_lt h), Nat.sub_eq_zero_of_le (Nat.le_of_not_lt h), drop_zero]

theorem located_trimEnd (slice : ℕ × List UInt8) :
    located (trimEnd rangeEnd slice).1 (trimEnd rangeEnd slice).2 =
      (located slice.1 slice.2).filter fun p => ∀ e ∈ rangeEnd, p.1 < e := by
  cases rangeEnd with
  | none => simp [trimEnd]
  | some e =>
    have hfilter : ((located slice.1 slice.2).filter fun p => ∀ e' ∈ some e, p.1 < e') =
        (located slice.1 slice.2).filter fun p => p.1 < e := by
      simp
    rw [hfilter, filter_lt_located, trimEnd]
    split
    · rfl
    · next h => rw [take_of_length_le (by omega)]

/-- **A slice is the part of the chunk in the range.** -/
theorem located_slice (chunk : StoredOutputChunk) :
    located (trimEnd rangeEnd (trimStart startOffset chunk)).1
        (trimEnd rangeEnd (trimStart startOffset chunk)).2 =
      within startOffset rangeEnd chunk.bytes := by
  rw [located_trimEnd, located_trimStart, filter_filter, within]
  refine filter_congr fun p _ => ?_
  rw [Bool.eq_iff_iff]
  simp [InRange, and_comm]

/-! ### A reading that was offered some bytes -/

/-- The reading that keeps the first `maxBytes` of the bytes it was offered. -/
def Reading.of (startOffset maxBytes : ℕ) (ps : List (ℕ × UInt8)) : Reading :=
  { data := (ps.take maxBytes).map Prod.snd
    firstByteOffset := (ps.take maxBytes).head?.map Prod.fst
    consumedEnd := ((ps.take maxBytes).getLast?.map fun p => p.1 + 1).getD startOffset
    remaining := maxBytes - ps.length
    truncated := decide (maxBytes < ps.length) }

variable {maxBytes : ℕ} {ps : List (ℕ × UInt8)}

theorem of_nil :
    Reading.of startOffset maxBytes [] =
      { data := []
        firstByteOffset := none
        consumedEnd := startOffset
        remaining := maxBytes
        truncated := false } := by
  simp [Reading.of]

theorem of_append (qs : List (ℕ × UInt8)) (h : maxBytes < ps.length) :
    Reading.of startOffset maxBytes (ps ++ qs) = Reading.of startOffset maxBytes ps := by
  have htake : (ps ++ qs).take maxBytes = ps.take maxBytes :=
    take_append_of_le_length (Nat.le_of_lt h)
  have hlen : maxBytes < (ps ++ qs).length := by
    rw [length_append]
    omega
  rw [Reading.of, Reading.of, htake, decide_eq_true h, decide_eq_true hlen,
    Nat.sub_eq_zero_of_le (Nat.le_of_lt h), Nat.sub_eq_zero_of_le (Nat.le_of_lt hlen)]

theorem of_append_full (hqs : qs ≠ []) (h : ps.length = maxBytes) :
    Reading.of startOffset maxBytes (ps ++ qs) =
      { Reading.of startOffset maxBytes ps with truncated := true } := by
  have hpos := length_pos_of_ne_nil hqs
  have htake : (ps ++ qs).take maxBytes = ps.take maxBytes :=
    take_append_of_le_length (Nat.le_of_eq h.symm)
  have hlen : maxBytes < (ps ++ qs).length := by
    rw [length_append]
    omega
  rw [Reading.of, Reading.of, htake, decide_eq_true hlen,
    Nat.sub_eq_zero_of_le (Nat.le_of_lt hlen), Nat.sub_eq_zero_of_le (Nat.le_of_eq h.symm)]

theorem of_append_located (hslice : slice ≠ []) (h : ps.length < maxBytes) :
    Reading.of startOffset maxBytes (ps ++ located sliceStart slice) =
      { data := (Reading.of startOffset maxBytes ps).data ++ slice.take (maxBytes - ps.length)
        firstByteOffset :=
          (Reading.of startOffset maxBytes ps).firstByteOffset.or (some sliceStart)
        consumedEnd := sliceStart + (slice.take (maxBytes - ps.length)).length
        remaining := maxBytes - ps.length - (slice.take (maxBytes - ps.length)).length
        truncated := decide (maxBytes - ps.length < slice.length) } := by
  have hkept : slice.take (maxBytes - ps.length) ≠ [] := by
    intro hnil
    have := length_pos_of_ne_nil hslice
    have := congrArg length hnil
    rw [length_take, length_nil] at this
    omega
  have htake : (ps ++ located sliceStart slice).take maxBytes =
      ps ++ located sliceStart (slice.take (maxBytes - ps.length)) := by
    rw [take_append, take_of_length_le (Nat.le_of_lt h), located_take]
  have hall : ps.take maxBytes = ps := take_of_length_le (Nat.le_of_lt h)
  have hlast : (ps ++ located sliceStart (slice.take (maxBytes - ps.length))).getLast? =
      (located sliceStart (slice.take (maxBytes - ps.length))).getLast? :=
    getLast?_append_of_ne_nil _ (by simpa using hkept)
  rw [Reading.of, Reading.of, htake, hall, hlast, getLast?_located hkept, map_append,
    map_snd_located, length_append, length_located, length_take]
  congr 1
  · cases ps with
    | nil => exact head?_located hkept
    | cons q qs => rfl
  · omega
  · rw [decide_eq_decide]
    omega

theorem pushBytes_of (h : ps.length ≤ maxBytes) :
    pushBytes (Reading.of startOffset maxBytes ps) sliceStart slice =
      (Reading.of startOffset maxBytes (ps ++ located sliceStart slice),
        !decide (maxBytes < (ps ++ located sliceStart slice).length)) := by
  have hopen : (Reading.of startOffset maxBytes ps).truncated = false :=
    decide_eq_false (Nat.not_lt_of_le h)
  rw [pushBytes, length_append, length_located]
  split
  · next hslice =>
    obtain rfl := length_eq_zero_iff.mp hslice
    rw [located_nil, append_nil, length_nil, Nat.add_zero, decide_eq_false (Nat.not_lt_of_le h)]
    rfl
  · next hslice =>
    have hne : slice ≠ [] := fun hnil => hslice (by rw [hnil, length_nil])
    split
    · next hfull =>
      have hlen : ps.length = maxBytes := by
        change maxBytes - ps.length ≤ 0 at hfull
        omega
      rw [of_append_full (by simpa using hne) hlen, decide_eq_true (by omega)]
      rfl
    · next hroom =>
      have hlen : ps.length < maxBytes := by
        change ¬ maxBytes - ps.length ≤ 0 at hroom
        omega
      have hcut : (if maxBytes - ps.length < slice.length then
          slice.take (maxBytes - ps.length) else slice) = slice.take (maxBytes - ps.length) := by
        split
        · rfl
        · next hfits => rw [take_of_length_le (Nat.le_of_not_lt hfits)]
      rw [of_append_located hne hlen]
      have hremaining : (Reading.of startOffset maxBytes ps).remaining = maxBytes - ps.length := rfl
      simp only [hremaining, hcut, hopen, Bool.false_or]
      congr 2
      rw [decide_eq_decide]
      omega

theorem pushSlice_of (chunk : StoredOutputChunk) (h : ps.length ≤ maxBytes) :
    pushSlice startOffset rangeEnd (Reading.of startOffset maxBytes ps) chunk =
      (Reading.of startOffset maxBytes (ps ++ within startOffset rangeEnd chunk.bytes),
        !decide (maxBytes < (ps ++ within startOffset rangeEnd chunk.bytes).length)) := by
  rw [← located_slice]
  exact pushBytes_of h

theorem within_flatMap (rows : List StoredOutputChunk) :
    within startOffset rangeEnd (rows.flatMap bytes) =
      rows.flatMap fun c => within startOffset rangeEnd c.bytes :=
  filter_flatMap

/-- **A page** offers its bytes of the range. -/
theorem pushRows_of (h : ps.length ≤ maxBytes) :
    pushRows startOffset rangeEnd (Reading.of startOffset maxBytes ps) rows =
      Reading.of startOffset maxBytes
        (ps ++ rows.flatMap fun c => within startOffset rangeEnd c.bytes) := by
  induction rows generalizing ps with
  | nil => rw [flatMap_nil, append_nil, pushRows]
  | cons row rows ih =>
    rw [pushRows, pushSlice_of row h, flatMap_cons, ← append_assoc]
    dsimp only
    split
    · next hopen =>
      rw [ih (Nat.le_of_not_lt (by simpa using hopen))]
    · next hfull => exact (of_append _ (by simpa using hfull)).symm

theorem within_eq_nil_of_end_le (he : rangeEnd = some e) (h : e ≤ c.byteOffset) :
    within startOffset rangeEnd c.bytes = [] := by
  subst he
  refine filter_eq_nil_iff.mpr fun p hp => ?_
  have hge := (Table.mem_bytes hp).1
  simp [InRange]
  omega

theorem within_eq_nil_of_le_start (h : c.endOffset ≤ startOffset) :
    within startOffset rangeEnd c.bytes = [] := by
  refine filter_eq_nil_iff.mpr fun p hp => ?_
  have hlt := (Table.mem_bytes hp).2
  simp [InRange]
  omega

theorem flatMap_before (rows : List StoredOutputChunk) (scanFrom : ℕ) :
    ((rows.filter fun c => scanFrom ≤ c.byteOffset).flatMap
        fun c => within startOffset rangeEnd c.bytes) =
      (rows.filter fun c => scanFrom ≤ c.byteOffset ∧
        ∀ before ∈ rangeEnd, c.byteOffset < before).flatMap
          fun c => within startOffset rangeEnd c.bytes := by
  have hsplit : (rows.filter fun c => scanFrom ≤ c.byteOffset ∧
      ∀ before ∈ rangeEnd, c.byteOffset < before) =
      (rows.filter fun c => scanFrom ≤ c.byteOffset).filter
        fun c => ∀ before ∈ rangeEnd, c.byteOffset < before := by
    rw [filter_filter]
    refine filter_congr fun c _ => ?_
    rw [Bool.eq_iff_iff]
    simp [and_comm]
  rw [hsplit]
  refine (flatMap_filter_of_nil fun c _ hc => ?_).symm
  cases hend : rangeEnd with
  | none => simp [hend] at hc
  | some e =>
    refine within_eq_nil_of_end_le rfl ?_
    simpa [hend] using hc

/-- What the next page has to bring is what this one has left of the query. -/
theorem flatMap_next_page (hdisjoint : t.DisjointRanges)
    (hlast : (t.listChunksFrom scanFrom readBatchRows rangeEnd).getLast? = some last) :
    ((t.rows.filter fun c => afterLast last ≤ c.byteOffset).flatMap
        fun c => within startOffset rangeEnd c.bytes) =
      ((t.rows.filter fun c => scanFrom ≤ c.byteOffset ∧
        ∀ before ∈ rangeEnd, c.byteOffset < before).drop readBatchRows).flatMap
          fun c => within startOffset rangeEnd c.bytes := by
  have hmem := mem_filter.mp (mem_of_mem_take (mem_of_getLast? hlast))
  have hfrom : scanFrom ≤ last.byteOffset := (of_decide_eq_true hmem.2).1
  have hsplit := take_append_drop readBatchRows (t.rows.filter fun c =>
    scanFrom ≤ c.byteOffset ∧ ∀ before ∈ rangeEnd, c.byteOffset < before)
  have hsorted := t.sorted.filter fun c =>
    scanFrom ≤ c.byteOffset ∧ ∀ before ∈ rangeEnd, c.byteOffset < before
  have hends := hdisjoint.filter fun c =>
    scanFrom ≤ c.byteOffset ∧ ∀ before ∈ rangeEnd, c.byteOffset < before
  rw [← hsplit] at hsorted hends
  have hrest := filter_after_batch hsorted hends hlast
  rw [hsplit, filter_filter] at hrest
  rw [flatMap_before, ← hrest]
  congr 1
  refine filter_congr fun c _ => ?_
  rw [Bool.eq_iff_iff, afterLast]
  simp
  omega

/-- **The pages** offer the bytes of the rows from `scanFrom` on. -/
theorem scan_of (hdisjoint : t.DisjointRanges) (hbatch : 0 < readBatchRows) :
    scan startOffset rangeEnd t readBatchRows scanFrom (Reading.of startOffset maxBytes ps) =
      Reading.of startOffset maxBytes
        (ps ++ (t.rows.filter fun c => scanFrom ≤ c.byteOffset).flatMap
          fun c => within startOffset rangeEnd c.bytes) := by
  induction hn : (t.rows.filter fun c => scanFrom ≤ c.byteOffset).length using Nat.strongRecOn
    generalizing scanFrom ps with
  | ind n ih =>
    rw [scan]
    split
    · next hstop =>
      rcases hstop with htruncated | hend
      · rw [of_append _ (of_decide_eq_true htruncated)]
      · have hnil : ((t.rows.filter fun c => scanFrom ≤ c.byteOffset).flatMap
            fun c => within startOffset rangeEnd c.bytes) = [] := by
          push Not at hend
          obtain ⟨e, he, hle⟩ := hend
          refine flatMap_eq_nil_iff.mpr fun c hc => within_eq_nil_of_end_le he ?_
          have := of_decide_eq_true (mem_filter.mp hc).2
          omega
        rw [hnil, append_nil]
    · next hgo =>
      have hopen : ps.length ≤ maxBytes := by
        have := (not_or.mp hgo).1
        simpa [Reading.of] using this
      rw [flatMap_before]
      have hdrop := take_append_drop readBatchRows (t.rows.filter fun c =>
        scanFrom ≤ c.byteOffset ∧ ∀ before ∈ rangeEnd, c.byteOffset < before)
      generalize hF : (t.rows.filter fun c => scanFrom ≤ c.byteOffset ∧
        ∀ before ∈ rangeEnd, c.byteOffset < before) = F at hdrop ⊢
      have hpage : t.listChunksFrom scanFrom readBatchRows rangeEnd = F.take readBatchRows := by
        rw [← hF]
        rfl
      split
      · next hnone =>
        rw [hpage, getLast?_eq_none_iff, take_eq_nil_iff] at hnone
        obtain rfl := hnone.resolve_left (Nat.ne_of_gt hbatch)
        rw [flatMap_nil, append_nil]
      · next last hlast =>
        dsimp only
        rw [hpage, pushRows_of hopen]
        split
        · next hshort =>
          have hall : F.take readBatchRows = F := by
            rw [length_take] at hshort
            exact take_of_length_le (by omega)
          rw [hall]
        · have hnext : ((t.rows.filter fun c => afterLast last ≤ c.byteOffset).flatMap
              fun c => within startOffset rangeEnd c.bytes) =
              (F.drop readBatchRows).flatMap fun c => within startOffset rangeEnd c.bytes :=
            hF ▸ flatMap_next_page hdisjoint hlast
          rw [ih _ (hn ▸ filter_afterLast_lt rangeEnd hlast) rfl, hnext, append_assoc,
            ← flatMap_append, hdrop]

/-- The chunk that contains the start, and the rows behind it. -/
theorem flatMap_covering (hdisjoint : t.DisjointRanges) (hmem : covering ∈ t.rows)
    (hle : covering.byteOffset ≤ startOffset) :
    (within startOffset rangeEnd covering.bytes ++
        (t.rows.filter fun c => covering.endOffset ≤ c.byteOffset).flatMap
          fun c => within startOffset rangeEnd c.bytes) =
      t.rows.flatMap fun c => within startOffset rangeEnd c.bytes := by
  have hpos := Table.length_pos hmem
  obtain ⟨before, behind, hrows⟩ := append_of_mem hmem
  have hends := hdisjoint.pairwise_le
  have hsorted := t.sorted
  rw [hrows] at hends hsorted ⊢
  obtain ⟨-, hbehind, hbefore⟩ := pairwise_append.mp hends
  have hskip : before.flatMap (fun c => within startOffset rangeEnd c.bytes) = [] := by
    refine flatMap_eq_nil_iff.mpr fun c hc => within_eq_nil_of_le_start ?_
    exact Nat.le_trans (hbefore c hc covering mem_cons_self) hle
  have hrest : (before ++ covering :: behind).filter
      (fun c => covering.endOffset ≤ c.byteOffset) = behind := by
    rw [filter_append, filter_cons_of_neg, filter_eq_nil_iff.mpr, nil_append, filter_eq_self]
    · intro c hc
      simpa using (pairwise_cons.mp hbehind).1 c hc
    · intro c hc
      have := (pairwise_append.mp hsorted).2.2 c hc covering mem_cons_self
      rw [decide_eq_true_eq, endOffset]
      omega
    · rw [decide_eq_true_eq, endOffset]
      omega
  rw [hrest, flatMap_append, hskip, nil_append, flatMap_cons]

/-- Without such a chunk, the rows from the start on. -/
theorem flatMap_uncovered (hdisjoint : t.DisjointRanges)
    (h : ∀ covering ∈ t.findCoveringChunk startOffset, covering.endOffset ≤ startOffset) :
    ((t.rows.filter fun c => startOffset ≤ c.byteOffset).flatMap
        fun c => within startOffset rangeEnd c.bytes) =
      t.rows.flatMap fun c => within startOffset rangeEnd c.bytes := by
  refine flatMap_filter_of_nil fun c hc hbefore => within_eq_nil_of_le_start ?_
  have hlt : c.byteOffset < startOffset := by simpa using hbefore
  have hmem : c ∈ t.rows.filter fun c => c.byteOffset ≤ startOffset :=
    mem_filter.mpr ⟨hc, decide_eq_true (Nat.le_of_lt hlt)⟩
  have hends := hdisjoint.filter fun c => c.byteOffset ≤ startOffset
  rw [Table.findCoveringChunk] at h
  cases hlast : (t.rows.filter fun c => c.byteOffset ≤ startOffset).getLast? with
  | none =>
    rw [getLast?_eq_none_iff.mp hlast] at hmem
    exact absurd hmem not_mem_nil
  | some covering =>
    have hcovering := h covering hlast
    obtain ⟨init, hinit⟩ := getLast?_eq_some_iff.mp hlast
    rw [hinit] at hmem hends
    rcases mem_append.mp hmem with hc | hc
    · have hle := (pairwise_append.mp hends).2.2 c hc covering mem_cons_self
      rw [endOffset] at hcovering
      omega
    · rwa [mem_singleton.mp hc]

/-- **A read has been offered all stored bytes of the range** when it stops. -/
theorem readChunks_eq (hdisjoint : t.DisjointRanges) (hbatch : 0 < readBatchRows) :
    readChunks startOffset rangeEnd t readBatchRows maxBytes =
      Reading.of startOffset maxBytes (within startOffset rangeEnd t.storedBytes) := by
  rw [readChunks, ← of_nil, Table.storedBytes, within_flatMap]
  split
  · next covering hcovering =>
    have hmem := mem_filter.mp (mem_of_getLast? hcovering)
    split
    · rw [pushSlice_of covering (Nat.zero_le _), scan_of hdisjoint hbatch, nil_append,
        flatMap_covering hdisjoint hmem.1 (of_decide_eq_true hmem.2)]
    · next hpast =>
      rw [scan_of hdisjoint hbatch, nil_append, flatMap_uncovered hdisjoint]
      rintro c hc
      rw [hcovering, Option.mem_some_iff] at hc
      rw [← hc]
      exact Nat.le_of_not_lt hpast
  · next hnone =>
    rw [scan_of hdisjoint hbatch, nil_append, flatMap_uncovered hdisjoint]
    intro c hc
    rw [hnone] at hc
    exact absurd hc (Option.not_mem_none c)

/-! ### Whole reads -/

def rangeBytes (t : Table) (startOffset : ℤ) (endOffset : Option ℤ) : List (ℕ × UInt8) :=
  t.storedBytes.filter fun p => startOffset ≤ p.1 ∧ ∀ e ∈ endOffset, (p.1 : ℤ) < e

/-- A caller that follows `nextOffset`, for at most so many calls, each with a budget of its
own. -/
def follow (t : Table) (readBatchRows : ℕ) (endOffset : Option ℤ) (maxBytes : ℕ → ℤ) :
    ℕ → ℤ → Option (List UInt8)
  | 0, _ => none
  | calls + 1, startOffset =>
    let read := readRange t readBatchRows startOffset endOffset (maxBytes calls)
    match read.nextOffset with
    | none => some read.data
    | some next => (follow t readBatchRows endOffset maxBytes calls next).map (read.data ++ ·)

theorem within_storedBytes (t : Table) (startOffset : ℤ) (endOffset : Option ℤ) :
    within startOffset.toNat (endOffset.map fun e => max startOffset.toNat e.toNat)
      t.storedBytes = rangeBytes t startOffset endOffset := by
  refine filter_congr fun p _ => ?_
  rw [Bool.eq_iff_iff]
  cases endOffset with
  | none => simp [InRange]
  | some e =>
    simp [InRange]
    omega

variable {t : Table} {readBatchRows : ℕ}

theorem rangeBytes_pairwise (hdisjoint : t.DisjointRanges) (startOffset : ℤ)
    (endOffset : Option ℤ) :
    (rangeBytes t startOffset endOffset).Pairwise fun p q => p.1 < q.1 :=
  (Table.storedBytes_pairwise hdisjoint).filter _

theorem rangeBytes_from {startOffset : ℤ} {next : ℕ} (h : startOffset ≤ next) :
    rangeBytes t next endOffset =
      (rangeBytes t startOffset endOffset).filter fun p => next ≤ p.1 := by
  rw [rangeBytes, rangeBytes, filter_filter]
  refine filter_congr fun p _ => ?_
  rw [Bool.eq_iff_iff]
  simp
  omega

theorem readRange_eq (hdisjoint : t.DisjointRanges) (hbatch : 0 < readBatchRows)
    (startOffset : ℤ) (endOffset : Option ℤ) (maxBytes : ℤ) :
    readRange t readBatchRows startOffset endOffset maxBytes =
      let r := Reading.of startOffset.toNat maxBytes.toNat (rangeBytes t startOffset endOffset)
      { data := r.data
        startOffset := r.firstByteOffset.getD startOffset.toNat
        endOffset := r.consumedEnd
        truncated := r.truncated
        nextOffset := if r.truncated then some r.consumedEnd else none } := by
  rw [readRange, readChunks_eq hdisjoint hbatch, within_storedBytes]

/-- **The continuation** begins behind the bytes that were returned. -/
theorem rangeBytes_next {startOffset : ℤ} {n : ℕ} (hn : 0 < n) (hdisjoint : t.DisjointRanges)
    (hmore : n < (rangeBytes t startOffset endOffset).length) :
    rangeBytes t (Reading.of startOffset.toNat n (rangeBytes t startOffset endOffset)).consumedEnd
      endOffset = (rangeBytes t startOffset endOffset).drop n := by
  have hne : (rangeBytes t startOffset endOffset).take n ≠ [] := by
    intro hnil
    rcases take_eq_nil_iff.mp hnil with h | h
    · omega
    · rw [h] at hmore
      exact Nat.not_lt_zero n hmore
  have hlast := getLast?_eq_some_getLast hne
  generalize ((rangeBytes t startOffset endOffset).take n).getLast hne = last at hlast
  have hmem := mem_filter.mp (mem_of_mem_take (mem_of_getLast? hlast))
  have hstart : startOffset ≤ last.1 := (of_decide_eq_true hmem.2).1
  have hend : (Reading.of startOffset.toNat n (rangeBytes t startOffset endOffset)).consumedEnd =
      last.1 + 1 := by
    rw [Reading.of, hlast]
    rfl
  have hfrom : rangeBytes t (last.1 + 1 : ℕ) endOffset =
      (rangeBytes t startOffset endOffset).filter fun p => last.1 + 1 ≤ p.1 :=
    rangeBytes_from (by omega)
  rw [hend, hfrom]
  exact filter_after_take (rangeBytes_pairwise hdisjoint startOffset endOffset) hlast

/-- **Reads that follow one another** return the bytes of the range. -/
theorem follow_eq (hdisjoint : t.DisjointRanges) (hbatch : 0 < readBatchRows)
    (endOffset : Option ℤ) {maxBytes : ℕ → ℤ} (hmax : ∀ k, 1 ≤ maxBytes k) (calls : ℕ) :
    ∀ startOffset : ℤ, (rangeBytes t startOffset endOffset).length < calls →
      follow t readBatchRows endOffset maxBytes calls startOffset =
        some ((rangeBytes t startOffset endOffset).map Prod.snd) := by
  induction calls with
  | zero => exact fun startOffset h => absurd h (Nat.not_lt_zero _)
  | succ calls ih =>
    intro startOffset hcalls
    have hpos := hmax calls
    have hdata : (Reading.of startOffset.toNat (maxBytes calls).toNat
        (rangeBytes t startOffset endOffset)).data =
        ((rangeBytes t startOffset endOffset).take (maxBytes calls).toNat).map Prod.snd := rfl
    have hflag : (Reading.of startOffset.toNat (maxBytes calls).toNat
        (rangeBytes t startOffset endOffset)).truncated =
        decide ((maxBytes calls).toNat < (rangeBytes t startOffset endOffset).length) := rfl
    rw [follow, readRange_eq hdisjoint hbatch]
    dsimp only
    rw [hdata, hflag]
    by_cases hmore : (maxBytes calls).toNat < (rangeBytes t startOffset endOffset).length
    · have hdrop := rangeBytes_next (n := (maxBytes calls).toNat) (by omega) hdisjoint hmore
      have hrest := ih _ (by rw [hdrop, length_drop]; omega)
      rw [hdrop] at hrest
      rw [if_pos (decide_eq_true hmore)]
      dsimp only
      rw [hrest, Option.map_some, ← map_append, take_append_drop]
    · rw [if_neg (by simpa using hmore), take_of_length_le (Nat.le_of_not_lt hmore)]

/-- **`readRange` is correct.** The stored bytes of the range are in the order of their offsets; a
read returns the first `maxBytes` of them and says exactly then that it was cut short when there
are more; and a caller that follows `nextOffset` gets each of them once. -/
theorem readRange_correct (hdisjoint : t.DisjointRanges) (hbatch : 0 < readBatchRows)
    (startOffset : ℤ) (endOffset : Option ℤ) :
    ((rangeBytes t startOffset endOffset).Pairwise fun p q => p.1 < q.1) ∧
    (∀ maxBytes : ℤ, 1 ≤ maxBytes →
      (readRange t readBatchRows startOffset endOffset maxBytes).data =
        ((rangeBytes t startOffset endOffset).take maxBytes.toNat).map Prod.snd ∧
      ((readRange t readBatchRows startOffset endOffset maxBytes).truncated = true ↔
        maxBytes < (rangeBytes t startOffset endOffset).length)) ∧
    ∀ maxBytes : ℕ → ℤ, (∀ k, 1 ≤ maxBytes k) →
      ∀ calls > (rangeBytes t startOffset endOffset).length,
        follow t readBatchRows endOffset maxBytes calls startOffset =
          some ((rangeBytes t startOffset endOffset).map Prod.snd) := by
  refine ⟨rangeBytes_pairwise hdisjoint startOffset endOffset, fun maxBytes hmax => ?_,
    fun maxBytes hmax calls hcalls =>
      follow_eq hdisjoint hbatch endOffset hmax calls startOffset hcalls⟩
  rw [readRange_eq hdisjoint hbatch]
  refine ⟨rfl, ?_⟩
  show decide (maxBytes.toNat < _) = true ↔ _
  rw [decide_eq_true_iff]
  omega

theorem readRange_correct_gapTable :
    (readRange gapTable 1 1 (some 6) 2).data = [2, 3] ∧
      follow gapTable 1 (some 6) (fun _ => 2) 4 1 = some [2, 3, 4] := by
  obtain ⟨-, hread, hfollow⟩ :=
    readRange_correct disjointRanges_gapTable (by decide : 0 < 1) 1 (some 6)
  exact ⟨(hread 2 (by decide)).1, hfollow (fun _ => 2) (fun _ => by decide) 4 (by decide)⟩

end Bud.OutputStore
