import Bud.Lib.Runs
import Bud.Lib.Segments
import Bud.Service.OutputRange

/-!
# Storing output and keeping it within its cap

`output-store.ts`, `handleTerminalOutput`: a chunk is inserted unless its offset is taken, the
statistics are raised, and the oldest chunks go when the retained bytes exceed the cap. How many
are retained is not summed up every time: the store remembers a figure for each session, which is
seeded from the database when there is none.

A frame is handled as a whole, as the queue of a session sees to it.

The seed is summed up after the insert, so the chunk that is then added to it is in it already:
`Seeded` says of a frame that this does not happen.

Either way the oldest chunks go, so the store is a ring of each stream, as the daemon's is.
-/

namespace Bud.OutputStore

open Located List Option Function

/-! ### The table -/

namespace Table

/-- `onConflictDoNothing` on the key. -/
def insertChunk (t : Table) (byteOffset : ℕ) (data : List UInt8) (hdata : data ≠ []) :
    Option Table :=
  if h : ∃ c ∈ t.rows, c.byteOffset = byteOffset then none
  else
    some
      { rows := (t.rows.filter fun c => c.byteOffset < byteOffset) ++
          { byteOffset, data } :: t.rows.filter fun c => byteOffset < c.byteOffset
        sorted := by
          refine List.pairwise_append.mpr ⟨t.sorted.filter _, ?_, fun a ha b hb => ?_⟩
          · refine List.pairwise_cons.mpr ⟨fun b hb => ?_, t.sorted.filter _⟩
            exact of_decide_eq_true (List.mem_filter.mp hb).2
          · have ha := of_decide_eq_true (List.mem_filter.mp ha).2
            rcases List.mem_cons.mp hb with rfl | hb
            · exact ha
            · exact Nat.lt_trans ha (of_decide_eq_true (List.mem_filter.mp hb).2)
        nonempty := by
          intro c hc
          rcases List.mem_append.mp hc with hc | hc
          · exact t.nonempty c (List.mem_filter.mp hc).1
          · rcases List.mem_cons.mp hc with rfl | hc
            · exact hdata
            · exact t.nonempty c (List.mem_filter.mp hc).1 }

/-- `delete` of the chunks with `byteOffset ≤ cutoff`. -/
def deleteUpTo (t : Table) (cutoff : ℕ) : Table :=
  { rows := t.rows.filter fun c => cutoff < c.byteOffset
    sorted := t.sorted.filter _
    nonempty := fun c hc => t.nonempty c (List.mem_filter.mp hc).1 }

/-- The rows of a page of the prune, up to the one with which enough is removed: the bytes
removed, and the offset of that row. -/
def pruneRows (minBytesToRemove : ℤ) : ℕ × Option ℕ → List StoredOutputChunk → ℕ × Option ℕ
  | acc, [] => acc
  | acc, row :: rows =>
    let removed := acc.1 + row.data.length
    if minBytesToRemove ≤ removed then (removed, some row.byteOffset)
    else pruneRows minBytesToRemove (removed, some row.byteOffset) rows

theorem pruneRows_spec (minBytesToRemove : ℤ) (acc : ℕ × Option ℕ)
    {rows : List StoredOutputChunk} (h : rows ≠ []) :
    ∃ init last rest, rows = init ++ last :: rest ∧
      pruneRows minBytesToRemove acc rows =
        (acc.1 + dataLength (init ++ [last]), some last.byteOffset) := by
  induction rows generalizing acc with
  | nil => exact absurd rfl h
  | cons row rows ih =>
    rw [pruneRows]
    split
    · exact ⟨[], row, rows, rfl, by simp [dataLength]⟩
    · cases rows with
      | nil => exact ⟨[], row, [], rfl, by simp [pruneRows, dataLength]⟩
      | cons row' rows =>
        obtain ⟨init, last, rest, hrows, hpruned⟩ :=
          ih (acc.1 + row.data.length, some row.byteOffset) (cons_ne_nil row' rows)
        refine ⟨row :: init, last, rest, by rw [hrows]; rfl, ?_⟩
        rw [hpruned, cons_append, dataLength_cons, Nat.add_assoc]

theorem rows_deleteUpTo {t : Table} (h : t.rows = init ++ last :: rest) :
    (t.deleteUpTo last.byteOffset).rows = rest := by
  have hsorted := t.sorted
  show t.rows.filter (fun c => last.byteOffset < c.byteOffset) = rest
  rw [h] at hsorted ⊢
  obtain ⟨-, hrest, hinit⟩ := pairwise_append.mp hsorted
  rw [filter_append, filter_cons_of_neg (by simp), filter_eq_nil_iff.mpr,
    nil_append, filter_eq_self]
  · exact fun c hc => decide_eq_true ((pairwise_cons.mp hrest).1 c hc)
  · intro c hc
    have := hinit c hc last mem_cons_self
    simp
    omega

theorem prune_page (t : Table) (pageRows : ℕ) (minBytesToRemove : ℤ) (removed : ℕ)
    (h : t.rows.take pageRows ≠ []) :
    ∃ init last rest, t.rows = init ++ last :: rest ∧
      pruneRows minBytesToRemove (removed, none) (t.rows.take pageRows) =
        (removed + dataLength (init ++ [last]), some last.byteOffset) := by
  obtain ⟨init, last, rest, hrows, hpruned⟩ :=
    pruneRows_spec minBytesToRemove (removed, none) h
  refine ⟨init, last, rest ++ t.rows.drop pageRows, ?_, hpruned⟩
  conv_lhs => rw [← take_append_drop pageRows t.rows, hrows]
  simp

/-- The loop of `pruneOldestChunks`. -/
def pruneLoop (pageRows : ℕ) (minBytesToRemove : ℤ) (t : Table) (removed : ℕ) : Table × ℕ :=
  if (removed : ℤ) < minBytesToRemove then
    let rows := t.rows.take pageRows
    if _h : rows = [] then (t, removed)
    else
      let page := pruneRows minBytesToRemove (removed, none) rows
      -- a page has a last row, so that there is a cutoff
      let cutoff := page.2.getD 0
      let left := t.deleteUpTo cutoff
      if (page.1 : ℤ) < minBytesToRemove ∧ rows.length < pageRows then (left, page.1)
      else pruneLoop pageRows minBytesToRemove left page.1
  else (t, removed)
  termination_by t.rows.length
  decreasing_by
    obtain ⟨init, last, rest, hrows, hpruned⟩ :=
      prune_page t pageRows minBytesToRemove removed _h
    rw [hpruned]
    show (t.deleteUpTo last.byteOffset).rows.length < t.rows.length
    rw [rows_deleteUpTo hrows, hrows, List.length_append, List.length_cons]
    omega

/-- Delete oldest chunks until at least `minBytesToRemove` bytes are gone. -/
def pruneOldestChunks (t : Table) (minBytesToRemove : ℤ) : Table × ℕ :=
  pruneLoop 512 minBytesToRemove t 0

end Table

/-! ### The store -/

variable {S : Type} [DecidableEq S]

/-- The tables of the sessions with their statistics, and what the process remembers of them. -/
structure Store (S : Type) where
  tables : S → Table
  totalOutputBytes : S → ℕ
  outputLogBytes : S → ℕ
  lastOffsets : S → Option ℕ
  /-- Retained (post-pruning) stored bytes per session, lazily seeded from SQL. -/
  retainedBytes : S → Option ℤ
  /-- `terminal.output` events. -/
  emitted : List (S × ℕ × List UInt8)

/-- A `terminal_output` frame, with its data decoded. -/
structure Output (S : Type) where
  sessionId : S
  byteOffset : ℕ
  data : List UInt8

/-- The live cache of the highest end offset. -/
def Store.observe (s : Store S) (o : Output S) : Store S :=
  let endOffset := o.byteOffset + o.data.length
  if (s.lastOffsets o.sessionId).getD 0 < endOffset then
    { s with lastOffsets := Function.update s.lastOffsets o.sessionId (some endOffset) }
  else s

/-- What follows an insert that took place and left the table `t`. -/
def Store.stored (terminalOutputSoftCapBytes : ℕ) (s : Store S) (o : Output S) (t : Table) :
    Store S :=
  -- the seed is read after the insert
  let retained : ℤ :=
    (s.retainedBytes o.sessionId).getD t.getStoredOutputBytes + o.data.length
  let pruned :=
    if terminalOutputSoftCapBytes < retained then
      t.pruneOldestChunks (retained - terminalOutputSoftCapBytes)
    else (t, 0)
  { s with
    tables := Function.update s.tables o.sessionId pruned.1
    totalOutputBytes := Function.update s.totalOutputBytes o.sessionId
      (s.totalOutputBytes o.sessionId + o.data.length)
    outputLogBytes := Function.update s.outputLogBytes o.sessionId
      (s.outputLogBytes o.sessionId + o.data.length)
    retainedBytes := Function.update s.retainedBytes o.sessionId (some (retained - pruned.2))
    emitted := s.emitted ++ [(o.sessionId, o.byteOffset, o.data)] }

def handleTerminalOutput (terminalOutputSoftCapBytes : ℕ) (s : Store S) (o : Output S) : Store S :=
  let s := s.observe o
  if h : o.data = [] then s
  else
    match (s.tables o.sessionId).insertChunk o.byteOffset o.data h with
    | none => s
    | some t => s.stored terminalOutputSoftCapBytes o t

/-! ### What pruning removes -/

namespace Table

theorem getStoredOutputBytes_insertChunk {t : Table}
    (h : t.insertChunk byteOffset data hdata = some t') :
    t'.getStoredOutputBytes = t.getStoredOutputBytes + data.length := by
  obtain ⟨hfree, h⟩ := ite_none_left_eq_some.mp h
  obtain rfl := some.inj h
  have hbehind : (t.rows.filter fun c => byteOffset < c.byteOffset) =
      t.rows.filter fun c => !decide (c.byteOffset < byteOffset) := by
    refine filter_congr fun c hc => ?_
    have hne : c.byteOffset ≠ byteOffset := fun heq => hfree ⟨c, hc, heq⟩
    rw [Bool.eq_iff_iff]
    simp
    omega
  have hsplit := dataLength_filter (fun c => decide (c.byteOffset < byteOffset)) t.rows
  rw [getStoredOutputBytes, getStoredOutputBytes, ← hsplit]
  dsimp only
  rw [dataLength_append, dataLength_cons, hbehind]
  dsimp only
  omega

/-- The prune deletes the oldest rows, and reports their bytes. -/
theorem rows_pruneLoop (pageRows : ℕ) (minBytesToRemove : ℤ) (t : Table) (removed : ℕ) :
    ∃ gone, t.rows = gone ++ (pruneLoop pageRows minBytesToRemove t removed).1.rows ∧
      (pruneLoop pageRows minBytesToRemove t removed).2 = removed + dataLength gone := by
  induction hn : t.rows.length using Nat.strongRecOn generalizing t removed with
  | ind n ih =>
    rw [pruneLoop]
    split
    · dsimp only
      split
      · exact ⟨[], rfl, rfl⟩
      · next hne =>
        obtain ⟨init, last, rest, hrows, hpruned⟩ :=
          prune_page t pageRows minBytesToRemove removed hne
        have hleft := rows_deleteUpTo hrows
        have hgone : t.rows = init ++ [last] ++ (t.deleteUpTo last.byteOffset).rows := by
          rw [hleft, hrows, append_assoc]
          rfl
        rw [hpruned]
        dsimp only [Option.getD_some]
        split
        · exact ⟨_, hgone, rfl⟩
        · obtain ⟨gone, hrest, hk⟩ := ih _ (by
            rw [hleft, ← hn, hrows, length_append, length_cons]
            omega) (t.deleteUpTo last.byteOffset) (removed + dataLength (init ++ [last])) rfl
          refine ⟨init ++ [last] ++ gone, ?_, ?_⟩
          · rw [append_assoc, ← hrest]
            exact hgone
          · rw [dataLength_append (init ++ [last]), ← Nat.add_assoc]
            exact hk
    · exact ⟨[], rfl, rfl⟩

/-- **The prune reports what it deletes.** -/
theorem pruneLoop_spec (pageRows : ℕ) (minBytesToRemove : ℤ) (t : Table) (removed : ℕ) :
    (pruneLoop pageRows minBytesToRemove t removed).1.getStoredOutputBytes +
        (pruneLoop pageRows minBytesToRemove t removed).2 =
      t.getStoredOutputBytes + removed := by
  obtain ⟨gone, hrows, hremoved⟩ := rows_pruneLoop pageRows minBytesToRemove t removed
  have hbytes := congrArg dataLength hrows
  rw [dataLength_append] at hbytes
  rw [getStoredOutputBytes, getStoredOutputBytes, hremoved]
  omega

theorem rows_insertChunk {t t' : Table} (h : t.insertChunk byteOffset data hdata = some t')
    (hbehind : ∀ c ∈ t.rows, c.byteOffset < byteOffset) :
    t'.rows = t.rows ++ [⟨byteOffset, data⟩] := by
  obtain ⟨-, h⟩ := ite_none_left_eq_some.mp h
  obtain rfl := some.inj h
  show t.rows.filter (fun c => c.byteOffset < byteOffset) ++ _ :: t.rows.filter _ = _
  rw [filter_eq_self.mpr fun c hc => decide_eq_true (hbehind c hc), filter_eq_nil_iff.mpr]
  intro c hc
  have := hbehind c hc
  simp
  omega

end Table

/-! ### The figure -/

/-- The figure of every session that has one is what its chunks hold. -/
def Accurate (s : Store S) : Prop :=
  ∀ session n, s.retainedBytes session = some n → n = (s.tables session).getStoredOutputBytes

/-- The table with the chunk of a frame that is not there yet. -/
def Store.inserted (s : Store S) (o : Output S) : Table :=
  if h : o.data = [] then s.tables o.sessionId
  else ((s.tables o.sessionId).insertChunk o.byteOffset o.data h).getD (s.tables o.sessionId)

/-- The session's figure, if it has one, is right afterwards, and chunks have gone only if more was
stored than the cap allows. -/
def Kept (cap : ℕ) (s : Store S) (o : Output S) : Prop :=
  (∀ n, (handleTerminalOutput cap s o).retainedBytes o.sessionId = some n →
    n = ((handleTerminalOutput cap s o).tables o.sessionId).getStoredOutputBytes) ∧
  ((handleTerminalOutput cap s o).tables o.sessionId ≠ s.inserted o →
    cap < (s.inserted o).getStoredOutputBytes)

/-- A frame that stores something finds a figure to add to. -/
def Seeded (s : Store S) (o : Output S) : Prop :=
  (s.retainedBytes o.sessionId).isSome ∨ o.data = [] ∨
    ∃ c ∈ (s.tables o.sessionId).rows, c.byteOffset = o.byteOffset

variable {cap : ℕ} {s : Store S} {o : Output S}

@[simp] theorem observe_tables : (s.observe o).tables = s.tables := by
  rw [Store.observe]
  split <;> rfl

@[simp] theorem observe_retainedBytes : (s.observe o).retainedBytes = s.retainedBytes := by
  rw [Store.observe]
  split <;> rfl

/-- What is stored and remembered of the session after an insert. -/
theorem stored_spec (cap : ℕ) (s : Store S) (o : Output S) (t : Table) :
    ∃ left removed, (s.stored cap o t).tables = update s.tables o.sessionId left ∧
      (s.stored cap o t).retainedBytes = update s.retainedBytes o.sessionId
        (some ((s.retainedBytes o.sessionId).getD t.getStoredOutputBytes + o.data.length -
          (removed : ℕ))) ∧
      left.getStoredOutputBytes + removed = t.getStoredOutputBytes ∧
      (left ≠ t →
        cap < (s.retainedBytes o.sessionId).getD t.getStoredOutputBytes + o.data.length) := by
  rw [Store.stored]
  dsimp only
  split
  · next hover =>
    exact ⟨_, _, rfl, rfl, Table.pruneLoop_spec 512 _ t 0, fun _ => hover⟩
  · exact ⟨t, 0, rfl, rfl, rfl, fun hne => absurd rfl hne⟩

theorem handleTerminalOutput_cases (cap : ℕ) (s : Store S) (o : Output S) :
    ((o.data = [] ∨ ∃ c ∈ (s.tables o.sessionId).rows, c.byteOffset = o.byteOffset) ∧
      s.inserted o = s.tables o.sessionId ∧ handleTerminalOutput cap s o = s.observe o) ∨
    (o.data ≠ [] ∧ (¬ ∃ c ∈ (s.tables o.sessionId).rows, c.byteOffset = o.byteOffset) ∧
      (s.inserted o).getStoredOutputBytes =
        (s.tables o.sessionId).getStoredOutputBytes + o.data.length ∧
      handleTerminalOutput cap s o = (s.observe o).stored cap o (s.inserted o)) := by
  rw [handleTerminalOutput, Store.inserted]
  split
  · next hdata => exact Or.inl ⟨Or.inl hdata, rfl, rfl⟩
  · next hdata =>
    rw [observe_tables]
    split
    · next hnone =>
      refine Or.inl ⟨Or.inr ?_, by rw [hnone]; rfl, rfl⟩
      by_contra hfree
      rw [Table.insertChunk, dif_neg hfree] at hnone
      cases hnone
    · next t hsome =>
      refine Or.inr ⟨hdata, fun hdup => ?_, ?_, by rw [hsome]; rfl⟩
      · rw [Table.insertChunk, dif_pos hdup] at hsome
        cases hsome
      · rw [hsome, getD_some, Table.getStoredOutputBytes_insertChunk hsome]

/-- **A frame keeps the figure right** exactly when it has one to add to, if it stores anything. -/
theorem kept_iff (hs : Accurate s) : Kept cap s o ↔ Seeded s o := by
  rcases handleTerminalOutput_cases cap s o with
    ⟨hnothing, hsame, hhandle⟩ | ⟨hdata, hfree, hbytes, hhandle⟩
  · refine iff_of_true ⟨fun n hn => ?_, fun hne => ?_⟩ (Or.inr hnothing)
    · rw [hhandle, observe_retainedBytes] at hn
      rw [hhandle, observe_tables]
      exact hs o.sessionId n hn
    · rw [hhandle, observe_tables, hsame] at hne
      exact absurd rfl hne
  · obtain ⟨left, removed, htables, hretained, hleft, hpruned⟩ :=
      stored_spec cap (s.observe o) o (s.inserted o)
    have hpos := length_pos_of_ne_nil hdata
    rw [observe_retainedBytes] at hretained hpruned
    rw [Kept, hhandle, htables, hretained, update_self, update_self]
    cases hfigure : s.retainedBytes o.sessionId with
    | none =>
      -- the seed holds the chunk already, and it is added once more
      refine iff_of_false (fun hkept => ?_) ?_
      · have := hkept.1 _ rfl
        rw [getD_none] at this
        omega
      · rw [Seeded, hfigure]
        exact not_or.mpr ⟨by simp, not_or.mpr ⟨hdata, hfree⟩⟩
    | some figure =>
      have hright := hs o.sessionId figure hfigure
      rw [hfigure, getD_some] at hpruned
      rw [getD_some]
      refine iff_of_true ⟨fun n hn => ?_, fun hne => ?_⟩ (Or.inl (by rw [hfigure]; rfl))
      · rw [← some.inj hn]
        omega
      · have := hpruned hne
        omega

/-- The other sessions are left alone. -/
theorem Accurate.handleTerminalOutput (hs : Accurate s) (hkept : Kept cap s o) :
    Accurate (OutputStore.handleTerminalOutput cap s o) := by
  intro session n hn
  by_cases hsession : session = o.sessionId
  · subst hsession
    exact hkept.1 n hn
  · rcases handleTerminalOutput_cases cap s o with
      ⟨-, -, hhandle⟩ | ⟨-, -, -, hhandle⟩
    · rw [hhandle, observe_retainedBytes] at hn
      rw [hhandle, observe_tables]
      exact hs session n hn
    · obtain ⟨left, removed, htables, hretained, -⟩ :=
        stored_spec cap (s.observe o) o (s.inserted o)
      rw [hhandle, hretained, update_of_ne hsession, observe_retainedBytes] at hn
      rw [hhandle, htables, update_of_ne hsession, observe_tables]
      exact hs session n hn

/-- The frames of a run. -/
def step (cap : ℕ) (s : Store S) (o : Output S) : Option (Store S) :=
  some (handleTerminalOutput cap s o)

/-- **Retention accounting.** From a state whose figures are right, the frames of a run leave them
right and delete only past the cap, one after the other, exactly if each of them that stores
something finds a figure for its session. -/
theorem retention_accounting (hs : Accurate s) (outputs : List (Output S)) :
    Runs.Along (step cap) (Kept cap) outputs s ↔ Runs.Along (step cap) Seeded outputs s := by
  induction outputs generalizing s with
  | nil => exact Iff.rfl
  | cons o outputs ih =>
    rw [Runs.Along, Runs.Along, kept_iff hs]
    refine and_congr_right fun hseeded => ?_
    have hnext : Accurate (handleTerminalOutput cap s o) :=
      hs.handleTerminalOutput ((kept_iff hs).mpr hseeded)
    constructor
    · rintro h t ht
      obtain rfl := some.inj ht
      exact (ih hnext).mp (h _ rfl)
    · rintro h t ht
      obtain rfl := some.inj ht
      exact (ih hnext).mpr (h _ rfl)

def emptyTable : Table := { rows := [], sorted := List.Pairwise.nil, nonempty := by simp }

def started : Store Unit :=
  { tables := fun _ => emptyTable
    totalOutputBytes := fun _ => 0
    outputLogBytes := fun _ => 0
    lastOffsets := fun _ => none
    retainedBytes := fun _ => none
    emitted := [] }

/-- A process that remembers a session's figure. -/
def seeded : Store Unit :=
  { started with
    tables := fun _ => gapTable
    retainedBytes := fun _ => some 5 }

theorem accurate_seeded : Accurate seeded := by
  intro _ n hn
  exact (some.inj hn).symm

/-- A new chunk, one that is there already, and one past the cap. -/
theorem retention_accounting_seeded :
    Runs.Along (step 6) (Kept 6)
      [{ sessionId := (), byteOffset := 3, data := [9] },
        { sessionId := (), byteOffset := 5, data := [4, 5] },
        { sessionId := (), byteOffset := 7, data := [6, 7] }] seeded :=
  (retention_accounting accurate_seeded _).mpr
    ⟨Or.inl rfl, fun _ h₁ => ⟨Or.inl (by obtain rfl := some.inj h₁; decide +kernel),
      fun _ h₂ => ⟨Or.inl (by
        obtain rfl := some.inj h₁
        obtain rfl := some.inj h₂
        decide +kernel), fun _ _ => trivial⟩⟩⟩

/-- The first chunk of a session counts twice, and may be deleted for it. -/
theorem first_output_not_kept :
    ¬ Kept 104857600 started { sessionId := (), byteOffset := 0, data := [104, 105] } ∧
      ¬ Kept 3 started { sessionId := (), byteOffset := 0, data := [104, 105] } := by
  constructor
  · rintro ⟨hfigure, -⟩
    exact absurd (hfigure 4 (by decide +kernel)) (by decide +kernel)
  · rintro ⟨-, hpruned⟩
    refine absurd (hpruned fun hsame => ?_) (by decide +kernel)
    have hrows := congrArg Table.rows hsame
    exact absurd hrows (by decide +kernel)

/-! ### The store as a ring -/

/-- `max(byte_offset + octet_length(data))`; 0 when no output is stored. -/
def Table.getStoredEndOffset (t : Table) : ℕ :=
  (t.rows.map StoredOutputChunk.endOffset).max?.getD 0

def Store.sent (s : Store S) (session : S) : List (ℕ × List UInt8) :=
  (s.emitted.filter fun e => e.1 = session).map Prod.snd

/-- A frame goes on where its session has got to, or is delivered again. -/
def Delivered (s : Store S) (o : Output S) : Prop :=
  o.byteOffset = (Segments.bytes (s.sent o.sessionId)).length ∨
    { byteOffset := o.byteOffset, data := o.data } ∈ (s.tables o.sessionId).rows

instance (s : Store S) (o : Output S) : Decidable (Delivered s o) :=
  inferInstanceAs (Decidable (_ ∨ _))

/-- What is stored are the last of the chunks that were sent on. -/
def Mirrored (s : Store S) : Prop :=
  ∀ session, Segments.Contiguous 0 (s.sent session) ∧
    ∃ gone, s.sent session =
      gone ++ (s.tables session).rows.map fun c => (c.byteOffset, c.data)

/-- After an insert, the oldest chunks may go. -/
theorem rows_stored (cap : ℕ) (s : Store S) (o : Output S) (t : Table) :
    ∃ left gone, (s.stored cap o t).tables = update s.tables o.sessionId left ∧
      t.rows = gone ++ left.rows := by
  rw [Store.stored]
  dsimp only
  split
  · obtain ⟨gone, hrows, -⟩ := Table.rows_pruneLoop 512 _ t 0
    exact ⟨_, gone, rfl, hrows⟩
  · exact ⟨t, [], rfl, rfl⟩

theorem sent_stored (s : Store S) (o : Output S) (t : Table) (session : S) :
    (s.stored cap o t).sent session =
      s.sent session ++ if session = o.sessionId then [(o.byteOffset, o.data)] else [] := by
  show ((s.emitted ++ [(o.sessionId, o.byteOffset, o.data)]).filter _).map _ = _
  rw [filter_append, map_append]
  split
  · next h => rw [filter_cons_of_pos (by simp [h])]; rfl
  · next h => rw [filter_cons_of_neg (by simp [Ne.symm h])]; rfl

theorem Mirrored.handleTerminalOutput (hs : Mirrored s) (ho : Delivered s o) :
    Mirrored (OutputStore.handleTerminalOutput cap s o) := by
  have hsent : (s.observe o).sent = s.sent := by
    rw [Store.observe]
    split <;> rfl
  have hobserve : Mirrored (s.observe o) := fun session => by
    rw [hsent, observe_tables]
    exact hs session
  rw [OutputStore.handleTerminalOutput]
  split
  · exact hobserve
  · split
    · exact hobserve
    · next hdata t hsome =>
      obtain ⟨left, gone', htables, hleft⟩ := rows_stored cap (s.observe o) o t
      rw [observe_tables] at hsome
      intro session
      rw [htables, observe_tables, sent_stored, hsent]
      obtain ⟨hcontiguous, gone, hgone⟩ := hs session
      by_cases hsession : session = o.sessionId
      · subst hsession
        -- a chunk that is stored already is not inserted
        have hnext := ho.resolve_right fun hmem =>
          (ite_none_left_eq_some.mp hsome).1 ⟨_, hmem, rfl⟩
        have hbehind : ∀ c ∈ (s.tables o.sessionId).rows, c.byteOffset < o.byteOffset := by
          intro c hc
          have hpos := Table.length_pos hc
          have := (hcontiguous.bounds (c.byteOffset, c.data)
            (hgone ▸ mem_append_right gone (mem_map_of_mem hc))).2
          dsimp only at this
          omega
        rw [if_pos rfl, update_self]
        refine ⟨?_, gone ++ gone'.map fun c => (c.byteOffset, c.data), ?_⟩
        · rw [hnext, ← Nat.zero_add (Segments.bytes _).length]
          exact Segments.contiguous_concat hcontiguous o.data
        · rw [append_assoc, ← map_append, ← hleft, Table.rows_insertChunk hsome hbehind,
            map_append, ← append_assoc, ← hgone]
          rfl
      · rw [if_neg hsession, append_nil, update_of_ne hsession]
        exact ⟨hcontiguous, gone, hgone⟩

/-- The offset that the daemon is asked to resume from. -/
theorem Mirrored.getStoredEndOffset_eq (hs : Mirrored s) (session : S)
    (hstored : (s.tables session).rows ≠ []) :
    (s.tables session).getStoredEndOffset = (Segments.bytes (s.sent session)).length := by
  obtain ⟨hsent, gone, hgone⟩ := hs session
  rw [← Nat.zero_add (length _), Table.getStoredEndOffset, max?_eq_some_iff.mpr ⟨?_, ?_⟩, getD_some]
  · obtain ⟨rows, last, hrows⟩ := (eq_nil_or_concat' _).resolve_left hstored
    rw [hrows, map_append, ← append_assoc] at hgone
    have hend := (hgone ▸ hsent).end_eq
    rw [hgone, hrows]
    exact mem_map.mpr ⟨last, mem_append_right rows mem_cons_self, hend⟩
  · rintro _ hb
    obtain ⟨c, hc, rfl⟩ := mem_map.mp hb
    exact (hsent.bounds _ (hgone ▸ mem_append_right gone (mem_map_of_mem hc))).2

/-- **The store mirrors the daemon's ring.** However frames of different sessions alternate, are
delivered again and make old chunks go, the bytes that are stored for a session are the end of its
stream, the daemon is asked to resume where they end, if there are any, and a caller that follows
`nextOffset` reads its range of them. -/
theorem store_mirrors_stream {s₀ s : Store S} {outputs : List (Output S)}
    (hrows : ∀ session, (s₀.tables session).rows = []) (hemitted : s₀.emitted = [])
    (hok : Runs.Along (step cap) Delivered outputs s₀)
    (hrun : Runs.run (step cap) outputs s₀ = some s) (session : S) :
    let stream := located 0 (Segments.bytes (s.sent session))
    ∃ pruned, (s.tables session).storedBytes = stream.drop pruned ∧
      ((s.tables session).rows ≠ [] → (s.tables session).getStoredEndOffset = stream.length) ∧
      ∀ (readBatchRows : ℕ) (startOffset : ℤ) (endOffset : Option ℤ) (maxBytes : ℕ → ℤ),
        0 < readBatchRows → (∀ k, 1 ≤ maxBytes k) →
          ∀ calls > stream.length,
            follow (s.tables session) readBatchRows endOffset maxBytes calls startOffset =
              some (((stream.drop pruned).filter fun p =>
                startOffset ≤ p.1 ∧ ∀ e ∈ endOffset, (p.1 : ℤ) < e).map Prod.snd) := by
  intro stream
  have hstart : Mirrored s₀ := fun session => by
    rw [Store.sent, hemitted, hrows]
    exact ⟨trivial, [], rfl⟩
  have hs : Mirrored s := Runs.invariant_along
    (fun _ _ _ hs ho ht => some.inj ht ▸ hs.handleTerminalOutput ho) hok hrun hstart
  obtain ⟨hsent, gone, hgone⟩ := hs session
  have hdrop : (s.tables session).storedBytes =
      stream.drop (gone.flatMap fun p => located p.1 p.2).length := by
    show _ = (located 0 (Segments.bytes (s.sent session))).drop _
    rw [← hsent.flatMap_located, hgone, flatMap_append, drop_left, flatMap_map]
    rfl
  have hdisjoint : (s.tables session).DisjointRanges := by
    have hends := pairwise_map.mp (pairwise_append.mp (hgone ▸ hsent.pairwise)).2.1
    refine hends.imp fun {a b} hab n hn => ?_
    exact absurd (Nat.lt_of_lt_of_le hn.1.2 hab) (Nat.not_lt.mpr hn.2.1)
  refine ⟨_, hdrop, fun hstored => ?_,
    fun readBatchRows startOffset endOffset maxBytes hbatch hmax calls hcalls => ?_⟩
  · rw [length_located]
    exact hs.getStoredEndOffset_eq session hstored
  rw [← hdrop]
  refine follow_eq hdisjoint hbatch endOffset hmax calls startOffset ?_
  refine Nat.lt_of_le_of_lt ((length_filter_le _ _).trans ?_) hcalls
  rw [hdrop, length_drop]
  exact Nat.sub_le _ _

/-- A chunk that is delivered again, and one that makes the first go. -/
theorem store_mirrors_stream_started :
    ∃ s pruned, Runs.run (step 6)
        [⟨(), 0, [1, 2, 3]⟩, ⟨(), 3, [4, 5]⟩, ⟨(), 3, [4, 5]⟩, ⟨(), 5, [6]⟩] started = some s ∧
      (s.tables ()).storedBytes = (located 0 (Segments.bytes (s.sent ()))).drop pruned := by
  have hok : Runs.Along (step 6) Delivered
      [⟨(), 0, [1, 2, 3]⟩, ⟨(), 3, [4, 5]⟩, ⟨(), 3, [4, 5]⟩, ⟨(), 5, [6]⟩] started := by
    decide +kernel
  obtain ⟨pruned, hbytes, -⟩ := store_mirrors_stream (fun _ => rfl) rfl hok rfl ()
  exact ⟨_, pruned, rfl, hbytes⟩

end Bud.OutputStore
