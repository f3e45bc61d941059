import Bud.PersonalData.Batch
import Mathlib.Data.List.Induction

/-!
# Ingest is exactly once

Every line of a batch that succeeds is accepted, a duplicate or rejected, and which of them it is
depends on the hashes that are stored and on the batch alone (`Takes`): the two loops of `persist`
agree because an id with different contents in one batch is never taken. So the ids that are
acknowledged are those whose content is stored, and a batch that is sent again finds all of them
there.
-/

namespace Bud.PersonalData

namespace Batch

open List ValidEvent

variable {rt : Runtime} {context : IngestContext}

/-! ### Lines -/

/-- The numbers of the lines that are not blank, after line `line`. -/
def nonBlankLines : ℕ → List (List UInt8) → List ℕ
  | _, [] => []
  | line, bytes :: lines =>
    if isBlank bytes then nonBlankLines (line + 1) lines
    else (line + 1) :: nonBlankLines (line + 1) lines

theorem lt_of_mem_nonBlankLines :
    ∀ (lines : List (List UInt8)) (line : ℕ), n ∈ nonBlankLines line lines → line < n := by
  intro lines
  induction lines with
  | nil => simp [nonBlankLines]
  | cons bytes lines ih =>
    intro line hn
    rw [nonBlankLines] at hn
    split at hn
    · exact Nat.lt_of_succ_lt (ih (line + 1) hn)
    · rcases mem_cons.mp hn with rfl | hn
      · exact Nat.lt_succ_self line
      · exact Nat.lt_of_succ_lt (ih (line + 1) hn)

theorem nodup_nonBlankLines :
    ∀ (lines : List (List UInt8)) (line : ℕ), (nonBlankLines line lines).Nodup := by
  intro lines
  induction lines with
  | nil => simp [nonBlankLines]
  | cons bytes lines ih =>
    intro line
    rw [nonBlankLines]
    split
    · exact ih (line + 1)
    · refine nodup_cons.mpr ⟨fun h => ?_, ih (line + 1)⟩
      exact Nat.lt_irrefl _ (lt_of_mem_nonBlankLines lines (line + 1) h)

def ParsedBatch.lines (batch : ParsedBatch) : List ℕ :=
  batch.events.map ValidEvent.line ++ batch.rejected.map RejectedEvent.line

theorem validateEvent_line (value : Json) (line : ℕ) :
    (validateEvent rt value line context).elim ValidEvent.line RejectedEvent.line = line := by
  unfold validateEvent
  dsimp only
  repeat' split
  all_goals rfl

theorem parseLine_line (line : ℕ) (bytes : List UInt8) :
    (parseLine rt context line bytes).elim ValidEvent.line RejectedEvent.line = line := by
  unfold parseLine
  split
  · rfl
  · split
    · rfl
    · exact validateEvent_line _ line

theorem lines_add (result : ParsedBatch) (parsed : ValidEvent ⊕ RejectedEvent) :
    (match parsed with
      | .inl event => ({ result with events := result.events ++ [event] } : ParsedBatch)
      | .inr rejected => { result with rejected := result.rejected ++ [rejected] }).lines.Perm
      (result.lines ++ [parsed.elim line RejectedEvent.line]) := by
  cases parsed with
  | inl event =>
    simp only [ParsedBatch.lines, map_append, map_cons, map_nil, Sum.elim_inl, append_assoc]
    exact Perm.append_left _ perm_append_comm
  | inr rejected => simp [ParsedBatch.lines]

theorem parseLines_lines :
    ∀ (lines : List (List UInt8)) (line count : ℕ) (result batch : ParsedBatch),
      parseLines rt context line count lines result = .ok batch →
        batch.lines.Perm (result.lines ++ nonBlankLines line lines) := by
  intro lines
  induction lines with
  | nil =>
    intro line count result batch h
    obtain rfl : result = batch := by simpa [parseLines] using h
    simp [nonBlankLines]
  | cons bytes lines ih =>
    intro line count result batch h
    rw [parseLines] at h
    rw [nonBlankLines]
    split at h
    · next hblank =>
      rw [if_pos hblank]
      exact ih _ _ _ _ h
    · next hblank =>
      rw [if_neg hblank]
      split at h
      · cases h
      · have hadd := lines_add result (parseLine rt context (line + 1) bytes)
        rw [parseLine_line] at hadd
        have hjoin : ∀ result' : ParsedBatch, result'.lines.Perm (result.lines ++ [line + 1]) →
            batch.lines.Perm (result'.lines ++ nonBlankLines (line + 1) lines) →
              batch.lines.Perm (result.lines ++ (line + 1) :: nonBlankLines (line + 1) lines) := by
          intro result' h1 h2
          refine h2.trans ((h1.append_right _).trans ?_)
          rw [append_assoc, singleton_append]
        split at h
        · next event he =>
          rw [he] at hadd
          exact hjoin _ hadd (ih _ _ _ _ h)
        · next rejected he =>
          rw [he] at hadd
          exact hjoin _ hadd (ih _ _ _ _ h)

/-- **Every line that is not blank is an event or rejected, once.** -/
theorem parseBatch_lines {batch : ParsedBatch} (hbody : decodeBody rt body encoding = .ok decoded)
    (h : parseBatch rt body encoding context = .ok batch) :
    batch.lines.Perm (nonBlankLines 0 (splitLines decoded)) := by
  simp only [parseBatch, hbody, bind, Except.bind] at h
  have := parseLines_lines (splitLines decoded) 0 0 {} batch h
  simpa [ParsedBatch.lines] using this

/-! ### Conflicts within a batch -/

/-- The state of the first loop: what was submitted last under each id, and the conflicts. -/
def scanConflicts (events : List ValidEvent) : List (Str × String) × List Str :=
  events.foldl (fun acc e =>
    ((e.eventId, e.payloadHash) :: acc.1,
      if (acc.1.lookup e.eventId).any (· ≠ e.payloadHash) then e.eventId :: acc.2 else acc.2))
    ([], [])

theorem lookup_scanConflicts (events : List ValidEvent) :
    ∀ e ∈ events, e.eventId ∉ (scanConflicts events).2 →
      (scanConflicts events).1.lookup e.eventId = some e.payloadHash := by
  induction events using reverseRecOn with
  | nil => simp
  | append_singleton events x ih =>
    intro e he hnot
    rw [scanConflicts, foldl_append, foldl_cons, foldl_nil, ← scanConflicts]
      at hnot ⊢
    have hbefore : e.eventId ∉ (scanConflicts events).2 := by
      intro hmem
      refine hnot ?_
      dsimp only
      split
      · exact mem_cons_of_mem _ hmem
      · exact hmem
    rcases mem_append.mp he with he | he
    · have hlookup := ih e he hbefore
      by_cases hid : e.eventId = x.eventId
      · -- The same id once more: a different content would have been a conflict.
        have hsame : e.payloadHash = x.payloadHash := by
          by_contra hne
          refine hnot ?_
          rw [hid] at hlookup ⊢
          simp [hlookup, hne]
        simp [hid, hsame]
      · have hne : (e.eventId == x.eventId) = false := by simpa using hid
        simp [lookup_cons, hne, hlookup]
    · obtain rfl := mem_singleton.mp he
      simp

/-- An id without a conflict has one content in the batch. -/
theorem hash_eq_of_notMem_conflicts {e : ValidEvent} (he : e ∈ events) (he' : e' ∈ events)
    (hid : e.eventId = e'.eventId) (hnot : e.eventId ∉ conflicts events) :
    e.payloadHash = e'.payloadHash := by
  have h := lookup_scanConflicts events e he hnot
  have h' := lookup_scanConflicts events e' he' (hid ▸ hnot)
  rw [hid] at h
  exact Option.some.inj (h.symm.trans h')

/-! ### The second loop -/

/-- An event is taken: its id has one content in the batch, and no other content is stored. -/
def Takes (hashes : Str → Option String) (conflicting : List Str) (e : ValidEvent) : Prop :=
  e.eventId ∉ conflicting ∧ ∀ h ∈ hashes e.eventId, h = e.payloadHash

instance (hashes : Str → Option String) (conflicting : List Str) :
    DecidablePred (Takes hashes conflicting) := fun _ => instDecidableAnd

/-- The ids in the order of their first occurrence. -/
def pushNew (acked : List Str) (eventId : Str) : List Str :=
  if eventId ∈ acked then acked else acked ++ [eventId]

/-- **The invariant of the second loop**, after the events `done`. -/
structure Loop (hashes : Str → Option String) (conflicting : List Str)
    (rejected : List RejectedEvent) (done : List ValidEvent) (acc : Admitted) : Prop where
  hashes_eq : ∀ id, acc.hashes id =
    (hashes id).or ((acc.rows.find? (·.eventId = id)).map ValidEvent.payloadHash)
  rows : ∀ e ∈ acc.rows, e ∈ done ∧ Takes hashes conflicting e ∧ hashes e.eventId = none
  nodup : (acc.rows.map ValidEvent.eventId).Nodup
  taken : ∀ e ∈ done, Takes hashes conflicting e → acc.hashes e.eventId = some e.payloadHash
  accepted : acc.accepted = acc.rows.length
  addedBytes : acc.addedBytes = (acc.rows.map ValidEvent.byteLength).sum
  split : ∃ duplicates : List ValidEvent, acc.duplicate = duplicates.length ∧
    done.Perm (acc.rows ++ duplicates ++ done.filter fun e => ¬ Takes hashes conflicting e)
  rejected_eq : acc.rejected =
    rejected ++ (done.filter fun e => ¬ Takes hashes conflicting e).map eventIdConflict
  acked : acc.acked =
    ((done.filter fun e => Takes hashes conflicting e).map ValidEvent.eventId).foldl pushNew []

variable {hashes : Str → Option String} {conflicting : List Str} {rejected : List RejectedEvent}
  {done : List ValidEvent} {acc : Admitted} {e : ValidEvent}

theorem ack_acked (acc : Admitted) (eventId : Str) :
    acc.ack eventId = { acc with acked := pushNew acc.acked eventId } := by
  unfold Admitted.ack pushNew
  split
  · rfl
  · rfl

/-- The body of the loop rejects exactly the events that are not taken. -/
theorem Loop.rejects_iff (h : Loop hashes conflicting rejected done acc)
    (hsame : ∀ e' ∈ done, e'.eventId = e.eventId → e.eventId ∉ conflicting →
      e'.payloadHash = e.payloadHash) :
    (e.eventId ∈ conflicting || (acc.hashes e.eventId).any (· ≠ e.payloadHash)) = true ↔
      ¬ Takes hashes conflicting e := by
  rw [Bool.or_eq_true, decide_eq_true_iff, Takes, not_and_or, not_not]
  by_cases hc : e.eventId ∈ conflicting
  · simp [hc]
  · rw [h.hashes_eq]
    simp only [hc, false_or]
    cases hh : hashes e.eventId with
    | some old => simp
    | none =>
      -- Only an earlier event of the batch could differ, and it has the same content.
      simp only [Option.none_or, Option.not_mem_none, false_implies, implies_true, not_true,
        iff_false, Bool.not_eq_true, Option.any_map]
      cases hfind : acc.rows.find? (·.eventId = e.eventId) with
      | none => rfl
      | some e' =>
        have hid : e'.eventId = e.eventId := by simpa using find?_some hfind
        have hmem := (h.rows e' (mem_of_find?_eq_some hfind)).1
        simpa using hsame e' hmem hid hc

/-- What is left to show for one more event that is taken. -/
theorem Loop.filters_of_takes (ht : Takes hashes conflicting e) :
    ((done ++ [e]).filter fun e => Takes hashes conflicting e) =
        (done.filter fun e => Takes hashes conflicting e) ++ [e] ∧
      ((done ++ [e]).filter fun e => ¬ Takes hashes conflicting e) =
        done.filter fun e => ¬ Takes hashes conflicting e := by
  simp [filter_append, ht]

theorem Loop.reject (h : Loop hashes conflicting rejected done acc)
    (hnot : ¬ Takes hashes conflicting e) :
    Loop hashes conflicting rejected (done ++ [e])
      { acc with rejected := acc.rejected ++ [eventIdConflict e] } where
  hashes_eq := h.hashes_eq
  rows := fun e' he' => ⟨mem_append_left _ (h.rows e' he').1, (h.rows e' he').2⟩
  nodup := h.nodup
  taken := by
    intro e' he' ht
    rcases mem_append.mp he' with he' | he'
    · exact h.taken e' he' ht
    · exact absurd (mem_singleton.mp he' ▸ ht) hnot
  accepted := h.accepted
  addedBytes := h.addedBytes
  split := by
    obtain ⟨duplicates, hcount, hperm⟩ := h.split
    refine ⟨duplicates, hcount, ?_⟩
    rw [filter_append, ← append_assoc]
    simpa [hnot] using hperm.append_right [e]
  rejected_eq := by
    rw [h.rejected_eq, filter_append]
    simp [hnot]
  acked := by
    rw [h.acked, filter_append]
    simp [hnot]

/-- An event that is stored already, or was accepted before in the batch. -/
theorem Loop.duplicate (h : Loop hashes conflicting rejected done acc)
    (ht : Takes hashes conflicting e) (hhash : acc.hashes e.eventId = some e.payloadHash) :
    Loop hashes conflicting rejected (done ++ [e])
      { acc with duplicate := acc.duplicate + 1, acked := pushNew acc.acked e.eventId } where
  hashes_eq := h.hashes_eq
  rows := fun e' he' => ⟨mem_append_left _ (h.rows e' he').1, (h.rows e' he').2⟩
  nodup := h.nodup
  taken := by
    intro e' he' ht'
    rcases mem_append.mp he' with he' | he'
    · exact h.taken e' he' ht'
    · obtain rfl := mem_singleton.mp he'
      exact hhash
  accepted := h.accepted
  addedBytes := h.addedBytes
  split := by
    obtain ⟨duplicates, hcount, hperm⟩ := h.split
    refine ⟨duplicates ++ [e], by simp [hcount], ?_⟩
    rw [(filters_of_takes ht).2]
    refine (hperm.append_right [e]).trans ?_
    rw [append_assoc, ← append_assoc acc.rows duplicates [e], append_assoc (acc.rows ++ duplicates)]
    exact Perm.append_left _ perm_append_comm
  rejected_eq := by
    rw [(filters_of_takes ht).2]
    exact h.rejected_eq
  acked := by
    rw [(filters_of_takes ht).1, map_append, foldl_append, ← h.acked]
    rfl

theorem Loop.accept (h : Loop hashes conflicting rejected done acc)
    (ht : Takes hashes conflicting e) (hhash : acc.hashes e.eventId = none) :
    Loop hashes conflicting rejected (done ++ [e])
      { acc with
        hashes := Function.update acc.hashes e.eventId (some e.payloadHash)
        rows := acc.rows ++ [e]
        accepted := acc.accepted + 1
        addedBytes := acc.addedBytes + e.byteLength
        acked := pushNew acc.acked e.eventId } := by
  obtain ⟨hold, hrow⟩ : hashes e.eventId = none ∧
      acc.rows.find? (·.eventId = e.eventId) = none := by
    simpa [h.hashes_eq] using hhash
  have hfresh : ∀ e' ∈ acc.rows, e'.eventId ≠ e.eventId := by
    simpa using hrow
  refine ⟨?_, ?_, ?_, ?_, ?_, ?_, ?_, ?_, ?_⟩
  · intro id
    dsimp only
    by_cases hid : id = e.eventId
    · subst hid
      simp [hold, find?_append, hrow]
    · have hne : ¬ e.eventId = id := fun h => hid h.symm
      simp [Function.update_of_ne hid, h.hashes_eq, find?_append, hne]
  · intro e' he'
    rcases mem_append.mp he' with he' | he'
    · exact ⟨mem_append_left _ (h.rows e' he').1, (h.rows e' he').2⟩
    · obtain rfl := mem_singleton.mp he'
      exact ⟨by simp, ht, hold⟩
  · rw [map_append, nodup_append]
    refine ⟨h.nodup, by simp, ?_⟩
    intro id hid id' hid'
    obtain ⟨e', he', rfl⟩ := mem_map.mp hid
    obtain rfl : id' = e.eventId := by simpa using hid'
    exact hfresh e' he'
  · intro e' he' ht'
    rcases mem_append.mp he' with he' | he'
    · have hne : e'.eventId ≠ e.eventId := by
        intro heq
        have := h.taken e' he' ht'
        rw [heq, hhash] at this
        cases this
      dsimp only
      rw [Function.update_of_ne hne]
      exact h.taken e' he' ht'
    · obtain rfl := mem_singleton.mp he'
      simp
  · simp [h.accepted]
  · simp [h.addedBytes]
  · obtain ⟨duplicates, hcount, hperm⟩ := h.split
    refine ⟨duplicates, hcount, ?_⟩
    rw [(filters_of_takes ht).2]
    refine (hperm.append_right [e]).trans ?_
    simp only [append_assoc]
    refine Perm.append_left _ ?_
    rw [← append_assoc]
    exact perm_append_comm
  · rw [(filters_of_takes ht).2]
    exact h.rejected_eq
  · rw [(filters_of_takes ht).1, map_append, foldl_append, ← h.acked]
    rfl

theorem Loop.step (h : Loop hashes conflicting rejected done acc)
    (hsame : ∀ e' ∈ done, e'.eventId = e.eventId → e.eventId ∉ conflicting →
      e'.payloadHash = e.payloadHash) :
    Loop hashes conflicting rejected (done ++ [e]) (admitEvent conflicting acc e) := by
  have hiff := h.rejects_iff hsame
  unfold admitEvent
  split
  · next hreject => exact h.reject (hiff.mp hreject)
  · next hreject =>
    have ht : Takes hashes conflicting e := not_not.mp fun hnot => hreject (hiff.mpr hnot)
    have hsome : ∀ old ∈ acc.hashes e.eventId, old = e.payloadHash := by
      intro old hold
      by_contra hne
      refine hreject ?_
      rw [show acc.hashes e.eventId = some old from hold]
      simp [hne]
    rw [ack_acked, ack_acked]
    split
    · next hdup =>
      obtain ⟨old, hold⟩ := Option.isSome_iff_exists.mp hdup
      refine h.duplicate ht ?_
      rw [hold, hsome old hold]
    · next hnew => exact h.accept ht (by simpa using hnew)

/-- **The loop invariant at the end of the batch.** -/
theorem admitEvents_loop (hashes : Str → Option String) (batch : ParsedBatch) :
    Loop hashes (conflicts batch.events) batch.rejected batch.events
      (admitEvents hashes batch) := by
  have hloop : ∀ done todo, done ++ todo = batch.events → ∀ acc,
      Loop hashes (conflicts batch.events) batch.rejected done acc →
        Loop hashes (conflicts batch.events) batch.rejected batch.events
          (todo.foldl (admitEvent (conflicts batch.events)) acc) := by
    intro done todo
    induction todo generalizing done with
    | nil =>
      intro hall acc h
      rw [append_nil] at hall
      exact hall ▸ h
    | cons e todo ih =>
      intro hall acc h
      rw [foldl_cons]
      refine ih (done ++ [e]) (by simpa using hall) _ (h.step fun e' he' hid hnot => ?_)
      refine hash_eq_of_notMem_conflicts ?_ ?_ hid (hid ▸ hnot)
      · rw [← hall]
        exact mem_append_left _ he'
      · rw [← hall]
        simp
  refine hloop [] batch.events rfl _ ⟨?_, ?_, ?_, ?_, ?_, ?_, ?_, ?_, ?_⟩
  · simp
  · simp
  · simp
  · simp
  · rfl
  · rfl
  · exact ⟨[], rfl, by simp⟩
  · simp
  · simp

/-! ### The tables -/

variable {maxStoredBytes : ℕ} {s s' : Store} {batch : ParsedBatch} {clock : Clock}

def EventRow.job (row : EventRow) : JobRow :=
  { eventId := row.id, createdByUserId := row.createdByUserId }

def Store.eventBytes (s : Store) (userId : Str) : ℕ :=
  ((s.events.filter fun e => e.createdByUserId = userId).map EventRow.byteLength).sum

/-- **The invariant of the tables**: an owner's events have different ids, every event has its job,
in the same order, and the bytes are those of the events, within the budget. -/
structure Store.Consistent (maxStoredBytes : ℕ) (s : Store) : Prop where
  eventIds : s.events.Pairwise fun a b =>
    a.createdByUserId = b.createdByUserId → a.eventId ≠ b.eventId
  ids : (s.events.map EventRow.id).Nodup
  lt_nextId : ∀ e ∈ s.events, e.id < s.nextId
  jobs : s.jobs = s.events.map EventRow.job
  bytes : ∀ userId, s.storedBytes userId = s.eventBytes userId
  budget : ∀ userId, s.storedBytes userId ≤ maxStoredBytes

/-- What a transaction that succeeds does to the tables. -/
structure Stored (maxStoredBytes : ℕ) (context : IngestContext) (acc : Admitted) (s s' : Store) :
    Prop where
  events : s'.events = (s.insertRows context acc.rows).events
  jobs : s'.jobs = (s.insertRows context acc.rows).jobs
  nextId : s'.nextId = (s.insertRows context acc.rows).nextId
  bytes : s'.storedBytes context.userId = s.storedBytes context.userId + acc.addedBytes
  others : ∀ userId, userId ≠ context.userId → s'.storedBytes userId = s.storedBytes userId
  budget : s'.storedBytes context.userId ≤ maxStoredBytes

/-- The errors that have nothing to do with what a batch contains. -/
def refusals : List DataRequestError := [rateLimited, installationRevoked, epochRevoked]

/-- What the last statements of `persist` do: one of them throws, or what is admitted is stored. -/
theorem storeBatch_cases {t : Store} (hevents : t.events = s.events) (hjobs : t.jobs = s.jobs)
    (hnext : t.nextId = s.nextId) {requested : OwnerState}
    (howner : t.owner = Function.update s.owner context.userId (some requested))
    (batch : ParsedBatch) :
    (∃ e t', storeBatch maxStoredBytes (s.storedBytes context.userId) context batch t =
        (.error e, t') ∧
      (maxStoredBytes < s.storedBytes context.userId +
          (admitEvents (s.hash context.userId) batch).addedBytes ∨
        (admitEvents (s.hash context.userId) batch).rows ≠ [])) ∨
    ∃ t', storeBatch maxStoredBytes (s.storedBytes context.userId) context batch t =
        (.ok (admitEvents (s.hash context.userId) batch).result, t') ∧
      Stored maxStoredBytes context (admitEvents (s.hash context.userId) batch) s t' := by
  have hhash : t.hash context.userId = s.hash context.userId := by
    funext id
    simp [Store.hash, hevents]
  unfold storeBatch
  rw [hhash]
  dsimp only
  split
  · next hbudget => exact Or.inl ⟨_, _, rfl, Or.inl hbudget⟩
  · next hbudget =>
    split
    · next hany =>
      refine Or.inl ⟨_, _, rfl, Or.inr fun hnil => ?_⟩
      rw [hnil] at hany
      simp at hany
    · refine Or.inr ⟨_, rfl, ?_, ?_, ?_, ?_, ?_, ?_⟩
      · simp [Store.insertRows, hevents, hnext]
      · simp [Store.insertRows, hjobs, hnext]
      · simp [Store.insertRows, hnext]
      · simp [Store.storedBytes, howner]
      · intro userId hne
        simp [Store.storedBytes, howner, hne]
      · have : s.storedBytes context.userId +
            (admitEvents (s.hash context.userId) batch).addedBytes ≤ maxStoredBytes :=
          not_lt.mp hbudget
        simpa [Store.storedBytes, howner] using this

/-- **What `persist` does.** It throws and changes nothing, whether the owner or the source is
refused, the budget does not suffice or the database throws; or it stores what is admitted. -/
theorem persist_cases (maxStoredBytes : ℕ) (clock : Clock) (context : IngestContext)
    (batch : ParsedBatch) (s : Store) :
    (∃ e, persist maxStoredBytes clock context batch s = (.error e, s) ∧
      ((∃ refusal ∈ refusals, e = .request refusal) ∨
        maxStoredBytes < s.storedBytes context.userId +
          (admitEvents (s.hash context.userId) batch).addedBytes ∨
        (admitEvents (s.hash context.userId) batch).rows ≠ [])) ∨
    ∃ t, persist maxStoredBytes clock context batch s =
        (.ok (admitEvents (s.hash context.userId) batch).result, t) ∧
      Stored maxStoredBytes context (admitEvents (s.hash context.userId) batch) s t := by
  have hstate : ((s.owner context.userId).getD { requestWindowAt := clock.dbNow }).storedBytes =
      s.storedBytes context.userId := by
    unfold Store.storedBytes
    cases s.owner context.userId with
    | none | some state => rfl
  unfold persist transaction persistBody
  dsimp only
  cases ((s.owner context.userId).getD { requestWindowAt := clock.dbNow }).request clock.now with
  | none => exact Or.inl ⟨_, rfl, Or.inl ⟨rateLimited, by simp [refusals], rfl⟩⟩
  | some requested =>
    dsimp only
    split_ifs
    · exact Or.inl ⟨_, rfl, Or.inl ⟨installationRevoked, by simp [refusals], rfl⟩⟩
    · exact Or.inl ⟨_, rfl, Or.inl ⟨epochRevoked, by simp [refusals], rfl⟩⟩
    · rw [hstate]
      rcases storeBatch_cases (s := s)
        (t := ((s.setOwner context.userId requested).registerInstallation context).registerEpoch
          context) rfl rfl rfl rfl batch with ⟨e, t, h, hwhy⟩ | ⟨t, h, hstored⟩
      · rw [h]
        exact Or.inl ⟨e, rfl, Or.inr hwhy⟩
      · rw [h]
        exact Or.inr ⟨t, rfl, hstored⟩

/-! ### What is stored, and what stays stored -/

def inserted (s : Store) (context : IngestContext) (rows : List ValidEvent) : List EventRow :=
  (rows.zipIdx s.nextId).map fun (e, id) => EventRow.ofValid context e id

theorem mem_inserted (h : row ∈ inserted s context rows) :
    ∃ e ∈ rows, ∃ id, s.nextId ≤ id ∧ id < s.nextId + rows.length ∧
      row = EventRow.ofValid context e id := by
  obtain ⟨⟨e, id⟩, hmem, rfl⟩ := mem_map.mp h
  have hmem' := mem_zipIdx hmem
  exact ⟨e, by rw [hmem'.2.2]; exact getElem_mem _, id, hmem'.1, hmem'.2.1, rfl⟩

theorem inserted_ids (rows : List ValidEvent) :
    (inserted s context rows).map EventRow.id = range' s.nextId rows.length := by
  rw [inserted, map_map, ← zipIdx_map_snd]
  rfl

variable (s context) in
theorem inserted_eventIds (rows : List ValidEvent) :
    (inserted s context rows).map EventRow.eventId = rows.map eventId := by
  have : (EventRow.eventId ∘ fun p : ValidEvent × ℕ => EventRow.ofValid context p.1 p.2) =
      eventId ∘ Prod.fst := rfl
  rw [inserted, map_map, this, ← map_map, zipIdx_map_fst]

theorem inserted_byteLengths (rows : List ValidEvent) :
    (inserted s context rows).map EventRow.byteLength = rows.map byteLength := by
  have : (EventRow.byteLength ∘ fun p : ValidEvent × ℕ => EventRow.ofValid context p.1 p.2) =
      byteLength ∘ Prod.fst := rfl
  rw [inserted, map_map, this, ← map_map, zipIdx_map_fst]

variable (context) in
theorem hash_inserted (rows : List ValidEvent) (n : ℕ) (id : Str) :
    (((rows.zipIdx n).map fun (e, id) => EventRow.ofValid context e id).find?
        fun e => e.createdByUserId = context.userId && e.eventId = id).map EventRow.payloadHash =
      (rows.find? (·.eventId = id)).map payloadHash := by
  induction rows generalizing n with
  | nil => rfl
  | cons e rows ih =>
    by_cases hid : e.eventId = id
    · simp [zipIdx_cons, EventRow.ofValid, hid]
    · simpa [zipIdx_cons, EventRow.ofValid, hid] using ih (n + 1)

theorem Stored.hash (h : Stored maxStoredBytes context acc s s')
    (hloop : Loop (s.hash context.userId) conflicting rejected done acc) (id : Str) :
    s'.hash context.userId id = acc.hashes id := by
  rw [hloop.hashes_eq, Store.hash, h.events, ← hash_inserted context acc.rows s.nextId]
  simp only [Store.insertRows, find?_append, Store.hash]
  cases s.events.find? fun e =>
      decide (e.createdByUserId = context.userId) && decide (e.eventId = id) with
  | none | some row => rfl

/-- What an upload does: it throws and changes nothing, or it stores what is admitted. -/
theorem upload_cases (rt : Runtime) (maxStoredBytes : ℕ) (request : Request) (clock : Clock)
    (s : Store) :
    (∃ e, upload rt maxStoredBytes request clock s = (.error e, s)) ∨
    ∃ batch t, parseBatch rt request.body request.encoding request.context = .ok batch ∧
      upload rt maxStoredBytes request clock s =
        (.ok (admitEvents (s.hash request.context.userId) batch).result, t) ∧
      Stored maxStoredBytes request.context
        (admitEvents (s.hash request.context.userId) batch) s t := by
  unfold upload
  split
  · next e _ => exact Or.inl ⟨.request e, rfl⟩
  · next batch hparse =>
    rcases persist_cases maxStoredBytes clock request.context batch s with
      ⟨e, hpersist, -⟩ | ⟨t, hpersist, hstored⟩
    · exact Or.inl ⟨e, hpersist⟩
    · exact Or.inr ⟨batch, t, hparse, hpersist, hstored⟩

theorem events_prefix_step (act : Act) : s.events <+: (step rt maxStoredBytes s act).events := by
  cases act with
  | sources installation epoch => exact prefix_rfl
  | upload request clock =>
    rw [step]
    rcases upload_cases rt maxStoredBytes request clock s with
      ⟨e, hupload⟩ | ⟨batch, t, -, hupload, hstored⟩
    · exact hupload.symm ▸ prefix_rfl
    · rw [hupload, hstored.events]
      exact prefix_append _ _

theorem events_prefix_run (acts : List Act) :
    s.events <+: (run rt maxStoredBytes acts s).events := by
  induction acts generalizing s with
  | nil => exact prefix_rfl
  | cons act acts ih => exact (events_prefix_step act).trans ih

theorem hash_mono {id : Str} (hp : s.events <+: s'.events) (hs : s.hash userId id = some h) :
    s'.hash userId id = some h := by
  obtain ⟨rest, hrest⟩ := hp
  unfold Store.hash at hs ⊢
  obtain ⟨row, hfind, rfl⟩ := Option.map_eq_some_iff.mp hs
  rw [← hrest, find?_append, hfind]
  rfl

/-! ### The tables stay consistent -/

theorem consistent_empty : ({} : Store).Consistent maxStoredBytes where
  eventIds := Pairwise.nil
  ids := nodup_nil
  lt_nextId := by simp
  jobs := rfl
  bytes := fun _ => rfl
  budget := fun _ => Nat.zero_le _

theorem Stored.consistent (h : Stored maxStoredBytes context acc s s')
    (hs : s.Consistent maxStoredBytes)
    (hloop : Loop (s.hash context.userId) conflicting rejected done acc) :
    s'.Consistent maxStoredBytes := by
  have hevents : s'.events = s.events ++ inserted s context acc.rows := h.events
  have hnew : ∀ row ∈ inserted s context acc.rows, row.createdByUserId = context.userId ∧
      s.nextId ≤ row.id ∧ row.id < s.nextId + acc.rows.length ∧
      s.hash context.userId row.eventId = none := by
    intro row hrow
    obtain ⟨e, he, id, hge, hlt, rfl⟩ := mem_inserted hrow
    exact ⟨rfl, hge, hlt, (hloop.rows e he).2.2⟩
  have hinserted : (inserted s context acc.rows).Pairwise fun a b => a.eventId ≠ b.eventId := by
    have := hloop.nodup
    rw [← inserted_eventIds context s] at this
    exact pairwise_map.mp this
  refine ⟨?_, ?_, ?_, ?_, ?_, ?_⟩
  · rw [hevents, pairwise_append]
    refine ⟨hs.eventIds, ?_, ?_⟩
    · refine hinserted.imp ?_
      intro a b hne _
      exact hne
    · -- An id that was stored for the owner is no new row's.
      intro old hold row hrow howner hid
      obtain ⟨hmine, -, -, hnone⟩ := hnew row hrow
      have := find?_eq_none.mp (Option.map_eq_none_iff.mp hnone) old hold
      simp [howner, hmine, hid] at this
  · rw [hevents, map_append, nodup_append, inserted_ids]
    refine ⟨hs.ids, nodup_range', ?_⟩
    intro id hid id' hid' heq
    obtain ⟨old, hold, rfl⟩ := mem_map.mp hid
    have := hs.lt_nextId old hold
    have := (mem_range'_1.mp hid').1
    omega
  · intro row hrow
    rw [h.nextId]
    rw [hevents] at hrow
    change row.id < s.nextId + acc.rows.length
    rcases mem_append.mp hrow with hrow | hrow
    · have := hs.lt_nextId row hrow
      omega
    · exact (hnew row hrow).2.2.1
  · rw [h.jobs, hevents, map_append, ← hs.jobs]
    rfl
  · intro userId
    have hsplit : s'.eventBytes userId = s.eventBytes userId +
        (((inserted s context acc.rows).filter fun e => e.createdByUserId = userId).map
          EventRow.byteLength).sum := by
      simp [Store.eventBytes, hevents, filter_append]
    rw [hsplit]
    by_cases hu : userId = context.userId
    · subst hu
      have hall : ((inserted s context acc.rows).filter
          fun e => e.createdByUserId = context.userId) = inserted s context acc.rows := by
        rw [filter_eq_self]
        intro row hrow
        simp [(hnew row hrow).1]
      rw [h.bytes, hs.bytes, hall, inserted_byteLengths, hloop.addedBytes]
    · have hnone : ((inserted s context acc.rows).filter
          fun e => e.createdByUserId = userId) = [] := by
        rw [filter_eq_nil_iff]
        intro row hrow
        simp [(hnew row hrow).1, Ne.symm hu]
      rw [h.others userId hu, hs.bytes, hnone]
      rfl
  · intro userId
    by_cases hu : userId = context.userId
    · subst hu
      exact h.budget
    · rw [h.others userId hu]
      exact hs.budget userId

theorem Store.Consistent.step (hs : s.Consistent maxStoredBytes) (act : Act) :
    (step rt maxStoredBytes s act).Consistent maxStoredBytes := by
  cases act with
  | sources installation epoch => exact ⟨hs.1, hs.2, hs.3, hs.4, hs.5, hs.6⟩
  | upload request clock =>
    rw [Batch.step]
    rcases upload_cases rt maxStoredBytes request clock s with
      ⟨e, hupload⟩ | ⟨batch, t, -, hupload, hstored⟩
    · rw [hupload]
      exact hs
    · rw [hupload]
      exact hstored.consistent hs (admitEvents_loop _ batch)

/-- **Every run keeps the tables consistent.** -/
theorem Store.Consistent.run (hs : s.Consistent maxStoredBytes) (acts : List Act) :
    (run rt maxStoredBytes acts s).Consistent maxStoredBytes := by
  induction acts generalizing s with
  | nil => exact hs
  | cons act acts ih => exact ih (hs.step act)

/-! ### One upload, in any run -/

/-- Every line of the request that is not blank is accepted, a duplicate or rejected, once: the
accepted ones are the events that are new in the tables. -/
def Accounted (rt : Runtime) (request : Request) (result : BatchResult) (s s' : Store) : Prop :=
  ∃ (decoded : List UInt8) (accepted duplicates : List ValidEvent),
    decodeBody rt request.body request.encoding = .ok decoded ∧
    result.accepted_count = accepted.length ∧ result.duplicate_count = duplicates.length ∧
    s'.events = s.events ++ inserted s request.context accepted ∧
    (nonBlankLines 0 (splitLines decoded)).Nodup ∧
    (accepted.map ValidEvent.line ++ duplicates.map ValidEvent.line ++
      result.rejected.map RejectedEvent.line).Perm (nonBlankLines 0 (splitLines decoded))

/-- Every id that is acknowledged is stored for the owner, with the content that the request has
under that id. -/
def Acknowledged (rt : Runtime) (request : Request) (result : BatchResult) (s' : Store) : Prop :=
  ∃ batch, parseBatch rt request.body request.encoding request.context = .ok batch ∧
    ∀ id ∈ result.acked_event_ids, ∃ row ∈ s'.events,
      row.createdByUserId = request.context.userId ∧ row.eventId = id ∧
      (∃ e ∈ batch.events, e.eventId = id) ∧
      ∀ e ∈ batch.events, e.eventId = id → e.payloadHash = row.payloadHash

/-- The tables hold the same events, jobs and byte counts. -/
def SameData (s s' : Store) : Prop :=
  s'.events = s.events ∧ s'.jobs = s.jobs ∧ ∀ userId, s'.storedBytes userId = s.storedBytes userId

/-- Sent again in a later state, the request is refused as any request would be, or acknowledges the
same ids; it stores nothing. -/
def ResendsAs (rt : Runtime) (maxStoredBytes : ℕ) (request : Request) (result : BatchResult)
    (s : Store) : Prop :=
  ∀ clock, SameData s (upload rt maxStoredBytes request clock s).2 ∧
    ((∃ refusal ∈ refusals,
        (upload rt maxStoredBytes request clock s).1 = .error (.request refusal)) ∨
      ∃ result', (upload rt maxStoredBytes request clock s).1 = .ok result' ∧
        result'.acked_event_ids = result.acked_event_ids ∧ result'.accepted_count = 0)

theorem mem_foldl_pushNew {id : Str} :
    ∀ (ids acked : List Str), id ∈ ids.foldl pushNew acked ↔ id ∈ acked ∨ id ∈ ids := by
  intro ids
  induction ids with
  | nil => simp
  | cons i ids ih =>
    intro acked
    rw [foldl_cons, ih, pushNew]
    split
    · next hi =>
      constructor
      · rintro (h | h)
        · exact Or.inl h
        · exact Or.inr (mem_cons_of_mem _ h)
      · rintro (h | h)
        · exact Or.inl h
        · rcases mem_cons.mp h with rfl | h
          · exact Or.inl hi
          · exact Or.inr h
    · simp [or_assoc]

theorem Loop.mem_acked (h : Loop hashes conflicting rejected done acc) {id : Str} :
    id ∈ acc.acked ↔ ∃ e ∈ done, Takes hashes conflicting e ∧ e.eventId = id := by
  rw [h.acked, mem_foldl_pushNew]
  simp [and_assoc]

variable {request : Request}

theorem Stored.accounted (hs : Stored maxStoredBytes request.context acc s s')
    (hparse : parseBatch rt request.body request.encoding request.context = .ok batch)
    (hloop : Loop (s.hash request.context.userId) conflicting batch.rejected batch.events acc) :
    Accounted rt request acc.result s s' := by
  obtain ⟨decoded, hbody⟩ :
      ∃ decoded, decodeBody rt request.body request.encoding = .ok decoded := by
    cases hbody : decodeBody rt request.body request.encoding with
    | error e => simp [parseBatch, hbody, bind, Except.bind] at hparse
    | ok decoded => exact ⟨decoded, rfl⟩
  obtain ⟨duplicates, hcount, hsplit⟩ := hloop.split
  refine ⟨decoded, acc.rows, duplicates, hbody, hloop.accepted, hcount, hs.events,
    nodup_nonBlankLines _ 0, ?_⟩
  refine Perm.trans ?_ (parseBatch_lines hbody hparse)
  have hrejected : (acc.result.rejected.map RejectedEvent.line).Perm
      (batch.rejected.map RejectedEvent.line ++ (batch.events.filter fun e =>
        ¬ Takes (s.hash request.context.userId) conflicting e).map line) := by
    refine ((mergeSort_perm _ _).map _).trans ?_
    rw [hloop.rejected_eq, map_append, map_map]
    exact List.Perm.refl _
  have hevents := hsplit.map line
  simp only [map_append] at hevents
  refine (Perm.append_left _ (hrejected.trans perm_append_comm)).trans ?_
  rw [ParsedBatch.lines, ← append_assoc]
  exact hevents.symm.append_right _

theorem Stored.acknowledged (hs : Stored maxStoredBytes request.context acc s s')
    (hparse : parseBatch rt request.body request.encoding request.context = .ok batch)
    (hloop : Loop (s.hash request.context.userId) (conflicts batch.events) batch.rejected
      batch.events acc) : Acknowledged rt request acc.result s' := by
  refine ⟨batch, hparse, fun id hid => ?_⟩
  obtain ⟨e, he, htakes, rfl⟩ := hloop.mem_acked.mp hid
  have hhash : s'.hash request.context.userId e.eventId = some e.payloadHash :=
    (hs.hash hloop _).trans (hloop.taken e he htakes)
  obtain ⟨row, hfind, hrow⟩ := Option.map_eq_some_iff.mp hhash
  have hmatch := find?_some hfind
  simp only [Bool.and_eq_true, decide_eq_true_eq] at hmatch
  refine ⟨row, mem_of_find?_eq_some hfind, hmatch.1, hmatch.2, ⟨e, he, rfl⟩, ?_⟩
  intro e' he' hid'
  rw [hrow]
  exact (hash_eq_of_notMem_conflicts he he' hid'.symm htakes.1).symm

/-- In a later state the same events of the batch are taken, and none of them is new. -/
theorem Stored.takes_iff (hs : Stored maxStoredBytes context acc s s')
    (hloop : Loop (s.hash context.userId) conflicting rejected done acc) {t : Store}
    (hp : s'.events <+: t.events) (hps : s.events <+: s'.events) (he : e ∈ done) :
    (Takes (t.hash context.userId) conflicting e ↔ Takes (s.hash context.userId) conflicting e) ∧
      (Takes (s.hash context.userId) conflicting e →
        t.hash context.userId e.eventId = some e.payloadHash) := by
  have hstored : Takes (s.hash context.userId) conflicting e →
      t.hash context.userId e.eventId = some e.payloadHash := by
    intro htakes
    exact hash_mono hp ((hs.hash hloop _).trans (hloop.taken e he htakes))
  refine ⟨⟨?_, ?_⟩, hstored⟩
  · rintro ⟨hnot, hsame⟩
    exact ⟨hnot, fun h hh => hsame h (hash_mono (hps.trans hp) hh)⟩
  · intro htakes
    refine ⟨htakes.1, fun h hh => ?_⟩
    exact Option.some.inj (hh.symm.trans (hstored htakes))

theorem Stored.resendsAs (hs : Stored maxStoredBytes request.context acc s s')
    (hparse : parseBatch rt request.body request.encoding request.context = .ok batch)
    (hloop : Loop (s.hash request.context.userId) (conflicts batch.events) batch.rejected
      batch.events acc) {t : Store} (hp : s'.events <+: t.events)
    (ht : t.Consistent maxStoredBytes) : ResendsAs rt maxStoredBytes request acc.result t := by
  intro clock
  have hps : s.events <+: s'.events := by
    rw [hs.events]
    exact prefix_append _ _
  have hagain := admitEvents_loop (t.hash request.context.userId) batch
  have hrows : (admitEvents (t.hash request.context.userId) batch).rows = [] := by
    rw [eq_nil_iff_forall_not_mem]
    intro e he
    obtain ⟨hmem, htakes, hnone⟩ := hagain.rows e he
    obtain ⟨hiff, hstored⟩ := hs.takes_iff hloop hp hps hmem
    rw [hstored (hiff.mp htakes)] at hnone
    cases hnone
  have hbytes : (admitEvents (t.hash request.context.userId) batch).addedBytes = 0 := by
    rw [hagain.addedBytes, hrows]
    rfl
  have hacked : (admitEvents (t.hash request.context.userId) batch).acked = acc.acked := by
    rw [hagain.acked, hloop.acked]
    congr 2
    refine filter_congr fun e he => ?_
    rw [decide_eq_decide]
    exact (hs.takes_iff hloop hp hps he).1
  have hupload : upload rt maxStoredBytes request clock t =
      persist maxStoredBytes clock request.context batch t := by
    rw [upload, hparse]
  rw [hupload]
  rcases persist_cases maxStoredBytes clock request.context batch t with
    ⟨e, hpersist, ⟨refusal, href, rfl⟩ | hbudget | hrow⟩ | ⟨t', hpersist, hstored⟩
  · rw [hpersist]
    exact ⟨⟨rfl, rfl, fun _ => rfl⟩, Or.inl ⟨refusal, href, rfl⟩⟩
  · have := ht.budget request.context.userId
    omega
  · exact absurd hrows hrow
  · rw [hpersist]
    refine ⟨⟨?_, ?_, fun userId => ?_⟩, Or.inr ⟨_, rfl, hacked, ?_⟩⟩
    · rw [hstored.events, hrows]
      simp [Store.insertRows]
    · rw [hstored.jobs, hrows]
      simp [Store.insertRows]
    · by_cases hu : userId = request.context.userId
      · subst hu
        rw [hstored.bytes, hbytes]
        rfl
      · exact hstored.others userId hu
    · rw [Admitted.result, hagain.accepted, hrows]
      rfl

theorem filter_id_eq_singleton {e : EventRow} :
    ∀ {events : List EventRow}, (events.map EventRow.id).Nodup → e ∈ events →
      events.filter (fun row => row.id = e.id) = [e] := by
  intro events
  induction events with
  | nil => simp
  | cons row events ih =>
    intro hnd hmem
    obtain ⟨hrow, hnd⟩ := nodup_cons.mp hnd
    rcases mem_cons.mp hmem with rfl | hmem
    · rw [filter_cons_of_pos (by simp), filter_eq_nil_iff.mpr]
      intro other hother
      have : other.id ≠ e.id := fun heq => hrow (heq ▸ mem_map_of_mem hother)
      simpa using this
    · have hne : row.id ≠ e.id := fun heq => hrow (heq ▸ mem_map_of_mem hmem)
      rw [filter_cons_of_neg (by simpa using hne)]
      exact ih hnd hmem

theorem Store.Consistent.job (hs : s.Consistent maxStoredBytes) {e : EventRow}
    (he : e ∈ s.events) : s.jobs.filter (fun job => job.eventId = e.id) = [e.job] := by
  have hcomp : ((fun job : JobRow => decide (job.eventId = e.id)) ∘ EventRow.job) =
      fun row => decide (row.id = e.id) := rfl
  rw [hs.jobs, filter_map, hcomp, filter_id_eq_singleton hs.ids he]
  rfl

/-- **Ingest is exactly once.** After any run, an upload leaves an owner's event ids different, with
one job for each event and the byte count that the events add up to. If it succeeds, every line is
accounted for once, the ids it acknowledges are stored with the content that was sent, and sent
again at any later time it acknowledges the same and stores nothing. If it throws, nothing has
changed. -/
theorem upload_exactly_once (rt : Runtime) (maxStoredBytes : ℕ) (acts : List Act)
    (request : Request) (clock : Clock) :
    let s := run rt maxStoredBytes acts {}
    let s' := (upload rt maxStoredBytes request clock s).2
    (s'.events.Pairwise fun a b => a.createdByUserId = b.createdByUserId → a.eventId ≠ b.eventId) ∧
    (∀ e ∈ s'.events, s'.jobs.filter (fun job => job.eventId = e.id) = [e.job]) ∧
    (∀ userId, s'.storedBytes userId = s'.eventBytes userId) ∧
    match (upload rt maxStoredBytes request clock s).1 with
    | .ok result =>
      Accounted rt request result s s' ∧ Acknowledged rt request result s' ∧
        ∀ later : List Act,
          ResendsAs rt maxStoredBytes request result (run rt maxStoredBytes later s')
    | .error _ => SameData s s' := by
  intro s s'
  have hs : s.Consistent maxStoredBytes := consistent_empty.run acts
  have hs' : s'.Consistent maxStoredBytes := hs.step (.upload request clock)
  refine ⟨hs'.eventIds, fun e he => hs'.job he, hs'.bytes, ?_⟩
  rcases upload_cases rt maxStoredBytes request clock s with
    ⟨e, hupload⟩ | ⟨batch, t, hparse, hupload, hstored⟩
  · have ht : s' = s := congrArg Prod.snd hupload
    rw [hupload, ht]
    exact ⟨rfl, rfl, fun _ => rfl⟩
  · have ht : s' = t := congrArg Prod.snd hupload
    have hloop := admitEvents_loop (s.hash request.context.userId) batch
    rw [hupload, ht]
    refine ⟨hstored.accounted hparse hloop, hstored.acknowledged hparse hloop, fun later => ?_⟩
    exact hstored.resendsAs hparse hloop (events_prefix_run later) ((ht ▸ hs').run later)

end Batch

end Bud.PersonalData
