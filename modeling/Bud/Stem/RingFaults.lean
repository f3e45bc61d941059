import Bud.Stem.RingRefinement

/-!
# A ring whose writes stop part-way

`RingFile::append` writes the data in place, one or two spans, and only then the header. Either
write may return an error, and the process may be killed between any two of them: the file is then
left with a *prefix* of the bytes the append would have written. This module asks what the ring
still promises there, both to the process that saw the error (whose counters are in memory) and to
a process that opens the file again (whose counters come from the header).

The budget of a write is the number of bytes that reach the file. A `write_all` that the budget
does not cover writes what it covers and fails; `?` then leaves the function with the fields as they
are. The two-part write of a wrapped chunk and the header rewrite are all cut in this way, at every
byte, so a torn header (`nextOffset` new up to some byte, old from there) is among the cases.

## What is load-bearing

Eviction. An append that evicts nothing writes only slots that no counter, old, new or torn, calls
retained. One that evicts writes over bytes that the old counters still name: between its first
byte and the end of its header those counters promise bytes that are gone.
-/

namespace Bud.Ring

open Slice LittleEndian List RingFile Retained ByteFile

/-! ### Writes with a budget -/

/-- `write_all` at `pos` when `budget` more bytes reach the file: what the file holds then, and what
is left of the budget, or `none` for an error. -/
def writeAll (file : List UInt8) (pos : ℕ) (bs : List UInt8) (budget : ℕ) :
    List UInt8 × Option ℕ :=
  if bs.length ≤ budget then (ByteFile.writeAt file pos bs, some (budget - bs.length))
  else (ByteFile.writeAt file pos (bs.take budget), none)

namespace RingFile

/-- The write loop of `append`, left by `?` at the first span the budget does not cover. -/
def writeSpansUpTo (cap : ℕ) :
    ℕ → List UInt8 → ℕ → List UInt8 → ℕ → List UInt8 × Option ℕ
  | _, file, _, [], budget => (file, some budget)
  | 0, file, _, _ :: _, _ => (file, none)
  | fuel + 1, file, phys, rest, budget =>
    let span := min (cap - phys) rest.length
    match writeAll file (headerLen + phys) (rest.take span) budget with
    | (file, none) => (file, none)
    | (file, some budget) => writeSpansUpTo cap fuel file 0 (rest.drop span) budget

def writeHeaderUpTo (r : RingFile) (budget : ℕ) : RingFile × Bool :=
  let (file, left) := writeAll r.file 0 r.header budget
  ({ r with file := file }, left.isSome)

/-- `append` when `budget` bytes reach the file: the ring as it is in memory on return, with what
its file holds, and whether the call returned `Ok(())`. -/
def appendUpTo (r : RingFile) (bytes : List UInt8) (budget : ℕ) : RingFile × Bool :=
  let n := bytes.length
  if n = 0 then (r, true)
  else if 0 < r.cap then
    let keep := min n r.cap
    let src := bytes.drop (n - keep)
    let startLogical := r.nextOffset + (n - keep)
    match writeSpansUpTo r.cap src.length r.file (startLogical % r.cap) src budget with
    -- the counters are only touched after the loop
    | (file, none) => ({ r with file := file }, false)
    | (file, some budget) =>
      writeHeaderUpTo
        { r with file := file, len := min (r.len + n) r.cap, nextOffset := r.nextOffset + n } budget
  else
    writeHeaderUpTo { r with nextOffset := r.nextOffset + n } budget

theorem writeSpansUpTo_succ (cap fuel : ℕ) (file : List UInt8) (phys : ℕ) (hrest : rest ≠ [])
    (budget : ℕ) :
    writeSpansUpTo cap (fuel + 1) file phys rest budget =
      match writeAll file (headerLen + phys) (rest.take (min (cap - phys) rest.length)) budget with
      | (file, none) => (file, none)
      | (file, some budget) =>
        writeSpansUpTo cap fuel file 0 (rest.drop (min (cap - phys) rest.length)) budget := by
  obtain ⟨b, bs, rfl⟩ := exists_cons_of_ne_nil hrest
  rfl

end RingFile

/-! ### The write loop, cut -/

variable {cap k : ℕ} {S : List UInt8}

/-- The loop with a budget leaves the file as the loop on the bytes the budget covers does. -/
theorem writeSpansUpTo_eq : ∀ (fuel : ℕ) {file : List UInt8} {phys : ℕ}
    {rest : List UInt8} {budget : ℕ}, headerLen + phys ≤ file.length → phys < cap →
    rest.length ≤ fuel → ∀ {file' : List UInt8},
    writeSpans cap fuel file phys (rest.take budget) = some file' →
    writeSpansUpTo cap fuel file phys rest budget =
      (file', if rest.length ≤ budget then some (budget - rest.length) else none) := by
  intro fuel
  induction fuel with
  | zero =>
    intro file phys rest budget _ _ hfuel file' h
    obtain rfl : rest = [] := length_eq_zero_iff.mp (by omega)
    rw [take_nil, writeSpans_nil] at h
    cases h
    rfl
  | succ fuel ih =>
    intro file phys rest budget hlen hphys hfuel file' h
    rcases eq_or_ne rest [] with rfl | hrest
    · rw [take_nil, writeSpans_nil] at h
      cases h
      rfl
    have hpos : 0 < rest.length := length_pos_iff.mpr hrest
    rw [writeSpansUpTo_succ _ _ _ _ hrest]
    set span := min (cap - phys) rest.length with hspan
    have htake : (rest.take span).length = span := by rw [length_take]; omega
    have hdrop : (rest.drop span).length = rest.length - span := length_drop ..
    by_cases hcover : span ≤ budget
    · -- the whole span reaches the file, and the loop goes on with the rest of the budget
      have hne : rest.take budget ≠ [] := by
        rw [← length_pos_iff, length_take]
        omega
      have hspan' : min (cap - phys) (rest.take budget).length = span := by
        rw [length_take]
        omega
      rw [writeSpans_succ _ _ _ _ hne, hspan', take_take, Nat.min_eq_left hcover,
        drop_take] at h
      rw [writeAll, if_pos (by omega), htake]
      have hlen' : headerLen + 0 ≤
          (writeAt file (headerLen + phys) (rest.take span)).length := by
        simp only [writeAt, length_append, length_take]
        omega
      simp only [ih hlen' (by omega) (by omega) h, hdrop]
      congr 1
      by_cases hall : rest.length ≤ budget
      · rw [if_pos (by omega), if_pos hall]
        congr 1
        omega
      · rw [if_neg (by omega), if_neg hall]
    · rw [writeAll, if_neg (by omega), if_neg (by omega), take_take,
        Nat.min_eq_left (by omega)]
      rcases Nat.eq_zero_or_pos budget with rfl | hb
      · rw [take_zero, writeSpans_nil] at h
        cases h
        rw [take_zero, writeAt_nil hlen]
      · have hne : rest.take budget ≠ [] := by
          rw [← length_pos_iff, length_take]
          omega
        have hspan' : min (cap - phys) (rest.take budget).length = budget := by
          rw [length_take]
          omega
        rw [writeSpans_succ _ _ _ _ hne, hspan', take_take, Nat.min_self,
          drop_take, Nat.sub_self, take_zero, writeSpans_nil] at h
        cases h
        rfl

/-- **The write loop, cut.** The bytes the budget covers are in their slots, and nothing else has
changed. -/
theorem writeSpansUpTo_spec {fuel phys budget : ℕ} {file rest : List UInt8}
    (hlen : file.length = headerLen + cap) (hphys : phys < cap) (hrest : rest.length ≤ cap)
    (hfuel : rest.length ≤ fuel) : ∃ file', writeSpansUpTo cap fuel file phys rest budget =
        (file', if rest.length ≤ budget then some (budget - rest.length) else none) ∧
      Wrote cap file file' phys (rest.take budget) := by
  have hle : (rest.take budget).length ≤ rest.length := length_take_le' _ _
  obtain ⟨file', heq, hw⟩ := writeSpans_spec fuel file phys (rest.take budget) hlen hphys
    (by omega) (by omega)
  exact ⟨file', writeSpansUpTo_eq fuel (by omega) hphys hfuel heq, hw⟩

/-! ### What a ring still promises -/

/-- Everything `q` claims to retain reads back as the byte of `S` at its offset. -/
def Faithful (q : RingFile) (S : List UInt8) : Prop :=
  ∀ start stop, ∃ rr, q.readRange start stop = some rr ∧
    rr.bytes = slice S (max start q.oldestOffset) (min stop q.nextOffset)

variable {q r : RingFile} {A : Retained}

theorem faithful_of_slots (hlen : q.file.length = headerLen + q.cap) (hcap : q.len ≤ q.cap)
    (hle : q.len ≤ q.nextOffset) (hS : q.nextOffset ≤ S.length)
    (hslots : ∀ o, q.oldestOffset ≤ o → o < q.nextOffset → q.file[headerLen + o % q.cap]? = S[o]?) :
    Faithful q S :=
  fun start stop => ⟨_, readRange_of_slots hlen hcap hle hS hslots start stop, rfl⟩

/-- A ring that is faithful holds every byte it claims in its slot. -/
theorem Faithful.slot (h : Faithful q S) {o : ℕ} (hlo : q.oldestOffset ≤ o)
    (hhi : o < q.nextOffset) : q.file[headerLen + o % q.cap]? = S[o]? := by
  obtain ⟨rr, hrr, hbytes⟩ := h o (o + 1)
  rw [show max o q.oldestOffset = o by omega, show min (o + 1) q.nextOffset = o + 1 by omega]
    at hbytes
  simp only [readRange, show max o q.oldestOffset = o by omega,
    show min (o + 1) q.nextOffset = o + 1 by omega, if_neg (show ¬ o + 1 ≤ o by omega),
    show o + 1 - o = 1 by omega, Option.map_eq_some_iff] at hrr
  obtain ⟨bytes, hread, rfl⟩ := hrr
  simp only [readSpans, Option.bind_eq_some_iff, Option.map_eq_some_iff] at hread
  obtain ⟨chunk, hchunk, rest, hrest, rfl⟩ := hread
  -- the one span covers the one byte: a shorter one would run out of fuel
  have hspan : min (q.cap - o % q.cap) (0 + 1) = 1 := by
    by_contra hne
    rw [show min (q.cap - o % q.cap) (0 + 1) = 0 by omega] at hrest
    cases hrest
  rw [hspan, readExact] at hchunk
  rw [hspan] at hrest
  cases hrest
  split at hchunk
  · cases hchunk
    have := congrArg (fun bs : List UInt8 => bs[0]?) hbytes
    simpa [getElem?_slice] using this
  · cases hchunk

theorem faithful_reset (q : RingFile) (S : List UInt8) : Faithful q.reset S := by
  have hlen : (setLen q.file (headerLen + q.cap)).length = headerLen + q.cap :=
    length_setLen _ _
  refine faithful_of_slots (length_file_writeHeader hlen) (Nat.zero_le _) le_rfl (Nat.zero_le _) ?_
  intro o _ ho
  exact absurd ho (Nat.not_lt_zero o)

/-! ### A torn header -/

/-- A header of which the first `k` bytes have been rewritten is the new one up to there. -/
theorem slice_writeAt_header (hlen : q.file.length = headerLen + q.cap)
    (hhead : q.file.take headerLen = hdr) (hk : k ≤ headerLen) :
    slice (writeAt q.file 0 (q.header.take k)) 0 headerLen
      = q.header.take k ++ hdr.drop k := by
  have htake : (q.header.take k).length = k := by
    rw [length_take, length_header]
    omega
  rw [writeAt_eq_of_le (by omega), htake, take_zero, nil_append, Nat.zero_add,
    slice, drop_zero, Nat.sub_zero, take_append, htake,
    take_of_length_le (by omega), ← hhead, drop_take]

/-- **Opening a file with a torn header.** Either the header is refused and the ring reset, or the
counters it names are those of one stage of the rewrite: the old `len` below a `nextOffset` that has
not passed the new one, or the new `nextOffset` above a `len` that has not passed the new one. -/
theorem open_torn (hlen : q.file.length = headerLen + q.cap)
    (hhead : q.file.take headerLen = r.header) (hcap : r.cap = q.cap)
    (hnext : r.nextOffset ≤ q.nextOffset) (hle : r.len ≤ q.len) (hk : k ≤ headerLen)
    (hcapb : q.cap < 2 ^ 64) (hnextb : q.nextOffset < 2 ^ 64) (hlenb : q.len < 2 ^ 64) :
    (∃ q₀ : RingFile, RingFile.open (ByteFile.writeAt q.file 0 (q.header.take k)) q.cap
      = q₀.reset) ∨
    ∃ next len, RingFile.open (ByteFile.writeAt q.file 0 (q.header.take k)) q.cap
        = { file := ByteFile.writeAt q.file 0 (q.header.take k), cap := q.cap,
            nextOffset := next, len := len } ∧
      len ≤ q.cap ∧ len ≤ next ∧ next ≤ q.nextOffset ∧
      (len = r.len ∨ next = q.nextOffset ∧ len ≤ q.len) := by
  set file := writeAt q.file 0 (q.header.take k) with hfile
  have htake : (q.header.take k).length = k := by
    rw [length_take, length_header]
    omega
  have hlen' : file.length = headerLen + q.cap := by
    rw [hfile, length_writeAt (by omega), hlen]
  have hread : readExact file 0 headerLen = some (q.header.take k ++ r.header.drop k) := by
    rw [readExact_eq_slice (by omega), Nat.zero_add,
      slice_writeAt_header hlen hhead hk]
  have hsplice := @slice_splice UInt8 r.header q.header k (by rw [length_header]; exact hk)
  obtain ⟨hm, hv, hc, hn, hl⟩ := r.slices_header
  obtain ⟨hm', hv', hc', hn', hl'⟩ := q.slices_header
  have hver : fromLeBytes (toLeBytes 4 formatVersion) = formatVersion :=
    fromLeBytes_toLeBytes (by decide)
  have hcapd : fromLeBytes (toLeBytes 8 q.cap) = q.cap := fromLeBytes_toLeBytes (by omega)
  set next := fromLeBytes ((toLeBytes 8 q.nextOffset).take (k - 20)
    ++ (toLeBytes 8 r.nextOffset).drop (k - 20)) with hnextd
  set len := fromLeBytes ((toLeBytes 8 q.len).take (k - 28)
    ++ (toLeBytes 8 r.len).drop (k - 28)) with hlend
  have hload : loadHeader { file := file, cap := q.cap, nextOffset := 0, len := 0 }
      = if q.cap < len ∨ next < len then none
        else some { file := file, cap := q.cap, nextOffset := next, len := len } := by
    simp only [loadHeader, hlen', ne_eq, not_true_eq_false, if_false, hread, hsplice, hm,
      hv, hc, hn, hl, hm', hv', hc', hn', hl', hcap, take_append_drop, hver, hcapd,
      ← hnextd, ← hlend, false_or]
  have hne : file.length ≠ 0 := by rw [hlen', headerLen]; omega
  simp only [RingFile.open, if_neg hne, hload]
  by_cases hbad : q.cap < len ∨ next < len
  · rw [if_pos hbad]
    exact .inl ⟨_, rfl⟩
  · rw [if_neg hbad]
    refine .inr ⟨next, len, rfl, by omega, by omega, fromLeBytes_splice_le hnext (by omega) _, ?_⟩
    by_cases hstage : k ≤ 28
    · -- `len` has not been reached
      left
      rw [hlend, Nat.sub_eq_zero_of_le hstage, take_zero, nil_append, drop_zero,
        fromLeBytes_toLeBytes (by omega)]
    · -- `nextOffset` has been rewritten whole
      right
      refine ⟨?_, fromLeBytes_splice_le hle (by omega) _⟩
      rw [hnextd, take_of_length_le (by rw [length_toLeBytes]; omega),
        drop_of_length_le (by rw [length_toLeBytes]; omega), append_nil,
        fromLeBytes_toLeBytes (by omega)]

/-! ### The two stages of an append -/

theorem writeHeaderUpTo_eq (q : RingFile) (budget : ℕ) :
    q.writeHeaderUpTo budget =
      ({ q with file := writeAt q.file 0 (q.header.take (min budget headerLen)) },
        decide (headerLen ≤ budget)) := by
  rw [writeHeaderUpTo, writeAll, length_header]
  by_cases h : headerLen ≤ budget
  · simp [h, take_of_length_le, length_header]
  · simp [h, Nat.min_eq_left (Nat.le_of_not_le h)]

/-- **An interrupted append.** The budget either ends in the data, with the counters as they were
and some of the chunk's tail in its slots, or in the header, after all of it. -/
theorem appendUpTo_cases (hlen : r.file.length = headerLen + r.cap) (hn : bytes.length ≠ 0)
    (budget : ℕ) : (0 < r.cap ∧ budget < min bytes.length r.cap ∧
      ∃ file, r.appendUpTo bytes budget = ({ r with file := file }, false) ∧
        Wrote r.cap r.file file ((r.nextOffset + (bytes.length - min bytes.length r.cap)) % r.cap)
          ((bytes.drop (bytes.length - min bytes.length r.cap)).take budget)) ∨
    (min bytes.length r.cap ≤ budget ∧
      ∃ file len, r.appendUpTo bytes budget = writeHeaderUpTo
            { r with file := file, len := len, nextOffset := r.nextOffset + bytes.length }
            (budget - min bytes.length r.cap) ∧
        (0 < r.cap ∧ len = min (r.len + bytes.length) r.cap ∧
            Wrote r.cap r.file file
              ((r.nextOffset + (bytes.length - min bytes.length r.cap)) % r.cap)
              (bytes.drop (bytes.length - min bytes.length r.cap)) ∨
          r.cap = 0 ∧ len = r.len ∧ file = r.file)) := by
  by_cases hcap : 0 < r.cap
  · set keep := min bytes.length r.cap with hkeep
    set src := bytes.drop (bytes.length - keep) with hsrc
    have hsrclen : src.length = keep := by rw [hsrc, length_drop]; omega
    set start := r.nextOffset + (bytes.length - keep) with hstart
    obtain ⟨file, heq, hw⟩ := @writeSpansUpTo_spec r.cap src.length (start % r.cap) budget r.file
      src hlen (Nat.mod_lt _ hcap) (by omega) le_rfl
    rw [hsrclen] at heq
    by_cases hstop : keep ≤ budget
    · right
      rw [if_pos hstop] at heq
      rw [take_of_length_le (by omega)] at hw
      refine ⟨hstop, file, min (r.len + bytes.length) r.cap, ?_, .inl ⟨hcap, rfl, hw⟩⟩
      simp only [appendUpTo, if_neg hn, if_pos hcap, ← hkeep, ← hsrc, ← hstart, hsrclen,
        heq]
    · left
      rw [if_neg hstop] at heq
      refine ⟨hcap, by omega, file, ?_, hw⟩
      simp only [appendUpTo, if_neg hn, if_pos hcap, ← hkeep, ← hsrc, ← hstart, hsrclen,
        heq]
  · right
    refine ⟨by omega, r.file, r.len, ?_, .inr ⟨by omega, rfl, rfl⟩⟩
    rw [show min bytes.length r.cap = 0 by omega, Nat.sub_zero]
    simp only [appendUpTo, if_neg hn, if_neg hcap]

/-- What an interrupted append does to the counters, whatever the data region holds: `nextOffset`
moves exactly when the chunk's data is in the file. -/
theorem appendUpTo_frame (hlen : r.file.length = headerLen + r.cap) (bytes : List UInt8)
    (budget : ℕ) : (r.appendUpTo bytes budget).1.cap = r.cap ∧
      (r.appendUpTo bytes budget).1.file.length = headerLen + r.cap ∧
      (r.appendUpTo bytes budget).1.nextOffset =
        if min bytes.length r.cap ≤ budget then r.nextOffset + bytes.length else r.nextOffset := by
  rcases eq_or_ne bytes.length 0 with hn | hn
  · obtain rfl : bytes = [] := length_eq_zero_iff.mp hn
    refine ⟨rfl, hlen, ?_⟩
    rw [if_pos (by omega)]
    rfl
  rcases appendUpTo_cases hlen hn budget with
    ⟨-, hlt, file, heq, hw⟩ | ⟨hle, file, len, heq, hdata⟩
  · rw [heq, if_neg (by omega)]
    exact ⟨rfl, hw.length_file, rfl⟩
  · have hfile : file.length = headerLen + r.cap := by
      rcases hdata with ⟨-, -, hw⟩ | ⟨-, -, rfl⟩
      · exact hw.length_file
      · exact hlen
    rw [heq, if_pos hle, writeHeaderUpTo_eq]
    refine ⟨rfl, ?_, rfl⟩
    rw [length_writeAt]
    · exact hfile
    · rw [length_take, length_header, hfile]
      omega

/-- The ring between the two stages of `append`: the data is in its slots and the counters are the
new ones, but the header on disk is still that of `r`. -/
structure DataWritten (r q : RingFile) (A : Retained) : Prop where
  cap_eq : q.cap = r.cap
  length_file : q.file.length = headerLen + q.cap
  take_file : q.file.take headerLen = r.header
  nextOffset_eq : q.nextOffset = A.next
  len_eq : q.len = min q.cap A.next
  slots : ∀ o, A.oldest ≤ o → o < A.next → q.file[headerLen + o % q.cap]? = A.stream[o]?

/-- Cut in the header, an append has its data in place. -/
theorem Refines.dataWritten (h : Refines r A) {bytes : List UInt8} (hn : bytes.length ≠ 0)
    {budget : ℕ} (hcover : min bytes.length r.cap ≤ budget) :
    ∃ q, DataWritten r q (A.append bytes) ∧
      r.appendUpTo bytes budget = q.writeHeaderUpTo (budget - min bytes.length r.cap) := by
  have hnext := h.nextOffset_eq
  have hlenr := h.len_eq
  have hc := h.cap_eq
  rw [Retained.next] at hnext
  have hnext' : r.nextOffset + bytes.length = (A.append bytes).next := by
    rw [Retained.next, Retained.append, length_append, hnext]
  rcases appendUpTo_cases h.length_file hn budget with
    ⟨-, hlt, -⟩ | ⟨-, file, len, heq, ⟨hcap, rfl, hw⟩ | ⟨hcap, rfl, rfl⟩⟩
  · omega
  · refine ⟨_, ?_, heq⟩
    exact
      { cap_eq := rfl
        length_file := hw.length_file
        take_file := hw.take_file.trans h.take_file
        nextOffset_eq := hnext'
        len_eq := by
          show min (r.len + bytes.length) r.cap = min r.cap _
          omega
        slots := fun o hlo hhi => h.slots_wrote hcap hw hlo hhi }
  · refine ⟨_, ?_, heq⟩
    refine
      { cap_eq := rfl
        length_file := h.length_file
        take_file := h.take_file
        nextOffset_eq := hnext'
        len_eq := by
          show r.len = min r.cap _
          omega
        slots := ?_ }
    intro o hlo hhi
    simp only [Retained.append, Retained.oldest, Retained.next, length_append] at hlo hhi
    omega

/-! ### When an interrupted append is harmless -/

/-- Cut in the data, an append that evicts nothing leaves the old window alone: in memory and on
disk the counters are the old ones. -/
theorem Refines.slots_of_fits (h : Refines r A) {file : List UInt8} (hcap : 0 < r.cap)
    (hfits : r.len = 0 ∨ r.len + bytes.length ≤ r.cap)
    (hw : Wrote r.cap r.file file ((r.nextOffset + (bytes.length - min bytes.length r.cap)) % r.cap)
      ((bytes.drop (bytes.length - min bytes.length r.cap)).take budget)) (hlo : r.oldestOffset ≤ o)
    (hhi : o < r.nextOffset) : file[headerLen + o % r.cap]? = (A.stream ++ bytes)[o]? := by
  have hnext := h.nextOffset_eq
  have hold : r.oldestOffset = r.nextOffset - r.len := rfl
  rw [Retained.next] at hnext
  rw [getElem?_append_left (by omega),
    ← h.slots o (h.oldestOffset_eq ▸ hlo) (h.nextOffset_eq ▸ hhi)]
  refine hw.old _ (Nat.mod_lt _ hcap) ?_
  intro i hi heq
  rw [length_take, length_drop] at hi
  rw [Nat.mod_add_mod] at heq
  -- the chunk fits, so it starts at `nextOffset` and ends less than `cap` after `o`
  have := eq_of_mod_eq (by omega) (by omega) heq.symm
  omega

/-- Cut in the header, an append that evicts nothing is harmless whatever the header says. -/
theorem DataWritten.faithful_open {A' : Retained} (h : Refines r A) (hq : DataWritten r q A')
    (hmono : A.next ≤ A'.next) (hcap : q.cap < 2 ^ 64) (hnext : A'.next < 2 ^ 64)
    (hA' : A'.cap = q.cap) (hfits : r.len = 0 ∨ A'.next ≤ q.cap) (hk : k ≤ headerLen) :
    Faithful (RingFile.open (ByteFile.writeAt q.file 0 (q.header.take k)) q.cap) A'.stream := by
  have hc := h.cap_eq
  have hc' := hq.cap_eq
  have hlen := hq.length_file
  have hlenr := h.len_eq
  have hlenq := hq.len_eq
  have hnextr := h.nextOffset_eq
  have hnextq := hq.nextOffset_eq
  have htake : (q.header.take k).length = k := by
    rw [length_take, length_header]
    omega
  rw [Retained.next] at hnextr hmono
  have hwf : r.len ≤ q.len := by omega
  rcases open_torn hlen hq.take_file (by omega) (by omega) hwf hk hcap (by omega) (by omega) with
    ⟨q₀, hreset⟩ | ⟨next, len, hopen, hle, hle', hnext', hstage⟩
  · rw [hreset]
    exact faithful_reset q₀ _
  · rw [hopen]
    refine faithful_of_slots ?_ hle hle' (hnext'.trans hnextq.le) ?_
    · rw [length_writeAt (by omega), hlen]
    · intro o hlo hhi
      replace hlo : next - len ≤ o := hlo
      replace hhi : o < next := hhi
      rw [getElem?_writeAt (by omega), if_neg (by omega)]
      -- the window is inside what the longer stream retains
      refine hq.slots o ?_ (by omega)
      rw [Retained.oldest, hA']
      simp only [Retained.next] at hnextq hlenq hfits hnext
      omega

/-- Cut in the header, the ring in memory already has its new counters. -/
theorem DataWritten.faithful_memory (hq : DataWritten r q A) (hA : A.cap = q.cap)
    (hk : k ≤ headerLen) :
    Faithful { q with file := writeAt q.file 0 (q.header.take k) } A.stream := by
  have hlen := hq.length_file
  have hlenq := hq.len_eq
  have hnextq := hq.nextOffset_eq
  have htake : (q.header.take k).length = k := by
    rw [length_take, length_header]
    omega
  have hold : q.oldestOffset = A.oldest := by
    rw [oldestOffset, oldest, hnextq, hlenq, hA, Retained.next]
  refine faithful_of_slots ?_ (show q.len ≤ q.cap by omega) (show q.len ≤ q.nextOffset by omega)
    (show q.nextOffset ≤ _ from hnextq.le) ?_
  · rw [length_writeAt (by omega), hlen]
  · intro o hlo hhi
    rw [getElem?_writeAt (by omega), if_neg (by omega)]
    exact hq.slots o (hold ▸ hlo) (hnextq ▸ hhi)

/-! ### When it is not -/

/-- An append that evicts writes over the slot of the oldest retained byte. -/
theorem exists_slot_of_evicts {next len : ℕ} (hlen : 0 < len) (hle : len ≤ cap) (hnext : len ≤ next)
    (hn : cap < len + n) :
    ∃ i < min n cap, ((next + (n - min n cap)) % cap + i) % cap = (next - len) % cap := by
  by_cases hbig : n ≤ cap
  · refine ⟨cap - len, by omega, ?_⟩
    rw [Nat.mod_add_mod, show next + (n - min n cap) + (cap - len) = next - len + cap by omega,
      Nat.add_mod_right]
  · -- the whole region is written
    have hs : (next + (n - min n cap)) % cap < cap := Nat.mod_lt _ (by omega)
    have ho : (next - len) % cap < cap := Nat.mod_lt _ (by omega)
    generalize (next + (n - min n cap)) % cap = s at hs ⊢
    generalize (next - len) % cap = t at ho ⊢
    by_cases hst : s ≤ t
    · exact ⟨t - s, by omega, by rw [show s + (t - s) = t by omega, Nat.mod_eq_of_lt ho]⟩
    · refine ⟨t + cap - s, by omega, ?_⟩
      rw [show s + (t + cap - s) = t + cap by omega, Nat.add_mod_right, Nat.mod_eq_of_lt ho]

/-- A chunk of one repeated byte that differs from the oldest retained one, stopped before its
header: the file still names the oldest offset, and its byte is gone. -/
theorem Refines.not_faithful_of_evicts (h : Refines r A) {n : ℕ} (hcap : A.cap < 2 ^ 64)
    (hnext : A.next + n < 2 ^ 64) (hlen : r.len ≠ 0) (hevict : r.cap < r.len + n) :
    ∃ bytes : List UInt8, bytes.length = n ∧ ∃ budget,
      ¬ Faithful (RingFile.open (r.appendUpTo bytes budget).1.file r.cap) (A.stream ++ bytes) := by
  have hnextr := h.nextOffset_eq
  have hlenr := h.len_eq
  have hc := h.cap_eq
  rw [Retained.next] at hnextr hnext
  have hlt : r.nextOffset - r.len < A.stream.length := by omega
  set b := A.stream[r.nextOffset - r.len] with hb
  set bytes := replicate n (b + 1) with hbytes
  have hblen : bytes.length = n := length_replicate ..
  refine ⟨bytes, hblen, min n r.cap, ?_⟩
  obtain ⟨q, hq, heq⟩ := @Refines.dataWritten r A h bytes (by omega) (min n r.cap) (by omega)
  have hcq := hq.cap_eq
  have hlenq := hq.length_file
  have hfile : (r.appendUpTo bytes (min n r.cap)).1.file = q.file := by
    rw [heq, hblen, Nat.sub_self, writeHeaderUpTo_eq, Nat.zero_min, take_zero,
      ByteFile.writeAt_nil (Nat.zero_le _)]
  have hopen : RingFile.open q.file r.cap = { r with file := q.file } :=
    @open_of_header { r with file := q.file } (hcq ▸ hlenq) hq.take_file
      (show r.len ≤ r.cap by omega) (show r.len ≤ r.nextOffset by omega)
      (show r.cap < 2 ^ 64 by omega) (show r.nextOffset < 2 ^ 64 by omega)
  rw [hfile, hopen]
  intro hfaithful
  have hgone := hfaithful.slot (o := r.nextOffset - r.len) le_rfl
    (show r.nextOffset - r.len < r.nextOffset by omega)
  obtain ⟨i, hi, hslot⟩ := exists_slot_of_evicts (by omega : 0 < r.len) (by omega)
    (by omega : r.len ≤ r.nextOffset) hevict
  have hnew := hq.slots (r.nextOffset + (n - min n r.cap) + i)
    (by simp only [Retained.append, Retained.oldest, length_append, hblen]; omega)
    (by simp only [Retained.append, Retained.next, length_append, hblen]; omega)
  rw [Nat.mod_add_mod] at hslot
  rw [hcq, hslot, Retained.append, getElem?_append_right (by omega), hbytes,
    getElem?_replicate, if_pos (by omega)] at hnew
  rw [getElem?_append_left hlt, getElem?_eq_getElem hlt, ← hb] at hgone
  have hbyte : b + 1 = b := Option.some.inj (hnew.symm.trans hgone)
  have hlt : b.toNat < 256 := b.toNat_lt
  have := congrArg UInt8.toNat hbyte
  rw [UInt8.toNat_add, show (1 : UInt8).toNat = 1 from rfl] at this
  omega

/-! ### The two sides together -/

/-- An interrupted append, seen from memory and from a re-opened file, when nothing is evicted. -/
theorem Refines.faithful_of_fits (h : Refines r A) (hcap : A.cap < 2 ^ 64)
    (hnext : A.next + bytes.length < 2 ^ 64) (hfits : r.len = 0 ∨ r.len + bytes.length ≤ r.cap)
    (budget : ℕ) : Faithful (r.appendUpTo bytes budget).1 (A.stream ++ bytes) ∧
      Faithful (RingFile.open (r.appendUpTo bytes budget).1.file r.cap) (A.stream ++ bytes) := by
  have hnextr := h.nextOffset_eq
  have hlenr := h.len_eq
  have hc := h.cap_eq
  have hnext' : (A.append bytes).next = A.next + bytes.length := by
    rw [Retained.next, Retained.append, length_append, Retained.next]
  rw [Retained.next] at hnextr
  by_cases hn : bytes.length = 0
  · -- nothing is written
    obtain rfl : bytes = [] := length_eq_zero_iff.mp hn
    have hf : Faithful r A.stream := by
      refine faithful_of_slots h.length_file (by omega) (by omega) hnextr.le ?_
      intro o hlo hhi
      exact h.slots o (h.oldestOffset_eq ▸ hlo) (h.nextOffset_eq ▸ hhi)
    have happend : r.appendUpTo [] budget = (r, true) := rfl
    rw [happend, append_nil, h.reopen hcap (by omega)]
    exact ⟨hf, hf⟩
  rcases appendUpTo_cases h.length_file hn budget with ⟨hpos, -, file, heq, hw⟩ | ⟨hcover, -⟩
  · have hf : Faithful { r with file := file } (A.stream ++ bytes) :=
      faithful_of_slots hw.length_file (show r.len ≤ r.cap by omega)
        (show r.len ≤ r.nextOffset by omega)
        (show r.nextOffset ≤ _ by rw [length_append]; omega)
        fun o hlo hhi => h.slots_of_fits hpos hfits hw hlo hhi
    have hopen : RingFile.open file r.cap = { r with file := file } :=
      @open_of_header { r with file := file } hw.length_file (hw.take_file.trans h.take_file)
        (show r.len ≤ r.cap by omega) (show r.len ≤ r.nextOffset by omega)
        (show r.cap < 2 ^ 64 by omega) (show r.nextOffset < 2 ^ 64 by
          rw [Retained.next] at hnext; omega)
    rw [heq]
    refine ⟨hf, ?_⟩
    rw [hopen]
    exact hf
  · obtain ⟨q, hq, heq⟩ := h.dataWritten hn hcover
    have hcq := hq.cap_eq
    rw [heq, writeHeaderUpTo_eq, ← hcq]
    refine ⟨hq.faithful_memory (hc ▸ hcq.symm) (Nat.min_le_right _ _), ?_⟩
    refine hq.faithful_open h (by omega) (by omega) (by omega) (hc ▸ hcq.symm) ?_
      (Nat.min_le_right _ _)
    rw [hnext', Retained.next]
    omega

/-- **When an interrupted append keeps the ring's promise.** For a ring that stores the suffix of a
stream and a chunk length `n`: whatever the chunk, and however many bytes of its writes reach the
file, every byte the ring claims to retain, in memory or opened again from the file, is the
stream's byte at that offset, if and only if the append evicts nothing. -/
theorem appendUpTo_faithful_iff {r : RingFile} {A : Retained} (h : Refines r A) (n : ℕ)
    (hcap : A.cap < 2 ^ 64) (hnext : A.next + n < 2 ^ 64) :
    (∀ bytes : List UInt8, bytes.length = n → ∀ budget,
      Faithful (r.appendUpTo bytes budget).1 (A.stream ++ bytes) ∧
        Faithful (RingFile.open (r.appendUpTo bytes budget).1.file r.cap) (A.stream ++ bytes)) ↔
      r.len = 0 ∨ r.len + n ≤ r.cap := by
  constructor
  · intro hall
    by_contra hevict
    obtain ⟨bytes, hlen, budget, hnot⟩ :=
      h.not_faithful_of_evicts hcap hnext (by omega) (by omega : r.cap < r.len + n)
    exact hnot (hall bytes hlen budget).2
  · rintro hfits bytes rfl budget
    exact h.faithful_of_fits hcap hnext hfits budget

/-- Three more bytes into a ring of four that holds one, cut anywhere. -/
theorem appendUpTo_faithful_one_of_four :
    ∃ r, Ring.run [.append [1]] (RingFile.open [] 4) = some r ∧
      ∀ bytes : List UInt8, bytes.length = 3 → ∀ budget,
        Faithful (r.appendUpTo bytes budget).1 ([1] ++ bytes) ∧
          Faithful (RingFile.open (r.appendUpTo bytes budget).1.file r.cap) ([1] ++ bytes) := by
  obtain ⟨r, hr, href⟩ := (refines_open_nil 4).run [.append [1]] (show 4 < 2 ^ 64 by decide)
    (by simp [written, Retained.next])
  refine ⟨r, hr, (appendUpTo_faithful_iff href 3 (show 4 < 2 ^ 64 by decide)
    (by simp [written, Retained.next, Retained.append])).mpr (.inr ?_)⟩
  rw [href.len_eq, href.cap_eq]
  decide

/-- Six bytes into a ring of four, then three that wrap. The first span reaches the file and the
second fails: `append` returns an error, and the ring still claims `[2, 6)`, in memory and from the
file, but reads `7, 8, 5, 6` there. -/
theorem appendUpTo_wrapped_not_faithful :
    ∃ r, Ring.run [.append [1, 2, 3, 4, 5, 6]] (RingFile.open [] 4) = some r ∧
      (r.appendUpTo [7, 8, 9] 2).2 = false ∧
      ¬ Faithful (r.appendUpTo [7, 8, 9] 2).1 [1, 2, 3, 4, 5, 6, 7, 8, 9] ∧
      ¬ Faithful (RingFile.open (r.appendUpTo [7, 8, 9] 2).1.file r.cap)
        [1, 2, 3, 4, 5, 6, 7, 8, 9] := by
  obtain ⟨r, hr, hv⟩ := Option.map_eq_some_iff.mp
    (show (Ring.run [.append [1, 2, 3, 4, 5, 6]] (RingFile.open [] 4)).map (fun r =>
        ((r.appendUpTo [7, 8, 9] 2).2, (r.appendUpTo [7, 8, 9] 2).1.readRange 2 6,
          (r.appendUpTo [7, 8, 9] 2).1.oldestOffset,
          (r.appendUpTo [7, 8, 9] 2).1.nextOffset,
          decide (RingFile.open (r.appendUpTo [7, 8, 9] 2).1.file r.cap
            = (r.appendUpTo [7, 8, 9] 2).1)))
        = some (false, some ⟨2, [7, 8, 5, 6], none⟩, 2, 6, true) by decide +kernel)
  simp only [Prod.mk.injEq, decide_eq_true_eq] at hv
  obtain ⟨hfail, hread, hold, hnext, hopen⟩ := hv
  have hnot : ¬ Faithful (r.appendUpTo [7, 8, 9] 2).1 [1, 2, 3, 4, 5, 6, 7, 8, 9] := by
    intro hf
    obtain ⟨rr, hrr, hbytes⟩ := hf 2 6
    rw [hread] at hrr
    cases hrr
    rw [hold, hnext] at hbytes
    exact absurd hbytes (by decide)
  refine ⟨r, hr, hfail, hnot, ?_⟩
  rw [hopen]
  exact hnot

end Bud.Ring
