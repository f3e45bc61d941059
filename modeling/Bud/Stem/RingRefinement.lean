import Bud.Lib.Runs
import Bud.Stem.Ring
import Mathlib.Data.Nat.ModEq

/-!
# The ring refines a stream with a retained suffix

What the ring is for: a session's output is one growing byte stream `S`, and the ring is `S`
together with the promise that its last `min cap |S|` bytes can be read back. `Retained` is that
object, and it has no file, no header and no wrap.

The whole argument is one invariant, `Refines`: every retained offset `o` is stored at slot
`o % cap`. It survives an append because the slots written are exactly those of the new offsets,
and an old offset that shares a slot with a new one is at least `cap` behind it, hence evicted.
-/

namespace Bud.Ring

open Slice LittleEndian List

/-! ### The abstract object -/

/-- A byte stream of which the last `min cap |stream|` bytes are retained. -/
structure Retained where
  cap : ℕ
  stream : List UInt8

namespace Retained

def next (A : Retained) : ℕ := A.stream.length

def oldest (A : Retained) : ℕ := A.stream.length - min A.cap A.stream.length

def append (A : Retained) (bytes : List UInt8) : Retained :=
  { A with stream := A.stream ++ bytes }

def read (A : Retained) (start stop : ℕ) : List UInt8 :=
  slice A.stream (max start A.oldest) (min stop A.next)

/-- The requested range is non-empty and starts before the oldest retained byte. -/
def Truncated (A : Retained) (start stop : ℕ) : Prop := start < stop ∧ start < A.oldest

instance (A : Retained) (start stop : ℕ) : Decidable (A.Truncated start stop) :=
  inferInstanceAs (Decidable (_ ∧ _))

theorem oldest_le_next (A : Retained) : A.oldest ≤ A.next := Nat.sub_le _ _

end Retained

/-! ### Slots -/

variable {cap : ℕ} {file : List UInt8} {r : RingFile} {A : Retained}

theorem eq_of_mod_eq (hab : a ≤ b) (hlt : b < a + cap) (h : a % cap = b % cap) : a = b := by
  have hd : cap ∣ b - a := (Nat.modEq_iff_dvd' hab).mp h
  have : b - a = 0 := Nat.eq_zero_of_dvd_of_lt hd (by omega)
  omega

/-! ### The two loops -/

/-- `file'` is `file` with `src` written into the slots from `phys` on, byte `i` of it in slot
`(phys + i) % cap`; every other slot and the header keep their contents. -/
structure Wrote (cap : ℕ) (file file' : List UInt8) (phys : ℕ) (src : List UInt8) : Prop where
  length_file : file'.length = headerLen + cap
  take_file : file'.take headerLen = file.take headerLen
  new : ∀ i < src.length, file'[headerLen + (phys + i) % cap]? = src[i]?
  old : ∀ j < cap, (∀ i < src.length, (phys + i) % cap ≠ j) →
    file'[headerLen + j]? = file[headerLen + j]?

theorem wrote_nil (hlen : file.length = headerLen + cap) (phys : ℕ) : Wrote cap file file phys [] :=
  { length_file := hlen
    take_file := rfl
    new := by simp
    old := by simp }

/-- **The write loop.** Enough fuel always finishes, with the source in its slots. -/
theorem writeSpans_spec : ∀ (fuel : ℕ) (file : List UInt8) (phys : ℕ)
    (rest : List UInt8), file.length = headerLen + cap → phys < cap → rest.length ≤ cap →
    rest.length ≤ fuel →
    ∃ file', RingFile.writeSpans cap fuel file phys rest = some file' ∧
      Wrote cap file file' phys rest := by
  intro fuel
  induction fuel with
  | zero =>
    intro file phys rest hlen _ _ hfuel
    obtain rfl : rest = [] := length_eq_zero_iff.mp (by omega)
    exact ⟨file, rfl, wrote_nil hlen phys⟩
  | succ fuel ih =>
    intro file phys rest hlen hphys hcap hfuel
    rcases eq_or_ne rest [] with rfl | hrest
    · exact ⟨file, rfl, wrote_nil hlen phys⟩
    · have hpos : 0 < rest.length := length_pos_iff.mpr hrest
      set span := min (cap - phys) rest.length with hspan
      have htake : (rest.take span).length = span := by rw [length_take]; omega
      have hfit : headerLen + phys + (rest.take span).length ≤ file.length := by
        rw [htake, hlen]; omega
      have hdrop : (rest.drop span).length = rest.length - span := length_drop ..
      obtain ⟨file', heq, hlen', hhead, hnew, hold⟩ :=
        ih (ByteFile.writeAt file (headerLen + phys) (rest.take span)) 0 (rest.drop span)
          (by rw [ByteFile.length_writeAt hfit, hlen]) (by omega) (by omega) (by omega)
      refine ⟨file', (RingFile.writeSpans_succ _ _ _ _ hrest).trans heq, hlen', ?_, ?_, ?_⟩
      · rw [hhead, ByteFile.take_writeAt_of_le hfit (by omega)]
      · intro i hi
        by_cases his : i < span
        · -- written by this span, and the wrapped remainder stays below `phys`
          have hslot : (phys + i) % cap = phys + i := Nat.mod_eq_of_lt (by omega)
          rw [hslot, hold (phys + i) (by omega), ByteFile.getElem?_writeAt hfit,
            if_pos ⟨by omega, by omega⟩, getElem?_take_of_lt (by omega)]
          · congr 1
            omega
          · intro i' hi'
            rw [Nat.zero_add, Nat.mod_eq_of_lt (by omega)]
            omega
        · have hwrap : (phys + i) % cap = (0 + (i - span)) % cap := by
            rw [show phys + i = 0 + (i - span) + cap by omega, Nat.add_mod_right]
          rw [hwrap, hnew (i - span) (by omega), getElem?_drop]
          congr 1
          omega
      · intro j hj hne
        rw [hold j hj, ByteFile.getElem?_writeAt hfit, if_neg]
        · rintro ⟨h1, h2⟩
          refine hne (j - phys) (by omega) ?_
          rw [Nat.mod_eq_of_lt (by omega)]
          omega
        · intro i' hi'
          have := hne (i' + span) (by omega)
          rwa [show phys + (i' + span) = 0 + i' + cap by omega, Nat.add_mod_right] at this

/-- **The read loop.** If slot `(phys + i) % cap` holds byte `i` of `out` throughout, the loop
returns `out`. -/
theorem readSpans_spec (hlen : file.length = headerLen + cap) :
    ∀ (fuel phys : ℕ) (out : List UInt8), phys < cap → out.length ≤ cap → out.length ≤ fuel →
      (∀ i < out.length, file[headerLen + (phys + i) % cap]? = out[i]?) →
      RingFile.readSpans cap file fuel phys out.length = some out := by
  intro fuel
  induction fuel with
  | zero =>
    intro phys out _ _ hfuel _
    obtain rfl : out = [] := length_eq_zero_iff.mp (by omega)
    rfl
  | succ fuel ih =>
    intro phys out hphys hcap hfuel hslots
    cases hn : out.length with
    | zero =>
      obtain rfl : out = [] := length_eq_zero_iff.mp hn
      rfl
    | succ n =>
      set span := min (cap - phys) (n + 1) with hspan
      have hread : ByteFile.readExact file (headerLen + phys) span = some (out.take span) := by
        rw [ByteFile.readExact_eq_slice (by omega)]
        congr 1
        apply ext_getElem?
        intro i
        rw [getElem?_slice, getElem?_take]
        by_cases hi : i < span
        · rw [if_pos (by omega), if_pos hi, ← hslots i (by omega), Nat.mod_eq_of_lt (by omega),
            Nat.add_assoc]
        · rw [if_neg (by omega), if_neg hi]
      have hrest : RingFile.readSpans cap file fuel 0 (n + 1 - span) = some (out.drop span) := by
        rw [show n + 1 - span = (out.drop span).length by rw [length_drop]; omega]
        refine ih 0 (out.drop span) (by omega) (by rw [length_drop]; omega)
          (by rw [length_drop]; omega) ?_
        intro i hi
        rw [length_drop] at hi
        have hwrap : (0 + i) % cap = (phys + (span + i)) % cap := by
          rw [show phys + (span + i) = 0 + i + cap by omega, Nat.add_mod_right]
        rw [hwrap, hslots (span + i) (by omega), getElem?_drop]
      simp only [RingFile.readSpans, ← hspan, hread, Option.bind_some, hrest, Option.map_some,
        take_append_drop]

/-! ### The invariant -/

/-- `r` stores the retained suffix of `A`: its counters are the abstract ones, its file carries
the matching header, and the byte at every retained offset `o` is in slot `o % cap`. -/
structure Refines (r : RingFile) (A : Retained) : Prop where
  cap_eq : r.cap = A.cap
  /-- The file is a header and a full data region. -/
  length_file : r.file.length = headerLen + r.cap
  /-- The counters on disk are the counters in memory. -/
  take_file : r.file.take headerLen = r.header
  nextOffset_eq : r.nextOffset = A.next
  len_eq : r.len = min A.cap A.stream.length
  /-- Slot `o % cap` holds the byte at offset `o`. -/
  slots : ∀ o, A.oldest ≤ o → o < A.next → r.file[headerLen + o % r.cap]? = A.stream[o]?

theorem Refines.oldestOffset_eq (h : Refines r A) : r.oldestOffset = A.oldest := by
  rw [RingFile.oldestOffset, h.nextOffset_eq, h.len_eq, Retained.oldest, Retained.next]

/-- Rewriting the header keeps the data region and makes the file's header current. -/
theorem length_file_writeHeader (h : r.file.length = headerLen + r.cap) :
    r.writeHeader.file.length = headerLen + r.cap := by
  rw [RingFile.writeHeader, ByteFile.length_writeAt (by rw [RingFile.length_header]; omega), h]

theorem take_file_writeHeader (h : r.file.length = headerLen + r.cap) :
    r.writeHeader.file.take headerLen = r.writeHeader.header := by
  have hle : r.header.length ≤ r.file.length := by rw [RingFile.length_header]; omega
  have := ByteFile.take_writeAt_zero hle
  rwa [RingFile.length_header] at this

theorem getElem?_file_writeHeader (h : r.file.length = headerLen + r.cap) (j : ℕ) :
    r.writeHeader.file[headerLen + j]? = r.file[headerLen + j]? := by
  rw [RingFile.writeHeader, ByteFile.getElem?_writeAt (by rw [RingFile.length_header]; omega),
    if_neg (by rw [RingFile.length_header]; omega)]

theorem refines_open_nil (cap : ℕ) : Refines (RingFile.open [] cap) ⟨cap, []⟩ := by
  have hlen : (ByteFile.setLen ([] : List UInt8) (headerLen + cap)).length = headerLen + cap :=
    ByteFile.length_setLen _ _
  exact
    { cap_eq := rfl
      length_file := length_file_writeHeader hlen
      take_file := take_file_writeHeader hlen
      nextOffset_eq := rfl
      len_eq := by simp [RingFile.open, RingFile.reset]
      slots := fun o _ ho => absurd ho (Nat.not_lt_zero o) }

/-! ### The operations -/

/-- After the tail of a chunk has been written, every offset the longer stream retains is in its
slot. -/
theorem Refines.slots_wrote (h : Refines r A) (hcap : 0 < r.cap)
    (hw : Wrote r.cap r.file file ((r.nextOffset + (bytes.length - min bytes.length r.cap)) % r.cap)
      (bytes.drop (bytes.length - min bytes.length r.cap))) (hlo : (A.append bytes).oldest ≤ o)
    (hhi : o < (A.append bytes).next) :
    file[headerLen + o % r.cap]? = (A.append bytes).stream[o]? := by
  have hnext := h.nextOffset_eq
  have hc := h.cap_eq
  rw [Retained.next] at hnext
  simp only [Retained.append, Retained.oldest, Retained.next, length_append] at hlo hhi
  set keep := min bytes.length r.cap with hkeep
  set start := r.nextOffset + (bytes.length - keep) with hstart
  have hsrclen : (bytes.drop (bytes.length - keep)).length = keep := by
    rw [length_drop]; omega
  by_cases ho : start ≤ o
  · -- a new offset: byte `o - start` of what was written
    have hslot : (start % r.cap + (o - start)) % r.cap = o % r.cap := by
      rw [Nat.mod_add_mod, show start + (o - start) = o by omega]
    have hbyte := hw.new (o - start) (by omega)
    rw [hslot] at hbyte
    refine hbyte.trans ?_
    rw [getElem?_drop, Retained.append, getElem?_append_right (by omega)]
    congr 1
    omega
  · -- an old offset still retained: no new offset shares its slot
    refine (hw.old (o % r.cap) (Nat.mod_lt _ hcap) ?_).trans ?_
    · intro i hi heq
      rw [Nat.mod_add_mod] at heq
      have := eq_of_mod_eq (by omega) (by omega) heq.symm
      omega
    · rw [h.slots o (by rw [Retained.oldest]; omega) (by rw [Retained.next]; omega),
        Retained.append, getElem?_append_left (by omega)]

/-- **Append.** It never fails, and the appended bytes join the stream. -/
theorem Refines.append (h : Refines r A) (bytes : List UInt8) :
    ∃ r', r.append bytes = some r' ∧ Refines r' (A.append bytes) := by
  by_cases hn : bytes.length = 0
  · obtain rfl : bytes = [] := length_eq_zero_iff.mp hn
    refine ⟨r, rfl, ?_⟩
    rw [Retained.append, append_nil]
    exact h
  have hnext := h.nextOffset_eq
  have hlenr := h.len_eq
  have hc := h.cap_eq
  rw [Retained.next] at hnext
  by_cases hcap : 0 < r.cap
  · set keep := min bytes.length r.cap with hkeep
    set src := bytes.drop (bytes.length - keep) with hsrc
    have hsrclen : src.length = keep := by rw [hsrc, length_drop]; omega
    set start := r.nextOffset + (bytes.length - keep) with hstart
    obtain ⟨file, heq, hw⟩ :=
      writeSpans_spec src.length r.file (start % r.cap) src h.length_file
        (Nat.mod_lt _ hcap) (by omega) le_rfl
    refine ⟨RingFile.writeHeader { r with
      file := file, len := min (r.len + bytes.length) r.cap,
      nextOffset := r.nextOffset + bytes.length }, ?_, ?_⟩
    · simp only [RingFile.append, if_neg hn, if_pos hcap, ← hkeep, ← hsrc, ← hstart, heq,
        Option.map_some]
    · refine
        { cap_eq := hc
          length_file := length_file_writeHeader hw.length_file
          take_file := take_file_writeHeader hw.length_file
          nextOffset_eq := ?_
          len_eq := ?_
          slots := ?_ }
      · simp [Retained.append, Retained.next, hnext]
      · simp only [RingFile.writeHeader_len, Retained.append, length_append, hlenr]
        omega
      · intro o hlo hhi
        rw [getElem?_file_writeHeader hw.length_file, RingFile.writeHeader_cap]
        exact h.slots_wrote hcap hw hlo hhi
  · refine ⟨RingFile.writeHeader { r with nextOffset := r.nextOffset + bytes.length }, ?_, ?_⟩
    · simp only [RingFile.append, if_neg hn, if_neg hcap]
    · refine
        { cap_eq := hc
          length_file := length_file_writeHeader h.length_file
          take_file := take_file_writeHeader h.length_file
          nextOffset_eq := ?_
          len_eq := ?_
          slots := ?_ }
      · simp [Retained.append, Retained.next, hnext]
      · simp only [RingFile.writeHeader_len, Retained.append, length_append, hlenr]
        omega
      · intro o hlo hhi
        simp only [Retained.append, Retained.oldest, Retained.next, length_append] at hlo hhi
        omega

/-- **The read path.** A ring whose window `[oldestOffset, nextOffset)` is in its slots reads back
exactly the window's part of the requested range. -/
theorem readRange_of_slots {q : RingFile} {S : List UInt8}
    (hlen : q.file.length = headerLen + q.cap) (hcap : q.len ≤ q.cap)
    (hle : q.len ≤ q.nextOffset) (hS : q.nextOffset ≤ S.length)
    (hslots : ∀ o, q.oldestOffset ≤ o → o < q.nextOffset →
      q.file[headerLen + o % q.cap]? = S[o]?) (start stop : ℕ) :
    q.readRange start stop = some
      { start := min (max start q.oldestOffset) q.nextOffset
        bytes := slice S (max start q.oldestOffset) (min stop q.nextOffset)
        truncatedFrom := if start < stop ∧ start < q.oldestOffset then some start else none } := by
  have hold : q.oldestOffset = q.nextOffset - q.len := rfl
  rw [RingFile.readRange]
  by_cases hempty : min stop q.nextOffset ≤ max start q.oldestOffset
  · simp only [if_pos hempty, slice_of_le _ hempty]
    congr 2
    exact if_congr (by omega) rfl rfl
  · set out := slice S (max start q.oldestOffset) (min stop q.nextOffset) with hout
    have hlenout : out.length = min stop q.nextOffset - max start q.oldestOffset := by
      rw [hout, length_slice]
      omega
    have hread : RingFile.readSpans q.cap q.file (min stop q.nextOffset - max start q.oldestOffset)
        (max start q.oldestOffset % q.cap) (min stop q.nextOffset - max start q.oldestOffset)
        = some out := by
      rw [← hlenout]
      refine readSpans_spec hlen _ _ _ (Nat.mod_lt _ (by omega)) (by omega) le_rfl ?_
      intro i hi
      rw [Nat.mod_add_mod, hslots _ (by omega) (by omega), hout, getElem?_slice,
        if_pos (by omega)]
    simp only [if_neg hempty, hread, Option.map_some]
    congr 2
    · omega
    · exact if_congr (by omega) rfl rfl

/-- **Read.** The retained part of the requested range, byte for byte. -/
theorem Refines.readRange (h : Refines r A) (start stop : ℕ) : r.readRange start stop = some
      { start := min (max start A.oldest) A.next
        bytes := A.read start stop
        truncatedFrom := if A.Truncated start stop then some start else none } := by
  have hlen := h.len_eq
  have hnext := h.nextOffset_eq
  have hcap := h.cap_eq
  rw [Retained.next] at hnext
  rw [readRange_of_slots h.length_file (by omega) (by omega) hnext.le ?_ start stop,
    h.oldestOffset_eq, h.nextOffset_eq]
  · rfl
  · intro o hlo hhi
    exact h.slots o (h.oldestOffset_eq ▸ hlo) (h.nextOffset_eq ▸ hhi)

/-- The header on disk restores the counters it was made from, whatever the data region holds. -/
theorem open_of_header (hlen : r.file.length = headerLen + r.cap)
    (hhead : r.file.take headerLen = r.header) (hle : r.len ≤ r.cap) (hle' : r.len ≤ r.nextOffset)
    (hcap : r.cap < 2 ^ 64) (hnext : r.nextOffset < 2 ^ 64) : RingFile.open r.file r.cap = r := by
  have hhdr : slice r.file 0 headerLen = r.header := by
    rw [← hhead]
    simp [slice]
  obtain ⟨hmagic, hver, hcapb, hnextb, hlenb⟩ := r.slices_header
  have hload : RingFile.loadHeader { r with nextOffset := 0, len := 0 } = some r := by
    have hver' : fromLeBytes (toLeBytes 4 formatVersion) = formatVersion :=
      fromLeBytes_toLeBytes (by decide)
    have hcap' : fromLeBytes (toLeBytes 8 r.cap) = r.cap := fromLeBytes_toLeBytes (by omega)
    have hnext' : fromLeBytes (toLeBytes 8 r.nextOffset) = r.nextOffset :=
      fromLeBytes_toLeBytes (by omega)
    have hlen' : fromLeBytes (toLeBytes 8 r.len) = r.len := fromLeBytes_toLeBytes (by omega)
    have hread : ByteFile.readExact r.file 0 headerLen = some r.header := by
      rw [ByteFile.readExact_eq_slice (by omega), Nat.zero_add, hhdr]
    simp only [RingFile.loadHeader, hlen, ne_eq, not_true_eq_false, if_false, hread, hmagic, hver,
      hcapb, hnextb, hlenb, hver', hcap', hnext', hlen', false_or, Nat.not_lt.mpr hle,
      Nat.not_lt.mpr hle']
  have hne : r.file.length ≠ 0 := by rw [hlen, headerLen]; omega
  simp only [RingFile.open, if_neg hne, hload, Option.getD_some]

/-- **Re-open.** The header on disk restores the very ring that wrote it. -/
theorem Refines.reopen (h : Refines r A) (hcap : A.cap < 2 ^ 64) (hnext : A.next < 2 ^ 64) :
    RingFile.open r.file r.cap = r := by
  have hlen := h.len_eq
  have hnext' := h.nextOffset_eq
  have hcap' := h.cap_eq
  rw [Retained.next] at hnext hnext'
  exact open_of_header h.length_file h.take_file (by omega) (by omega) (by omega) (by omega)

/-! ### Whole runs -/

/-- What the holder does with a ring file over its life. -/
inductive RingOp where
  | append (bytes : List UInt8)
  /-- Open the same file again with the same capacity. -/
  | reopen

def RingOp.exec (r : RingFile) : RingOp → Option RingFile
  | .append bytes => r.append bytes
  | .reopen => some (RingFile.open r.file r.cap)

def run (ops : List RingOp) (r : RingFile) : Option RingFile := Runs.run RingOp.exec ops r

/-- The logical stream: every byte ever appended. -/
def written : List RingOp → List UInt8
  | [] => []
  | .append bytes :: ops => bytes ++ written ops
  | .reopen :: ops => written ops

/-- A run of the ring is simulated by appending to the abstract stream. -/
theorem Refines.run : ∀ (ops : List RingOp) {r : RingFile} {A : Retained}, Refines r A →
    A.cap < 2 ^ 64 → A.next + (written ops).length < 2 ^ 64 →
    ∃ r', Ring.run ops r = some r' ∧ Refines r' (A.append (written ops)) := by
  intro ops
  induction ops with
  | nil =>
    intro r A h _ _
    refine ⟨r, rfl, ?_⟩
    rw [written, Retained.append, append_nil]
    exact h
  | cons op ops ih =>
    intro r A h hcap htotal
    cases op with
    | append bytes =>
      obtain ⟨r₁, h₁, href₁⟩ := h.append bytes
      obtain ⟨r', hr', href'⟩ := ih href₁ hcap (by
        simp only [written, length_append] at htotal
        simp only [Retained.next, Retained.append, length_append] at htotal ⊢
        omega)
      refine ⟨r', ?_, ?_⟩
      · exact Runs.run_cons_eq_some.mpr ⟨r₁, h₁, hr'⟩
      · simpa [written, Retained.append, append_assoc] using href'
    | reopen =>
      obtain ⟨r', hr', href'⟩ := ih h hcap htotal
      refine ⟨r', Runs.run_cons_eq_some.mpr ⟨r, ?_, hr'⟩, href'⟩
      rw [RingOp.exec, h.reopen hcap (by omega)]

/-- **The ring refines a stream with a retained suffix.** Every sequence of appends and re-opens
of a ring of capacity `cap` succeeds, and with `S` the bytes appended so far: the counters are
those of `S` with its last `min cap |S|` bytes retained, every read returns exactly the retained
bytes of the requested range and reports truncation exactly when the range starts before them, and
opening the file once more gives the same ring back. -/
theorem run_refines_retained (cap : ℕ) (hcap : headerLen + cap < 2 ^ 64) (ops : List RingOp)
    (htotal : (written ops).length < 2 ^ 64) :
    ∃ r, Ring.run ops (RingFile.open [] cap) = some r ∧
      r.nextOffset = (written ops).length ∧
      r.oldestOffset = (written ops).length - min cap (written ops).length ∧
      (∀ start stop, ∃ rr, r.readRange start stop = some rr ∧
        rr.bytes = slice (written ops) (max start r.oldestOffset) (min stop r.nextOffset) ∧
        rr.truncatedFrom = if start < stop ∧ start < r.oldestOffset then some start else none) ∧
      RingFile.open r.file cap = r := by
  obtain ⟨r, hr, href⟩ :=
    (refines_open_nil cap).run ops (Nat.lt_of_add_left_lt hcap)
      (by simpa [Retained.next] using htotal)
  have hA : (⟨cap, []⟩ : Retained).append (written ops) = ⟨cap, written ops⟩ := rfl
  rw [hA] at href
  refine ⟨r, hr, href.nextOffset_eq, href.oldestOffset_eq, fun start stop => ?_, ?_⟩
  · refine ⟨_, href.readRange start stop, ?_, ?_⟩
    · rw [href.oldestOffset_eq, href.nextOffset_eq, Retained.read]
    · rw [href.oldestOffset_eq]
      rfl
  · have := href.reopen (Nat.lt_of_add_left_lt hcap) htotal
    rwa [href.cap_eq] at this

/-- Three bytes, a re-open, then three more into a ring of four. -/
theorem run_refines_retained_four :
    ∃ r, Ring.run [.append [1, 2, 3], .reopen, .append [4, 5, 6]] (RingFile.open [] 4) = some r ∧
      r.nextOffset = 6 ∧ r.oldestOffset = 2 ∧ RingFile.open r.file 4 = r := by
  obtain ⟨r, hr, hnext, hold, -, hopen⟩ := run_refines_retained 4 (by decide)
    [.append [1, 2, 3], .reopen, .append [4, 5, 6]] (by simp [written])
  exact ⟨r, hr, hnext, hold, hopen⟩

end Bud.Ring
