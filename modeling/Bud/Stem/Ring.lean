import Bud.Lib.ByteFile
import Bud.Lib.LittleEndian

/-!
# The file-backed output ring

`ring.rs`: the holder keeps the last `cap` bytes of a session's output in a file, addressed by
absolute offsets from the session's start. The file is a 36-byte header followed by a `cap`-byte
circular data region, and the byte at absolute offset `o` lives at `HEADER_LEN + o % cap`.

The writer and the reader each walk the data region in spans that stop at its end, and each
recomputes the wrap from its own starting offset; nothing stored says where the oldest byte lies
except the two counters `nextOffset` and `len`.

## Modelling notes

The file is an array of bytes (`ByteFile`), and file operations succeed as long as the bytes they
ask for exist. Counters are natural numbers; they pass through the header as `u64`, so a header
round trip needs them below `2 ^ 64`. The length of the file, `HEADER_LEN + cap`, is a `u64` sum
in `load_header` and `reset`: a result about a ring that is opened again asks that it fits.

A `while` loop is a recursion on fuel whose exhaustion is `none`, next to `none` for an I/O error:
the source reports neither as a value. `Ring.Refines` proves that neither happens.
-/

namespace Bud.Ring

open Slice LittleEndian

/-- `b"STEMRING"`. -/
def magic : List UInt8 := [0x53, 0x54, 0x45, 0x4d, 0x52, 0x49, 0x4e, 0x47]

def formatVersion : ℕ := 1

def headerLen : ℕ := 8 + 4 + 8 + 8 + 8

structure RingFile where
  file : List UInt8
  cap : ℕ
  /-- Absolute offset the next appended byte will receive. -/
  nextOffset : ℕ
  /-- Retained bytes (`≤ cap`). -/
  len : ℕ
  deriving DecidableEq

structure RingRead where
  /-- Actual start offset of `bytes`. -/
  start : ℕ
  bytes : List UInt8
  /-- The requested start, when it predates retention. -/
  truncatedFrom : Option ℕ
  deriving DecidableEq

namespace RingFile

def header (r : RingFile) : List UInt8 :=
  magic ++ toLeBytes 4 formatVersion ++ toLeBytes 8 r.cap ++ toLeBytes 8 r.nextOffset ++
    toLeBytes 8 r.len

def writeHeader (r : RingFile) : RingFile :=
  { r with file := ByteFile.writeAt r.file 0 r.header }

def reset (r : RingFile) : RingFile :=
  writeHeader
    { r with nextOffset := 0, len := 0, file := ByteFile.setLen r.file (headerLen + r.cap) }

/-- `Ok(true)` is `some` with the counters populated, `Ok(false)` and a failed read are `none`:
`open` treats the two alike. -/
def loadHeader (r : RingFile) : Option RingFile :=
  if r.file.length ≠ headerLen + r.cap then none
  else
    match ByteFile.readExact r.file 0 headerLen with
    | none => none
    | some hdr =>
      let version := fromLeBytes (slice hdr 8 12)
      let cap := fromLeBytes (slice hdr 12 20)
      let nextOffset := fromLeBytes (slice hdr 20 28)
      let len := fromLeBytes (slice hdr 28 36)
      if slice hdr 0 8 ≠ magic then none
      else if version ≠ formatVersion ∨ cap ≠ r.cap ∨ cap < len ∨ nextOffset < len then none
      else some { r with nextOffset := nextOffset, len := len }

/-- Create or reopen a ring of capacity `cap` on a file with contents `file` (empty when the file
was just created). A file that fails validation is reset to an empty ring. -/
def «open» (file : List UInt8) (cap : ℕ) : RingFile :=
  let ring : RingFile := { file := file, cap := cap, nextOffset := 0, len := 0 }
  if file.length = 0 then ring.reset
  else (ring.loadHeader).getD ring.reset

/-- Oldest retained absolute offset. -/
def oldestOffset (r : RingFile) : ℕ := r.nextOffset - r.len

/-- The write loop of `append`: one span up to the end of the data region, then from its start. -/
def writeSpans (cap : ℕ) : ℕ → List UInt8 → ℕ → List UInt8 → Option (List UInt8)
  | _, file, _, [] => some file
  | 0, _, _, _ :: _ => none
  | fuel + 1, file, phys, rest =>
    let span := min (cap - phys) rest.length
    writeSpans cap fuel (ByteFile.writeAt file (headerLen + phys) (rest.take span)) 0
      (rest.drop span)

/-- Append `bytes` at `nextOffset`, evicting the oldest bytes past capacity. -/
def append (r : RingFile) (bytes : List UInt8) : Option RingFile :=
  let n := bytes.length
  if n = 0 then some r
  else if 0 < r.cap then
    -- a chunk larger than the ring: only its tail is written, but every byte advances the offset
    let keep := min n r.cap
    let src := bytes.drop (n - keep)
    let startLogical := r.nextOffset + (n - keep)
    (writeSpans r.cap src.length r.file (startLogical % r.cap) src).map fun file =>
      writeHeader
        { r with file := file, len := min (r.len + n) r.cap, nextOffset := r.nextOffset + n }
  else
    some (writeHeader { r with nextOffset := r.nextOffset + n })

/-- The read loop of `read_range`, for the `remaining` bytes still to fill. -/
def readSpans (cap : ℕ) (file : List UInt8) : ℕ → ℕ → ℕ → Option (List UInt8)
  | _, _, 0 => some []
  | 0, _, _ + 1 => none
  | fuel + 1, phys, remaining + 1 =>
    let span := min (cap - phys) (remaining + 1)
    (ByteFile.readExact file (headerLen + phys) span).bind fun chunk =>
      (readSpans cap file fuel 0 (remaining + 1 - span)).map fun rest => chunk ++ rest

/-- Read `[start, stop)`, clamping into retention; `stop` clamps to `nextOffset`. -/
def readRange (r : RingFile) (start stop : ℕ) : Option RingRead :=
  let oldest := r.oldestOffset
  let stop := min stop r.nextOffset
  let effStart := max start oldest
  if stop ≤ effStart then
    some
      { start := min effStart r.nextOffset
        bytes := []
        truncatedFrom := if start < oldest ∧ start < stop then some start else none }
  else
    let total := stop - effStart
    (readSpans r.cap r.file total (effStart % r.cap) total).map fun bytes =>
      { start := effStart
        bytes := bytes
        truncatedFrom := if start < effStart then some start else none }

/-! ### Equations -/

theorem writeSpans_nil (cap fuel : ℕ) (file : List UInt8) (phys : ℕ) :
    writeSpans cap fuel file phys [] = some file := by
  cases fuel <;> rfl

theorem writeSpans_succ (cap fuel : ℕ) (file : List UInt8) (phys : ℕ) (hrest : rest ≠ []) :
    writeSpans cap (fuel + 1) file phys rest = writeSpans cap fuel
        (ByteFile.writeAt file (headerLen + phys) (rest.take (min (cap - phys) rest.length))) 0
        (rest.drop (min (cap - phys) rest.length)) := by
  obtain ⟨b, bs, rfl⟩ := List.exists_cons_of_ne_nil hrest
  rfl

/-! ### Fields of the updates -/

@[simp] theorem writeHeader_cap (r : RingFile) : r.writeHeader.cap = r.cap := rfl

@[simp] theorem writeHeader_nextOffset (r : RingFile) : r.writeHeader.nextOffset = r.nextOffset :=
  rfl

@[simp] theorem writeHeader_len (r : RingFile) : r.writeHeader.len = r.len := rfl

@[simp] theorem length_magic : magic.length = 8 := rfl

@[simp] theorem length_header (r : RingFile) : r.header.length = headerLen := by
  simp [header, headerLen]

/-- The header decodes to the counters it was made from, as long as they are `u64`s. -/
theorem slices_header (r : RingFile) :
    slice r.header 0 8 = magic ∧ slice r.header 8 12 = toLeBytes 4 formatVersion ∧
      slice r.header 12 20 = toLeBytes 8 r.cap ∧ slice r.header 20 28 = toLeBytes 8 r.nextOffset ∧
      slice r.header 28 36 = toLeBytes 8 r.len := by
  refine ⟨?_, ?_, ?_, ?_, ?_⟩ <;> rfl

end RingFile

end Bud.Ring
