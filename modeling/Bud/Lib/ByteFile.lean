import Bud.Lib.Slice

/-!
# A file as an array of elements

Positioned I/O on a file that behaves as an array: writing past the end extends the file (the hole
reads back as the default element), truncation cuts it, and an exact read fails when the file is
too short. `seek` followed by a read or a write is one operation here, because the cursor carries
no information between two operations that both seek first.
-/

namespace ByteFile

open Slice List

variable {α : Type*} [Inhabited α]

def setLen (f : List α) (n : ℕ) : List α :=
  f.take n ++ List.replicate (n - f.length) default

/-- Seek to `pos` and write all of `bs`. -/
def writeAt (f : List α) (pos : ℕ) (bs : List α) : List α :=
  f.take pos ++ List.replicate (pos - f.length) default ++ bs ++ f.drop (pos + bs.length)

/-- Seek to `pos` and read exactly `n` elements; `none` when the file ends first. -/
def readExact (f : List α) (pos n : ℕ) : Option (List α) :=
  let bs := slice f pos (pos + n)
  if bs.length = n then some bs else none

@[simp] theorem length_setLen (f : List α) (n : ℕ) : (setLen f n).length = n := by
  simp only [setLen, length_append, length_take, length_replicate]
  omega

variable {f bs : List α} {pos : ℕ}

omit [Inhabited α] in
theorem readExact_eq_slice {n : ℕ} (h : pos + n ≤ f.length) :
    readExact f pos n = some (slice f pos (pos + n)) := by
  simp only [readExact, length_slice]
  rw [if_pos (by omega)]

theorem writeAt_eq_of_le (h : pos + bs.length ≤ f.length) :
    writeAt f pos bs = f.take pos ++ (bs ++ f.drop (pos + bs.length)) := by
  rw [writeAt, Nat.sub_eq_zero_of_le (by omega), replicate_zero, append_nil,
    append_assoc]

theorem writeAt_nil (h : pos ≤ f.length) : writeAt f pos [] = f := by
  rw [writeAt_eq_of_le h]
  simp

theorem length_writeAt (h : pos + bs.length ≤ f.length) : (writeAt f pos bs).length = f.length := by
  rw [writeAt_eq_of_le h]
  simp only [length_append, length_take, length_drop]
  omega

/-- **A write inside the file changes exactly its own range.** -/
theorem getElem?_writeAt (h : pos + bs.length ≤ f.length) (i : ℕ) : (writeAt f pos bs)[i]? =
      if pos ≤ i ∧ i < pos + bs.length then bs[i - pos]? else f[i]? := by
  rw [writeAt_eq_of_le h, getElem?_append, length_take, Nat.min_eq_left (by omega)]
  by_cases h1 : i < pos
  · rw [if_pos h1, if_neg (by omega), getElem?_take_of_lt h1]
  · rw [if_neg h1, getElem?_append]
    by_cases h2 : i < pos + bs.length
    · rw [if_pos (by omega), if_pos ⟨by omega, h2⟩]
    · rw [if_neg (by omega), if_neg (by omega), getElem?_drop]
      congr 1
      omega

theorem take_writeAt_of_le {n : ℕ} (h : pos + bs.length ≤ f.length) (hn : n ≤ pos) :
    (writeAt f pos bs).take n = f.take n := by
  rw [writeAt_eq_of_le h, take_append_of_le_length (by rw [length_take]; omega),
    take_take, Nat.min_eq_left hn]

theorem take_writeAt_zero (h : bs.length ≤ f.length) : (writeAt f 0 bs).take bs.length = bs := by
  rw [writeAt_eq_of_le (by omega)]
  simp

end ByteFile
