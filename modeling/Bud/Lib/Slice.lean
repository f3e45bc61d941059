import Mathlib.Data.List.Basic

/-!
# Half-open slices of a list

`slice S a b` is the part of `S` at the positions `a ≤ i < b`. It is total: positions past the end
contribute nothing and an inverted range is empty, which is how a clamped read of a byte stream
behaves. Everything below is about addressing one stream by absolute offsets: how slices are
cut and survive the stream growing at its end.
-/

namespace Slice

open List

variable {α : Type*}

def slice (S : List α) (a b : ℕ) : List α := (S.drop a).take (b - a)

@[simp] theorem length_slice (S : List α) (a b : ℕ) :
    (slice S a b).length = min b S.length - a := by
  simp only [slice, length_take, length_drop]
  omega

theorem getElem?_slice (S : List α) (a b i : ℕ) :
    (slice S a b)[i]? = if a + i < b then S[a + i]? else none := by
  rw [slice, getElem?_take]
  by_cases h : a + i < b
  · rw [if_pos (by omega), if_pos h, getElem?_drop]
  · rw [if_neg (by omega), if_neg h]

theorem slice_of_le (S : List α) {a b : ℕ} (h : b ≤ a) : slice S a b = [] := by
  rw [slice, Nat.sub_eq_zero_of_le h, take_zero]

theorem slice_add_length (S : List α) (a b : ℕ) :
    slice S a (a + (slice S a b).length) = slice S a b := by
  rw [length_slice, slice, slice, show a + (min b S.length - a) - a = min b S.length - a by omega]
  apply ext_getElem?
  intro i
  rw [getElem?_take, getElem?_take, getElem?_drop]
  by_cases hi : a + i < S.length
  · exact if_congr (by omega) rfl rfl
  · rw [getElem?_eq_none (by omega)]
    simp

theorem slice_ne_nil_iff (S : List α) (a b : ℕ) : slice S a b ≠ [] ↔ a < b ∧ a < S.length := by
  rw [← length_pos_iff, length_slice]
  omega

theorem slice_append_of_le (S T : List α) {a b : ℕ} (h : b ≤ S.length) :
    slice (S ++ T) a b = slice S a b := by
  apply ext_getElem?
  intro i
  rw [getElem?_slice, getElem?_slice]
  by_cases hi : a + i < b
  · rw [if_pos hi, if_pos hi, getElem?_append_left (by omega)]
  · rw [if_neg hi, if_neg hi]

theorem slice_append_length (S T : List α) :
    slice (S ++ T) S.length (S.length + T.length) = T := by
  simp [slice]

theorem drop_slice (S : List α) (a b n : ℕ) : (slice S a b).drop n = slice S (a + n) b := by
  rw [slice, slice, drop_take, drop_drop, Nat.sub_sub]

theorem take_slice (S : List α) (a b n : ℕ) : (slice S a b).take n = slice S a (min b (a + n)) := by
  rw [slice, slice, take_take, show min n (b - a) = min b (a + n) - a by omega]

theorem slice_splice {S T : List α} {k : ℕ} (hk : k ≤ T.length) (a b : ℕ) :
    slice (T.take k ++ S.drop k) a b
      = (slice T a b).take (k - a) ++ (slice S a b).drop (k - a) := by
  apply ext_getElem?
  intro i
  have hlen : ((slice T a b).take (k - a)).length = min k (min b T.length) - a := by
    rw [length_take, length_slice]
    omega
  rw [getElem?_slice, getElem?_append, getElem?_append, hlen, length_take,
    Nat.min_eq_left hk, getElem?_drop, getElem?_drop, getElem?_slice,
    getElem?_take, getElem?_take, getElem?_slice]
  by_cases hb : a + i < b
  · rw [if_pos hb]
    by_cases hik : a + i < k
    · rw [if_pos hik, if_pos (show i < min k (min b T.length) - a by omega),
        if_pos (show i < k - a by omega), if_pos hb, if_pos hik]
    · rw [if_neg hik, if_neg (by omega), if_pos (by omega)]
      congr 1
      omega
  · rw [if_neg hb, if_neg (by omega), if_neg (by omega)]

end Slice
