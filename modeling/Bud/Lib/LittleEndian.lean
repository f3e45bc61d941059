import Mathlib.Data.List.Basic
import Mathlib.Tactic.Ring

/-!
# Little-endian integers

A fixed-width unsigned integer as its bytes, least significant first. Encoding keeps the low
`8 * k` bits, so it is total; the round trip is exact below `256 ^ k`.

An integer that is overwritten byte by byte passes through mixtures of its old and its new bytes.
`fromLeBytes_splice_le` bounds them: while an integer grows, no mixture exceeds its new value.
-/

namespace LittleEndian

/-- The `k` low bytes of `n`, least significant first. -/
def toLeBytes : ℕ → ℕ → List UInt8
  | 0, _ => []
  | k + 1, n => UInt8.ofNat n :: toLeBytes k (n / 256)

/-- The integer whose bytes, least significant first, are `bs`. -/
def fromLeBytes : List UInt8 → ℕ
  | [] => 0
  | b :: bs => b.toNat + 256 * fromLeBytes bs

@[simp] theorem length_toLeBytes : ∀ k n : ℕ, (toLeBytes k n).length = k
  | 0, _ => rfl
  | k + 1, n => by rw [toLeBytes, List.length_cons, length_toLeBytes k]

theorem fromLeBytes_toLeBytes : ∀ {k n : ℕ}, n < 256 ^ k → fromLeBytes (toLeBytes k n) = n
  | 0, n, h => by
    have : n = 0 := by simpa using h
    simp [toLeBytes, fromLeBytes, this]
  | k + 1, n, h => by
    have hdiv : n / 256 < 256 ^ k := by
      refine Nat.div_lt_of_lt_mul ?_
      calc n < 256 ^ (k + 1) := h
        _ = 256 * 256 ^ k := by ring
    rw [toLeBytes, fromLeBytes, fromLeBytes_toLeBytes hdiv, UInt8.toNat_ofNat']
    omega

/-- The new bytes up to `j` over the old ones, while the integer grows from `a` to `b`. -/
theorem fromLeBytes_splice_le : ∀ {k a b : ℕ}, a ≤ b → b < 256 ^ k → ∀ j : ℕ,
    fromLeBytes ((toLeBytes k b).take j ++ (toLeBytes k a).drop j) ≤ b
  | k, a, b, hab, hb, 0 => by
    rw [List.take_zero, List.drop_zero, List.nil_append, fromLeBytes_toLeBytes (by omega)]
    exact hab
  | 0, a, b, _, _, j + 1 => by simp [toLeBytes, fromLeBytes]
  | k + 1, a, b, hab, hb, j + 1 => by
    have hdiv : b / 256 < 256 ^ k := by
      refine Nat.div_lt_of_lt_mul ?_
      calc b < 256 ^ (k + 1) := hb
        _ = 256 * 256 ^ k := by ring
    have ih := fromLeBytes_splice_le (Nat.div_le_div_right hab) hdiv j
    rw [toLeBytes, toLeBytes, List.take_succ_cons, List.drop_succ_cons, List.cons_append,
      fromLeBytes, UInt8.toNat_ofNat']
    omega

end LittleEndian
