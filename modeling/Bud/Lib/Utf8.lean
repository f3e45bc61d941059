import Mathlib.Data.List.Basic

/-!
# UTF-8

Texts are lists of scalar values (`Char`), byte strings are lists of bytes. `next` reads one
sequence off the front of a byte string; when the bytes there are not the encoding of a scalar it
reports the longest beginning of one as a single invalid sequence, which is the unit that lossy
decoding replaces by `U+FFFD`.
-/

namespace Utf8

open List

def encodeChar (c : Char) : List UInt8 :=
  let n := c.toNat
  if n < 0x80 then [UInt8.ofNat n]
  else if n < 0x800 then [UInt8.ofNat (0xC0 + n / 64), UInt8.ofNat (0x80 + n % 64)]
  else if n < 0x10000 then
    [UInt8.ofNat (0xE0 + n / 4096), UInt8.ofNat (0x80 + n / 64 % 64), UInt8.ofNat (0x80 + n % 64)]
  else
    [UInt8.ofNat (0xF0 + n / 262144), UInt8.ofNat (0x80 + n / 4096 % 64),
      UInt8.ofNat (0x80 + n / 64 % 64), UInt8.ofNat (0x80 + n % 64)]

def encode (s : List Char) : List UInt8 := s.flatMap encodeChar

/-- Read `k` continuation bytes, the first of them in `[low, high]`, onto the bits `acc`. -/
def tails : ℕ → ℕ → ℕ → ℕ → List UInt8 → Option Char × List UInt8
  | 0, acc, _, _, rest => (some (Char.ofNat acc), rest)
  | _ + 1, _, _, _, [] => (none, [])
  | k + 1, acc, low, high, b :: rest =>
    if low ≤ b.toNat ∧ b.toNat ≤ high then
      tails k (acc * 64 + (b.toNat - 0x80)) 0x80 0xBF rest
    else (none, b :: rest)

/-- The first sequence of a byte string: a scalar value, or `none` for an invalid one. -/
def next : List UInt8 → Option (Option Char × List UInt8)
  | [] => none
  | b :: rest =>
    let n := b.toNat
    some <|
      if n < 0x80 then (some (Char.ofNat n), rest)
      else if n < 0xC2 then (none, rest)
      else if n < 0xE0 then tails 1 (n - 0xC0) 0x80 0xBF rest
      else if n = 0xE0 then tails 2 (n - 0xE0) 0xA0 0xBF rest
      else if n = 0xED then tails 2 (n - 0xE0) 0x80 0x9F rest
      else if n < 0xF0 then tails 2 (n - 0xE0) 0x80 0xBF rest
      else if n = 0xF0 then tails 3 (n - 0xF0) 0x90 0xBF rest
      else if n < 0xF4 then tails 3 (n - 0xF0) 0x80 0xBF rest
      else if n = 0xF4 then tails 3 (n - 0xF0) 0x80 0x8F rest
      else (none, rest)

/-- The sequences of a byte string, at most `fuel` of them. -/
def sequences : ℕ → List UInt8 → List (Option Char)
  | 0, _ => []
  | fuel + 1, bs =>
    match next bs with
    | none => []
    | some (c, rest) => c :: sequences fuel rest

/-- Strict decoding: `none` if any sequence is invalid. -/
def decode (bs : List UInt8) : Option (List Char) := (sequences bs.length bs).mapM id

def replacement : Char := Char.ofNat 0xFFFD

/-- Lossy decoding: every invalid sequence becomes `U+FFFD`. -/
def decodeLossy (bs : List UInt8) : List Char :=
  (sequences bs.length bs).map fun c => c.getD replacement

/-! ### Decoding inverts encoding -/

theorem tails_succ {k acc low high n : ℕ} {rest : List UInt8} (hn : n < 256) (hlow : low ≤ n)
    (hhigh : n ≤ high) :
    tails (k + 1) acc low high (UInt8.ofNat n :: rest)
      = tails k (acc * 64 + (n - 0x80)) 0x80 0xBF rest := by
  rw [tails, UInt8.toNat_ofNat_of_lt' hn, if_pos ⟨hlow, hhigh⟩]

theorem tails_zero_toNat (c : Char) {n low high : ℕ} (h : n = c.toNat) (rest : List UInt8) :
    tails 0 n low high rest = (some c, rest) := by
  rw [tails, h, Char.ofNat_toNat]

/-- A scalar value is below the surrogates or above them. -/
theorem toNat_scalar (c : Char) : c.toNat < 0xD800 ∨ 0xDFFF < c.toNat ∧ c.toNat < 0x110000 :=
  c.valid

/-- **One sequence is read back.** -/
theorem next_encodeChar (c : Char) (rest : List UInt8) :
    next (encodeChar c ++ rest) = some (some c, rest) := by
  have hc := toNat_scalar c
  rw [encodeChar]
  by_cases h1 : c.toNat < 0x80
  · simp only [if_pos h1, cons_append, nil_append, next,
      UInt8.toNat_ofNat_of_lt' (show c.toNat < 256 by omega), Char.ofNat_toNat]
  by_cases h2 : c.toNat < 0x800
  · simp only [if_neg h1, if_pos h2, cons_append, nil_append, next,
      UInt8.toNat_ofNat_of_lt' (show 0xC0 + c.toNat / 64 < 256 by omega)]
    rw [if_neg (by omega), if_neg (by omega), if_pos (by omega),
      tails_succ (by omega) (by omega) (by omega), tails_zero_toNat c (by omega)]
  by_cases h3 : c.toNat < 0x10000
  · simp only [if_neg h1, if_neg h2, if_pos h3, cons_append, nil_append, next,
      UInt8.toNat_ofNat_of_lt' (show 0xE0 + c.toNat / 4096 < 256 by omega)]
    rw [if_neg (by omega), if_neg (by omega), if_neg (by omega)]
    -- the second byte's range depends on the lead byte, to exclude overlong forms and surrogates
    split_ifs
    · rw [tails_succ (by omega) (by omega) (by omega), tails_succ (by omega) (by omega) (by omega),
        tails_zero_toNat c (by omega)]
    · rw [tails_succ (by omega) (by omega) (by omega), tails_succ (by omega) (by omega) (by omega),
        tails_zero_toNat c (by omega)]
    · rw [tails_succ (by omega) (by omega) (by omega), tails_succ (by omega) (by omega) (by omega),
        tails_zero_toNat c (by omega)]
    all_goals omega
  · simp only [if_neg h1, if_neg h2, if_neg h3, cons_append, nil_append, next,
      UInt8.toNat_ofNat_of_lt' (show 0xF0 + c.toNat / 262144 < 256 by omega)]
    rw [if_neg (by omega), if_neg (by omega), if_neg (by omega), if_neg (by omega),
      if_neg (by omega), if_neg (by omega)]
    split_ifs
    · rw [tails_succ (by omega) (by omega) (by omega), tails_succ (by omega) (by omega) (by omega),
        tails_succ (by omega) (by omega) (by omega), tails_zero_toNat c (by omega)]
    · rw [tails_succ (by omega) (by omega) (by omega), tails_succ (by omega) (by omega) (by omega),
        tails_succ (by omega) (by omega) (by omega), tails_zero_toNat c (by omega)]
    · rw [tails_succ (by omega) (by omega) (by omega), tails_succ (by omega) (by omega) (by omega),
        tails_succ (by omega) (by omega) (by omega), tails_zero_toNat c (by omega)]
    all_goals omega

theorem length_encodeChar_pos (c : Char) : 0 < (encodeChar c).length := by
  rw [encodeChar]
  split_ifs <;> simp

theorem sequences_encode : ∀ (s : List Char) (fuel : ℕ), (encode s).length ≤ fuel →
    sequences fuel (encode s) = s.map some := by
  intro s
  induction s with
  | nil => intro fuel _; cases fuel <;> rfl
  | cons c s ih =>
    intro fuel hfuel
    have hpos := length_encodeChar_pos c
    have hsplit : encode (c :: s) = encodeChar c ++ encode s := rfl
    rw [hsplit, length_append] at hfuel
    obtain ⟨fuel, rfl⟩ : ∃ f, fuel = f + 1 := ⟨fuel - 1, by omega⟩
    rw [hsplit, sequences, next_encodeChar, map_cons, ← ih fuel (by omega)]

/-- **Strict decoding inverts encoding.** -/
theorem decode_encode (s : List Char) : decode (encode s) = some s := by
  rw [decode, sequences_encode s _ (Nat.le_refl _)]
  induction s with
  | nil => rfl
  | cons c s ih => simp_all

theorem decodeLossy_encode (s : List Char) : decodeLossy (encode s) = s := by
  rw [decodeLossy, sequences_encode s _ (Nat.le_refl _), map_map]
  exact map_id s

end Utf8
