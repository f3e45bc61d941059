import Mathlib.Algebra.Group.Int.Defs
import Mathlib.Algebra.GroupWithZero.Nat
import Mathlib.Data.List.TakeWhile
import Mathlib.Tactic.Common

/-!
# Texts of the Rust standard library

`str` as a list of scalar values, with the operations whose exact behaviour on every text matters
here: `trim`, which goes by the Unicode `White_Space` property, and `parse::<i32>`.
-/

namespace RustText

open List

/-- `char::is_whitespace`: the Unicode `White_Space` property. -/
def isWhitespace (c : Char) : Bool :=
  let n := c.toNat
  (9 ≤ n && n ≤ 13) || n == 0x20 || n == 0x85 || n == 0xA0 || n == 0x1680 ||
    (0x2000 ≤ n && n ≤ 0x200A) || n == 0x2028 || n == 0x2029 || n == 0x202F || n == 0x205F ||
    n == 0x3000

def trimStart (s : List Char) : List Char := s.dropWhile isWhitespace

def trimEnd (s : List Char) : List Char := (s.reverse.dropWhile isWhitespace).reverse

def trim (s : List Char) : List Char := trimEnd (trimStart s)

def digit? (c : Char) : Option ℕ :=
  if 48 ≤ c.toNat ∧ c.toNat ≤ 57 then some (c.toNat - 48) else none

def parseDigits : List Char → Option ℕ
  | [] => none
  | cs => cs.foldlM (fun acc c => (digit? c).map fun d => acc * 10 + d) 0

/-- `str::parse::<i32>`: one optional sign, digits, and the value in range. -/
def parseI32 (s : List Char) : Option ℤ :=
  let value : Option ℤ :=
    match s with
    | '+' :: ds => (parseDigits ds).map Int.ofNat
    | '-' :: ds => (parseDigits ds).map fun n => -Int.ofNat n
    | ds => (parseDigits ds).map Int.ofNat
  value.filter fun v => decide (-2147483648 ≤ v ∧ v ≤ 2147483647)

def parseSigned : List Char → Option ℤ
  | '+' :: ds => (parseDigits ds).map Int.ofNat
  | '-' :: ds => (parseDigits ds).map fun n => -Int.ofNat n
  | ds => (parseDigits ds).map Int.ofNat

/-- `str::parse::<i64>`. -/
def parseI64 (s : List Char) : Option ℤ :=
  (parseSigned s).filter fun v => decide (-2 ^ 63 ≤ v ∧ v < 2 ^ 63)

/-- `Display` of a signed integer. -/
def showInt : ℤ → List Char
  | .ofNat n => Nat.toDigits 10 n
  | .negSucc n => '-' :: Nat.toDigits 10 (n + 1)

/-- `char::to_digit(16)` -/
def hexDigit? (c : Char) : Option ℕ :=
  if 48 ≤ c.toNat ∧ c.toNat ≤ 57 then some (c.toNat - 48)
  else if 97 ≤ c.toNat ∧ c.toNat ≤ 102 then some (c.toNat - 87)
  else if 65 ≤ c.toNat ∧ c.toNat ≤ 70 then some (c.toNat - 55)
  else none

/-- `u32::from_str_radix(s, 16)`, for texts too short to overflow. -/
def parseHex (s : List Char) : Option ℕ :=
  let ds := match s with
    | '+' :: ds => ds
    | ds => ds
  if ds = [] then none
  else ds.foldlM (fun acc c => (hexDigit? c).map fun d => acc * 16 + d) 0

def charFromU32 (n : ℕ) : Option Char :=
  if n < 0xD800 ∨ 0xDFFF < n ∧ n < 0x110000 then some (Char.ofNat n) else none

/-- `str::strip_prefix`. -/
def stripPrefix : List Char → List Char → Option (List Char)
  | [], s => some s
  | _ :: _, [] => none
  | p :: ps, c :: s => if p = c then stripPrefix ps s else none

theorem trim_eq_nil_iff (s : List Char) : trim s = [] ↔ ∀ c ∈ s, isWhitespace c = true := by
  rw [trim, trimEnd, reverse_eq_nil_iff, dropWhile_eq_nil_iff]
  simp only [mem_reverse, trimStart]
  constructor
  · intro h
    rw [← dropWhile_eq_nil_iff]
    cases hd : s.dropWhile isWhitespace with
    | nil => rfl
    | cons c cs =>
      -- the first character kept is not white space
      have hne : s.dropWhile isWhitespace ≠ [] := by rw [hd]; exact cons_ne_nil c cs
      have hc := head_dropWhile_not isWhitespace hne
      simp only [hd, head_cons] at hc
      have := h c (by rw [hd]; exact mem_cons_self)
      rw [hc] at this
      cases this
  · intro h c hc
    exact h c ((dropWhile_suffix _).mem hc)

/-! ### Numbers back from their digits -/

theorem digit?_of_isDigit {c : Char} (h : c.isDigit = true) :
    digit? c = some (c.toNat - '0'.toNat) :=
  if_pos (Char.isDigit_iff_toNat.mp h)

theorem foldlM_digits {cs : List Char} (h : ∀ c ∈ cs, c.isDigit = true) (acc : ℕ) :
    cs.foldlM (fun acc c => (digit? c).map fun d => acc * 10 + d) acc =
      some (Nat.ofDigitChars 10 cs acc) := by
  induction cs generalizing acc with
  | nil => simp
  | cons c cs ih =>
    rw [foldlM_cons, digit?_of_isDigit (h c mem_cons_self), Nat.ofDigitChars_cons, Nat.mul_comm]
    exact ih (fun d hd => h d (mem_cons_of_mem c hd)) _

theorem isDigit_of_mem_toDigits {n : ℕ} {c : Char} (h : c ∈ Nat.toDigits 10 n) :
    c.isDigit = true :=
  Nat.isDigit_of_mem_toDigits (by decide) (by decide) h

theorem parseDigits_toDigits (n : ℕ) : parseDigits (Nat.toDigits 10 n) = some n := by
  have hfold := foldlM_digits (fun c => isDigit_of_mem_toDigits (n := n) (c := c)) 0
  rw [Nat.ofDigitChars_ten_toDigits] at hfold
  obtain ⟨c, cs, hcs⟩ := exists_cons_of_ne_nil (Nat.toDigits_ne_nil (n := n) (b := 10))
  rw [hcs] at hfold ⊢
  exact hfold

theorem parseSigned_toDigits (n : ℕ) : parseSigned (Nat.toDigits 10 n) = some (Int.ofNat n) := by
  have hdigits := parseDigits_toDigits n
  rw [parseSigned]
  · rw [hdigits]
    rfl
  · intro ds hds
    have := isDigit_of_mem_toDigits (n := n) (c := '+') (by simp [hds])
    simp at this
  · intro ds hds
    have := isDigit_of_mem_toDigits (n := n) (c := '-') (by simp [hds])
    simp at this

theorem parseSigned_showInt (n : ℤ) : parseSigned (showInt n) = some n := by
  cases n with
  | ofNat n => exact parseSigned_toDigits n
  | negSucc n =>
    rw [showInt, parseSigned, parseDigits_toDigits]
    rfl

theorem parseI64_showInt (n : ℤ) :
    parseI64 (showInt n) = if -2 ^ 63 ≤ n ∧ n < 2 ^ 63 then some n else none := by
  rw [parseI64, parseSigned_showInt, Option.filter_some]
  simp

theorem mem_showInt {n : ℤ} {c : Char} (h : c ∈ showInt n) : c.isDigit = true ∨ c = '-' := by
  cases n with
  | ofNat n => exact Or.inl (isDigit_of_mem_toDigits h)
  | negSucc n =>
    rw [showInt, mem_cons] at h
    exact h.elim Or.inr fun h => Or.inl (isDigit_of_mem_toDigits h)

theorem showInt_ne_nil (n : ℤ) : showInt n ≠ [] := by
  cases n with
  | ofNat n => exact Nat.toDigits_ne_nil
  | negSucc n => exact cons_ne_nil _ _

end RustText
