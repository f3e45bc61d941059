import Mathlib.Data.List.Basic

/-!
# Reading an exact number of bytes

A byte stream hands over its bytes in pieces whose sizes nothing is known about, and a call of
`read` may be interrupted. `readExact` calls `read` until the buffer is full. Its contract, `Exact`,
mentions only the bytes that are left: it takes the next `n` of them, or reports the end of the
file if there are fewer.

A reader of values is a function `next : σ → Except ε (α × σ)`, and `readAll` calls it until it
fails. Where `next` depends on its state only through the bytes left (`Parses`), so does a whole
sequence of calls. A stream of self-delimiting codes (`Delimits`), cut off anywhere, is then read as
the values whose codes are complete.
-/

namespace ExactReads

open List

universe u

variable {α β : Type u} {ε : Type} {σ τ : Type u}

inductive ReadError where
  | unexpectedEof

/-! ### A stream and one call of `read` -/

/-- What a call of `read` meets: an interruption, or a piece of at least one byte. -/
inductive Arrival (β : Type u) where
  | interrupted
  | piece (head : β) (tail : List β)

/-- The arrivals still to come, and then the end of the file. -/
abbrev Source (β : Type u) := List (Arrival β)

def Arrival.bytes : Arrival β → List β
  | .interrupted => []
  | .piece b bs => b :: bs

def left (s : Source β) : List β := s.flatMap Arrival.bytes

/-- The rest of a piece waits for the next call. -/
def putBack (bs : List β) (s : Source β) : Source β :=
  match bs with
  | [] => s
  | b :: bs => .piece b bs :: s

/-- A call of `read` with a buffer of `n` bytes; `none` if it is interrupted. -/
def read (n : ℕ) : Source β → Option (List β) × Source β
  | [] => (some [], [])
  | .interrupted :: s => (none, s)
  | .piece b bs :: s => (some ((b :: bs).take n), putBack ((b :: bs).drop n) s)

@[simp] theorem left_piece (b : β) (bs : List β) (s : Source β) :
    left (.piece b bs :: s) = (b :: bs) ++ left s := rfl

@[simp] theorem left_putBack (bs : List β) (s : Source β) : left (putBack bs s) = bs ++ left s := by
  cases bs <;> rfl

variable {n : ℕ} {s' : Source β}

theorem read_none {s : Source β} (h : read n s = (none, s')) :
    left s' = left s ∧ s'.length < s.length := by
  rcases s with _ | ⟨_ | ⟨b, bs⟩, s⟩
  · simp [read] at h
  · obtain rfl : s = s' := by simpa [read] using h
    exact ⟨rfl, Nat.lt_succ_self _⟩
  · simp [read] at h

theorem read_some {s : Source β} {got : List β} (h : read n s = (some got, s')) :
    left s = got ++ left s' ∧ got.length ≤ n ∧ s'.length ≤ s.length := by
  rcases s with _ | ⟨_ | ⟨b, bs⟩, s⟩
  · obtain ⟨rfl, rfl⟩ : [] = got ∧ [] = s' := by simpa [read] using h
    exact ⟨rfl, Nat.zero_le n, Nat.le_refl _⟩
  · simp [read] at h
  · obtain ⟨rfl, rfl⟩ : (b :: bs).take n = got ∧ putBack ((b :: bs).drop n) s = s' := by
      simpa only [read, Prod.mk.injEq, Option.some.injEq] using h
    refine ⟨?_, length_take_le _ _, ?_⟩
    · rw [left_putBack, ← append_assoc, take_append_drop, left_piece]
    · cases hdrop : (b :: bs).drop n <;> simp [putBack]

/-- A call that has room and returns nothing has met the end of the file. -/
theorem left_of_read_nil (hn : n ≠ 0) {s : Source β} (h : read n s = (some [], s')) :
    left s = [] := by
  rcases s with _ | ⟨_ | ⟨b, bs⟩, s⟩
  · rfl
  · simp [read] at h
  · obtain ⟨n, rfl⟩ := Nat.exists_eq_succ_of_ne_zero hn
    simp [read] at h

/-- Call `read` until `n` bytes have arrived. An interrupted call is made again. -/
def readExact (n : ℕ) (s : Source β) : Except ReadError (List β × Source β) :=
  if n = 0 then .ok ([], s)
  else
    match _h : read n s with
    | (none, s) => readExact n s
    | (some [], _) => .error .unexpectedEof
    | (some (b :: bs), s) =>
      (readExact (n - (b :: bs).length) s).map fun (rest, s) => (b :: bs ++ rest, s)
termination_by n + s.length
decreasing_by
  · have := (read_none ‹_›).2
    omega
  · have := (read_some ‹_›).2.2
    rw [List.length_cons]
    omega

/-! ### The contract -/

/-- `readExact n` takes the next `n` of the bytes that are left, or fails if there are fewer. -/
def Exact (left : σ → List β) (readExact : ℕ → σ → Except ReadError (List β × σ)) : Prop :=
  ∀ n s,
    (n ≤ (left s).length →
      ∃ t, readExact n s = .ok ((left s).take n, t) ∧ left t = (left s).drop n) ∧
    ((left s).length < n → readExact n s = .error .unexpectedEof)

theorem exact_readExact : Exact (left : Source β → List β) readExact := by
  intro n s
  fun_induction readExact n s with
  | case1 s =>
    exact ⟨fun _ => ⟨s, rfl, rfl⟩, fun h => absurd h (Nat.not_lt_zero _)⟩
  | case2 n s hn s' hread ih => rwa [← (read_none hread).1]
  | case3 n s hn s' hread =>
    rw [left_of_read_nil hn hread]
    exact ⟨fun h => absurd h (by simpa using hn), fun _ => rfl⟩
  | case4 n s hn b bs s' hread ih =>
    obtain ⟨hleft, hle, -⟩ := read_some hread
    have hlength : (left s).length = (b :: bs).length + (left s').length := by
      rw [hleft, length_append]
    refine ⟨fun h => ?_, fun h => ?_⟩
    · obtain ⟨t, hok, ht⟩ := ih.1 (by omega)
      refine ⟨t, ?_, ?_⟩
      · rw [hok, hleft, take_append, take_of_length_le hle]
        rfl
      · rw [ht, hleft, drop_append, drop_of_length_le hle, nil_append]
    · rw [ih.2 (by omega)]
      rfl

/-- The reader whose state is the bytes themselves. -/
def takeExact (n : ℕ) (bs : List β) : Except ReadError (List β × List β) :=
  if n ≤ bs.length then .ok (bs.take n, bs.drop n) else .error .unexpectedEof

theorem takeExact_append (bs rest : List β) :
    takeExact bs.length (bs ++ rest) = .ok (bs, rest) := by
  rw [takeExact, if_pos (by rw [length_append]; exact Nat.le_add_right _ _), take_left,
    drop_left]

theorem takeExact_of_lt {bs : List β} (h : bs.length < n) :
    takeExact n bs = .error .unexpectedEof := by
  rw [takeExact, if_neg (by omega)]

def leaving (left : σ → List β) (r : α × σ) : α × List β := (r.1, left r.2)

/-- The contract, as an equation. -/
theorem Exact.map_leaving {left : σ → List β} {readExact : ℕ → σ → Except ReadError (List β × σ)}
    (h : Exact left readExact) (n : ℕ) (s : σ) :
    (readExact n s).map (leaving left) = takeExact n (left s) := by
  rw [takeExact]
  split
  next hle =>
    obtain ⟨t, hok, ht⟩ := (h n s).1 hle
    rw [hok, ← ht]
    rfl
  next hlt => rw [(h n s).2 (by omega)]; rfl

/-! ### Reading values until the reader fails -/

section Reader

variable (next : σ → Except ε (α × σ))

/-- At most `n` calls of the reader, up to the first that fails: the values, the error, and the
state that the last call found. -/
def readAll : ℕ → σ → List α × Option ε × σ
  | 0, s => ([], none, s)
  | n + 1, s =>
    match next s with
    | .error e => ([], some e, s)
    | .ok (a, s) => (a :: (readAll n s).1, (readAll n s).2)

/-- What the reader does depends only on the bytes left, and `parse` says how. -/
def Parses (left : σ → List β) (parse : List β → Except ε (α × List β)) : Prop :=
  ∀ s, (next s).map (leaving left) = parse (left s)

end Reader

variable {next : σ → Except ε (α × σ)} {left : σ → List β}
  {parse : List β → Except ε (α × List β)} {eof : ε}

variable (next left) in
/-- What a sequence of calls returns, and the bytes that are left for the last of them. -/
def readAllLeaving (n : ℕ) (s : σ) : List α × Option ε × List β :=
  ((readAll next n s).1, (readAll next n s).2.1, left (readAll next n s).2.2)

theorem readAll_parses (h : Parses next left parse) (n : ℕ) (s : σ) :
    readAllLeaving next left n s = readAll parse n (left s) := by
  induction n generalizing s with
  | zero => rfl
  | succ n ih =>
    have hs := h s
    rw [readAllLeaving, readAll, readAll, ← hs]
    rcases next s with e | ⟨a, t⟩
    · rfl
    · show (a :: (readAll next n t).1, _, _) = (a :: (readAll parse n (left t)).1, _)
      rw [← ih t]
      rfl

/-- The code `c` of `a` tells where it ends, and every beginning of it is found to be cut off. -/
def Delimits (parse : List β → Except ε (α × List β)) (eof : ε) (a : α) (c : List β) : Prop :=
  (∀ rest, parse (c ++ rest) = .ok (a, rest)) ∧ ∀ k < c.length, parse (c.take k) = .error eof

/-- How many of the codes lie within the first `k` bytes. -/
def complete : List (List β) → ℕ → ℕ
  | [], _ => 0
  | c :: codes, k => if c.length ≤ k then complete codes (k - c.length) + 1 else 0

theorem complete_length (codes : List (List β)) :
    complete codes codes.flatten.length = codes.length := by
  induction codes with
  | nil => rfl
  | cons c codes ih =>
    rw [complete, flatten_cons, length_append, if_pos (Nat.le_add_right _ _),
      Nat.add_sub_cancel_left, ih, length_cons]

theorem complete_le (codes : List (List β)) (k : ℕ) : complete codes k ≤ codes.length := by
  induction codes generalizing k with
  | nil => exact Nat.le_refl 0
  | cons c codes ih =>
    rw [complete]
    split
    · exact Nat.succ_le_succ (ih _)
    · exact Nat.zero_le _

/-- What lies within the first `k` bytes are whole codes, and one more would not fit. -/
theorem complete_spec (codes : List (List β)) (k : ℕ) :
    (codes.take (complete codes k)).flatten.length ≤ k ∧
      (complete codes k < codes.length →
        k < (codes.take (complete codes k + 1)).flatten.length) := by
  induction codes generalizing k with
  | nil => exact ⟨Nat.zero_le k, fun h => absurd h (Nat.lt_irrefl 0)⟩
  | cons c codes ih =>
    rw [complete]
    split
    next hle =>
      have := ih (k - c.length)
      simp only [take_succ_cons, flatten_cons, length_append, length_cons]
      exact ⟨by omega, fun h => by have := this.2 (by omega); omega⟩
    next hlt => simpa using hlt

/-- The first `k` bytes of a stream of codes are read as the values whose codes they hold, and then
the reader finds what is left of the next code. -/
theorem readAll_take (hnil : parse [] = .error eof) {as : List α} {codes : List (List β)}
    (h : Forall₂ (Delimits parse eof) as codes) (k : ℕ) (hn : complete codes k < n) :
    readAll parse n (codes.flatten.take k) = (as.take (complete codes k), some eof,
        (codes.flatten.take k).drop (codes.take (complete codes k)).flatten.length) := by
  induction h generalizing k n with
  | nil =>
    obtain ⟨n, rfl⟩ := Nat.exists_eq_succ_of_ne_zero (Nat.ne_zero_of_lt hn)
    rw [flatten_nil, take_nil, readAll, hnil]
    rfl
  | @cons a c as codes hac _ ih =>
    obtain ⟨n, rfl⟩ := Nat.exists_eq_succ_of_ne_zero (Nat.ne_zero_of_lt hn)
    rw [complete] at hn ⊢
    rw [readAll]
    split_ifs at hn ⊢ with hle
    · have htake : (c :: codes).flatten.take k = c ++ codes.flatten.take (k - c.length) := by
        rw [flatten_cons, take_append, take_of_length_le hle]
      rw [htake, hac.1]
      show (a :: (readAll parse n _).1, (readAll parse n _).2) = _
      rw [ih _ (Nat.lt_of_succ_lt_succ hn)]
      simp only [take_succ_cons, flatten_cons, length_append, drop_length_add_append]
    · have htake : (c :: codes).flatten.take k = c.take k := by
        rw [flatten_cons, take_append_of_le_length (by omega)]
      rw [htake, hac.2 k (by omega)]
      rfl

end ExactReads
