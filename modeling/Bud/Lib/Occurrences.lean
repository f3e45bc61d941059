import Mathlib.Data.List.Infix

/-!
# Where a pattern occurs in a text

A search for a pattern in a text that is put together from pieces goes piece by piece: what decides
is whether an occurrence can begin in a piece, given everything after it. `Clear p a b` says that
none begins in `a` when `b` follows, and composes over appends.

A pattern whose first symbol does not come back in the rest of it cannot overlap itself. Behind any
text it then occurs at the end, and elsewhere only where the text has it already.
-/

namespace Occurrences

open List

variable {α : Type*}

def Clear (p a b : List α) : Prop := ∀ i < a.length, ¬ p <+: (a ++ b).drop i

/-- `p` occurs in `s` once, at its end. -/
def OnlyAtEnd (p s : List α) : Prop := p <:+ s ∧ ∀ i, p <+: s.drop i → i + p.length = s.length

@[simp] theorem clear_nil (p b : List α) : Clear p [] b :=
  fun i hi => absurd hi (Nat.not_lt_zero i)

variable {p a : List α} {c : α}

theorem clear_cons {b : List α} {x : α} :
    Clear p (x :: a) b ↔ ¬ p <+: x :: (a ++ b) ∧ Clear p a b := by
  constructor
  · intro h
    refine ⟨h 0 (Nat.zero_lt_succ _), fun i hi => h (i + 1) (Nat.succ_lt_succ hi)⟩
  · rintro ⟨hx, ha⟩ i hi
    cases i with
    | zero => exact hx
    | succ i => exact ha i (Nat.lt_of_succ_lt_succ hi)

theorem clear_of_notMem (h : c ∉ a) (b : List α) : Clear (c :: p) a b := by
  induction a with
  | nil => exact clear_nil _ _
  | cons x a ih =>
    rw [mem_cons, not_or] at h
    refine clear_cons.mpr ⟨fun hp => ?_, ih h.2⟩
    exact h.1 (cons_prefix_cons.mp hp).1

/-- A pattern that cannot overlap itself begins in the text before it only where the text contains
it. -/
theorem clear_self_iff (hc : c ∉ p) : Clear (c :: p) a (c :: p) ↔ ¬ c :: p <:+: a := by
  induction a with
  | nil => simp
  | cons x a ih =>
    rw [clear_cons, ih, infix_cons_iff, not_or]
    refine and_congr_left fun _ => not_congr ⟨fun hp => ?_, fun hp => ?_⟩
    · rw [← cons_append] at hp
      refine prefix_of_prefix_length_le hp (prefix_append _ _) ?_
      by_contra hlen
      -- the occurrence would reach past the text, to the symbol that its own tail lacks
      obtain ⟨q, hq⟩ := prefix_of_prefix_length_le (prefix_append (x :: a) (c :: p)) hp
        (Nat.le_of_not_le hlen)
      have hreach : (x :: a) ++ q <+: (x :: a) ++ c :: p := by rwa [hq]
      have hover : q <+: c :: p := (prefix_append_right_inj (x :: a)).mp hreach
      obtain ⟨d, q, rfl⟩ : ∃ d q', q = d :: q' := by
        refine exists_cons_of_ne_nil ?_
        rintro rfl
        exact hlen (by rw [← hq, append_nil])
      obtain rfl : d = c := (cons_prefix_cons.mp hover).1
      have htail : a ++ d :: q = p := (cons.inj hq).2
      exact hc (htail ▸ mem_append_right _ mem_cons_self)
    · rw [← cons_append]
      exact hp.trans (prefix_append _ _)

theorem onlyAtEnd_append_iff_clear :
    OnlyAtEnd (c :: p) (a ++ c :: p) ↔ Clear (c :: p) a (c :: p) := by
  constructor
  · rintro ⟨-, h⟩ i hi hp
    have := h i hp
    rw [length_append] at this
    omega
  · intro h
    refine ⟨suffix_append _ _, fun i hp => ?_⟩
    have hge : a.length ≤ i := by
      by_contra hlt
      exact h i (Nat.lt_of_not_le hlt) hp
    have hlen := hp.length_le
    rw [length_drop, length_append, length_cons] at hlen
    rw [length_append, length_cons]
    omega

/-- **A text closed by a pattern** that cannot overlap itself has it at the end only, unless the
text contains it. -/
theorem onlyAtEnd_append_iff (hc : c ∉ p) : OnlyAtEnd (c :: p) (a ++ c :: p) ↔ ¬ c :: p <:+: a :=
  onlyAtEnd_append_iff_clear.trans (clear_self_iff hc)

/-! ### The first occurrence -/

variable [DecidableEq α]

def afterFirst (p : List α) : List α → Option (List α)
  | [] => if p = [] then some [] else none
  | x :: s => if p <+: x :: s then some ((x :: s).drop p.length) else afterFirst p s

theorem afterFirst_append {b : List α} (h : Clear p a b) :
    afterFirst p (a ++ b) = afterFirst p b := by
  induction a with
  | nil => rfl
  | cons x a ih =>
    obtain ⟨hx, ha⟩ := clear_cons.mp h
    rw [cons_append, afterFirst, if_neg hx, ih ha]

theorem afterFirst_self (p s : List α) : afterFirst (c :: p) (c :: p ++ s) = some s := by
  rw [cons_append, afterFirst, ← cons_append, if_pos (prefix_append _ _), drop_left]

end Occurrences
