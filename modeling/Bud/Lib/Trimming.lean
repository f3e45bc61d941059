import Mathlib.Data.List.DropRight

/-!
# Trimming a list at both ends

`trimBy p` drops the elements that `p` holds of from the front and from the back. What it leaves is
tight: neither its first element nor its last is such an element. The tight lists are those that
trimming leaves alone.
-/

namespace Trimming

open List

variable {α : Type} {p : α → Bool} {l : List α}

/-- `l` without what `p` holds of at its ends. -/
def trimBy (p : α → Bool) (l : List α) : List α :=
  ((l.dropWhile p).reverse.dropWhile p).reverse

/-- `p` holds neither of the first element nor of the last. -/
structure Tight (p : α → Bool) (l : List α) : Prop where
  first : ∀ a, l.head? = some a → p a = false
  last : ∀ a, l.getLast? = some a → p a = false

theorem dropWhile_of_head (h : ∀ a, l.head? = some a → p a = false) : l.dropWhile p = l := by
  cases l with
  | nil => rfl
  | cons a l => rw [dropWhile_cons_of_neg (by rw [h a rfl]; exact Bool.false_ne_true)]

theorem head_dropWhile {a : α} (h : (l.dropWhile p).head? = some a) : p a = false := by
  have hnot := head?_dropWhile_not p l
  rw [h] at hnot
  simpa using hnot

theorem trimBy_of_tight (h : Tight p l) : trimBy p l = l := by
  rw [trimBy, dropWhile_of_head h.first, dropWhile_of_head (fun a ha => h.last a ?_),
    reverse_reverse]
  rw [← ha, head?_reverse]

theorem tight_trimBy (p : α → Bool) (l : List α) : Tight p (trimBy p l) := by
  refine ⟨fun a ha => ?_, fun a ha => ?_⟩
  · -- the back is dropped of a list that begins as it should
    have hfront : trimBy p l <+: l.dropWhile p := rdropWhile_prefix p (l.dropWhile p)
    obtain ⟨rest, hrest⟩ := hfront
    refine head_dropWhile (l := l) ?_
    rw [← hrest, head?_append, ha]
    rfl
  · rw [trimBy, getLast?_reverse] at ha
    exact head_dropWhile ha

@[simp] theorem trimBy_trimBy (p : α → Bool) (l : List α) : trimBy p (trimBy p l) = trimBy p l :=
  trimBy_of_tight (tight_trimBy p l)

theorem isInfix_trimBy (p : α → Bool) (l : List α) : trimBy p l <:+: l :=
  ( rdropWhile_prefix p (l.dropWhile p)).isInfix.trans (dropWhile_suffix p).isInfix

theorem mem_of_mem_trimBy {a : α} (h : a ∈ trimBy p l) : a ∈ l := (isInfix_trimBy p l).subset h

theorem trimBy_eq_nil_iff : trimBy p l = [] ↔ ∀ a ∈ l, p a = true := by
  rw [trimBy, reverse_eq_nil_iff, dropWhile_eq_nil_iff]
  constructor
  · intro h a ha
    by_contra hpa
    have hdrop : l.dropWhile p = [] := by
      rcases hd : l.dropWhile p with _ | ⟨b, rest⟩
      · rfl
      · have hb : p b = false := head_dropWhile (l := l) (by rw [hd]; rfl)
        have := h b (by rw [hd]; simp)
        rw [hb] at this
        contradiction
    exact hpa (dropWhile_eq_nil_iff.mp hdrop a ha)
  · intro h a ha
    exact h a ((dropWhile_suffix p).subset (mem_reverse.mp ha))

end Trimming
