import Mathlib.Data.List.Nodup

/-!
# Which element comes first

`Precedes l a b` says that `a` comes before `b` in `l`. Where no element occurs twice this is an
order on the elements, and a list made from `l` by leaving elements out has the same one.
-/

namespace Precedence

open List

variable {α : Type*} {l l' : List α} {a b c : α}

/-- `a` comes before `b`. -/
def Precedes (l : List α) (a b : α) : Prop := List.Sublist [a, b] l

instance [DecidableEq α] : Decidable (Precedes l a b) :=
  inferInstanceAs (Decidable (List.Sublist [a, b] l))

theorem precedes_cons_iff : Precedes (a :: l) b c ↔ b = a ∧ c ∈ l ∨ Precedes l b c := by
  constructor
  · intro h
    rcases sublist_cons_iff.mp h with h | ⟨r, hr, h⟩
    · exact .inr h
    · obtain ⟨rfl, rfl⟩ := cons.inj hr
      exact .inl ⟨rfl, singleton_sublist.mp h⟩
  · rintro (⟨rfl, h⟩ | h)
    · exact (singleton_sublist.mpr h).cons_cons b
    · exact h.cons a

theorem Precedes.mem (h : Precedes l a b) : a ∈ l ∧ b ∈ l :=
  ⟨h.subset mem_cons_self, h.subset (mem_cons_of_mem _ mem_cons_self)⟩

theorem not_precedes_head (h : (a :: l).Nodup) : ¬ Precedes (a :: l) b a := by
  intro hb
  rcases precedes_cons_iff.mp hb with ⟨-, ha⟩ | hb
  · exact (nodup_cons.mp h).1 ha
  · exact (nodup_cons.mp h).1 hb.mem.2

theorem Precedes.of_mem (hsub : l'.Sublist l) (hl : l.Nodup) (h : Precedes l a b) (ha : a ∈ l')
    (hb : b ∈ l') : Precedes l' a b := by
  induction hsub with
  | slnil => exact absurd ha not_mem_nil
  | @cons l' l x hsub ih =>
    obtain ⟨hx, hl⟩ := nodup_cons.mp hl
    rcases precedes_cons_iff.mp h with ⟨rfl, -⟩ | hrest
    · exact absurd (hsub.subset ha) hx
    · exact ih hl hrest ha hb
  | @cons_cons l' l x hsub ih =>
    obtain ⟨hx, hl⟩ := nodup_cons.mp hl
    refine precedes_cons_iff.mpr ?_
    rcases precedes_cons_iff.mp h with ⟨rfl, hb'⟩ | hrest
    · exact .inl ⟨rfl, (mem_cons.mp hb).resolve_left fun hxb => hx (hxb ▸ hb')⟩
    · -- neither element is the head, which does not occur again
      refine .inr (ih hl hrest ?_ ?_)
      · exact (mem_cons.mp ha).resolve_left fun hxa => hx (hxa ▸ hrest.mem.1)
      · exact (mem_cons.mp hb).resolve_left fun hxb => hx (hxb ▸ hrest.mem.2)

theorem precedes_iff_of_sublist (hsub : l'.Sublist l) (hl : l.Nodup) :
    Precedes l' a b ↔ Precedes l a b ∧ a ∈ l' ∧ b ∈ l' :=
  ⟨fun h => ⟨h.trans hsub, h.mem⟩, fun ⟨h, ha, hb⟩ => h.of_mem hsub hl ha hb⟩

end Precedence
