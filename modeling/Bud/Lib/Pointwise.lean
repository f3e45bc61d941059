import Mathlib.Algebra.BigOperators.Group.List.Defs
import Mathlib.Algebra.GroupWithZero.Nat
import Mathlib.Data.List.Forall2

/-!
# Tables that are rewritten row by row

An update leaves a table with as many rows as it had, each of which is related to the one that was
there. What the relation keeps of a row, it keeps of the table.
-/

namespace Pointwise

open List

variable {α β : Type*} {R S T : α → α → Prop} {l l' l'' : List α}

theorem refl (h : ∀ a, R a a) (l : List α) : Forall₂ R l l := forall₂_same.mpr fun a _ => h a

theorem trans (hRST : ∀ a b c, R a b → S b c → T a c) (h : Forall₂ R l l') (h' : Forall₂ S l' l'') :
    Forall₂ T l l'' := by
  induction h generalizing l'' with
  | nil =>
    cases h'
    exact .nil
  | cons hab _ ih =>
    cases h' with
    | cons hbc h' => exact .cons (hRST _ _ _ hab hbc) (ih h')

theorem imp_of_mem (hRS : ∀ a ∈ l, ∀ b, R a b → S a b) (h : Forall₂ R l l') : Forall₂ S l l' := by
  induction h with
  | nil => exact .nil
  | cons hab _ ih =>
    obtain ⟨hhead, htail⟩ := forall_mem_cons.mp hRS
    exact .cons (hhead _ hab) (ih htail)

theorem map {f : α → α} (h : ∀ a ∈ l, R a (f a)) : Forall₂ R l (l.map f) :=
  forall₂_map_right_iff.mpr (forall₂_same.mpr h)

/-- One row is updated, and the others are as they were. -/
theorem modify {f : α → α} {i : ℕ} (hrefl : ∀ a, R a a) (h : ∀ a, l[i]? = some a → R a (f a)) :
    Forall₂ R l (l.modify i f) := by
  induction l generalizing i with
  | nil =>
    rw [modify_nil]
    exact .nil
  | cons a l ih =>
    cases i with
    | zero => exact .cons (h a rfl) (refl hrefl l)
    | succ i => exact .cons (hrefl a) (ih h)

variable {bs : List β}

theorem mem_right {R : α → β → Prop} (h : Forall₂ R l bs) {b : β} (hb : b ∈ bs) :
    ∃ a ∈ l, R a b := by
  induction h with
  | nil => cases hb
  | cons hab _ ih =>
    rcases mem_cons.mp hb with rfl | hb
    · exact ⟨_, mem_cons_self, hab⟩
    · obtain ⟨a, ha, hR⟩ := ih hb
      exact ⟨a, mem_cons_of_mem _ ha, hR⟩

theorem mem_left {R : α → β → Prop} (h : Forall₂ R l bs) {a : α} (ha : a ∈ l) : ∃ b ∈ bs, R a b :=
  mem_right h.flip ha

/-- A relation that holds of something for each row. -/
theorem exists_right {R : α → β → Prop} (h : ∀ a ∈ l, ∃ b, R a b) : ∃ bs, Forall₂ R l bs := by
  induction l with
  | nil => exact ⟨[], .nil⟩
  | cons a l ih =>
    obtain ⟨b, hb⟩ := h a mem_cons_self
    obtain ⟨bs, hbs⟩ := ih fun c hc => h c (mem_cons_of_mem a hc)
    exact ⟨b :: bs, .cons hb hbs⟩

theorem getElem?_right (h : Forall₂ R l l') {i : ℕ} {b : α} (hb : l'[i]? = some b) :
    ∃ a, l[i]? = some a ∧ R a b := by
  induction h generalizing i with
  | nil => cases hb
  | cons hab _ ih =>
    cases i with
    | zero => exact ⟨_, rfl, Option.some.inj hb ▸ hab⟩
    | succ i => exact ih hb

theorem map_eq_map {γ : Type*} {R : α → β → Prop} {f : α → γ} {g : β → γ}
    (hfg : ∀ a b, R a b → g b = f a) (h : Forall₂ R l bs) : bs.map g = l.map f := by
  induction h with
  | nil => rfl
  | cons hab _ ih => rw [map_cons, map_cons, hfg _ _ hab, ih]

theorem map_eq {f : α → β} (hf : ∀ a b, R a b → f b = f a) (h : Forall₂ R l l') :
    l'.map f = l.map f := map_eq_map hf h

theorem of_map_eq_map {γ : Type*} {f : α → γ} {g : β → γ} (h : bs.map g = l.map f) :
    Forall₂ (fun a b => g b = f a) l bs := by
  have hcolumns : Forall₂ (fun a b => b = a) (l.map f) (bs.map g) := by
    rw [h]
    exact forall₂_same.mpr fun _ _ => rfl
  rwa [forall₂_map_left_iff, forall₂_map_right_iff] at hcolumns

theorem countP_le {p q : α → Bool} (hpq : ∀ a b, R a b → q b = true → p a = true)
    (h : Forall₂ R l l') : l'.countP q ≤ l.countP p := by
  induction h with
  | nil => exact Nat.le_refl 0
  | @cons a b _ _ hab _ ih =>
    rw [countP_cons, countP_cons]
    refine Nat.add_le_add ih ?_
    by_cases hq : q b = true
    · simp [hq, hpq a b hab hq]
    · simp [hq]

theorem sum_le {f g : α → ℕ} (hfg : ∀ a b, R a b → g b ≤ f a) (h : Forall₂ R l l') :
    (l'.map g).sum ≤ (l.map f).sum := by
  induction h with
  | nil => exact Nat.le_refl 0
  | cons hab _ ih =>
    rw [map_cons, map_cons, sum_cons, sum_cons]
    exact Nat.add_le_add (hfg _ _ hab) ih

theorem mapM_eq_some {f : α → Option β} :
    l.mapM f = some bs ↔ Forall₂ (fun a b => f a = some b) l bs := by
  induction l generalizing bs with
  | nil => simp [eq_comm]
  | cons a as ih =>
    simp only [mapM_cons, Option.bind_eq_bind, Option.bind_eq_some_iff, Option.pure_def,
      Option.some.injEq, ih, forall₂_cons_left_iff]
    constructor
    · rintro ⟨b, hb, rest, hrest, rfl⟩
      exact ⟨b, rest, hb, hrest, rfl⟩
    · rintro ⟨b, rest, hb, hrest, rfl⟩
      exact ⟨b, hb, rest, hrest, rfl⟩

end Pointwise
