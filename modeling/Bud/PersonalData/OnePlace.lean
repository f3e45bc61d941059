import Bud.PersonalData.PlacePresence

/-!
# One reading, one place

Of two saved places that overlap, a reading is to count for one. The place that is strictly nearer
wins, so two that are exactly as near both win, unless a third that contains the reading is nearer
still.
-/

namespace Bud.PlacePresence

variable (env : Env) (fix : FixReading)

/-- How far the reading is from the centre of a place. -/
def distanceTo (place : Place) : ℚ :=
  env.distanceM fix.latitude fix.longitude place.latitude place.longitude

/-- The reading is precise, and the place holds its whole error circle. -/
def Encloses (place : Place) : Prop :=
  fix.accuracyM ≤ FIX_MAX_ACCURACY_M ∧
    distanceTo env fix place - fix.accuracyM ≤ place.radiusM ∧
    distanceTo env fix place + fix.accuracyM ≤ place.radiusM

/-- A place that may contain the reading is nearer than `distance`. -/
def NearerThan (distance : ℚ) (other : Place) : Prop :=
  distanceTo env fix other < distance ∧ distanceTo env fix other ≤ other.radiusM + fix.accuracyM

variable {env fix} {owned : List Place} {p q : Place}

theorem classifyReading_eq_inside : classifyReading env fix p owned = .inside ↔
    Encloses env fix p ∧
      ∀ other ∈ owned, other.id ≠ p.id → ¬NearerThan env fix (distanceTo env fix p) other := by
  rw [classifyReading, Encloses]
  dsimp only
  split_ifs with hunknown houtside huncertain hnearer
  · exact iff_of_false nofun fun h => hunknown.not_ge h.1.1
  · exact iff_of_false nofun fun h => houtside.not_ge h.1.2.1
  · exact iff_of_false nofun fun h => huncertain.not_ge h.1.2.2
  · refine iff_of_false nofun fun h => ?_
    obtain ⟨other, hother, hnear⟩ := List.any_eq_true.mp hnearer
    simp only [ne_eq, Bool.and_eq_true, decide_eq_true_eq] at hnear
    exact h.2 other hother hnear.1 hnear.2
  · refine iff_of_true rfl ⟨⟨not_lt.mp hunknown, not_lt.mp houtside, not_lt.mp huncertain⟩, ?_⟩
    intro other hother hid hnear
    refine hnearer (List.any_eq_true.mpr ⟨other, hother, ?_⟩)
    simp only [ne_eq, Bool.and_eq_true, decide_eq_true_eq]
    exact ⟨hid, hnear⟩

theorem Encloses.le (h : Encloses env fix p) :
    distanceTo env fix p ≤ p.radiusM + fix.accuracyM :=
  sub_le_iff_le_add.mp h.2.1

theorem not_nearer_of_inside (hq : q ∈ owned) (hid : q.id ≠ p.id)
    (hp : classifyReading env fix p owned = .inside)
    (hinside : classifyReading env fix q owned = .inside) :
    distanceTo env fix p ≤ distanceTo env fix q := by
  by_contra hlt
  exact (classifyReading_eq_inside.mp hp).2 q hq hid
    ⟨not_le.mp hlt, (classifyReading_eq_inside.mp hinside).1.le⟩

end Bud.PlacePresence
