import Mathlib.Data.Int.Interval

/-!
# Local times

`localTimeToInstant` finds the instant of a wall-clock time with nothing but the offset of the zone
at an instant. It tries every offset that the zone uses at five instants around the time, and keeps
those that lead to an instant that reads back as the time.

A zone is its offset as a function of the instant, in milliseconds. A calendar date is its day
number, as `Date.UTC` counts days, so that a part of a date is only read to be counted again.
-/

namespace Bud.Schedule

open List

/-- A time zone: its offset from UTC, in seconds, at every instant. In any 53 hours it changes once
at most. -/
structure Zone where
  offset : ℤ → ℤ
  le_offset : ∀ t, -(14 * 3600) ≤ offset t
  offset_le : ∀ t, offset t ≤ 14 * 3600
  change : ∀ start, ∃ T a b, ∀ t, start ≤ t → t < start + 53 * 3600000 →
    offset t = if t < T then a else b

/-- What a clock shows: the calendar date, by its number, and the time. -/
structure Parts where
  day : ℤ
  hour : ℤ
  minute : ℤ
  second : ℤ

/-- `Date.UTC` of a date and a time. -/
def Parts.utc (p : Parts) : ℤ := (((p.day * 24 + p.hour) * 60 + p.minute) * 60 + p.second) * 1000

variable (zone : Zone)

def localParts (instant : ℤ) : Parts :=
  let seconds := instant / 1000 + zone.offset instant
  { day := seconds / 86400
    hour := seconds % 86400 / 3600
    minute := seconds % 3600 / 60
    second := seconds % 60 }

def offsetMs (instant : ℤ) : ℤ := (localParts zone instant).utc - instant / 1000 * 1000

/-- The instant of a time of a day: the earliest that reads back as it, or, of a time that is
skipped, the one with the smallest offset around. -/
def localTimeToInstant (day hour minute : ℤ) : ℤ :=
  let wall := Parts.utc ⟨day, hour, minute, 0⟩
  let offsets := ([-26, -12, 0, 12, 26].map fun hours =>
    offsetMs zone (wall + hours * 3600000)).dedup
  let candidates := offsets.map (wall - ·)
  let valid := candidates.filter fun instant => wall - offsetMs zone instant = instant
  (valid.min?.or candidates.max?).getD 0

variable {zone} {day hour minute wall T a b : ℤ}

theorem offsetMs_eq (instant : ℤ) : offsetMs zone instant = zone.offset instant * 1000 := by
  simp only [offsetMs, localParts, Parts.utc]
  omega

variable (zone wall T a b) in
/-- Around a wall time, read as UTC, the zone changes at `T` from the offset `a` to `b`, in
milliseconds. -/
structure Change : Prop where
  offsetMs_eq : ∀ t, wall - 26 * 3600000 ≤ t → t ≤ wall + 26 * 3600000 →
    offsetMs zone t = if t < T then a else b
  before : offsetMs zone (wall - 26 * 3600000) = a
  after : offsetMs zone (wall + 26 * 3600000) = b

theorem offsetMs_within (t : ℤ) :
    -(14 * 3600000) ≤ offsetMs zone t ∧ offsetMs zone t ≤ 14 * 3600000 := by
  have hle := zone.le_offset t
  have hge := zone.offset_le t
  rw [offsetMs_eq]
  omega

variable (zone wall) in
theorem exists_change : ∃ T a b, Change zone wall T a b := by
  obtain ⟨T, a, b, h⟩ := zone.change (wall - 26 * 3600000)
  have hstart := h (wall - 26 * 3600000) le_rfl (by omega)
  have hend := h (wall + 26 * 3600000) (by omega) (by omega)
  refine ⟨T, _, _, fun t hle hge => ?_, rfl, rfl⟩
  rw [offsetMs_eq, offsetMs_eq, offsetMs_eq, h t hle (by omega), hstart, hend]
  split_ifs <;> omega

theorem Change.within (h : Change zone wall T a b) : (-(14 * 3600000) ≤ a ∧ a ≤ 14 * 3600000) ∧
    -(14 * 3600000) ≤ b ∧ b ≤ 14 * 3600000 :=
  ⟨h.before ▸ offsetMs_within _, h.after ▸ offsetMs_within _⟩

theorem Change.eq (h : Change zone wall T a b) (ht : t = wall - a ∨ t = wall - b) :
    offsetMs zone t = if t < T then a else b := by
  have hwithin := h.within
  exact h.offsetMs_eq t (by omega) (by omega)

/-- Both offsets are among those that are tried, and no other is. -/
theorem Change.mem_candidates (h : Change zone wall T a b) :
    t ∈ (([-26, -12, 0, 12, 26].map fun hours =>
      offsetMs zone (wall + hours * 3600000)).dedup.map (wall - ·)) ↔
        t = wall - a ∨ t = wall - b := by
  have hsample (hours : ℤ) (hle : -26 ≤ hours) (hge : hours ≤ 26) :
      offsetMs zone (wall + hours * 3600000) = a ∨ offsetMs zone (wall + hours * 3600000) = b := by
    rw [h.offsetMs_eq _ (by omega) (by omega)]
    split_ifs
    · exact .inl rfl
    · exact .inr rfl
  have hbefore : offsetMs zone (wall + -26 * 3600000) = a := h.before
  have hafter : offsetMs zone (wall + 26 * 3600000) = b := h.after
  simp only [mem_map, mem_dedup, map_cons, map_nil, mem_cons,
    not_mem_nil, or_false, hbefore, hafter]
  constructor
  · rintro ⟨x, hx, rfl⟩
    have h12 := hsample (-12) (by omega) (by omega)
    have h0 := hsample 0 (by omega) (by omega)
    have h12' := hsample 12 (by omega) (by omega)
    omega
  · rintro (rfl | rfl)
    · exact ⟨a, .inl rfl, rfl⟩
    · exact ⟨b, by simp, rfl⟩

/-- **The instant of a local time**, by the change around it. -/
theorem localTimeToInstant_eq (h : Change zone (Parts.utc ⟨day, hour, minute, 0⟩) T a b) :
    localTimeToInstant zone day hour minute =
      if Parts.utc ⟨day, hour, minute, 0⟩ < T + max a b then Parts.utc ⟨day, hour, minute, 0⟩ - a
      else Parts.utc ⟨day, hour, minute, 0⟩ - b := by
  generalize hwall : Parts.utc ⟨day, hour, minute, 0⟩ = wall at h ⊢
  have ha := h.eq (.inl rfl)
  have hb := h.eq (.inr rfl)
  rw [localTimeToInstant, hwall]
  generalize hcandidates : ([-26, -12, 0, 12, 26].map fun hours =>
    offsetMs zone (wall + hours * 3600000)).dedup.map (wall - ·) = candidates
  have hmem : ∀ t, t ∈ candidates ↔ t = wall - a ∨ t = wall - b := fun t =>
    hcandidates ▸ h.mem_candidates
  have hvalid : ∀ t, t ∈ candidates.filter (fun instant => wall - offsetMs zone instant = instant) ↔
        (t = wall - a ∨ t = wall - b) ∧ wall - offsetMs zone t = t := fun t => by
    rw [mem_filter, hmem, decide_eq_true_iff]
  split_ifs with hlt
  · by_cases hread : wall - a < T
    · -- The offset before the change leads to the time, and the other one not to an earlier
      -- instant.
      have hmin : (candidates.filter fun instant => wall - offsetMs zone instant = instant).min? =
          some (wall - a) := by
        rw [min?_eq_some_iff]
        refine ⟨(hvalid _).mpr ⟨.inl rfl, by rw [ha, if_pos hread]⟩, fun t ht => ?_⟩
        obtain ⟨rfl | rfl, ht⟩ := (hvalid t).mp ht
        · exact le_rfl
        · rw [hb] at ht
          split_ifs at ht <;> omega
      rw [hmin]
      rfl
    · -- The time is skipped: neither offset leads to it.
      have hnil : (candidates.filter fun instant =>
          wall - offsetMs zone instant = instant) = [] := by
        refine eq_nil_iff_forall_not_mem.mpr fun t ht => ?_
        obtain ⟨rfl | rfl, ht⟩ := (hvalid t).mp ht
        · rw [ha, if_neg hread] at ht
          omega
        · rw [hb, if_pos (by omega)] at ht
          omega
      have hmax : candidates.max? = some (wall - a) := by
        rw [max?_eq_some_iff]
        refine ⟨(hmem _).mpr (.inl rfl), fun t ht => ?_⟩
        rcases (hmem t).mp ht with rfl | rfl <;> omega
      rw [hnil, min?_nil, Option.none_or, hmax]
      rfl
  · have hmin : (candidates.filter fun instant => wall - offsetMs zone instant = instant).min? =
        some (wall - b) := by
      rw [min?_eq_some_iff]
      refine ⟨(hvalid _).mpr ⟨.inr rfl, by rw [hb, if_neg (by omega)]⟩, fun t ht => ?_⟩
      obtain ⟨rfl | rfl, ht⟩ := (hvalid t).mp ht
      · rw [ha, if_neg (by omega)] at ht
        omega
      · exact le_rfl
    rw [hmin]
    rfl

/-- The instant of a local time is the first that reads back as it, or the time is skipped. -/
theorem localTimeToInstant_spec (zone : Zone) (day hour minute : ℤ) :
    let wall := Parts.utc ⟨day, hour, minute, 0⟩
    let instant := localTimeToInstant zone day hour minute
    IsLeast {t | t + offsetMs zone t = wall} instant ∨
      (∀ t, t + offsetMs zone t ≠ wall) ∧ ∃ T a b, Change zone wall T a b ∧
        T + a ≤ wall ∧ wall < T + b ∧ instant = wall - a := by
  intro wall instant
  obtain ⟨T, a, b, h⟩ := exists_change zone wall
  have hinstant : instant = if wall < T + max a b then wall - a else wall - b :=
    localTimeToInstant_eq h
  have hreads (t : ℤ) (ht : t + offsetMs zone t = wall) : t = wall - if t < T then a else b := by
    have hwithin := @offsetMs_within zone t
    rw [← h.offsetMs_eq t (by omega) (by omega)]
    omega
  by_cases hread : instant + offsetMs zone instant = wall
  · refine .inl ⟨hread, fun t ht => ?_⟩
    have ht := hreads t ht
    rw [hinstant]
    split_ifs at ht ⊢ <;> omega
  · have hskipped : T + a ≤ wall ∧ wall < T + b ∧ instant = wall - a := by
      rw [hinstant] at hread ⊢
      split_ifs at hread ⊢ with hlt
      · rw [h.eq (.inl rfl)] at hread
        split_ifs at hread <;> omega
      · rw [h.eq (.inr rfl), if_neg (by omega)] at hread
        omega
    refine .inr ⟨fun t ht => ?_, T, a, b, h, hskipped⟩
    have ht := hreads t ht
    split_ifs at ht <;> omega

/-- **From a wall time to an instant.** The instant of a local time is the earliest that reads back
as it. If none does, the time is skipped by a change from an offset `a` to a greater one, and the
instant is the one with the offset `a`. -/
theorem wall_time_to_instant (zone : Zone) (day hour minute : ℤ) :
    let wall := Parts.utc ⟨day, hour, minute, 0⟩
    let instant := localTimeToInstant zone day hour minute
    ((∃ t, t + offsetMs zone t = wall) → IsLeast {t | t + offsetMs zone t = wall} instant) ∧
      ((¬∃ t, t + offsetMs zone t = wall) → ∃ T a b, Change zone wall T a b ∧
        T + a ≤ wall ∧ wall < T + b ∧ instant = wall - a) := by
  intro wall instant
  rcases localTimeToInstant_spec zone day hour minute with hleast | ⟨hnone, hskipped⟩
  · exact ⟨fun _ => hleast, fun hnone => absurd ⟨instant, hleast.1⟩ hnone⟩
  · exact ⟨fun ⟨t, ht⟩ => absurd ht (hnone t), fun _ => hskipped⟩

end Bud.Schedule
