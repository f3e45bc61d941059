import Bud.PersonalData.LocalTime

/-!
# The windows of a schedule

A schedule has a window on every local day of its weekdays. The latest one at or before now and the
next one after now are found by walking over the local days from the day of now, up to eight days
back or ahead, and the first window on the right side of now is taken.

That is right as long as the windows of other days are on their own side of now. It goes wrong where
the clocks change across midnight: once they are put back into the day before, a window of the next
day is over already, and of a day that is skipped the window comes on the day after.
-/

namespace Bud.Schedule

/-- `AutomationSchedule`: a time of the day, some ISO weekdays, and the zone. -/
structure AutomationSchedule where
  hour : ℤ
  minute : ℤ
  weekdays : List ℤ
  timezone : Zone
  hour_mem : 0 ≤ hour ∧ hour < 24
  minute_mem : 0 ≤ minute ∧ minute < 60
  weekday_mem : ∃ weekday ∈ weekdays, 1 ≤ weekday ∧ weekday ≤ 7

/-- `date.getUTCDay() || 7`: the first day of 1970 was a Thursday. -/
def isoWeekday (day : ℤ) : ℤ := if (day + 4) % 7 = 0 then 7 else (day + 4) % 7

variable (schedule : AutomationSchedule)

def instantOn (day : ℤ) : ℤ :=
  localTimeToInstant schedule.timezone day schedule.hour schedule.minute

def Selected (day : ℤ) : Prop := isoWeekday day ∈ schedule.weekdays

instance (day : ℤ) : Decidable (Selected schedule day) :=
  inferInstanceAs (Decidable (_ ∈ schedule.weekdays))

def windowOn (day : ℤ) : Option ℤ :=
  if Selected schedule day then some (instantOn schedule day) else none

def today (now : ℤ) : ℤ := (localParts schedule.timezone now).day

/-- Most recent scheduled instant at or before `now`, searching the past eight local days. -/
def latestWindowAtOrBefore (now : ℤ) : Option ℤ :=
  (List.range 9).findSome? fun back : ℕ =>
    (windowOn schedule (today schedule now - back)).filter (· ≤ now)

/-- Next scheduled instant strictly after `now`. -/
def nextWindowAfter (now : ℤ) : Option ℤ :=
  (List.range 9).findSome? fun ahead : ℕ =>
    (windowOn schedule (today schedule now + ahead)).filter (now < ·)

/-! ### The instants of days -/

variable {schedule} {zone : Zone} {base T a b now : ℤ} {D E : ℤ}

/-- The schedule's time on a day, read as UTC. -/
def wallOn (schedule : AutomationSchedule) (day : ℤ) : ℤ :=
  Parts.utc ⟨day, schedule.hour, schedule.minute, 0⟩

theorem wallOn_eq (schedule : AutomationSchedule) : ∃ time, 0 ≤ time ∧
    time < 86400000 ∧ ∀ D, wallOn schedule D = D * 86400000 + time := by
  have hhour := schedule.hour_mem
  have hminute := schedule.minute_mem
  refine ⟨(schedule.hour * 60 + schedule.minute) * 60000, by omega, by omega, fun D => ?_⟩
  simp only [wallOn, Parts.utc]
  omega

theorem today_eq (schedule : AutomationSchedule) (now : ℤ) :
    today schedule now = (now + offsetMs schedule.timezone now) / 86400000 := by
  rw [offsetMs_eq]
  simp only [today, localParts]
  omega

/-- The instant of a day is the first that reads back as its time, or the time is skipped. -/
theorem instantOn_spec (schedule : AutomationSchedule) (D : ℤ) :
    (instantOn schedule D + offsetMs schedule.timezone (instantOn schedule D) = wallOn schedule D ∧
      ∀ t, t + offsetMs schedule.timezone t = wallOn schedule D → instantOn schedule D ≤ t) ∨
    ∃ T a b, Change schedule.timezone (wallOn schedule D) T a b ∧ T + a ≤ wallOn schedule D ∧
      wallOn schedule D < T + b ∧ instantOn schedule D = wallOn schedule D - a :=
  (localTimeToInstant_spec schedule.timezone D schedule.hour schedule.minute).imp
    (fun h => ⟨h.1, fun _ ht => h.2 ht⟩) fun h => h.2

theorem instantOn_near (schedule : AutomationSchedule) (D : ℤ) :
    wallOn schedule D - 14 * 3600000 ≤ instantOn schedule D ∧
      instantOn schedule D ≤ wallOn schedule D + 14 * 3600000 := by
  obtain ⟨hread, -⟩ | ⟨T, a, b, h, -, -, hinstant⟩ := instantOn_spec schedule D
  · have hwithin := @offsetMs_within schedule.timezone (instantOn schedule D)
    omega
  · have hwithin := h.within
    omega

/-- The instants of the days around a change are as that change has them. -/
theorem Change.instantOn (h : Change schedule.timezone base T a b)
    (hle : base - 12 * 3600000 ≤ wallOn schedule D)
    (hge : wallOn schedule D ≤ base + 12 * 3600000) :
    instantOn schedule D =
      if wallOn schedule D < T + max a b then wallOn schedule D - a else wallOn schedule D - b := by
  have hwithin := h.within
  have hnear := instantOn_near schedule D
  obtain ⟨hread, hfirst⟩ | ⟨T', a', b', h', hskip, hskip', hinstant⟩ := instantOn_spec schedule D
  · have hfirst := hfirst (wallOn schedule D - a)
    rw [h.offsetMs_eq _ (by omega) (by omega)] at hread hfirst
    split_ifs at hread hfirst ⊢ <;> omega
  · have hwithin' := h'.within
    have hbefore := h'.offsetMs_eq (T' - 1) (by omega) (by omega)
    have hafter := h'.offsetMs_eq T' (by omega) (by omega)
    rw [h.offsetMs_eq _ (by omega) (by omega)] at hbefore hafter
    split_ifs at hbefore hafter ⊢ <;> omega

/-- **A window that is over before its day comes** is later than those of all days before. -/
theorem instant_lt_of_put_back (hDE : D < E) (htoday : today schedule now < E)
    (hD : D ≤ today schedule now) (hover : instantOn schedule E ≤ now) :
    instantOn schedule D < instantOn schedule E := by
  obtain ⟨time, htime, htime', hwall⟩ := wallOn_eq schedule
  have hnearD := instantOn_near schedule D
  have hnearE := instantOn_near schedule E
  have hwallD := hwall D
  have hwallE := hwall E
  rw [today_eq] at htoday hD
  by_cases hnext : E = D + 1
  · obtain ⟨T, a, b, h⟩ := exists_change schedule.timezone (wallOn schedule D + 12 * 3600000)
    have hwithin := h.within
    have hinstantD := h.instantOn (D := D) (by omega) (by omega)
    have hinstantE := h.instantOn (D := E) (by omega) (by omega)
    have hoffset := @offsetMs_within schedule.timezone now
    rw [h.offsetMs_eq now (by omega) (by omega)] at htoday hD
    split_ifs at htoday hD hinstantD hinstantE <;> omega
  · omega

/-! ### The walks -/

variable (schedule now)

def windows : Set ℤ := {t | ∃ D, windowOn schedule D = some t}

/-- No window of a later day than today is over. -/
def NoneAhead : Prop :=
  ∀ E, Selected schedule E → today schedule now < E → now < instantOn schedule E

/-- A window of an earlier day than today is over, or a later day's window comes no later. -/
def NoneBehind : Prop := ∀ E, Selected schedule E → E < today schedule now →
  now < instantOn schedule E → ∃ D, Selected schedule D ∧ today schedule now ≤ D ∧
    now < instantOn schedule D ∧ instantOn schedule D ≤ instantOn schedule E

/-- Within the eight days around, the windows on either side of now come in the order of their
days. -/
structure WindowsInOrder : Prop where
  back : ∃ back < 9, let D := today schedule now - (back : ℕ)
    Selected schedule D ∧ instantOn schedule D ≤ now ∧
    (∀ E, Selected schedule E → D < E → E ≤ today schedule now → now < instantOn schedule E) ∧
    ∀ E, Selected schedule E → E < D → instantOn schedule E ≤ now →
      instantOn schedule E ≤ instantOn schedule D
  ahead : ∃ ahead < 9, let D := today schedule now + (ahead : ℕ)
    Selected schedule D ∧ now < instantOn schedule D ∧
    (∀ E, Selected schedule E → today schedule now ≤ E → E < D → instantOn schedule E ≤ now) ∧
    ∀ E, Selected schedule E → D < E → now < instantOn schedule E →
      instantOn schedule D ≤ instantOn schedule E

variable {schedule now}

variable {t : ℤ}

theorem mem_windows :
    t ∈ windows schedule ↔ ∃ D, Selected schedule D ∧ instantOn schedule D = t := by
  simp [windows, windowOn]

theorem findSome?_range_eq_some :
    (List.range n).findSome? f = some t ↔ ∃ k < n, f k = some t ∧ ∀ j < k, f j = none := by
  induction n with
  | zero => simp
  | succ n ih =>
    rw [List.range_succ, List.findSome?_append, Option.or_eq_some_iff, ih]
    constructor
    · rintro (⟨k, hk, h⟩ | ⟨hnone, h⟩)
      · exact ⟨k, by omega, h⟩
      · refine ⟨n, by omega, by simpa using h, fun j hj => ?_⟩
        exact List.findSome?_eq_none_iff.mp hnone j (List.mem_range.mpr hj)
    · rintro ⟨k, hk, h, hnone⟩
      by_cases hkn : k < n
      · exact .inl ⟨k, hkn, h, hnone⟩
      · obtain rfl : k = n := by omega
        refine .inr ⟨List.findSome?_eq_none_iff.mpr fun j hj => hnone j (List.mem_range.mp hj), ?_⟩
        simpa using h

theorem filter_windowOn_eq_some : (windowOn schedule D).filter p = some t ↔
    Selected schedule D ∧ p (instantOn schedule D) ∧ instantOn schedule D = t := by
  rw [windowOn, Option.filter_eq_some_iff]
  split_ifs with h
  · simp only [Option.some.injEq]
    exact ⟨fun ⟨ht, hp⟩ => ⟨h, ht ▸ hp, ht⟩, fun ⟨_, hp, ht⟩ => ⟨ht, ht ▸ hp⟩⟩
  · simp [h]

theorem filter_windowOn_eq_none : (windowOn schedule D).filter p = none ↔
    (Selected schedule D → p (instantOn schedule D) = false) := by
  rw [windowOn]
  split_ifs with h <;> simp [h, Option.filter]

theorem latest_eq_some : latestWindowAtOrBefore schedule now = some t ↔
    ∃ back < 9, let D := today schedule now - (back : ℕ)
      Selected schedule D ∧ instantOn schedule D ≤ now ∧ instantOn schedule D = t ∧
      ∀ E, Selected schedule E → D < E → E ≤ today schedule now → now < instantOn schedule E := by
  rw [latestWindowAtOrBefore, findSome?_range_eq_some]
  simp only [filter_windowOn_eq_some, filter_windowOn_eq_none, decide_eq_true_eq,
    decide_eq_false_iff_not, not_le, and_assoc]
  refine exists_congr fun back => and_congr_right fun _ => and_congr_right fun _ =>
    and_congr_right fun _ => and_congr_right fun _ =>
      ⟨fun h E hE hlt hle => ?_, fun h j hj hE => ?_⟩
  · obtain ⟨j, hj⟩ := Int.eq_ofNat_of_zero_le (sub_nonneg.mpr hle)
    obtain rfl : E = today schedule now - j := by omega
    exact h j (by omega) hE
  · exact h _ hE (by omega) (by omega)

theorem next_eq_some : nextWindowAfter schedule now = some t ↔
    ∃ ahead < 9, let D := today schedule now + (ahead : ℕ)
      Selected schedule D ∧ now < instantOn schedule D ∧ instantOn schedule D = t ∧
      ∀ E, Selected schedule E → today schedule now ≤ E → E < D → instantOn schedule E ≤ now := by
  rw [nextWindowAfter, findSome?_range_eq_some]
  simp only [filter_windowOn_eq_some, filter_windowOn_eq_none, decide_eq_true_eq,
    decide_eq_false_iff_not, not_lt, and_assoc]
  refine exists_congr fun ahead => and_congr_right fun _ => and_congr_right fun _ =>
    and_congr_right fun _ => and_congr_right fun _ =>
      ⟨fun h E hE hle hlt => ?_, fun h j hj hE => ?_⟩
  · obtain ⟨j, hj⟩ := Int.eq_ofNat_of_zero_le (sub_nonneg.mpr hle)
    obtain rfl : E = today schedule now + j := by omega
    exact h j (by omega) hE
  · exact h _ hE (by omega) (by omega)

/-- **The windows are neither missed nor invented** at an instant if and only if the windows of
other days are on their own side of it, and those around come in the order of their days. -/
theorem windows_exact_iff (schedule : AutomationSchedule) (now : ℤ) :
    ((∃ t, latestWindowAtOrBefore schedule now = some t ∧
        IsGreatest {t ∈ windows schedule | t ≤ now} t) ∧
      ∃ t, nextWindowAfter schedule now = some t ∧
        IsLeast {t ∈ windows schedule | now < t} t) ↔
    NoneAhead schedule now ∧ NoneBehind schedule now ∧ WindowsInOrder schedule now := by
  constructor
  · rintro ⟨⟨t, hlatest, -, hmax⟩, u, hnext, -, hmin⟩
    obtain ⟨back, hback, hD, hover, rfl, hbetween⟩ := latest_eq_some.mp hlatest
    obtain ⟨ahead, hahead, hE, hcoming, rfl, hbetween'⟩ := next_eq_some.mp hnext
    have hmax' : ∀ F, Selected schedule F → instantOn schedule F ≤ now → instantOn schedule F ≤ _ :=
      fun F hF hle => hmax ⟨mem_windows.mpr ⟨F, hF, rfl⟩, hle⟩
    have hmin' : ∀ F, Selected schedule F → now < instantOn schedule F → _ ≤ instantOn schedule F :=
      fun F hF hlt => hmin ⟨mem_windows.mpr ⟨F, hF, rfl⟩, hlt⟩
    refine ⟨fun F hF hlt => ?_, fun F hF _ hlt => ?_, ⟨back, hback, hD, hover, hbetween, ?_⟩,
      ahead, hahead, hE, hcoming, hbetween', ?_⟩
    · by_contra hle
      have hlater := instant_lt_of_put_back (D := today schedule now - (back : ℕ)) (by omega) hlt
        (by omega) (not_lt.mp hle)
      exact absurd (hmax' F hF (not_lt.mp hle)) (not_le.mpr hlater)
    · exact ⟨_, hE, by omega, hcoming, hmin' F hF hlt⟩
    · exact fun F hF _ => hmax' F hF
    · exact fun F hF _ => hmin' F hF
  · rintro ⟨hnone, hbehind, ⟨back, hback, hD, hover, hbetween, hmax⟩, ahead, hahead, hE, hcoming,
      hbetween', hmin⟩
    refine ⟨⟨_, latest_eq_some.mpr ⟨back, hback, hD, hover, rfl, hbetween⟩,
        ⟨mem_windows.mpr ⟨_, hD, rfl⟩, hover⟩, ?_⟩,
      _, next_eq_some.mpr ⟨ahead, hahead, hE, hcoming, rfl, hbetween'⟩,
        ⟨mem_windows.mpr ⟨_, hE, rfl⟩, hcoming⟩, ?_⟩
    · rintro _ ⟨hwindow, hle⟩
      obtain ⟨F, hF, rfl⟩ := mem_windows.mp hwindow
      rcases lt_trichotomy F (today schedule now - (back : ℕ)) with hlt | rfl | hgt
      · exact hmax F hF hlt hle
      · exact le_rfl
      · by_cases htoday : F ≤ today schedule now
        · exact absurd (hbetween F hF hgt htoday) (not_lt.mpr hle)
        · exact absurd (hnone F hF (not_le.mp htoday)) (not_lt.mpr hle)
    · have hfrom : ∀ F, Selected schedule F → today schedule now ≤ F → now < instantOn schedule F →
          instantOn schedule (today schedule now + (ahead : ℕ)) ≤ instantOn schedule F := by
        intro F hF hle hlt
        rcases lt_trichotomy F (today schedule now + (ahead : ℕ)) with hbefore | rfl | hgt
        · exact absurd (hbetween' F hF hle hbefore) (not_le.mpr hlt)
        · exact le_rfl
        · exact hmin F hF hgt hlt
      rintro _ ⟨hwindow, hlt⟩
      obtain ⟨F, hF, rfl⟩ := mem_windows.mp hwindow
      by_cases htoday : today schedule now ≤ F
      · exact hfrom F hF htoday hlt
      · obtain ⟨D, hD', hle, hcomes, hearlier⟩ := hbehind F hF (not_le.mp htoday) hlt
        exact (hfrom D hD' hle hcomes).trans hearlier

/-! ### Changes by a day at most -/

/-- In any 53 hours, the clocks change by a day at most. -/
def DayChanges (zone : Zone) : Prop := ∀ t u, t ≤ u → u < t + 53 * 3600000 →
  offsetMs zone u - offsetMs zone t ≤ 24 * 3600000 ∧
    offsetMs zone t - offsetMs zone u ≤ 24 * 3600000

theorem Change.day (h : Change zone base T a b) (hday : DayChanges zone) :
    b - a ≤ 24 * 3600000 ∧ a - b ≤ 24 * 3600000 := by
  have hab := hday (base - 26 * 3600000) (base + 26 * 3600000) (by omega) (by omega)
  rwa [h.before, h.after] at hab

theorem instantOn_mono (hday : DayChanges schedule.timezone) (hDE : D ≤ E) :
    instantOn schedule D ≤ instantOn schedule E := by
  obtain ⟨time, -, -, hwall⟩ := wallOn_eq schedule
  have hwallD := hwall D
  have hwallE := hwall E
  have hnearD := instantOn_near schedule D
  have hnearE := instantOn_near schedule E
  rcases (show E = D ∨ E = D + 1 ∨ D + 2 ≤ E by omega) with rfl | hnext | hlater
  · exact le_rfl
  · obtain ⟨T, a, b, h⟩ := exists_change schedule.timezone (wallOn schedule D + 12 * 3600000)
    have hab := h.day hday
    rw [h.instantOn (by omega) (by omega), h.instantOn (by omega) (by omega)]
    split_ifs <;> omega
  · omega

/-- Two days from today, the windows are on their own side of now. -/
theorem two_days (hday : DayChanges schedule.timezone) (now : ℤ) :
    instantOn schedule (today schedule now - 2) ≤ now ∧
      now < instantOn schedule (today schedule now + 2) := by
  have hside : ∀ D, D = today schedule now - 2 ∧ now < instantOn schedule D ∨
      D = today schedule now + 2 ∧ instantOn schedule D ≤ now → False := by
    intro D hD
    obtain ⟨time, htime, htime', hwall⟩ := wallOn_eq schedule
    have hwall := hwall D
    have hnear := instantOn_near schedule D
    have hwithin := @offsetMs_within schedule.timezone now
    have htoday := today_eq schedule now
    obtain ⟨T, a, b, h⟩ := exists_change schedule.timezone (wallOn schedule D)
    have hab := h.day hday
    have hinstant := h.instantOn (D := D) (by omega) (by omega)
    rw [h.offsetMs_eq now (by omega) (by omega)] at htoday
    split_ifs at htoday hinstant <;> omega
  constructor
  · by_contra hlt
    exact hside _ (.inl ⟨rfl, not_le.mp hlt⟩)
  · by_contra hle
    exact hside _ (.inr ⟨rfl, not_lt.mp hle⟩)

theorem exists_selected (schedule : AutomationSchedule) (D : ℤ) :
    ∃ k : ℕ, k < 7 ∧ Selected schedule (D + k) := by
  obtain ⟨weekday, hmem, hge, hle⟩ := schedule.weekday_mem
  refine ⟨((weekday - D - 4) % 7).toNat, by omega, ?_⟩
  have hiso : isoWeekday (D + (((weekday - D - 4) % 7).toNat : ℕ)) = weekday := by
    rw [isoWeekday]
    split_ifs <;> omega
  rw [Selected, hiso]
  exact hmem

/-- **Only a change by more than a day** takes windows out of the order of their days. -/
theorem windowsInOrder_of_day (hday : DayChanges schedule.timezone) (now : ℤ) :
    WindowsInOrder schedule now where
  back := by
    have hback : ∃ back : ℕ, Selected schedule (today schedule now - back) ∧
        instantOn schedule (today schedule now - back) ≤ now ∧ back < 9 := by
      obtain ⟨k, hk, hsel⟩ := exists_selected schedule (today schedule now - 8)
      have heq : today schedule now - ((8 - k : ℕ) : ℤ) = today schedule now - 8 + k := by omega
      refine ⟨8 - k, heq ▸ hsel, ?_, by omega⟩
      exact (instantOn_mono hday (by omega)).trans (two_days hday now).1
    classical
    obtain ⟨hsel, hover, hlt⟩ := Nat.find_spec hback
    refine ⟨Nat.find hback, hlt, hsel, hover, fun E hE hDE hle => ?_,
      fun E _ hlt _ => instantOn_mono hday hlt.le⟩
    obtain ⟨j, hj⟩ := Int.eq_ofNat_of_zero_le (sub_nonneg.mpr hle)
    obtain rfl : E = today schedule now - j := by omega
    by_contra hover
    exact Nat.find_min hback (m := j) (by omega) ⟨hE, not_lt.mp hover, by omega⟩
  ahead := by
    have hahead : ∃ ahead : ℕ, Selected schedule (today schedule now + ahead) ∧
        now < instantOn schedule (today schedule now + ahead) ∧ ahead < 9 := by
      obtain ⟨k, hk, hsel⟩ := exists_selected schedule (today schedule now + 2)
      have heq : today schedule now + ((k + 2 : ℕ) : ℤ) = today schedule now + 2 + k := by omega
      refine ⟨k + 2, heq ▸ hsel, ?_, by omega⟩
      exact (two_days hday now).2.trans_le (instantOn_mono hday (by omega))
    classical
    obtain ⟨hsel, hcoming, hlt⟩ := Nat.find_spec hahead
    refine ⟨Nat.find hahead, hlt, hsel, hcoming, fun E hE hle hED => ?_,
      fun E _ hlt _ => instantOn_mono hday hlt.le⟩
    obtain ⟨j, hj⟩ := Int.eq_ofNat_of_zero_le (sub_nonneg.mpr hle)
    obtain rfl : E = today schedule now + j := by omega
    by_contra hcoming
    exact Nat.find_min hahead (m := j) (by omega) ⟨hE, not_le.mp hcoming, by omega⟩

/-! ### Clocks that are put back across midnight -/

/-- At 00:30 on the first of January 1970 the clocks are put back from UTC+1 to UTC. -/
def putBackZone : Zone where
  offset t := if t < -1800000 then 3600 else 0
  le_offset t := by split_ifs <;> omega
  offset_le t := by split_ifs <;> omega
  change _ := ⟨-1800000, 3600, 0, fun _ _ _ => rfl⟩

/-- Every day at 00:10. -/
def afterMidnight : AutomationSchedule where
  hour := 0
  minute := 10
  weekdays := [1, 2, 3, 4, 5, 6, 7]
  timezone := putBackZone
  hour_mem := by decide
  minute_mem := by decide
  weekday_mem := ⟨1, by decide, by decide⟩

theorem windowsInOrder_putBackZone : WindowsInOrder afterMidnight (-1200000) :=
  windowsInOrder_of_day (fun t u _ _ => by
    simp only [offsetMs_eq, afterMidnight, putBackZone]
    split_ifs <;> omega) _

/-- Ten minutes after the clocks were put back across midnight, the window of 00:10 was half an hour
ago, but the latest one that is found is a day older. -/
theorem put_back_across_midnight :
    ¬((∃ t, latestWindowAtOrBefore afterMidnight (-1200000) = some t ∧
        IsGreatest {t ∈ windows afterMidnight | t ≤ -1200000} t) ∧
      ∃ t, nextWindowAfter afterMidnight (-1200000) = some t ∧
        IsLeast {t ∈ windows afterMidnight | -1200000 < t} t) := by
  rintro ⟨⟨t, hlatest, -, hmax⟩, -⟩
  have hfound : latestWindowAtOrBefore afterMidnight (-1200000) = some (-89400000) := by
    decide
  have hover : windowOn afterMidnight 0 = some (-3000000) := by decide
  have hle : -3000000 ≤ t := hmax ⟨⟨0, hover⟩, by decide⟩
  rw [hfound] at hlatest
  cases hlatest
  exact absurd hle (by decide)

end Bud.Schedule
