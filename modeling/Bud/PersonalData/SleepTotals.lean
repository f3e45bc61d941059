import Mathlib.Data.Set.Card
import Bud.Lib.Doubles
import Bud.PersonalData.ScheduleWindows

/-!
# Sleep totals

`summarizeIntervals` sweeps over the boundaries of the stage intervals of a night, so that between
two boundaries the same stages are active and the most specific one counts. Time in bed is measured
on its own, as the length of a union.

Times are milliseconds, and a length is counted in the milliseconds that it has. Those are whole
numbers far below `2 ^ 53`, but the minutes are doubles: each piece of the sweep is rounded when it
is divided, and the sum when it is added. The nights run from noon to noon, and the segments that
are read are clipped to each of them.
-/

namespace Bud.Sleep

open Schedule Doubles List

inductive Stage
  | inBed
  | asleepUnspecified
  | awake
  | asleepCore
  | asleepDeep
  | asleepRem
  | unknown
  deriving DecidableEq

def ASLEEP : List Stage := [.asleepUnspecified, .asleepCore, .asleepDeep, .asleepRem]

/-- The most specific stage wins. In bed is not a sleep state. -/
def STAGE_PRECEDENCE : List Stage :=
  [.asleepDeep, .asleepRem, .asleepCore, .awake, .asleepUnspecified, .unknown]

structure Interval where
  start : ℤ
  stop : ℤ
  stage : Stage
  lt : start < stop

/-- One interval of `unionMinutes`, the end of the intervals before it being `-∞` at first. -/
def unionStep (acc : ℤ × Option ℤ) (row : Interval) : ℤ × Option ℤ :=
  if acc.2.any (row.stop ≤ ·) then acc
  else (acc.1 + (row.stop - acc.2.elim row.start (max row.start)), some row.stop)

def unionMinutes (intervals : List Interval) : ℚ :=
  toDouble
    (((intervals.insertionSort fun a b => a.start ≤ b.start).foldl unionStep (0, none)).1 / 60000)

structure Summary where
  minutes : Stage → ℚ := fun _ => 0
  sleepStart : Option ℤ := none
  sleepEnd : Option ℤ := none

/-- The stage that counts from one boundary to the next. -/
def activeStage (intervals : List Interval) (piece : ℤ × ℤ) : Option Stage :=
  STAGE_PRECEDENCE.find? fun stage => intervals.any fun row =>
    row.start ≤ piece.1 && piece.2 ≤ row.stop && row.stage = stage

def sweepStep (intervals : List Interval) (acc : Summary) (piece : ℤ × ℤ) : Summary :=
  match activeStage intervals piece with
  | none => acc
  | some stage =>
    { minutes := Function.update acc.minutes stage
        (toDouble (acc.minutes stage + toDouble ((piece.2 - piece.1 : ℤ) / 60000)))
      sleepStart := if stage ∈ ASLEEP then acc.sleepStart.or (some piece.1) else acc.sleepStart
      sleepEnd := if stage ∈ ASLEEP then some piece.2 else acc.sleepEnd }

def boundaries (intervals : List Interval) : List ℤ :=
  (intervals.flatMap fun row => [row.start, row.stop]).dedup.insertionSort (· ≤ ·)

def summarizeIntervals (intervals : List Interval) : Summary :=
  let points := boundaries intervals
  let swept := (points.zip points.tail).foldl (sweepStep intervals) {}
  let inBed := unionMinutes (intervals.filter (·.stage = .inBed))
  if inBed ≠ 0 then { swept with minutes := Function.update swept.minutes .inBed inBed } else swept

/-- What is read of a row of `health_sleep_segment` whose sample was not deleted. -/
structure Segment where
  id : String
  startAt : ℤ
  endAt : ℤ
  stage : Stage
  sourceBundleId : String
  deriving DecidableEq

structure Night where
  date : ℤ
  start : ℤ
  stop : ℤ

def localNoon (zone : Zone) (date : ℤ) (addDays : ℕ) : ℤ :=
  localTimeToInstant zone (date + addDays) 12 0

/-- The nights from the one of `day` on, until one has the date `last`. -/
def nightsFrom (zone : Zone) (first last : ℤ) : ℕ → ℕ → List Night
  | 0, _ => []
  | fuel + 1, day =>
    let start := localNoon zone first day
    let night : Night := ⟨(localParts zone start).day, start, localNoon zone first (day + 1)⟩
    if night.date = last then [night] else night :: nightsFrom zone first last fuel (day + 1)

/-- The nights of a query whose window begins and ends on these local dates. -/
def sleepNights (zone : Zone) (first last : ℤ) : List Night := nightsFrom zone first last 94 0

def windowStart (nights : List Night) (notBefore : Option ℤ) : ℤ :=
  let start := (nights.head?.map Night.start).getD 0
  notBefore.elim start (max start)

def windowEnd (nights : List Night) : ℤ := (nights.getLast?.map Night.stop).getD 0

structure DataRequestError where
  statusCode : ℕ
  code : String
  message : String

def tooManyRecords : DataRequestError :=
  ⟨400, "invalid_time_window", "Too many sleep records; request a shorter window"⟩

/-- The rows of the query. Segments longer than a day are not expected. -/
def windowRows (nights : List Night) (notBefore : Option ℤ) (segments : List Segment) :
    List Segment :=
  segments.filter fun row => windowStart nights notBefore - 86400000 ≤ row.startAt &&
    row.startAt < windowEnd nights && windowStart nights notBefore < row.endAt

/-- `asc(segments.startAt), asc(segments.id)`. -/
def Segment.before (a b : Segment) : Bool :=
  a.startAt < b.startAt || a.startAt = b.startAt && a.id ≤ b.id

def sleepRows (nights : List Night) (notBefore : Option ℤ) (segments : List Segment) :
    Except DataRequestError (List Segment) :=
  let rows := ((windowRows nights notBefore segments).insertionSort fun a b => a.before b).take
    20001
  if 20000 < rows.length then .error tooManyRecords else .ok rows

def Night.clip (night : Night) (notBefore : Option ℤ) (row : Segment) : Option Interval :=
  let start := max row.startAt (notBefore.elim night.start (max night.start))
  let stop := min row.endAt night.stop
  if h : start < stop then some ⟨start, stop, row.stage, h⟩ else none

/-! ### Counting milliseconds -/

/-- How many milliseconds from `lo` to `hi` have the property. -/
def count (lo hi : ℤ) (p : ℤ → Prop) [DecidablePred p] : ℕ :=
  ((@Finset.Ico ℤ _ Int.instLocallyFiniteOrder lo hi).filter p).card

section Count

variable {lo mid hi : ℤ} {p q : ℤ → Prop} [DecidablePred p] [DecidablePred q]

theorem count_congr (h : ∀ t, lo ≤ t → t < hi → (p t ↔ q t)) : count lo hi p = count lo hi q := by
  refine congrArg Finset.card (Finset.filter_congr fun t ht => ?_)
  rw [Finset.mem_Ico] at ht
  exact h t ht.1 ht.2

theorem count_add (hlo : lo ≤ mid) (hhi : mid ≤ hi) :
    count lo mid p + count mid hi p = count lo hi p := by
  rw [count, count, count, ← Finset.Ico_union_Ico_eq_Ico hlo hhi, Finset.filter_union,
    Finset.card_union_of_disjoint]
  exact Finset.disjoint_filter_filter (Finset.Ico_disjoint_Ico_consecutive lo mid hi)

theorem count_of_forall (h : ∀ t, lo ≤ t → t < hi → p t) :
    (count lo hi p : ℤ) = max (hi - lo) 0 := by
  rw [count, Finset.filter_true_of_mem fun t ht => h t (Finset.mem_Ico.mp ht).1
    (Finset.mem_Ico.mp ht).2, Int.card_Ico, Int.toNat_eq_max]

theorem count_eq_zero (h : ∀ t, lo ≤ t → t < hi → ¬p t) : count lo hi p = 0 :=
  Finset.card_eq_zero.mpr (Finset.filter_false_of_mem fun t ht =>
    h t (Finset.mem_Ico.mp ht).1 (Finset.mem_Ico.mp ht).2)

theorem count_or (h : ∀ t, p t → ¬q t) :
    count lo hi (fun t => p t ∨ q t) = count lo hi p + count lo hi q := by
  rw [count, Finset.filter_or, Finset.card_union_of_disjoint]
  · rfl
  · exact Finset.disjoint_filter.mpr fun t _ => h t

theorem count_Ico (ha : lo ≤ a) (hb : b ≤ hi) :
    (count lo hi (fun t => a ≤ t ∧ t < b) : ℤ) = max (b - a) 0 := by
  have hfilter : (Finset.Ico lo hi).filter (fun t => a ≤ t ∧ t < b) = Finset.Ico a b := by
    ext t
    simp only [Finset.mem_filter, Finset.mem_Ico]
    omega
  rw [count, hfilter, Int.card_Ico, Int.toNat_eq_max]

/-- A length is the number of all milliseconds with the property, if none is elsewhere. -/
theorem ncard_eq_count (h : ∀ t, p t → lo ≤ t ∧ t < hi) : {t | p t}.ncard = count lo hi p := by
  rw [count, ← Set.ncard_coe_finset]
  congr 1
  ext t
  simpa using fun ht => h t ht

end Count

/-! ### The sweep over the boundaries -/

variable {intervals : List Interval}

/-- The stage that counts at an instant: the most specific one that is active. -/
def winner (intervals : List Interval) (t : ℤ) : Option Stage :=
  STAGE_PRECEDENCE.find? fun stage => intervals.any fun row =>
    row.start ≤ t && t < row.stop && row.stage = stage

/-- Nothing begins or ends between two boundaries. -/
theorem activeStage_eq {x y t : ℤ} (hx : x ≤ t) (hy : t < y)
    (h : ∀ row ∈ intervals, (row.start ≤ x ∨ y ≤ row.start) ∧ (row.stop ≤ x ∨ y ≤ row.stop)) :
    activeStage intervals (x, y) = winner intervals t := by
  rw [activeStage, winner]
  congr 1
  funext stage
  rw [Bool.eq_iff_iff, any_eq_true, any_eq_true]
  refine exists_congr fun row => and_congr_right fun hrow => ?_
  have hrow := h row hrow
  simp only [Bool.and_eq_true, decide_eq_true_eq]
  exact and_congr_left fun _ => by omega

/-- A piece adds its milliseconds to the stage that counts there, and at most one more rounding. -/
theorem Within.sweepStep {n : ℕ} {exact : ℚ} {acc : Summary} {x y : ℤ} (hxy : x < y)
    (h : ∀ t, x ≤ t → t < y → activeStage intervals (x, y) = winner intervals t) (stage : Stage)
    (hacc : Within n exact (acc.minutes stage)) (hn : 1 ≤ n) (hexact : 0 ≤ exact) :
    Within (n + 1) (exact + count x y (fun t => winner intervals t = some stage) / 60000)
      ((sweepStep intervals acc (x, y)).minutes stage) := by
  rw [Sleep.sweepStep]
  cases hactive : activeStage intervals (x, y) with
  | none =>
    rw [count_eq_zero fun t hx hy => by rw [← h t hx hy, hactive]; nofun, Nat.cast_zero, zero_div,
      add_zero]
    exact hacc.mono (Nat.le_succ n) hexact
  | some active =>
    by_cases heq : stage = active
    · have hall : (count x y fun t => winner intervals t = some stage : ℤ) = max (y - x) 0 :=
        count_of_forall fun t hx hy => by rw [← h t hx hy, hactive, heq]
      rw [max_eq_left (by omega)] at hall
      subst heq
      simp only [Function.update_self, ← hall, Int.cast_natCast]
      have hpiece : (0 : ℚ) ≤ count x y (fun t => winner intervals t = some stage) / 60000 :=
        div_nonneg (Nat.cast_nonneg _) (by decide)
      exact (hacc.add ((within_toDouble hpiece).mono hn hpiece)).toDouble (add_nonneg hexact hpiece)
    · rw [count_eq_zero fun t hx hy => by
        rw [← h t hx hy, hactive]
        exact fun hsome => heq (Option.some.inj hsome).symm]
      simp only [Function.update_of_ne heq, Nat.cast_zero, zero_div, add_zero]
      exact hacc.mono (Nat.le_succ n) hexact

/-- **The sweep** adds to each stage the milliseconds at which it counts. -/
theorem within_foldl_sweep (stage : Stage) {x : ℤ} (hsorted : (x :: rest).Pairwise (· < ·))
    (hpoints : ∀ row ∈ intervals, (row.start ≤ x ∨ row.start ∈ rest) ∧ (row.stop ≤ x ∨ row.stop ∈
      rest)) {n : ℕ} {exact : ℚ} {acc : Summary} (hacc : Within n exact (acc.minutes stage))
    (hn : 1 ≤ n) (hexact : 0 ≤ exact) :
    Within (n + rest.length)
      (exact + count x (rest.getLastD x) (fun t => winner intervals t = some stage) / 60000)
      ((((x :: rest).zip rest).foldl (sweepStep intervals) acc).minutes stage) := by
  induction rest generalizing x n exact acc with
  | nil => simpa [count] using hacc
  | cons y rest ih =>
    obtain ⟨hx, hrest⟩ := pairwise_cons.mp hsorted
    have hxy := hx y mem_cons_self
    have hle : ∀ z ∈ y :: rest, y ≤ z := fun z hz =>
      (mem_cons.mp hz).elim (·.ge) fun h => (rel_of_pairwise_cons hrest h).le
    have hlast : y ≤ rest.getLastD y := hle _ getLastD_mem_cons
    have hpoint : ∀ z, (z ≤ x ∨ z ∈ y :: rest) → (z ≤ x ∨ y ≤ z) ∧ (z ≤ y ∨ z ∈ rest) :=
      fun z hz => ⟨hz.imp_right (hle z), hz.elim (fun h => .inl (h.trans hxy.le)) fun h =>
        (mem_cons.mp h).imp (fun h => h.le) id⟩
    have hstep := Within.sweepStep hxy (fun t ht hty => activeStage_eq ht hty fun row hrow =>
      ⟨(hpoint _ (hpoints row hrow).1).1, (hpoint _ (hpoints row hrow).2).1⟩) stage hacc hn hexact
    have hrun := ih hrest (fun row hrow => ⟨(hpoint _ (hpoints row hrow).1).2,
      (hpoint _ (hpoints row hrow).2).2⟩) hstep (Nat.le_succ_of_le hn)
        (add_nonneg hexact (div_nonneg (Nat.cast_nonneg _) (by decide)))
    rw [add_assoc exact, ← add_div, ← Nat.cast_add, count_add hxy.le hlast, Nat.add_assoc,
      Nat.add_comm 1] at hrun
    rwa [zip_cons_cons, foldl_cons, getLastD_cons, length_cons]

/-! ### The union -/

def Covered (intervals : List Interval) (t : ℤ) : Prop :=
  ∃ row ∈ intervals, row.start ≤ t ∧ t < row.stop

instance (intervals : List Interval) : DecidablePred (Covered intervals) := fun t =>
  inferInstanceAs (Decidable (∃ row ∈ intervals, row.start ≤ t ∧ t < row.stop))

/-- What has been added up is the length of the union of the intervals so far, and `last` is where
the last of them ends. -/
structure Added (lo hi : ℤ) (seen : List Interval) (acc : ℤ × Option ℤ) : Prop where
  total : acc.1 = count lo hi (Covered seen)
  last : ∀ row ∈ seen, ∃ m, acc.2 = some m ∧ row.stop ≤ m
  mem : ∀ m, acc.2 = some m → ∃ row ∈ seen, row.stop = m

theorem covered_concat {t : ℤ} :
    Covered (seen ++ [row]) t ↔ Covered seen t ∨ row.start ≤ t ∧ t < row.stop := by
  simp [Covered, or_and_right, exists_or]

theorem Added.step {lo hi : ℤ} (h : Added lo hi seen acc) (hlo : lo ≤ row.start)
    (hhi : row.stop ≤ hi) (hsorted : ∀ r ∈ seen, r.start ≤ row.start) :
    Added lo hi (seen ++ [row]) (unionStep acc row) := by
  obtain ⟨total, last⟩ := acc
  obtain ⟨rfl, hlast, hmem⟩ := h
  have hlt := row.lt
  cases last with
  | none =>
    have hnil : seen = [] :=
      eq_nil_iff_forall_not_mem.mpr fun r hr => by obtain ⟨_, h, _⟩ := hlast r hr; cases h
    subst hnil
    refine ⟨?_, fun r hr => ⟨_, rfl, ?_⟩, fun m hm => ⟨row, by simp, Option.some.inj hm⟩⟩
    · rw [count_congr fun t _ _ => covered_concat, count_or fun t ht => by simp [Covered] at ht,
        Nat.cast_add, count_Ico hlo hhi]
      simp only [unionStep, Option.any_none, Bool.false_eq_true, if_false, Option.elim_none]
      omega
    · rw [nil_append, mem_singleton] at hr
      rw [hr]
  | some m =>
    obtain ⟨r, hr, hrm⟩ := hmem m rfl
    have hle : ∀ r ∈ seen, r.stop ≤ m := fun r hr => by
      obtain ⟨_, h, hle⟩ := hlast r hr
      exact Option.some.inj h ▸ hle
    simp only [unionStep, Option.any_some, decide_eq_true_eq, Option.elim_some]
    split_ifs with hwithin
    · -- What an interval before it ends after holds it already.
      refine ⟨congrArg _ (count_congr fun t _ _ => covered_concat.trans ?_).symm, fun q hq => ?_,
        fun _ hm => ⟨r, mem_append_left _ hr, hrm.trans (Option.some.inj hm)⟩⟩
      · refine or_iff_left_of_imp fun ht => ⟨r, hr, (hsorted r hr).trans ht.1, ?_⟩
        omega
      · refine ⟨m, rfl, ?_⟩
        rcases mem_append.mp hq with hq | hq
        · exact hle q hq
        · rwa [mem_singleton.mp hq]
    · refine ⟨?_, fun q hq => ⟨_, rfl, ?_⟩, fun _ hm => ⟨row, by simp, Option.some.inj hm⟩⟩
      · have hnew : ∀ t, Covered (seen ++ [row]) t ↔
            Covered seen t ∨ max row.start m ≤ t ∧ t < row.stop := fun t => by
          refine covered_concat.trans (or_congr_right' fun hnot => and_congr_left fun _ => ?_)
          refine ⟨fun ht => max_le ht ?_, fun ht => (le_max_left _ _).trans ht⟩
          by_contra hlt
          exact hnot ⟨r, hr, (hsorted r hr).trans ht, by omega⟩
        rw [count_congr fun t _ _ => hnew t, count_or fun t ⟨q, hq, _, hqt⟩ ht => by
          have hqm := hle q hq
          omega, Nat.cast_add, count_Ico (by omega) hhi]
        omega
      · rcases mem_append.mp hq with hq | hq
        · exact (hle q hq).trans (by omega)
        · rw [mem_singleton.mp hq]

theorem added_foldl {lo hi : ℤ} (hsorted : rows.Pairwise fun a b => a.start ≤ b.start)
    (hbounds : ∀ row ∈ rows, lo ≤ row.start ∧ row.stop ≤ hi) :
    Added lo hi rows (rows.foldl unionStep (0, none)) := by
  induction rows using reverseRecOn with
  | nil =>
    refine ⟨?_, nofun, nofun⟩
    rw [foldl_nil, count_eq_zero fun t _ _ => by simp [Covered]]
    rfl
  | append_singleton rows row ih =>
    obtain ⟨hrows, -, hrow⟩ := pairwise_append.mp hsorted
    obtain ⟨hlo, hhi⟩ := hbounds row (mem_append_right _ (mem_singleton_self row))
    rw [foldl_concat]
    exact (ih hrows fun r hr => hbounds r (mem_append_left _ hr)).step hlo hhi
      fun r hr => hrow r hr row (mem_singleton_self row)

theorem exists_bounds (rows : List Interval) :
    ∃ lo hi, ∀ row ∈ rows, lo ≤ row.start ∧ row.stop ≤ hi := by
  induction rows with
  | nil => exact ⟨0, 0, nofun⟩
  | cons row rows ih =>
    obtain ⟨lo, hi, h⟩ := ih
    refine ⟨min lo row.start, max hi row.stop, forall_mem_cons.mpr ⟨by omega, fun r hr => ?_⟩⟩
    have hr := h r hr
    omega

/-- **The union** has the length of the union, rounded once. -/
theorem unionMinutes_eq (rows : List Interval) :
    unionMinutes rows = toDouble ({t | Covered rows t}.ncard / 60000) := by
  obtain ⟨lo, hi, hbounds⟩ := exists_bounds rows
  have hmem : ∀ row, row ∈ rows.insertionSort (fun a b => a.start ≤ b.start) ↔ row ∈ rows :=
    fun row => (perm_insertionSort _ rows).mem_iff
  have hadded := added_foldl (rows.pairwise_insertionSort fun a b => a.start ≤ b.start)
    fun row hrow => hbounds row ((hmem row).mp hrow)
  have hcount : {t | Covered rows t}.ncard = count lo hi (Covered rows) :=
    ncard_eq_count fun t ⟨row, hrow, ht⟩ => by
      have hrow := hbounds row hrow
      omega
  rw [unionMinutes, hadded.total, hcount, Int.cast_natCast]
  congr 3
  exact count_congr fun t _ _ => by simp only [Covered, hmem]

/-! ### The totals -/

theorem length_boundaries_le (intervals : List Interval) :
    (boundaries intervals).length ≤ 2 * intervals.length := by
  rw [boundaries, length_insertionSort]
  refine (dedup_sublist _).length_le.trans_eq ?_
  simp [length_flatMap, Nat.mul_comm]

theorem within_swept (stage : Stage) (intervals : List Interval) :
    Within (2 * intervals.length) ({t | winner intervals t = some stage}.ncard / 60000)
      ((((boundaries intervals).zip (boundaries intervals).tail).foldl (sweepStep intervals)
        {}).minutes stage) := by
  have hlength := length_boundaries_le intervals
  have hmem : ∀ row ∈ intervals, row.start ∈ boundaries intervals ∧
      row.stop ∈ boundaries intervals := fun row hrow => by
    simp only [boundaries, mem_insertionSort, mem_dedup, mem_flatMap]
    exact ⟨⟨row, hrow, by simp⟩, row, hrow, by simp⟩
  have hsorted : (boundaries intervals).Pairwise (· < ·) := by
    have hnodup := ((perm_insertionSort (· ≤ ·) _).nodup_iff.mpr
      (nodup_dedup (intervals.flatMap fun row => [row.start, row.stop])))
    exact ((pairwise_insertionSort (· ≤ ·) _).and hnodup).imp fun h => lt_of_le_of_ne h.1 h.2
  have hactive : ∀ t, winner intervals t = some stage →
      ∃ row ∈ intervals, row.start ≤ t ∧ t < row.stop := fun t ht => by
    rw [winner, find?_eq_some_iff_append] at ht
    obtain ⟨row, hrow, h⟩ := any_eq_true.mp ht.1
    simp only [Bool.and_eq_true, decide_eq_true_eq] at h
    exact ⟨row, hrow, h.1⟩
  generalize hpoints : boundaries intervals = points at hmem hsorted hlength
  cases points with
  | nil =>
    have hempty : {t | winner intervals t = some stage} = ∅ :=
      Set.eq_empty_of_forall_notMem fun t ht => by
        obtain ⟨row, hrow, -⟩ := hactive t ht
        exact absurd (hmem row hrow).1 not_mem_nil
    rw [hempty, Set.ncard_empty, Nat.cast_zero, zero_div]
    exact .zero _
  | cons x rest =>
    have hfirst : ∀ z ∈ x :: rest, x ≤ z := fun z hz =>
      (mem_cons.mp hz).elim (·.ge) fun h => (rel_of_pairwise_cons hsorted h).le
    have hlast : ∀ z ∈ x :: rest, z ≤ rest.getLastD x := fun z hz => by
      rw [← getLast_eq_getLastD]
      exact (hsorted.imp le_of_lt).rel_getLast hz
    have hcount : {t | winner intervals t = some stage}.ncard =
        count x (rest.getLastD x) fun t => winner intervals t = some stage :=
      ncard_eq_count fun t ht => by
        obtain ⟨row, hrow, hle, hlt⟩ := hactive t ht
        exact ⟨(hfirst _ (hmem row hrow).1).trans hle, hlt.trans_le (hlast _ (hmem row hrow).2)⟩
    have hzero : Within 1 0 (({} : Summary).minutes stage) := .zero 1
    have hswept := within_foldl_sweep stage hsorted
      (fun row hrow => ⟨(mem_cons.mp (hmem row hrow).1).imp (·.le) id,
        (mem_cons.mp (hmem row hrow).2).imp (·.le) id⟩) hzero le_rfl le_rfl
    rw [zero_add, ← hcount] at hswept
    rw [length_cons] at hlength
    exact hswept.mono (by omega) (div_nonneg (Nat.cast_nonneg _) (by decide))

theorem winner_ne_inBed (t : ℤ) : winner intervals t ≠ some .inBed := fun h => by
  have hmem := mem_of_find?_eq_some h
  exact absurd hmem (by decide)

def counted (intervals : List Interval) (stage : Stage) : Set ℤ :=
  if stage = .inBed then {t | Covered (intervals.filter (·.stage = .inBed)) t}
  else {t | winner intervals t = some stage}

theorem within_summarizeIntervals (intervals : List Interval) (stage : Stage) :
    Within (2 * intervals.length) ((counted intervals stage).ncard / 60000)
      ((summarizeIntervals intervals).minutes stage) := by
  rw [summarizeIntervals, counted]
  by_cases hstage : stage = .inBed
  · rw [if_pos hstage, hstage]
    have hunion : Within (2 * intervals.length)
        ({t | Covered (intervals.filter (·.stage = .inBed)) t}.ncard / 60000)
        (unionMinutes (intervals.filter (·.stage = .inBed))) := by
      rw [unionMinutes_eq]
      have hexact : (0 : ℚ) ≤ {t | Covered (intervals.filter (·.stage = .inBed)) t}.ncard / 60000 :=
        div_nonneg (Nat.cast_nonneg _) (by decide)
      cases intervals with
      | nil => simpa [Covered] using Within.zero 0
      | cons row rows =>
        exact (within_toDouble hexact).mono (by rw [length_cons]; omega) hexact
    split_ifs with hne
    · simpa only [Function.update_self] using hunion
    · -- no time in bed, and no piece of the sweep counts as in bed
      have hswept := within_swept .inBed intervals
      simp only [winner_ne_inBed, Set.ofPred_false, Set.ncard_empty, Nat.cast_zero, zero_div]
        at hswept
      rw [not_not.mp hne] at hunion
      rwa [hswept.eq_zero]
  · rw [if_neg hstage]
    split_ifs with hne
    · simpa only [Function.update_of_ne hstage] using within_swept stage intervals
    · exact within_swept stage intervals

/-- The order of the intervals is immaterial, rounding included. -/
theorem summarizeIntervals_perm {l : List Interval} (h : l.Perm intervals) :
    summarizeIntervals l = summarizeIntervals intervals := by
  have hboundaries : boundaries l = boundaries intervals := by
    refine List.Perm.eq_of_pairwise' (r := (· ≤ ·)) (pairwise_insertionSort _ _)
      (pairwise_insertionSort _ _) ?_
    exact (perm_insertionSort _ _).trans
      ((h.flatMap_right _).dedup.trans (perm_insertionSort _ _).symm)
  have hany : ∀ p : Interval → Bool, l.any p = intervals.any p := fun p => by
    rw [Bool.eq_iff_iff, any_eq_true, any_eq_true]
    simp only [h.mem_iff]
  have hstep : sweepStep l = sweepStep intervals := by
    funext acc piece
    simp only [sweepStep, activeStage, hany]
  simp only [summarizeIntervals, hboundaries, hstep, unionMinutes_eq, Covered,
    (h.filter _).mem_iff]

/-! ### The nights -/

section Nights

variable {zone : Zone} {first last x y t : ℤ} {nights : List Night}

theorem localNoon_mono (hday : DayChanges zone) (hij : i ≤ j) :
    localNoon zone first i ≤ localNoon zone first j :=
  @instantOn_mono ⟨12, 0, [1], zone, by decide, by decide, 1, by decide, by decide⟩ _ _ hday
    (by omega)

/-- Each night begins where the one before it ends, from `x` to `y`. -/
def Consecutive : ℤ → List Night → ℤ → Prop
  | x, [], y => x = y
  | x, night :: nights, y => night.start = x ∧ x ≤ night.stop ∧ Consecutive night.stop nights y

theorem consecutive_nightsFrom (hday : DayChanges zone) (fuel day : ℕ) :
    Consecutive (localNoon zone first day) (nightsFrom zone first last fuel day)
      (((nightsFrom zone first last fuel day).getLast?.map Night.stop).getD
        (localNoon zone first day)) := by
  induction fuel generalizing day with
  | zero => simp only [nightsFrom, Consecutive, getLast?_nil, Option.map_none, Option.getD_none]
  | succ fuel ih =>
    have hle : localNoon zone first day ≤ localNoon zone first (day + 1) :=
      localNoon_mono hday (Nat.le_succ day)
    rw [nightsFrom]
    split
    · simpa only [Consecutive, getLast?_singleton, Option.map_some, Option.getD_some, and_true,
        true_and] using hle
    · simp only [Consecutive, getLast?_cons, true_and]
      refine ⟨hle, ?_⟩
      have hih := ih (day + 1)
      cases hlast : (nightsFrom zone first last fuel (day + 1)).getLast? with
      | none =>
        simp only [hlast, Option.map_none, Option.getD_none] at hih
        simpa only [Option.getD_none, Option.map_some, Option.getD_some] using hih
      | some night =>
        simp only [hlast, Option.map_some, Option.getD_some] at hih
        simpa only [Option.map_some, Option.getD_some] using hih

theorem Consecutive.countP_of_lt (h : Consecutive x nights y) (ht : t < x) :
    nights.countP (fun n => n.start ≤ t && t < n.stop) = 0 := by
  induction nights generalizing x with
  | nil => rfl
  | cons night nights ih =>
    obtain ⟨rfl, hle, hrest⟩ := h
    rw [countP_cons_of_neg (by simp [ht]), ih hrest (ht.trans_le hle)]

theorem Consecutive.countP (h : Consecutive x nights y) (hx : x ≤ t) (hy : t < y) :
    nights.countP (fun n => n.start ≤ t && t < n.stop) = 1 := by
  induction nights generalizing x with
  | nil => exact absurd (h ▸ hy) (not_lt.mpr hx)
  | cons night nights ih =>
    obtain ⟨rfl, hle, hrest⟩ := h
    by_cases ht : t < night.stop
    · rw [countP_cons_of_pos (by simp [hx, ht]), hrest.countP_of_lt ht]
    · rw [countP_cons_of_neg (by simp [ht]), ih hrest (not_lt.mp ht)]

theorem mem_of_sleepRows {rows : List Segment} {notBefore : Option ℤ} {row : Segment}
    (h : sleepRows nights notBefore segments = .ok rows) :
    row ∈ rows ↔ row ∈ windowRows nights notBefore segments := by
  simp only [sleepRows] at h
  split_ifs at h with hmany
  obtain rfl := Except.ok.inj h
  rw [take_of_length_le (by simp only [length_take] at hmany; omega), mem_insertionSort]

/-- How many nights an instant of a row that was read is attributed to. -/
def attributed (nights : List Night) (notBefore : Option ℤ) (rows : List Segment)
    (row : Segment) (t : ℤ) : ℕ :=
  nights.countP fun night => row ∈ rows &&
    (night.clip notBefore row).any fun interval => interval.start ≤ t && t < interval.stop

theorem any_clip {night : Night} (hbefore : ∀ b ∈ notBefore, b ≤ t) (hstart : row.startAt ≤ t)
    (hend : t < row.endAt) :
    (night.clip notBefore row).any (fun interval => interval.start ≤ t && t < interval.stop) =
      (night.start ≤ t && t < night.stop) := by
  have hmax : notBefore.elim night.start (max night.start) ≤ t ↔ night.start ≤ t := by
    cases notBefore with
    | none => rfl
    | some b => exact max_le_iff.trans (and_iff_left (hbefore b rfl))
  rw [Bool.eq_iff_iff, Bool.and_eq_true, decide_eq_true_eq, decide_eq_true_eq, ← hmax, Night.clip]
  split_ifs with hlt
  · simp [hstart, hend]
  · simp only [Option.any_none, Bool.false_eq_true, false_iff]
    rintro ⟨hle, ht⟩
    exact hlt ((max_le hstart hle).trans_lt (lt_min hend ht))

end Nights

variable {zone : Zone}

/-- UTC, where the clocks never change. -/
def utcZone : Zone where
  offset _ := 0
  le_offset _ := by omega
  offset_le _ := by omega
  change _ := ⟨0, 0, 0, fun _ _ _ => (ite_self 0).symm⟩

def twoHours : List Interval := [⟨46800000, 54000000, .asleepCore, by decide⟩]

/-- A zone whose clocks are put forward by 28 hours. -/
def skippingZone : Zone where
  offset t := if t < 129600000 then -50400 else 50400
  le_offset t := by split_ifs <;> omega
  offset_le t := by split_ifs <;> omega
  change _ := ⟨129600000, -50400, 50400, fun _ _ _ => rfl⟩

/-- Core sleep of 38, 1562, 2812, 888, 1729 and 21 seconds, a second apart. -/
def sixPieces : List Interval :=
  [⟨0, 38000, .asleepCore, by decide⟩, ⟨39000, 1601000, .asleepCore, by decide⟩,
    ⟨1602000, 4414000, .asleepCore, by decide⟩, ⟨4415000, 5303000, .asleepCore, by decide⟩,
    ⟨5304000, 7033000, .asleepCore, by decide⟩, ⟨7034000, 7055000, .asleepCore, by decide⟩]

end Bud.Sleep
