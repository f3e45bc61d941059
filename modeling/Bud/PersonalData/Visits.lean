import Mathlib.Data.List.Induction
import Mathlib.Data.List.Pairwise
import Bud.PersonalData.PlacePresence

/-!
# Merging visit reports

The reports of one visit are merged into one row of `location_visit`, in the order in which they
come. The row ends with the earliest arrival and the latest departure, and with the coordinate of
the most accurate report of those that were preferred, which are the completed ones if there are
any. None of this depends on the order.
-/

namespace Bud.Visits

open List Option

open PlacePresence (Time EventId VisitReport)

/-- A report of a visit with a key, as it was parsed and received. -/
structure Report where
  rawEventId : EventId
  receivedAt : Time
  arrivalAt : Option Time
  departureAt : Option Time
  latitude : ℚ
  longitude : ℚ
  horizontalAccuracyM : ℚ
  deriving DecidableEq

/-- What is merged of a row of `location_visit`. -/
structure Merged where
  arrivalAt : Option Time
  departureAt : Option Time
  latitude : ℚ
  longitude : ℚ
  horizontalAccuracyM : ℚ
  startedAt : Time
  receivedAt : Time

structure Row extends Merged where
  firstEventId : EventId
  lastEventId : EventId

/-- Prefer a completed report over an arrival, then the more accurate of two of the same kind. -/
def Row.preferIncoming (row : Row) (excluded : Report) : Bool :=
  excluded.departureAt.isSome && row.departureAt.isNone ||
    excluded.departureAt.isNone == row.departureAt.isNone &&
      excluded.horizontalAccuracyM < row.horizontalAccuracyM

def Report.row (report : Report) : Row where
  arrivalAt := report.arrivalAt
  departureAt := report.departureAt
  latitude := report.latitude
  longitude := report.longitude
  horizontalAccuracyM := report.horizontalAccuracyM
  startedAt := (report.arrivalAt.or report.departureAt).getD report.receivedAt
  receivedAt := report.receivedAt
  firstEventId := report.rawEventId
  lastEventId := report.rawEventId

/-- What a report does to the row on a conflict. SQL's `least` and `greatest` ignore nulls. -/
def Row.update (row : Row) (excluded : Report) : Row where
  arrivalAt := Option.merge min row.arrivalAt excluded.arrivalAt
  departureAt := Option.merge max row.departureAt excluded.departureAt
  latitude := if row.preferIncoming excluded then excluded.latitude else row.latitude
  longitude := if row.preferIncoming excluded then excluded.longitude else row.longitude
  horizontalAccuracyM :=
    if row.preferIncoming excluded then excluded.horizontalAccuracyM else row.horizontalAccuracyM
  startedAt := (Option.merge min row.arrivalAt excluded.arrivalAt).getD row.startedAt
  receivedAt := max row.receivedAt excluded.receivedAt
  firstEventId := row.firstEventId
  lastEventId := excluded.rawEventId

/-- What is stored for one visit: its row, the owner's publication sequence, and the sequences of
the visit's `visit.ended` events. -/
structure Stored where
  row : Option Row := none
  publicationSequence : ℕ
  ended : List ℕ := []

/-- The end of `publishVisitEvents`: the event of a visit is unique, so a second one is dropped. -/
def Stored.publishEnded (stored : Stored) : Stored :=
  let sequence := stored.publicationSequence + 1
  { stored with
    publicationSequence := sequence
    ended := if stored.ended = [] then [sequence] else stored.ended }

def projectVisit (before : Stored) (report : Report) : Stored :=
  let row := before.row.elim report.row (·.update report)
  let after := { before with row := some row }
  if before.row.all (·.departureAt.isNone) && row.departureAt.isSome then after.publishEnded
  else after

/-! ### What the reports say together -/

/-- A report of the most preferred kind: completed, if there are completed ones. -/
def Preferred (reports : List Report) (report : Report) : Prop :=
  report ∈ reports ∧ ∀ r ∈ reports, r.departureAt.isSome → report.departureAt.isSome

/-- The most accurate of the reports of the most preferred kind. -/
def Best (reports : List Report) (best : Report) : Prop :=
  Preferred reports best ∧
    ∀ r, Preferred reports r → best.horizontalAccuracyM ≤ r.horizontalAccuracyM

structure IsMerged (reports : List Report) (m : Merged) : Prop where
  arrivalAt : m.arrivalAt = (reports.filterMap Report.arrivalAt).min?
  departureAt : m.departureAt = (reports.filterMap Report.departureAt).max?
  receivedAt : some m.receivedAt = (reports.map Report.receivedAt).max?
  startedAt : ∀ t ∈ m.arrivalAt, m.startedAt = t
  coordinate : ∃ best, Best reports best ∧ m.latitude = best.latitude ∧
    m.longitude = best.longitude ∧ m.horizontalAccuracyM = best.horizontalAccuracyM

variable {reports : List Report} {row : Row} {report : Report} {m n : Merged}

theorem min?_concat (l : List Time) (t : Option Time) :
    (l ++ t.toList).min? = merge min l.min? t := by
  cases l <;> cases t <;> simp [min?]

theorem max?_concat (l : List Time) (t : Option Time) :
    (l ++ t.toList).max? = merge max l.max? t := by
  cases l <;> cases t <;> simp [max?]

theorem filterMap_concat (f : Report → Option Time) :
    (reports ++ [report]).filterMap f = reports.filterMap f ++ (f report).toList := by
  rw [filterMap_append]
  cases h : f report <;> simp [h]

theorem isSome_iff_exists (f : Report → Option Time) :
    reports.filterMap f ≠ [] ↔ ∃ r ∈ reports, (f r).isSome := by
  simp [filterMap_eq_nil_iff, isSome_iff_ne_none]

theorem IsMerged.unique (hm : IsMerged reports m) (hn : IsMerged reports n)
    (hdistinct : reports.Pairwise fun r s => r.horizontalAccuracyM ≠ s.horizontalAccuracyM)
    (harrival : ∃ r ∈ reports, r.arrivalAt.isSome) : m = n := by
  have harrivalAt : m.arrivalAt = n.arrivalAt := hm.arrivalAt.trans hn.arrivalAt.symm
  have hdepartureAt : m.departureAt = n.departureAt := hm.departureAt.trans hn.departureAt.symm
  have hreceivedAt : m.receivedAt = n.receivedAt :=
    some.inj (hm.receivedAt.trans hn.receivedAt.symm)
  have hstartedAt : m.startedAt = n.startedAt := by
    obtain ⟨t, ht⟩ := Option.isSome_iff_exists.mp
      (List.isSome_min?_of_ne_nil ((isSome_iff_exists Report.arrivalAt).mpr harrival))
    rw [← hm.arrivalAt] at ht
    rw [hm.startedAt t ht, hn.startedAt t (harrivalAt ▸ ht)]
  obtain ⟨best, hbest, hlat, hlon, hacc⟩ := hm.coordinate
  obtain ⟨best', hbest', hlat', hlon', hacc'⟩ := hn.coordinate
  have hsame : best = best' := by
    by_contra hne
    have : Std.Symm fun r s : Report => r.horizontalAccuracyM ≠ s.horizontalAccuracyM :=
      ⟨fun _ _ => Ne.symm⟩
    exact hdistinct.forall hbest.1.1 hbest'.1.1 hne
      (le_antisymm (hbest.2 _ hbest'.1) (hbest'.2 _ hbest.1))
  cases m
  cases n
  simp_all

theorem IsMerged.perm (h : IsMerged order m) (horder : order.Perm reports) :
    IsMerged reports m := by
  have hmin : ∀ f : Report → Option Time,
      (order.filterMap f).min? = (reports.filterMap f).min? := fun f =>
    ext fun a => by simp only [min?_eq_some_iff, (horder.filterMap f).mem_iff]
  have hmax : ∀ l l' : List Time, l.Perm l' → l.max? = l'.max? := fun l l' hl =>
    ext fun a => by simp only [max?_eq_some_iff, hl.mem_iff]
  refine ⟨h.arrivalAt.trans (hmin _), h.departureAt.trans (hmax _ _ (horder.filterMap _)),
    h.receivedAt.trans (hmax _ _ (horder.map _)), h.startedAt, ?_⟩
  simpa only [Best, Preferred, horder.mem_iff] using h.coordinate

/-! ### One report -/

theorem isMerged_row (report : Report) : IsMerged [report] report.row.toMerged where
  arrivalAt := by
    show report.arrivalAt = _
    cases h : report.arrivalAt <;> simp [h]
  departureAt := by
    show report.departureAt = _
    cases h : report.departureAt <;> simp [h]
  receivedAt := rfl
  startedAt := fun t ht => by
    have ht : report.arrivalAt = some t := ht
    simp [Report.row, ht]
  coordinate := by
    refine ⟨report, ⟨⟨mem_singleton_self _, fun r hr => ?_⟩, fun r hr => ?_⟩, rfl, rfl, rfl⟩
    · rw [mem_singleton.mp hr]
      exact id
    · rw [mem_singleton.mp hr.1]

theorem preferred_concat : Preferred (reports ++ [report]) r ↔
    (Preferred reports r ∧ (report.departureAt.isSome → r.departureAt.isSome)) ∨
      (r = report ∧ ∀ s ∈ reports, s.departureAt.isSome → report.departureAt.isSome) := by
  simp only [Preferred, mem_append, mem_singleton, or_imp, forall_and, forall_eq]
  constructor
  · rintro ⟨hr | rfl, hall, hone⟩
    · exact .inl ⟨⟨hr, hall⟩, hone⟩
    · exact .inr ⟨rfl, hall⟩
  · rintro (⟨⟨hr, hall⟩, hone⟩ | ⟨rfl, hall⟩)
    · exact ⟨.inl hr, hall, hone⟩
    · exact ⟨.inr rfl, hall, id⟩

/-- The more preferred of the best report and the next one is the best of one report more. -/
theorem Best.update (hbest : Best reports best)
    (hrow : row.departureAt.isSome = best.departureAt.isSome)
    (hacc : row.horizontalAccuracyM = best.horizontalAccuracyM) :
    Best (reports ++ [report]) (if row.preferIncoming report then report else best) := by
  have hcompleted : ∀ r ∈ reports, r.departureAt.isSome → best.departureAt.isSome := hbest.1.2
  simp only [Row.preferIncoming, ← not_isSome, hrow, hacc]
  by_cases hkind : report.departureAt.isSome = best.departureAt.isSome
  · have hbest' : Preferred (reports ++ [report]) best :=
      preferred_concat.mpr (.inl ⟨hbest.1, fun h => hkind ▸ h⟩)
    have hreport : Preferred (reports ++ [report]) report :=
      preferred_concat.mpr (.inr ⟨rfl, fun r hr h => hkind ▸ hcompleted r hr h⟩)
    have hle : ∀ r, Preferred (reports ++ [report]) r → r = report ∨
        best.horizontalAccuracyM ≤ r.horizontalAccuracyM := fun r hr =>
      (preferred_concat.mp hr).symm.imp (·.1) fun h => hbest.2 r h.1
    by_cases hless : report.horizontalAccuracyM < best.horizontalAccuracyM
    · rw [if_pos (by simp [hkind, hless])]
      exact ⟨hreport, fun r hr => (hle r hr).elim (fun h => h ▸ le_rfl) hless.le.trans⟩
    · rw [if_neg (by cases hsome : best.departureAt <;> simp_all)]
      exact ⟨hbest', fun r hr => (hle r hr).elim (fun h => h ▸ not_lt.mp hless) id⟩
  · cases hnext : report.departureAt.isSome <;> cases hold : best.departureAt.isSome
    · exact absurd (hnext.trans hold.symm) hkind
    · refine ⟨preferred_concat.mpr (.inl ⟨hbest.1, by simp [hnext]⟩), fun r hr => ?_⟩
      rcases preferred_concat.mp hr with ⟨hr, -⟩ | ⟨rfl, hall⟩
      · exact hbest.2 r hr
      · exact absurd (hall best hbest.1.1 hold) (by simp [hnext])
    · refine ⟨preferred_concat.mpr (.inr ⟨rfl, fun _ _ _ => hnext⟩), fun r hr => ?_⟩
      rcases preferred_concat.mp hr with ⟨hr, hsome⟩ | ⟨rfl, -⟩
      · exact absurd (hcompleted r hr.1 (hsome hnext)) (by simp [hold])
      · exact le_rfl
    · exact absurd (hnext.trans hold.symm) hkind

theorem completed_iff (h : IsMerged reports m) :
    m.departureAt.isSome ↔ ∃ r ∈ reports, r.departureAt.isSome := by
  rw [h.departureAt, isSome_max?_iff, isSome_iff_exists]

theorem Best.completed (h : IsMerged reports m) (hbest : Best reports best) :
    m.departureAt.isSome = best.departureAt.isSome := by
  refine Bool.eq_iff_iff.mpr ((completed_iff h).trans ⟨?_, fun hsome => ⟨_, hbest.1.1, hsome⟩⟩)
  rintro ⟨r, hr, hsome⟩
  exact hbest.1.2 r hr hsome

/-- **One merge.** -/
theorem IsMerged.update (h : IsMerged reports row.toMerged) (report : Report) :
    IsMerged (reports ++ [report]) (row.update report).toMerged where
  arrivalAt := by
    rw [filterMap_concat, min?_concat, ← h.arrivalAt]
    rfl
  departureAt := by
    rw [filterMap_concat, max?_concat, ← h.departureAt]
    rfl
  receivedAt := by
    rw [map_append]
    exact ((max?_concat _ (some report.receivedAt)).trans (h.receivedAt ▸ rfl)).symm
  startedAt := fun t ht => by
    have ht : merge min row.arrivalAt report.arrivalAt = some t := ht
    show (merge min row.arrivalAt report.arrivalAt).getD row.startedAt = t
    rw [ht, getD_some]
  coordinate := by
    obtain ⟨best, hbest, hlat, hlon, hacc⟩ := h.coordinate
    have hrow : row.departureAt.isSome = best.departureAt.isSome := hbest.completed h
    refine ⟨_, hbest.update hrow hacc, ?_⟩
    cases hprefer : row.preferIncoming report <;> simp [Row.update, hprefer, hlat, hlon, hacc]

/-! ### All reports of a visit -/

/-- The row is what the reports say, and the visit has ended once if it is completed. -/
structure Projected (reports : List Report) (stored : Stored) : Prop where
  row : ∃ row, stored.row = some row ∧ IsMerged reports row.toMerged ∧
    stored.ended.length = if row.departureAt.isSome then 1 else 0

theorem row_projectVisit (before : Stored) (report : Report) :
    (projectVisit before report).row = some (before.row.elim report.row (·.update report)) := by
  rw [projectVisit]
  split <;> rfl

theorem Projected.step (h : Projected reports stored) (report : Report) :
    Projected (reports ++ [report]) (projectVisit stored report) := by
  obtain ⟨row, hrow, hmerged, hended⟩ := h.row
  have hkept : row.departureAt.isSome → (row.update report).departureAt.isSome := by
    intro hsome
    obtain ⟨t, ht⟩ := Option.isSome_iff_exists.mp hsome
    rw [Row.update, ht]
    cases report.departureAt <;> rfl
  refine ⟨⟨row.update report, ?_, hmerged.update report, ?_⟩⟩
  · rw [row_projectVisit, hrow]
    rfl
  · simp only [projectVisit, hrow, elim_some, all_some, ← not_isSome]
    cases hold : row.departureAt.isSome with
    | true =>
      rw [hold] at hended
      simpa [hkept hold] using hended
    | false =>
      rw [hold] at hended
      have hnil : stored.ended = [] := eq_nil_of_length_eq_zero hended
      cases (row.update report).departureAt.isSome <;> simp [Stored.publishEnded, hnil]

theorem Projected.first (sequence : ℕ) (report : Report) :
    Projected [report] (projectVisit { publicationSequence := sequence } report) where
  row := by
    refine ⟨report.row, row_projectVisit _ report, isMerged_row report, ?_⟩
    simp only [projectVisit, elim_none, all_none, Bool.true_and]
    cases report.row.departureAt.isSome <;> rfl

theorem projected_run (sequence : ℕ) (hne : reports ≠ []) :
    Projected reports (reports.foldl projectVisit { publicationSequence := sequence }) := by
  induction reports using reverseRecOn with
  | nil => exact absurd rfl hne
  | append_singleton reports report ih =>
    rw [foldl_concat]
    by_cases hnil : reports = []
    · rw [hnil]
      exact .first sequence report
    · exact (ih hnil).step report

/-- **Merging does not depend on the order.** Reports with different accuracies, one of which at
least has an arrival, are merged into one and the same row in every order, with the earliest
arrival, at which the visit starts, the latest departure and receipt, and the coordinate of the best
report. The visit ends exactly once if one of them has a departure, and never otherwise. -/
theorem visit_merging (reports : List Report) (sequence : ℕ)
    (hdistinct : reports.Pairwise fun r s => r.horizontalAccuracyM ≠ s.horizontalAccuracyM)
    (harrival : ∃ r ∈ reports, r.arrivalAt.isSome) :
    ∃ m, IsMerged reports m ∧ ∀ order : List Report, order.Perm reports →
      let stored := order.foldl projectVisit { publicationSequence := sequence }
      stored.row.map Row.toMerged = some m ∧
        stored.ended.length = if ∃ r ∈ reports, r.departureAt.isSome then 1 else 0 := by
  have hrun : ∀ order : List Report, order.Perm reports → Projected reports
      (order.foldl projectVisit { publicationSequence := sequence }) := by
    intro order horder
    have hne : order ≠ [] := by
      rintro rfl
      obtain ⟨r, hr, -⟩ := harrival
      rw [← horder.nil_eq] at hr
      cases hr
    obtain ⟨row, hrow, hmerged, hended⟩ := (projected_run sequence hne).row
    exact ⟨row, hrow, hmerged.perm horder, hended⟩
  obtain ⟨row, hrow, hmerged, hended⟩ := (hrun reports (.refl _)).row
  refine ⟨row.toMerged, hmerged, fun order horder => ?_⟩
  obtain ⟨row', hrow', hmerged', hended'⟩ := (hrun order horder).row
  refine ⟨?_, ?_⟩
  · rw [hrow', map_some, hmerged'.unique hmerged hdistinct harrival]
  · rw [hended']
    congr 1
    exact propext (completed_iff hmerged')

theorem visit_merging_two :
    let arrived : Report := ⟨"a", 5, some 1, none, 0, 0, 10⟩
    let completed : Report := ⟨"b", 9, some 2, some 8, 1, 1, 20⟩
    ∃ m, IsMerged [arrived, completed] m ∧ ∀ order : List Report, order.Perm [arrived, completed] →
      let stored := order.foldl projectVisit { publicationSequence := 0 }
      stored.row.map Row.toMerged = some m ∧ stored.ended.length =
        if ∃ r ∈ [arrived, completed], r.departureAt.isSome then 1 else 0 :=
  visit_merging _ 0 (by simp) ⟨_, mem_cons_self, rfl⟩

end Bud.Visits
