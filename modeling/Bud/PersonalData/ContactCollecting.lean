import Bud.PersonalData.ContactHistory

/-!
# Contact scans that are coming in

At any time, what has been processed of the scans after the source's generation is stored with them,
and of those up to it nothing is left to do, or a repair has superseded it (`Collecting`). The
projection is the fold of the scans up to the source's generation (`Projected`), which processing
does not touch.
-/

namespace Bud.Contacts

open List

variable {F : Type} {sha256 : String → String} {parse : String → ℕ} {scans : List (Scan F)}
  {s t : State F}

/-! ### Rows of scans -/

variable {generation : ℕ} {row : ScanRow F} {scan : Scan F} {event : Event F}

theorem scan?_eq_some (h : s.scan? generation = some row) :
    row ∈ s.scans ∧ row.generation = generation :=
  ⟨mem_of_find?_eq_some h, by simpa using find?_some h⟩

theorem scan?_of_mem (h : (s.scans.map (·.generation)).Nodup) (hrow : row ∈ s.scans) :
    s.scan? row.generation = some row := by
  obtain ⟨found, hfound⟩ : ∃ found, s.scan? row.generation = some found :=
    Option.isSome_iff_exists.mp (find?_isSome.mpr ⟨row, hrow, by simp⟩)
  obtain ⟨hmem, heq⟩ := scan?_eq_some hfound
  rw [hfound, inj_on_of_nodup_map h hmem hrow heq]

theorem find?_map_generation {update : ScanRow F → ScanRow F} (rows : List (ScanRow F))
    (h : ∀ row, (update row).generation = row.generation) (generation : ℕ) :
    (rows.map update).find? (·.generation = generation) =
      (rows.find? (·.generation = generation)).map update := by
  rw [find?_map]
  congr 2
  funext row
  simp [h row]

theorem scan?_setScan {update : ScanRow F → ScanRow F}
    (h : ∀ row, (update row).generation = row.generation) (other : ℕ) :
    (s.setScan generation update).scan? other =
      if other = generation then (s.scan? other).map update else s.scan? other := by
  have hmap : (s.setScan generation update).scan? other = (s.scan? other).map fun row =>
      if row.generation = generation then update row else row := by
    refine find?_map_generation _ (fun row => ?_) other
    split
    · exact h row
    · rfl
  rw [hmap]
  cases hrow : s.scan? other with
  | none => simp
  | some row =>
    have hgeneration := (scan?_eq_some hrow).2
    split
    · next heq => simp [hgeneration, heq]
    · next hne => simp [hgeneration, hne]

theorem repaired_mono (h : ∀ row ∈ s.scans, row.status = .published → row ∈ t.scans)
    (hrepaired : s.repaired generation = true) : t.repaired generation = true := by
  obtain ⟨row, hrow, hrepair⟩ := any_eq_true.mp hrepaired
  refine any_eq_true.mpr ⟨row, h row hrow ?_, hrepair⟩
  simp only [Bool.and_eq_true, decide_eq_true_eq] at hrepair
  exact hrepair.1.1

theorem openScan_keeps (context : Context) :
    s.openScan context = { s with scans := (s.openScan context).scans } := by
  unfold State.openScan
  split <;> rfl

/-! ### The invariants -/

variable (parse scans) in
/-- The projection is the fold of the scans up to the source's generation. -/
structure Projected (s : State F) : Prop where
  le : s.generation ≤ scans.length
  observedAt : s.observedAt = lastObserved parse (scans.take s.generation)
  oneEach : OneEach s
  contact_le : ∀ contact ∈ s.contacts, contact.generation ≤ s.generation
  view : s.view = viewOf (scans.take s.generation)
  once : ∀ row ∈ s.scans, row.status = .published → row.generation ≤ s.generation ∧
    ∀ scan ∈ scans, scan.context.generation = row.generation → ∀ record ∈ scan.rows,
      s.applied row.generation record.payload.sourceContactId = 1
  fresh : ∀ generation id, s.generation < generation → s.applied generation id = 0
  noted : Noted s

/-- Processing leaves the projection alone. -/
theorem Projected.of_scans (h : Projected parse scans s)
    (hs : t = { s with scans := t.scans, jobs := t.jobs })
    (hrows : ∀ row ∈ t.scans, row.status = .published → row ∈ s.scans) :
    Projected parse scans t := by
  rw [hs]
  exact ⟨h.le, h.observedAt, h.oneEach, h.contact_le, h.view,
    fun row hrow hpublished => h.once row (hrows row hrow hpublished) hpublished, h.fresh,
    ⟨h.noted.nodup, h.noted.isSome⟩⟩

variable [DecidableEq F]

variable (sha256) in
/-- What has been processed of a scan is stored with it. -/
structure Collected (s : State F) (scan : Scan F) : Prop where
  row : ∀ row, s.scan? scan.context.generation = some row →
    row.status = pendingState scan.context ∧ row.scanId = scan.context.scanId
  manifest : (s.scan? scan.context.generation).bind (·.manifest) =
    if scan.manifestEvent sha256 ∈ s.jobs then none else some (scan.manifest sha256)
  records : (((s.scan? scan.context.generation).map (·.records)).getD []).Perm
    (scan.rows.filter fun row => row.event ∉ s.jobs)

variable (sha256 scans) in
/-- The scans after the source's generation are collected, and the others are done with. -/
structure Collecting (s : State F) : Prop where
  jobs : ∀ event ∈ s.jobs, event ∈ events sha256 scans
  nodup : s.jobs.Nodup
  distinct : (s.scans.map (·.generation)).Nodup
  known : ∀ row ∈ s.scans, ∃ scan ∈ scans, scan.context.generation = row.generation ∧
    scan.context.scanId = row.scanId
  waiting : ∀ scan ∈ scans, s.generation < scan.context.generation → Collected sha256 s scan
  settled : ∀ scan ∈ scans, scan.context.generation ≤ s.generation →
    s.repaired scan.context.generation = true ∨ ∀ event ∈ scan.events sha256, event ∉ s.jobs

/-! ### Processing -/

theorem Collecting.scan?_openScan (h : Collecting sha256 scans s) (hwf : WellFormed parse scans)
    (hscan : scan ∈ scans) (other : ℕ) : (s.openScan scan.context).scan? other =
      if other = scan.context.generation then some ((s.scan? other).getD (.new scan.context))
      else s.scan? other := by
  unfold State.openScan
  split
  · next hany =>
    obtain ⟨row, hrow, hsame⟩ := any_eq_true.mp hany
    obtain ⟨found, hfound, hgeneration, hscanId⟩ := h.known row hrow
    have heq : found = scan := by
      simp only [Bool.or_eq_true, decide_eq_true_eq] at hsame
      rcases hsame with hsame | hsame
      · exact hwf.eq_of_scanId hfound hscan (hscanId.trans hsame)
      · exact hwf.eq_of_generation hfound hscan (hgeneration.trans hsame)
    subst heq
    have hget := scan?_of_mem h.distinct hrow
    split
    · next heq => rw [heq, hgeneration, hget, Option.getD_some]
    · rfl
  · next hnone =>
    rw [State.scan?, find?_append]
    split
    · next heq =>
      subst heq
      have hfind : s.scans.find? (·.generation = scan.context.generation) = none := by
        refine find?_eq_none.mpr fun row hrow heq => hnone ?_
        exact any_eq_true.mpr ⟨row, hrow, by simp [of_decide_eq_true heq]⟩
      simp [State.scan?, hfind, ScanRow.new]
    · next hne => simp [State.scan?, ScanRow.new, Ne.symm hne]

theorem Collected.congr (h : Collected sha256 s scan)
    (hscan : t.scan? scan.context.generation = s.scan? scan.context.generation)
    (hjobs : ∀ event ∈ scan.events sha256, event ∈ t.jobs ↔ event ∈ s.jobs) :
    Collected sha256 t scan := by
  refine ⟨fun row hrow => h.row row (hscan ▸ hrow), ?_, ?_⟩
  · rw [hscan, h.manifest]
    simp only [hjobs _ mem_cons_self]
  · rw [hscan]
    refine h.records.trans (Perm.of_eq ?_)
    refine filter_congr fun row hrow => ?_
    simp only [hjobs _ (mem_cons_of_mem _ (mem_map_of_mem hrow))]

/-- The row of a scan that is open, or a new one. -/
theorem Collected.base (h : Collected sha256 s scan) :
    ((s.scan? scan.context.generation).getD (.new scan.context)).status =
        pendingState scan.context ∧
      ((s.scan? scan.context.generation).getD (.new scan.context)).scanId = scan.context.scanId ∧
      ((s.scan? scan.context.generation).getD (.new scan.context)).manifest =
        (s.scan? scan.context.generation).bind (·.manifest) ∧
      ((s.scan? scan.context.generation).getD (.new scan.context)).records =
        ((s.scan? scan.context.generation).map (·.records)).getD [] := by
  cases hrow : s.scan? scan.context.generation with
  | none => exact ⟨rfl, rfl, rfl, rfl⟩
  | some row => exact ⟨(h.row row hrow).1, (h.row row hrow).2, rfl, rfl⟩

/-- **An event of a scan that is open is stored with it.** -/
theorem Collecting.processNext_eq (h : Collecting sha256 scans s) (hwf : WellFormed parse scans)
    (hscan : scan ∈ scans) (hevent : event ∈ scan.events sha256) (hjob : event ∈ s.jobs)
    (hlt : s.generation < scan.context.generation) : s.processNext event =
      ((s.openScan scan.context).setScan scan.context.generation (·.store event), .processed) := by
  have hcollected := h.waiting scan hscan hlt
  obtain ⟨hstatus, hscanId, hmanifest, _⟩ := hcollected.base
  have hconflicts : ((s.scan? scan.context.generation).getD (.new scan.context)).conflicts
      event.payload = false := by
    rcases mem_cons.mp hevent with rfl | hevent
    · rw [hcollected.manifest, if_pos hjob] at hmanifest
      simp [ScanRow.conflicts, Scan.manifestEvent, hmanifest]
    · obtain ⟨row, _, rfl⟩ := mem_map.mp hevent
      rfl
  have hcontext := context_of_mem_events (hwf.scan scan hscan) hevent
  unfold State.processNext
  simp only [hcontext, Nat.not_le.mpr hlt, false_and, if_false, h.scan?_openScan hwf hscan, if_true,
    hscanId, hconflicts, hstatus, ne_eq, not_true_eq_false, Bool.false_eq_true, or_self]

theorem perm_filter_or {α : Type} [DecidableEq α] {l : List α} {a : α} {p q : α → Bool}
    (hl : l.Nodup) (ha : a ∈ l) (hp : p a = false) (hq : ∀ b, q b = (p b || b = a)) :
    (l.filter p ++ [a]).Perm (l.filter q) := by
  refine (perm_ext_iff_of_nodup ?_ (hl.filter _)).mpr fun b => ?_
  · refine nodup_append.mpr ⟨hl.filter _, nodup_singleton _, ?_⟩
    intro b hb c hc heq
    obtain rfl := mem_singleton.mp hc
    subst heq
    rw [(mem_filter.mp hb).2] at hp
    cases hp
  · simp only [mem_append, mem_filter, mem_singleton, hq, Bool.or_eq_true, decide_eq_true_eq]
    constructor
    · rintro (hb | rfl)
      · exact ⟨hb.1, .inl hb.2⟩
      · exact ⟨ha, .inr rfl⟩
    · rintro ⟨hb, hb' | rfl⟩
      · exact .inl ⟨hb, hb'⟩
      · exact .inr rfl

def stored (s : State F) (context : Context) (event : Event F) : State F :=
  { (s.openScan context).setScan context.generation (·.store event) with
    jobs := s.jobs.erase event }

theorem generation_stored (context : Context) (event : Event F) :
    (stored s context event).generation = s.generation := by
  rw [stored, openScan_keeps]
  rfl

section Stored

variable {scan : Scan F} {event : Event F} (h : Collecting sha256 scans s)
  (hwf : WellFormed parse scans) (hscan : scan ∈ scans) (hevent : event ∈ scan.events sha256)
  (hjob : event ∈ s.jobs) (hlt : s.generation < scan.context.generation)

omit hevent hjob hlt in
include h hwf hscan in
theorem scan?_stored (other : ℕ) :
    (stored s scan.context event).scan? other = if other = scan.context.generation then
      some (((s.scan? other).getD (.new scan.context)).store event) else s.scan? other := by
  have hstore : ∀ row : ScanRow F, (row.store event).generation = row.generation := fun row => by
    unfold ScanRow.store
    split <;> rfl
  change State.scan? (State.setScan _ _ _) other = _
  rw [scan?_setScan hstore, h.scan?_openScan hwf hscan]
  split <;> rfl

include h hwf hscan hevent hjob hlt in
theorem collected_stored : Collected sha256 (stored s scan.context event) scan := by
  have hcollected := h.waiting scan hscan hlt
  obtain ⟨hstatus, hscanId, hmanifest, hrecords⟩ := hcollected.base
  have hscan? : (stored s scan.context event).scan? scan.context.generation = some
      (((s.scan? scan.context.generation).getD (.new scan.context)).store event) :=
    (scan?_stored h hwf hscan _).trans (if_pos rfl)
  have hgone : event ∉ s.jobs.erase event := fun hmem => (h.nodup.mem_erase_iff.mp hmem).1 rfl
  have hleft : ∀ other, other ≠ event → (other ∈ s.jobs.erase event ↔ other ∈ s.jobs) :=
    fun other hne => mem_erase_of_ne hne
  rcases mem_cons.mp hevent with rfl | hrow
  · constructor
    · intro row hrow
      obtain rfl := Option.some.inj (hscan?.symm.trans hrow)
      exact ⟨hstatus, hscanId⟩
    · rw [hscan?, Option.bind_some]
      exact (if_neg hgone).symm
    · rw [hscan?]
      refine (Perm.of_eq hrecords).trans (hcollected.records.trans (Perm.of_eq ?_))
      refine filter_congr fun row _ => ?_
      have hne : row.event ≠ scan.manifestEvent sha256 := fun heq => by
        cases congrArg Event.payload heq
      simp only [stored, hleft _ hne]
  · obtain ⟨record, hrecord, rfl⟩ := mem_map.mp hrow
    constructor
    · intro row hrow
      obtain rfl := Option.some.inj (hscan?.symm.trans hrow)
      exact ⟨hstatus, hscanId⟩
    · have hne : scan.manifestEvent sha256 ≠ record.event := fun heq => by
        cases congrArg Event.payload heq
      rw [hscan?, Option.bind_some]
      simp only [stored, hleft _ hne]
      exact hmanifest.trans hcollected.manifest
    · rw [hscan?]
      refine ((Perm.of_eq hrecords).trans hcollected.records).append_right [record] |>.trans ?_
      refine perm_filter_or (nodup_rows (hwf.scan scan hscan)) hrecord (by simpa using hjob) ?_
      intro other
      by_cases heq : other = record
      · subst heq
        have hstored : other.event ∉ (stored s scan.context other.event).jobs := hgone
        simp [hstored]
      · have hne : other.event ≠ record.event := fun h => heq (event_injective h)
        simp [stored, heq, hleft _ hne]

include h in
theorem distinct_stored : ((stored s scan.context event).scans.map (·.generation)).Nodup := by
  have hopened : ((s.openScan scan.context).scans.map (·.generation)).Nodup := by
    unfold State.openScan
    split
    · exact h.distinct
    · next hnone =>
      rw [map_append]
      refine nodup_append.mpr ⟨h.distinct, nodup_singleton _, ?_⟩
      intro generation hgeneration other hother heq
      obtain ⟨row, hrow, rfl⟩ := mem_map.mp hgeneration
      obtain rfl := mem_singleton.mp hother
      refine hnone (any_eq_true.mpr ⟨row, hrow, ?_⟩)
      have hsame : row.generation = scan.context.generation := heq
      simp [hsame]
  have hmap : (stored s scan.context event).scans.map (·.generation) =
      (s.openScan scan.context).scans.map (·.generation) := by
    change ((s.openScan scan.context).scans.map _).map _ = _
    rw [map_map]
    refine map_congr_left fun row _ => ?_
    simp only [Function.comp_apply]
    split
    · unfold ScanRow.store
      split <;> rfl
    · rfl
  rw [hmap]
  exact hopened

include h hwf hscan hevent hjob hlt in
theorem mem_stored (hrow : row ∈ (stored s scan.context event).scans) :
    row.generation = scan.context.generation ∧ row.status = pendingState scan.context ∧
        row.scanId = scan.context.scanId ∨
      row.generation ≠ scan.context.generation ∧ row ∈ s.scans := by
  have hget := scan?_of_mem (distinct_stored h) hrow
  by_cases heq : row.generation = scan.context.generation
  · rw [heq] at hget
    exact .inl ⟨heq, (collected_stored h hwf hscan hevent hjob hlt).row row hget⟩
  · rw [scan?_stored h hwf hscan, if_neg heq] at hget
    exact .inr ⟨heq, (scan?_eq_some hget).1⟩

include h hwf hscan hlt in
theorem mem_stored_of_published (hrow : row ∈ s.scans) (hpublished : row.status = .published) :
    row ∈ (stored s scan.context event).scans := by
  have hget := scan?_of_mem h.distinct hrow
  have hne : row.generation ≠ scan.context.generation := by
    intro heq
    rw [heq] at hget
    have hpending := ((h.waiting scan hscan hlt).row row hget).1
    rw [hpublished] at hpending
    cases hpending
  have hget' : (stored s scan.context event).scan? row.generation = some row := by
    rw [scan?_stored h hwf hscan, if_neg hne, hget]
  exact (scan?_eq_some hget').1

end Stored

theorem Collecting.stored (h : Collecting sha256 scans s) (hwf : WellFormed parse scans)
    (hscan : scan ∈ scans) (hevent : event ∈ scan.events sha256) (hjob : event ∈ s.jobs)
    (hlt : s.generation < scan.context.generation) :
    Collecting sha256 scans (Contacts.stored s scan.context event) where
  jobs other hother := h.jobs other (mem_of_mem_erase hother)
  nodup := h.nodup.erase _
  distinct := distinct_stored h
  known row hrow := by
    rcases mem_stored h hwf hscan hevent hjob hlt hrow with ⟨heq, _, hscanId⟩ | ⟨_, hrow⟩
    · exact ⟨scan, hscan, heq.symm, hscanId.symm⟩
    · exact h.known row hrow
  waiting other hother hlt' := by
    rw [generation_stored] at hlt'
    by_cases heq : other = scan
    · subst heq
      exact collected_stored h hwf hscan hevent hjob hlt
    · refine (h.waiting other hother hlt').congr ?_ fun event' hevent' => ?_
      · rw [scan?_stored h hwf hscan, if_neg fun hsame => heq ?_]
        exact hwf.eq_of_generation hother hscan hsame
      · refine mem_erase_of_ne fun hsame => ?_
        exact not_mem_events hwf hscan hother heq hevent (hsame ▸ hevent')
  settled other hother hle := by
    rw [generation_stored] at hle
    refine (h.settled other hother hle).imp (repaired_mono fun row hrow hpublished => ?_) ?_
    · exact mem_stored_of_published h hwf hscan hlt hrow hpublished
    · exact fun hgone event' hevent' hmem => hgone event' hevent' (mem_of_mem_erase hmem)

theorem Collecting.erase (h : Collecting sha256 scans s) (hwf : WellFormed parse scans)
    (hscan : scan ∈ scans) (hevent : event ∈ scan.events sha256)
    (hle : scan.context.generation ≤ s.generation) :
    Collecting sha256 scans { s with jobs := s.jobs.erase event } where
  jobs other hother := h.jobs other (mem_of_mem_erase hother)
  nodup := h.nodup.erase _
  distinct := h.distinct
  known := h.known
  waiting other hother hlt := by
    refine (h.waiting other hother hlt).congr rfl fun event' hevent' => ?_
    refine mem_erase_of_ne fun heq => ?_
    have hne : other ≠ scan := by
      rintro rfl
      exact absurd hle (Nat.not_le.mpr hlt)
    exact not_mem_events hwf hscan hother hne hevent (heq ▸ hevent')
  settled other hother hle :=
    (h.settled other hother hle).imp_right fun hgone event' hevent' hmem =>
    hgone event' hevent' (mem_of_mem_erase hmem)

variable [Inhabited F]

/-- **A job**: an event is stored with its scan, or its scan is done with. -/
theorem process_keeps (hwf : WellFormed parse scans) (h : Collecting sha256 scans s)
    (hp : Projected parse scans s) (hstep : step sha256 parse s (.process event) = some t) :
    Collecting sha256 scans t ∧ Projected parse scans t := by
  obtain ⟨hjob, hstep⟩ := Option.ite_none_right_eq_some.mp hstep
  obtain ⟨scan, hscan, hevent⟩ := mem_flatMap.mp (h.jobs event hjob)
  have hcontext := context_of_mem_events (hwf.scan scan hscan) hevent
  by_cases hle : scan.context.generation ≤ s.generation
  · have hrepaired : s.repaired scan.context.generation = true :=
      (h.settled scan hscan hle).resolve_right fun hgone => hgone event hevent hjob
    have hsuperseded : s.processNext event = (s, .superseded) := by
      unfold State.processNext
      simp only [hcontext, hle, hrepaired, and_self, if_true]
    simp only [hsuperseded, Option.some.injEq] at hstep
    subst hstep
    exact ⟨h.erase hwf hscan hevent hle, hp.of_scans rfl fun row hrow _ => hrow⟩
  · have hlt := Nat.not_le.mp hle
    rw [h.processNext_eq hwf hscan hevent hjob hlt] at hstep
    obtain rfl : stored s scan.context event = t := Option.some.inj hstep
    refine ⟨h.stored hwf hscan hevent hjob hlt, hp.of_scans ?_ fun row hrow hpublished => ?_⟩
    · rw [stored, openScan_keeps]
      rfl
    · rcases mem_stored h hwf hscan hevent hjob hlt hrow with ⟨_, hpending, _⟩ | ⟨_, hrow⟩
      · rw [hpublished] at hpending
        cases hpending
      · exact hrow

end Bud.Contacts
