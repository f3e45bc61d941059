import Bud.PersonalData.ContactCollecting

/-!
# Contact scans converge

Whatever the order in which the records and manifests of a history are processed and its scans
published, the projection ends as the fold of the scans: the next scan in line extends it by one,
and a repair that overtakes others gives the same as all of them and itself.
-/

namespace Bud.Contacts

open List Option

variable {F : Type} [DecidableEq F] [Inhabited F] {sha256 : String → String} {parse : String → ℕ}
  {scans : List (Scan F)} {s t : State F}

/-! ### Publication -/

omit [Inhabited F] in
/-- A scan that is due is complete, and next in line unless it is a repair. -/
theorem Collecting.complete (h : Collecting sha256 scans s) {generation : ℕ} {row : ScanRow F}
    (hrow : s.scan? generation = some row) (hmanifest : row.manifest = some manifest)
    (hdue : s.due row = true) :
    ∃ scan ∈ scans, scan.context.generation = generation ∧ s.generation < generation ∧
      manifest = scan.manifest sha256 ∧ row.records.Perm scan.rows ∧
      (∀ event ∈ scan.events sha256, event ∉ s.jobs) ∧
      (scan.context.repair = false → generation = s.generation + 1) := by
  obtain ⟨hmem, rfl⟩ := scan?_eq_some hrow
  obtain ⟨scan, hscan, hgeneration, _⟩ := h.known row hmem
  simp only [State.due, hmanifest, any_some, Bool.and_eq_true, Bool.or_eq_true,
    decide_eq_true_eq] at hdue
  obtain ⟨_, hnext, hcount⟩ := hdue
  have hlt : s.generation < row.generation := by
    rcases hnext with hnext | ⟨_, hlt⟩
    · omega
    · exact hlt
  have hcollected := h.waiting scan hscan (hgeneration ▸ hlt)
  have hstored := hcollected.manifest
  rw [hgeneration, hrow, bind_some, hmanifest] at hstored
  obtain ⟨hdone, rfl⟩ : scan.manifestEvent sha256 ∉ s.jobs ∧ manifest = scan.manifest sha256 := by
    split at hstored
    · cases hstored
    · next hdone => exact ⟨hdone, some.inj hstored⟩
  have hrecords := hcollected.records
  rw [hgeneration, hrow, map_some, getD_some] at hrecords
  have hall : (scan.rows.filter fun row => row.event ∉ s.jobs).length = scan.rows.length := by
    refine Nat.le_antisymm (length_filter_le _ _) ?_
    rw [← hrecords.length_eq]
    exact hcount
  have hdone' := length_filter_eq_length_iff.mp hall
  refine ⟨scan, hscan, hgeneration, hlt, rfl, ?_, ?_, ?_⟩
  · rwa [filter_eq_self.mpr hdone'] at hrecords
  · intro event hevent
    rcases mem_cons.mp hevent with rfl | hevent
    · exact hdone
    · obtain ⟨record, hrecord, rfl⟩ := mem_map.mp hevent
      simpa using hdone' record hrecord
  · intro hrepair
    rcases hnext with hnext | ⟨hrepair', _⟩
    · exact hnext
    · rw [context_manifest, hrepair] at hrepair'
      cases hrepair'

/-- What publishing a scan does to the rows of scans. -/
def closed (repair : Bool) (generation : ℕ) (row : ScanRow F) : ScanRow F :=
  if row.generation = generation then { row with status := .published }
  else if repair = true ∧ row.generation < generation ∧
      (row.status.isPending ∨ row.status = .invalid) then { row with status := .superseded }
  else row

section Closed

variable {repair : Bool} {generation : ℕ} {row : ScanRow F}

omit [DecidableEq F] [Inhabited F] in
theorem closed_keeps : (closed repair generation row).generation = row.generation ∧
    (closed repair generation row).scanId = row.scanId ∧
    (closed repair generation row).manifest = row.manifest := by
  unfold closed
  split
  · exact ⟨rfl, rfl, rfl⟩
  · split <;> exact ⟨rfl, rfl, rfl⟩

omit [DecidableEq F] [Inhabited F] in
theorem closed_of_lt (h : generation < row.generation) : closed repair generation row = row := by
  unfold closed
  rw [if_neg (Nat.ne_of_gt h), if_neg fun hlt => absurd hlt.2.1 (Nat.lt_asymm h)]

omit [DecidableEq F] [Inhabited F] in
theorem closed_of_published (h : row.status = .published) :
    closed repair generation row = row := by
  unfold closed
  split
  · rw [← h]
  · rw [if_neg]
    rintro ⟨_, _, hpending | hinvalid⟩
    · rw [h] at hpending
      cases hpending
    · rw [h] at hinvalid
      cases hinvalid

omit [DecidableEq F] [Inhabited F] in
theorem published_of_closed (h : (closed repair generation row).status = .published) :
    row.generation = generation ∨ row.status = .published := by
  unfold closed at h
  split at h
  · next heq => exact .inl heq
  · split at h
    · cases h
    · exact .inr h

end Closed

def published (parse : String → ℕ) (s : State F) (rebuild : Bool) (manifest : Manifest)
    (generation : ℕ) (rows : List (RecordRow F)) : State F :=
  let written := (rows.map (·.payload)).foldl (State.publishRecord parse rebuild manifest) s
  let shown := if manifest.context.repair then written.repair parse manifest generation else written
  { shown with
    generation := generation
    observedAt := some (parse manifest.context.observedAt)
    scans := s.scans.map (closed manifest.context.repair generation)
    jobs := s.jobs }

omit [DecidableEq F] in
theorem repair_keeps (manifest : Manifest) (generation : ℕ) :
    (s.repair parse manifest generation).scans = s.scans.map (fun scan =>
        if scan.generation < generation ∧ (scan.status.isPending ∨ scan.status = .invalid) then
          { scan with status := .superseded }
        else scan) ∧
      (s.repair parse manifest generation).jobs = s.jobs := by
  obtain ⟨hscans, hjobs⟩ := @foldl_keeps F parse s true manifest
    ((s.absent generation).map manifest.omits) _
  refine ⟨?_, hjobs⟩
  unfold State.repair
  dsimp only
  rw [hscans]

omit [DecidableEq F] [Inhabited F] in
theorem map_closed (repair : Bool) (generation : ℕ) (rows : List (ScanRow F)) :
    (if repair then rows.map (fun scan =>
        if scan.generation < generation ∧ (scan.status.isPending ∨ scan.status = .invalid) then
          { scan with status := .superseded }
        else scan) else rows).map (fun scan =>
      if scan.generation = generation then { scan with status := .published } else scan) =
    rows.map (closed repair generation) := by
  cases repair with
  | false =>
    rw [if_neg Bool.false_ne_true]
    refine map_congr_left fun row _ => ?_
    simp [closed]
  | true =>
    rw [if_pos rfl, List.map_map]
    refine map_congr_left fun row _ => ?_
    by_cases heq : row.generation = generation
    · simp [closed, heq]
    · by_cases hopen : row.generation < generation ∧
          (row.status.isPending = true ∨ row.status = .invalid)
      all_goals simp [closed, heq, hopen]

/-- **A scan that is complete and next in line is published.** -/
theorem Projected.publishNext_eq (hp : Projected parse scans s) (hwf : WellFormed parse scans)
    {scan : Scan F} (hscan : scan ∈ scans)
    (hnext : scan.context.repair = false → scan.context.generation = s.generation + 1)
    (rebuild : Bool) {row : ScanRow F} (hrow : row.generation = scan.context.generation)
    {rows : List (RecordRow F)} (hrows : rows.Perm scan.rows) :
    s.publishNext sha256 parse rebuild row (scan.manifest sha256) rows =
      published parse s rebuild (scan.manifest sha256) scan.context.generation rows := by
  have hverify := @verify_of_perm F sha256 scan _ (hwf.scan scan hscan) rows hrows
  have hsucceeds : scan.context.repair = false →
      s.succeeds parse (scan.manifest sha256) = true := by
    intro hrepair
    have hprevious := hwf.previous scan hscan hrepair
    rw [hnext hrepair, Nat.add_sub_cancel] at hprevious
    rw [State.succeeds, decide_eq_true_eq, hp.observedAt, ← hprevious]
    rfl
  have hgood : (!verifyContactScan sha256 (scan.manifest sha256) rows ||
      !(scan.manifest sha256).context.repair && !s.succeeds parse (scan.manifest sha256)) =
        false := by
    cases hrepair : scan.context.repair with
    | false => simp [hverify, hsucceeds hrepair]
    | true => simp [hverify, hrepair]
  unfold State.publishNext
  rw [hgood, if_neg Bool.false_ne_true, hrow]
  have hrepair := @repair_keeps F _ parse
    ((rows.map (·.payload)).foldl (State.publishRecord parse rebuild (scan.manifest sha256)) s)
    (scan.manifest sha256) scan.context.generation
  have hwritten := @foldl_keeps F parse s rebuild (scan.manifest sha256) (rows.map (·.payload)) _
  simp only [State.setScan, published, State.mk.injEq, ← map_closed, true_and, and_true]
  split
  · exact ⟨hrepair.2.trans hwritten.2, by rw [hrepair.1, hwritten.1]⟩
  · exact ⟨hwritten.2, by rw [hwritten.1]⟩

section Published

variable {scan : Scan F} {rebuild : Bool} {rows : List (RecordRow F)}

theorem Collecting.published (h : Collecting sha256 scans s) (hwf : WellFormed parse scans)
    (hscan : scan ∈ scans) (hlt : s.generation < scan.context.generation)
    (hnext : scan.context.repair = false → scan.context.generation = s.generation + 1)
    (hdone : ∀ event ∈ scan.events sha256, event ∉ s.jobs)
    (hrow : ∃ row, s.scan? scan.context.generation = some row ∧
      row.manifest = some (scan.manifest sha256)) :
    Collecting sha256 scans (Contacts.published parse s rebuild (scan.manifest sha256)
      scan.context.generation rows) where
  jobs := h.jobs
  nodup := h.nodup
  distinct := by
    change ((s.scans.map _).map _).Nodup
    rw [List.map_map]
    refine (map_congr_left fun row _ => ?_) ▸ h.distinct
    exact closed_keeps.1.symm
  known row' hrow' := by
    obtain ⟨row, hrow, rfl⟩ := mem_map.mp hrow'
    obtain ⟨hgeneration, hscanId, _⟩ := @closed_keeps F (scan.manifest sha256).context.repair
      scan.context.generation row
    rw [hgeneration, hscanId]
    exact h.known row hrow
  waiting other hother hlt' := by
    have hlt' : scan.context.generation < other.context.generation := hlt'
    refine (h.waiting other hother (Nat.lt_trans hlt hlt')).congr ?_ fun _ _ => Iff.rfl
    change (s.scans.map _).find? _ = _
    rw [find?_map_generation _ fun row => closed_keeps.1]
    change (s.scan? other.context.generation).map _ = _
    cases hget : s.scan? other.context.generation with
    | none => rfl
    | some row =>
      rw [map_some, closed_of_lt]
      rw [(scan?_eq_some hget).2]
      exact hlt'
  settled other hother hle := by
    have hle : other.context.generation ≤ scan.context.generation := hle
    cases hrepair : scan.context.repair with
    | true =>
      left
      obtain ⟨row, hrow, hmanifest⟩ := hrow
      obtain ⟨hmem, hgeneration⟩ := scan?_eq_some hrow
      refine List.any_eq_true.mpr ⟨_, mem_map_of_mem hmem, ?_⟩
      simp [closed, hgeneration, hmanifest, hrepair, hle]
    | false =>
      by_cases heq : other = scan
      · subst heq
        exact .inr hdone
      · have hle' : other.context.generation ≤ s.generation := by
          have hne : other.context.generation ≠ scan.context.generation := fun hsame =>
            heq (hwf.eq_of_generation hother hscan hsame)
          have hstep := hnext hrepair
          omega
        refine (h.settled other hother hle').imp_left (repaired_mono fun row hrow hpublished => ?_)
        exact mem_map.mpr ⟨row, hrow, closed_of_published hpublished⟩

omit [DecidableEq F] in
theorem Projected.view_published (hp : Projected parse scans s) (hwf : WellFormed parse scans)
    (hscan : scan ∈ scans) (hlt : s.generation < scan.context.generation)
    (hnext : scan.context.repair = false → scan.context.generation = s.generation + 1)
    (hrows : rows.Perm scan.rows) :
    (Contacts.published parse s rebuild (scan.manifest sha256) scan.context.generation rows).view =
      viewOf (scans.take scan.context.generation) := by
  have hscanwf := hwf.scan scan hscan
  have hseparate : Separate (rows.map (·.payload)) := by
    rw [Separate, List.map_map]
    exact (hrows.map _).nodup_iff.mpr hscanwf.separate
  have hnot : ∀ id, id ∉ scan.rows.map (·.payload.sourceContactId) →
      id ∉ (rows.map (·.payload)).map (·.sourceContactId) := by
    intro id hid hmem
    rw [List.map_map] at hmem
    exact hid ((hrows.map _).mem_iff.mp hmem)
  rw [hwf.viewOf_take hscan]
  funext id
  by_cases hid : id ∈ scan.rows.map (·.payload.sourceContactId)
  · obtain ⟨row, hrow, rfl⟩ := mem_map.mp hid
    have hmem : row.payload ∈ rows.map (·.payload) := mem_map_of_mem (hrows.mem_iff.mpr hrow)
    rw [apply_of_mem hscanwf hrow]
    unfold Contacts.published
    dsimp only
    split
    · change (State.repair parse _ _ _).view _ = _
      obtain ⟨prior, hprior⟩ :=
        @contact?_foldl_of_mem F parse s rebuild (scan.manifest sha256) _ _ _
        hseparate hmem
      rw [view_repair hp.oneEach.foldl, hprior, bind_some, ← shown_written
        (hscanwf.filled row hrow) prior]
      refine if_congr ⟨fun h => h.1, fun h => ⟨h, Nat.lt_irrefl _⟩⟩ rfl rfl
    · exact view_foldl_of_mem hseparate (hscanwf.filled row hrow) hmem
  · rw [apply_of_not_mem hid]
    unfold Contacts.published
    dsimp only
    split
    · next hrepair =>
      change (State.repair parse _ _ _).view _ = _
      rw [view_repair hp.oneEach.foldl, contact?_foldl_of_not_mem (hnot id hid),
        if_pos (by simpa using hrepair)]
      cases hcontact : s.contact? id with
      | none => rfl
      | some contact =>
        have hle := hp.contact_le contact (contact?_eq_some hcontact).1
        rw [bind_some, if_neg fun h => h.2 (Nat.lt_of_le_of_lt hle hlt)]
    · next hrepair =>
      have hrepair : scan.context.repair = false := by simpa using hrepair
      rw [hrepair, if_neg Bool.false_ne_true, hnext hrepair, Nat.add_sub_cancel, ← hp.view]
      exact view_foldl_of_not_mem (hnot id hid)

omit [DecidableEq F] in
theorem Projected.published (hp : Projected parse scans s) (hwf : WellFormed parse scans)
    (hscan : scan ∈ scans) (hlt : s.generation < scan.context.generation)
    (hnext : scan.context.repair = false → scan.context.generation = s.generation + 1)
    (hrows : rows.Perm scan.rows) :
    Projected parse scans (Contacts.published parse s rebuild (scan.manifest sha256)
      scan.context.generation rows) := by
  have hscanwf := hwf.scan scan hscan
  have hseparate : Separate (rows.map (·.payload)) := by
    rw [Separate, List.map_map]
    exact (hrows.map _).nodup_iff.mpr hscanwf.separate
  have happlied : ∀ generation id, generation ≠ scan.context.generation →
      (Contacts.published parse s rebuild (scan.manifest sha256)
        scan.context.generation rows).applied generation id = s.applied generation id := by
    intro generation id hne
    unfold Contacts.published
    dsimp only
    split
    all_goals
      change State.applied (foldl _ _ _) _ _ = _
      simp [applied_foldl, hne]
  have honce : ∀ record ∈ scan.rows, (Contacts.published parse s rebuild (scan.manifest sha256)
      scan.context.generation rows).applied scan.context.generation
        record.payload.sourceContactId = 1 := by
    intro record hrecord
    have hmem : record.payload ∈ rows.map (·.payload) :=
      mem_map_of_mem (hrows.mem_iff.mpr hrecord)
    have hwritten := countP_of_mem hseparate hmem
    have hfresh := hp.fresh scan.context.generation record.payload.sourceContactId hlt
    unfold Contacts.published
    dsimp only
    split
    · change State.applied (foldl _ _ _) _ _ = _
      rw [applied_foldl, applied_foldl, context_manifest, if_pos rfl, if_pos rfl, hwritten, hfresh]
      -- the record's contact is of this generation now, so the repair does not omit it
      rw [countP_eq_zero.mpr]
      intro omitted homitted hsame
      obtain ⟨contact, hcontact, rfl⟩ := mem_map.mp homitted
      obtain ⟨hin, _, hless⟩ := mem_absent.mp hcontact
      obtain ⟨prior, hprior⟩ :=
        @contact?_foldl_of_mem F parse s rebuild (scan.manifest sha256) _ _ _
        hseparate hmem
      have hsame : contact.sourceContactId = record.payload.sourceContactId :=
        of_decide_eq_true hsame
      have hget := contact?_of_mem hp.oneEach.foldl hin
      rw [hsame, hprior] at hget
      obtain rfl := some.inj hget
      exact absurd hless (Nat.lt_irrefl _)
    · change State.applied (foldl _ _ _) _ _ = _
      rw [applied_foldl, context_manifest, if_pos rfl, hwritten, hfresh]
  refine ⟨hwf.generation_le hscan, (hwf.lastObserved_take hscan).symm, ?_, ?_,
    hp.view_published hwf hscan hlt hnext hrows, ?_, ?_, ?_⟩
  · unfold Contacts.published
    dsimp only
    split
    · exact hp.oneEach.foldl.foldl
    · exact hp.oneEach.foldl
  · have hle : ∀ contact ∈ s.contacts, contact.generation ≤
        (scan.manifest sha256).context.generation := fun contact hcontact =>
      Nat.le_of_lt (Nat.lt_of_le_of_lt (hp.contact_le contact hcontact) hlt)
    unfold Contacts.published
    dsimp only
    split
    · exact contact_le_foldl (contact_le_foldl hle hp.oneEach) hp.oneEach.foldl
    · exact contact_le_foldl hle hp.oneEach
  · intro row' hrow' hpublished
    obtain ⟨row, hrow, rfl⟩ := mem_map.mp hrow'
    rw [closed_keeps.1]
    rcases published_of_closed hpublished with heq | hpublished
    · refine ⟨Nat.le_of_eq heq, fun other hother hsame => ?_⟩
      obtain rfl := hwf.eq_of_generation hother hscan (hsame.trans heq)
      rw [heq]
      exact honce
    · obtain ⟨hle, hall⟩ := hp.once row hrow hpublished
      have hlt' := Nat.lt_of_le_of_lt hle hlt
      refine ⟨Nat.le_of_lt hlt', fun other hother hsame record hrecord => ?_⟩
      rw [happlied _ _ (Nat.ne_of_lt hlt')]
      exact hall other hother hsame record hrecord
  · intro generation id hgt
    have hgt : scan.context.generation < generation := hgt
    rw [happlied _ _ (Nat.ne_of_gt hgt)]
    exact hp.fresh generation id (Nat.lt_trans hlt hgt)
  · unfold Contacts.published
    dsimp only
    split
    · exact ⟨hp.noted.foldl.foldl.nodup, hp.noted.foldl.foldl.isSome⟩
    · exact ⟨hp.noted.foldl.nodup, hp.noted.foldl.isSome⟩

end Published

/-! ### Runs -/

theorem publish_keeps (hwf : WellFormed parse scans) (h : Collecting sha256 scans s)
    (hp : Projected parse scans s) {rebuild : Bool} {generation : ℕ} {rows : List (RecordRow F)}
    (hstep : step sha256 parse s (.publish rebuild generation rows) = some t) :
    Collecting sha256 scans t ∧ Projected parse scans t := by
  obtain ⟨row, hrow, hstep⟩ := bind_eq_some_iff.mp hstep
  obtain ⟨manifest, hmanifest, hstep⟩ := bind_eq_some_iff.mp hstep
  obtain ⟨⟨hdue, hrows⟩, hstep⟩ := ite_none_right_eq_some.mp hstep
  obtain ⟨scan, hscan, rfl, hlt, rfl, hrecords, hdone, hnext⟩ := h.complete hrow hmanifest hdue
  have hlength : row.records.length ≤ 20001 := by
    rw [hrecords.length_eq]
    exact Nat.le_succ_of_le (hwf.scan scan hscan).length_le
  rw [take_of_length_le hlength] at hrows
  have hrows : rows.Perm scan.rows := hrows.symm.trans hrecords
  rw [hp.publishNext_eq hwf hscan hnext rebuild (scan?_eq_some hrow).2 hrows] at hstep
  obtain rfl := some.inj hstep
  exact ⟨h.published hwf hscan hlt hnext hdone ⟨row, hrow, hmanifest⟩,
    hp.published hwf hscan hlt hnext hrows⟩

omit [Inhabited F] in
theorem collecting_init (hwf : WellFormed parse scans) :
    Collecting sha256 scans (init (events sha256 scans)) where
  jobs _ hevent := hevent
  nodup := nodup_events hwf
  distinct := nodup_nil
  known _ hrow := absurd hrow not_mem_nil
  waiting scan hscan _ := by
    have hin : ∀ event ∈ scan.events sha256, event ∈ events sha256 scans := fun event hevent =>
      mem_flatMap.mpr ⟨scan, hscan, hevent⟩
    refine ⟨fun row hrow => absurd hrow (by simp [State.scan?, init]), ?_, ?_⟩
    · exact (if_pos (hin _ mem_cons_self)).symm
    · refine Perm.of_eq (Eq.symm (filter_eq_nil_iff.mpr fun row hrow hgone => ?_))
      exact of_decide_eq_true hgone (hin _ (mem_cons_of_mem _ (mem_map_of_mem hrow)))
  settled scan hscan hle := by
    have hpos := (hwf.getElem?_generation hscan).1
    exact absurd hle (Nat.not_le.mpr hpos)

omit [DecidableEq F] [Inhabited F] in
theorem projected_init : Projected parse scans (init (events sha256 scans)) :=
  ⟨Nat.zero_le _, rfl, nodup_nil, fun _ hcontact => absurd hcontact not_mem_nil, rfl,
    fun _ hrow => absurd hrow not_mem_nil, fun _ _ _ => rfl,
    ⟨nodup_nil, fun _ hid => absurd hid not_mem_nil⟩⟩

/-- **Contact scans converge.** Let the events of a history be processed in any order, with any
scans published in between. When all are processed and nothing is left to publish, the source is at
the last generation and what is visible is the fold of the scans; every record of a scan that has
been published was applied once, and a contact was added at most once. -/
theorem contact_scans_converge (sha256 : String → String) (parse : String → ℕ)
    (scans : List (Scan F)) (hwf : WellFormed parse scans) (acts : List (Act F)) (s : State F)
    (h : Runs.run (step sha256 parse) acts (init (events sha256 scans)) = some s)
    (hjobs : s.jobs = []) (hdrained : s.drained) :
    s.generation = scans.length ∧ s.view = viewOf scans ∧
      (∀ row ∈ s.scans, row.status = .published → ∀ scan ∈ scans,
        scan.context.generation = row.generation → ∀ record ∈ scan.rows,
          s.applied row.generation record.payload.sourceContactId = 1) ∧
      s.added.Nodup := by
  have hkeeps : ∀ s act t, (Collecting sha256 scans s ∧ Projected parse scans s) →
      step sha256 parse s act = some t → Collecting sha256 scans t ∧ Projected parse scans t := by
    rintro s act t ⟨hs, hp⟩ hstep
    cases act with
    | process event => exact process_keeps hwf hs hp hstep
    | publish rebuild generation rows => exact publish_keeps hwf hs hp hstep
  obtain ⟨hs, hp⟩ := Runs.invariant hkeeps h ⟨collecting_init hwf, projected_init⟩
  have hlast : s.generation = scans.length := by
    by_contra hne
    -- the next scan is complete, so it could still be published
    obtain ⟨scan, hscan, hgeneration⟩ :=
      hwf.exists_generation (Nat.lt_of_le_of_ne hp.le hne)
    have hcollected := hs.waiting scan hscan (hgeneration ▸ Nat.lt_succ_self _)
    have hmanifest := hcollected.manifest
    rw [hjobs, if_neg not_mem_nil] at hmanifest
    obtain ⟨row, hrow, hmanifest⟩ := bind_eq_some_iff.mp hmanifest
    have hrecords := hcollected.records.length_eq
    rw [hrow, hjobs] at hrecords
    have hdue : s.due row = true := by
      have hcount : scan.rows.length = row.records.length := by simpa using hrecords.symm
      have hgeneration' := (scan?_eq_some hrow).2.trans hgeneration
      simp [State.due, (hcollected.row row hrow).1, pendingState, ScanStatus.isPending, hmanifest,
        hgeneration', Scan.manifest, hcount]
    rw [hdrained row (scan?_eq_some hrow).1] at hdue
    cases hdue
  refine ⟨hlast, ?_, fun row hrow hpublished => (hp.once row hrow hpublished).2, hp.noted.nodup⟩
  rw [hp.view, hlast, take_length]

/-! ### A repair that overtakes -/

def exampleContext (generation : ℕ) (repair : Bool) (observedAt : String)
    (previousObservedAt : Option String) : Context :=
  { payloadVersion := 1
    repair
    contactStoreId := "5d0f4a52-8f0e-4a2c-9d55-3f1c2b7a9e10"
    scanId :=
      if repair then "9b8a7c6d-5e4f-4a3b-8c2d-1e0f9a8b7c6d"
      else "1c2d3e4f-5a6b-4c7d-8e9f-0a1b2c3d4e50"
    generation
    previousGeneration := generation - 1
    scanMode := if generation = 1 then .baseline else .resync
    observedAt
    previousObservedAt
    authorization := "3" }

def exampleRow (eventId : String) (context : Context) (id name : String) : RecordRow String :=
  { clientEventId := eventId
    payload :=
      { context
        sourceContactId := id
        change := .upsert
        newlyObserved := false
        contact := some name } }

def exampleFirst : Context := exampleContext 1 false "2026-01-01T00:00:00Z" none

def exampleRepair : Context :=
  exampleContext 2 true "2026-01-02T00:00:00Z" (some "2026-01-01T00:00:00Z")

/-- A first scan, and a repair without the contact that it had. -/
def exampleScans : List (Scan String) :=
  [{ context := exampleFirst
     manifestEventId := "2f1e0d9c-8b7a-4695-8473-625140302010"
     rows := [exampleRow "0b9f6c1e-4d2a-4f57-9c3b-1a2b3c4d5e6f" exampleFirst "ann" "Ann"] },
   { context := exampleRepair
     manifestEventId := "3a2b1c0d-9e8f-4a7b-8c6d-5e4f3a2b1c0d"
     rows := [exampleRow "7c1d2e3f-5a6b-4c7d-8e9f-0a1b2c3d4e5f" exampleRepair "bob" "Bob"] }]

/-- The digests of the two lists of ids. -/
def exampleSha256 (input : String) : String :=
  if input = "0b9f6c1e-4d2a-4f57-9c3b-1a2b3c4d5e6f" then
    "53efa09d71099d8e54fc43ce33a59f6da667491d4d2d165b82bb66a70c2dd270"
  else
    "d4c679094dcf1f8ff568fd1f122dfd63200961958cda8f913f9cca504f66f7c8"

def exampleParse (input : String) : ℕ :=
  if input = "2026-01-01T00:00:00Z" then 1767225600000 else 1767312000000

/-- The repair comes in first and is published; the first scan is superseded then. -/
def exampleActs : List (Act String) :=
  let late := (exampleScans.take 1).flatMap (·.events exampleSha256)
  let early := (exampleScans.drop 1).flatMap (·.events exampleSha256)
  early.map .process ++
    [Act.publish false 2 ((exampleScans.drop 1).flatMap (·.rows))] ++ late.map .process

theorem wellFormed_exampleScans : WellFormed exampleParse exampleScans := by
  have hrows : ∀ scan ∈ exampleScans, scan.WellFormed := by
    rintro scan (_ | ⟨_, _ | ⟨_, ⟨⟩⟩⟩)
    all_goals
      exact ⟨by decide, by decide, by simp [Record.Filled, exampleRow],
        by decide, by decide, by decide⟩
  refine ⟨hrows, rfl, by decide, ?_⟩
  rintro scan (_ | ⟨_, _ | ⟨_, ⟨⟩⟩⟩) hrepair
  · rfl
  · cases hrepair

theorem contact_scans_converge_overtaken :
    ∃ s, Runs.run (step exampleSha256 exampleParse) exampleActs
        (init (events exampleSha256 exampleScans)) = some s ∧
      s.generation = 2 ∧ s.view "ann" = none ∧ s.view "bob" = some "Bob" := by
  have hend : (Runs.run (step exampleSha256 exampleParse) exampleActs
      (init (events exampleSha256 exampleScans))).map (fun s => (s.jobs, decide s.drained)) =
        some ([], true) := by
    decide
  obtain ⟨s, hrun, hs⟩ := map_eq_some_iff.mp hend
  obtain ⟨hjobs, hdrained⟩ := Prod.mk.injEq _ _ _ _ ▸ hs
  obtain ⟨hgeneration, hview, _⟩ := contact_scans_converge exampleSha256 exampleParse exampleScans
    wellFormed_exampleScans exampleActs s hrun hjobs (of_decide_eq_true hdrained)
  exact ⟨s, hrun, hgeneration, by rw [hview]; decide, by rw [hview]; decide⟩

end Bud.Contacts
